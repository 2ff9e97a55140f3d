import PhantoWD.GoText

/-!
A valid string is a sequence of ASCII bytes and well-formed multi-byte characters, each decoded
the same way whatever follows it.
-/
namespace GoText

inductive Wide : Rune → Bytes → Prop
  | two {b0 b1 : UInt8} (hw : leadWidth b0.toNat = 2)
      (h1 : cont (secondRange b0.toNat).1 (secondRange b0.toNat).2 b1 = true) :
      Wide ((b0.toNat % 0x20) * 0x40 + b1.toNat % 0x40) [b0, b1]
  | three {b0 b1 b2 : UInt8} (hw : leadWidth b0.toNat = 3)
      (h1 : cont (secondRange b0.toNat).1 (secondRange b0.toNat).2 b1 = true)
      (h2 : cont 0x80 0xbf b2 = true) :
      Wide ((b0.toNat % 0x10) * 0x1000 + (b1.toNat % 0x40) * 0x40 + b2.toNat % 0x40) [b0, b1, b2]
  | four {b0 b1 b2 b3 : UInt8} (hw : leadWidth b0.toNat = 4)
      (h1 : cont (secondRange b0.toNat).1 (secondRange b0.toNat).2 b1 = true)
      (h2 : cont 0x80 0xbf b2 = true) (h3 : cont 0x80 0xbf b3 = true) :
      Wide ((b0.toNat % 0x08) * 0x40000 + (b1.toNat % 0x40) * 0x1000 +
        (b2.toNat % 0x40) * 0x40 + b3.toNat % 0x40) [b0, b1, b2, b3]

theorem cont_bounds {lo hi : Nat} {b : UInt8} (h : cont lo hi b = true) :
    lo ≤ b.toNat ∧ b.toNat ≤ hi := by
  simpa [cont] using h

theorem secondRange_low (n : Nat) : 0x80 ≤ (secondRange n).1 := by
  unfold secondRange
  split_ifs <;> decide

theorem secondRange_high (n : Nat) : (secondRange n).2 ≤ 0xbf := by
  unfold secondRange
  split_ifs <;> decide

variable {r : Rune} {chunk : Bytes}

theorem Wide.reads (h : Wide r chunk) (more : Bytes) :
    decodeRune (chunk ++ more) = (r, chunk.length, true) := by
  cases h with
  | two hw h1 => simp [decodeRune, hw, h1]
  | three hw h1 h2 => simp [decodeRune, hw, h1, h2]
  | four hw h1 h2 h3 => simp [decodeRune, hw, h1, h2, h3]

theorem Wide.high (h : Wide r chunk) : ∀ b ∈ chunk, 0x80 ≤ b.toNat := by
  have hlead : ∀ {b0 : UInt8} {n : Nat}, leadWidth b0.toNat = n → n ≠ 1 → 0x80 ≤ b0.toNat := by
    intro b0 n hw hne
    by_contra hlt
    exact hne (hw.symm.trans (if_pos (Nat.not_le.mp hlt)))
  have hsecond : ∀ {b0 b1 : UInt8},
      cont (secondRange b0.toNat).1 (secondRange b0.toNat).2 b1 = true → 0x80 ≤ b1.toNat :=
    fun h1 => Nat.le_trans (secondRange_low _) (cont_bounds h1).1
  cases h with
  | two hw h1 => simp [hlead hw (by decide), hsecond h1]
  | three hw h1 h2 => simp [hlead hw (by decide), hsecond h1, (cont_bounds h2).1]
  | four hw h1 h2 h3 =>
    simp [hlead hw (by decide), hsecond h1, (cont_bounds h2).1, (cont_bounds h3).1]

theorem Wide.exists_cons (h : Wide r chunk) : ∃ b tail, chunk = b :: tail := by
  cases h <;> exact ⟨_, _, rfl⟩

theorem wide_of_decodeRune {b : UInt8} {rest : Bytes} (hb : 0x80 ≤ b.toNat)
    (hok : (decodeRune (b :: rest)).2.2 = true) :
    ∃ r chunk more, b :: rest = chunk ++ more ∧ Wide r chunk := by
  obtain ⟨h1, -⟩ := leadWidth_bounds b.toNat
  simp only [decodeRune] at hok
  split at hok
  case h_1 hw => exact absurd (h1 hw) (by omega)
  case h_2 b1 more hw =>
    split_ifs at hok with hc
    exact ⟨_, [b, b1], more, rfl, .two hw hc⟩
  case h_3 b1 b2 more hw =>
    split_ifs at hok with hc
    obtain ⟨hc1, hc2⟩ := Bool.and_eq_true_iff.mp hc
    exact ⟨_, [b, b1, b2], more, rfl, .three hw hc1 hc2⟩
  case h_4 b1 b2 b3 more hw =>
    split_ifs at hok with hc
    obtain ⟨hc12, hc3⟩ := Bool.and_eq_true_iff.mp hc
    obtain ⟨hc1, hc2⟩ := Bool.and_eq_true_iff.mp hc12
    exact ⟨_, [b, b1, b2, b3], more, rfl, .four hw hc1 hc2 hc3⟩
  case h_5 => simp at hok

theorem decodeAll_fuel (s : Bytes) {fuel : Nat} (h : s.length ≤ fuel) :
    decodeAll fuel s = decodeAll s.length s := by
  induction hn : s.length using Nat.strongRecOn generalizing s fuel with
  | ind n ih =>
    cases s with
    | nil =>
      subst hn
      cases fuel <;> rfl
    | cons b rest =>
      obtain ⟨fuel, rfl⟩ : ∃ k, fuel = k + 1 := ⟨fuel - 1, by simp at h; omega⟩
      subst hn
      simp only [List.length_cons, decodeAll]
      congr 1
      have hdrop : ((b :: rest).drop (max 1 (decodeRune (b :: rest)).2.1)).length ≤
          rest.length := by
        simp only [List.length_drop, List.length_cons]
        omega
      have hlt : ((b :: rest).drop (max 1 (decodeRune (b :: rest)).2.1)).length <
          (b :: rest).length := by
        simp only [List.length_cons]
        omega
      have hlen : rest.length ≤ fuel := by simpa using h
      rw [ih _ hlt _ (Nat.le_trans hdrop hlen) rfl, ih _ hlt _ hdrop rfl]

theorem validString_cons_ascii {b : UInt8} (hb : b.toNat < 0x80) (rest : Bytes) :
    validString (b :: rest) = validString rest := by
  simp [validString, decodeAll, decodeRune_ascii hb]

theorem decodeAll_wide (h : Wide r chunk) (rest : Bytes) :
    decodeAll (chunk ++ rest).length (chunk ++ rest) =
      (r, true) :: decodeAll rest.length rest := by
  have hread := h.reads rest
  obtain ⟨b, tail, rfl⟩ := h.exists_cons
  have hfuel : decodeAll (tail ++ rest).length rest = decodeAll rest.length rest :=
    decodeAll_fuel rest (by simp)
  have hdrop : (b :: (tail ++ rest)).drop (b :: tail).length = rest := by simp
  rw [List.cons_append] at hread
  simp only [List.cons_append, List.length_cons, decodeAll, hread]
  rw [Nat.max_eq_right (by omega), ← List.length_cons (a := b), hdrop, hfuel]

theorem validString_wide (h : Wide r chunk) (rest : Bytes) :
    validString (chunk ++ rest) = validString rest := by
  simp only [validString, decodeAll_wide h, List.all_cons, Bool.true_and]

/-- Induction over the characters of valid text. -/
theorem validString_induction {motive : Bytes → Prop} (nil : motive [])
    (byte : ∀ b rest, b.toNat < 0x80 → motive rest → motive (b :: rest))
    (wide : ∀ r chunk rest, Wide r chunk → motive rest → motive (chunk ++ rest))
    (s : Bytes) (h : validString s = true) : motive s := by
  induction hn : s.length using Nat.strongRecOn generalizing s with
  | ind n ih =>
    cases s with
    | nil => exact nil
    | cons b rest =>
      by_cases hb : b.toNat < 0x80
      · rw [validString_cons_ascii hb] at h
        exact byte b rest hb (ih rest.length (by simp [← hn]) rest h rfl)
      · have hok : (decodeRune (b :: rest)).2.2 = true := by
          simp only [validString, List.length_cons, decodeAll, List.all_cons,
            Bool.and_eq_true] at h
          exact h.1
        obtain ⟨r, chunk, more, hsplit, hwide⟩ := wide_of_decodeRune (Nat.not_lt.mp hb) hok
        rw [hsplit] at h hn ⊢
        rw [validString_wide hwide] at h
        obtain ⟨c, tail, rfl⟩ := hwide.exists_cons
        refine wide r _ more hwide (ih more.length ?_ more h rfl)
        simp at hn
        omega

theorem validString_append {a b : Bytes} (ha : validString a = true) :
    validString (a ++ b) = validString b := by
  refine validString_induction (motive := fun a => validString (a ++ b) = validString b)
    rfl ?_ ?_ a ha
  · intro c rest hc ih
    rw [List.cons_append, validString_cons_ascii hc, ih]
  · intro r chunk rest hw ih
    rw [List.append_assoc, validString_wide hw, ih]

theorem runes_cons_ascii {b : UInt8} (hb : b.toNat < 0x80) (rest : Bytes) :
    runes (b :: rest) = b.toNat :: runes rest := by
  simp [runes, decodeAll, decodeRune_ascii hb]

theorem runes_wide (h : Wide r chunk) (rest : Bytes) : runes (chunk ++ rest) = r :: runes rest := by
  simp only [runes, decodeAll_wide h, List.map_cons]

/-- In valid text an ASCII byte is a character of its own. -/
theorem mem_runes {s : Bytes} (h : validString s = true) {b : UInt8} (hb : b ∈ s)
    (hlow : b.toNat < 0x80) : b.toNat ∈ runes s := by
  revert hb
  refine validString_induction (motive := fun s => b ∈ s → b.toNat ∈ runes s) (by simp) ?_ ?_ s h
  · intro c rest hc ih hb
    rw [runes_cons_ascii hc]
    rcases List.mem_cons.mp hb with rfl | hb
    · exact List.mem_cons_self
    · exact List.mem_cons_of_mem _ (ih hb)
  · intro q chunk rest hw ih hb
    rw [runes_wide hw]
    rcases List.mem_append.mp hb with hb | hb
    · exact absurd hlow (Nat.not_lt.mpr (hw.high b hb))
    · exact List.mem_cons_of_mem _ (ih hb)

theorem not_mem_of_runes {v : Bytes} {test : Rune → Bool} {b : UInt8}
    (hvalid : validString v = true) (hall : (runes v).all test = true) (hlow : b.toNat < 0x80)
    (hb : test b.toNat = false) : b ∉ v := by
  intro hmem
  have htest := List.all_eq_true.mp hall _ (mem_runes hvalid hmem hlow)
  rw [hb] at htest
  cases htest

end GoText
