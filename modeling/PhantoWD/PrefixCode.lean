import PhantoWD.RawImage

/-!
Two texts that start with the encodings of two values are equal only when the values are equal
and so is what follows. A record has this property when its fields have it.
-/
namespace PrefixCode

open GoText RawImage

variable {α β : Type}

/-- On the values of `P`, an encoding is never a proper beginning of another one. -/
def Delimits (P : α → Prop) (enc : α → Bytes) : Prop :=
  ∀ (a b : α) (s t : Bytes), P a → P b → enc a ++ s = enc b ++ t → a = b ∧ s = t

theorem delimits_fixed {P : α → Prop} {enc : α → Bytes} {n : Nat}
    (hlen : ∀ a, P a → (enc a).length = n)
    (hinj : ∀ a b, P a → P b → enc a = enc b → a = b) : Delimits P enc := by
  intro a b s t ha hb h
  obtain ⟨henc, hrest⟩ := List.append_inj h ((hlen a ha).trans (hlen b hb).symm)
  exact ⟨hinj a b ha hb henc, hrest⟩

def word (n : UInt64) : Bytes := (toBytes 8 n.toNat).reverse

theorem word_injective {m n : UInt64} (h : word m = word n) : m = n := by
  have hbytes := congrArg ofBytes (List.reverse_injective h)
  have hm : m.toNat < 256 ^ 8 := m.toNat_lt
  have hn : n.toNat < 256 ^ 8 := n.toNat_lt
  rw [ofBytes_toBytes, ofBytes_toBytes, Nat.mod_eq_of_lt hm, Nat.mod_eq_of_lt hn] at hbytes
  exact UInt64.toNat_inj.mp hbytes

theorem word_delimits : Delimits (fun _ => True) word :=
  delimits_fixed (n := 8) (fun _ _ => by simp [word]) fun _ _ _ _ => word_injective

def flag (b : Bool) : Bytes := if b then [1] else [0]

theorem flag_delimits : Delimits (fun _ => True) flag := by
  refine delimits_fixed (n := 1) ?_ ?_
  · intro b _
    cases b <;> rfl
  · intro a b _ _ h
    cases a <;> cases b <;> simp_all [flag]

def text (s : Bytes) : Bytes := word (UInt64.ofNat s.length) ++ s

theorem text_delimits : Delimits (fun s : Bytes => s.length < 2 ^ 64) text := by
  intro a b s t ha hb h
  rw [text, text, List.append_assoc, List.append_assoc] at h
  obtain ⟨hlen, hrest⟩ := word_delimits _ _ _ _ trivial trivial h
  have hlengths : a.length = b.length := by
    have := congrArg UInt64.toNat hlen
    rwa [UInt64.toNat_ofNat_of_lt' ha, UInt64.toNat_ofNat_of_lt' hb] at this
  exact List.append_inj hrest hlengths

theorem flatMap_delimits {P : α → Prop} {enc : α → Bytes} (henc : Delimits P enc)
    {l l' : List α} {s t : Bytes} (hlen : l.length = l'.length) (hl : ∀ a ∈ l, P a)
    (hl' : ∀ a ∈ l', P a) (h : l.flatMap enc ++ s = l'.flatMap enc ++ t) : l = l' ∧ s = t := by
  induction l generalizing l' with
  | nil =>
    rw [List.length_nil, eq_comm, List.length_eq_zero_iff] at hlen
    subst hlen
    exact ⟨rfl, h⟩
  | cons a rest ih =>
    cases l' with
    | nil => cases hlen
    | cons b rest' =>
      rw [List.forall_mem_cons] at hl hl'
      rw [List.flatMap_cons, List.flatMap_cons, List.append_assoc, List.append_assoc] at h
      obtain ⟨rfl, hrest⟩ := henc _ _ _ _ hl.1 hl'.1 h
      obtain ⟨rfl, hst⟩ := ih (by simpa using hlen) hl.2 hl'.2 hrest
      exact ⟨rfl, hst⟩

end PrefixCode
