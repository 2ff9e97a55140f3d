import Mathlib.Data.List.TakeWhile
import PhantoWD.GoJson
import PhantoWD.GoUtf8

/-!
The decoder returns the value the encoder was given. A string literal is a sequence of pieces,
each of which stands for one character; what holds of every piece holds of the literal.
-/
namespace GoJson

open GoText

mutual
/-- Strings are valid UTF-8 and numbers unsigned. -/
def Value.Encodable : Value → Prop
  | .null => True
  | .bool _ => True
  | .num literal => ∃ n, literal = formatUint n
  | .str text => validString text = true
  | .arr items => items.Encodable
  | .obj members => members.Encodable
def Elements.Encodable : Elements → Prop
  | .nil => True
  | .cons value items => value.Encodable ∧ items.Encodable
def Members.Encodable : Members → Prop
  | .nil => True
  | .cons key value members => validString key = true ∧ value.Encodable ∧ members.Encodable
end

mutual
/-- Machine-made records, whose strings the encoder copies byte for byte. -/
def Value.Printable : Value → Prop
  | .null => True
  | .bool _ => True
  | .num literal => ∃ n, literal = formatUint n
  | .str text => text.all plain = true
  | .arr items => items.Printable
  | .obj members => members.Printable
def Elements.Printable : Elements → Prop
  | .nil => True
  | .cons value items => value.Printable ∧ items.Printable
def Members.Printable : Members → Prop
  | .nil => True
  | .cons key value members => key.all plain = true ∧ value.Printable ∧ members.Printable
end

variable {b : UInt8}

theorem plain_spec (h : plain b = true) :
    b ≠ 0x22 ∧ b ≠ 0x5c ∧ ¬ b.toNat < 0x20 ∧ b.toNat < 0x80 := by
  simp only [plain, ne_eq, decide_not, Bool.and_eq_true, decide_eq_true_eq, Bool.not_eq_eq_eq_not,
    Bool.not_true, decide_eq_false_iff_not] at h
  obtain ⟨⟨⟨⟨⟨⟨hlo, hhi⟩, hq⟩, hb⟩, -⟩, -⟩, -⟩ := h
  exact ⟨hq, hb, by omega, hhi⟩

variable {s chunk t e : Bytes} {r : Rune}

theorem quoteBody_plain (h : s.all plain = true) : quoteBody s.length s = s := by
  induction s with
  | nil => rfl
  | cons b rest ih =>
    obtain ⟨hb, hrest⟩ : plain b = true ∧ rest.all plain = true := by simpa using h
    simp [quoteBody, hb, ih hrest]

theorem quoted_plain (h : s.all plain = true) : quoted s = 0x22 :: s ++ [0x22] := by
  simp [quoted, quoteBody_plain h]

theorem validString_plain (h : s.all plain = true) : validString s = true :=
  validString_ascii fun b hb => (plain_spec (List.all_eq_true.mp h b hb)).2.2.2

mutual
theorem Value.Printable.encodable {v : Value} (h : v.Printable) : v.Encodable := by
  cases v with
  | null => trivial
  | bool b => trivial
  | num literal => exact h
  | str text => exact validString_plain h
  | arr items => exact Elements.Printable.encodable h
  | obj members => exact Members.Printable.encodable h
theorem Elements.Printable.encodable {items : Elements} (h : items.Printable) :
    items.Encodable := by
  cases items with
  | nil => trivial
  | cons value items =>
    exact ⟨Value.Printable.encodable h.1, Elements.Printable.encodable h.2⟩
theorem Members.Printable.encodable {members : Members} (h : members.Printable) :
    members.Encodable := by
  cases members with
  | nil => trivial
  | cons key value members =>
    exact ⟨validString_plain h.1, Value.Printable.encodable h.2.1,
      Members.Printable.encodable h.2.2⟩
end

/-- One character as the encoder writes it and the text it stands for. -/
inductive Piece : Bytes → Bytes → Prop
  | copied {b : UInt8} (h : plain b = true) : Piece [b] [b]
  | escaped {b : UInt8} (h : plain b = false) (hb : b.toNat < 0x80) : Piece (escaped b) [b]
  | separator {r : Rune} {chunk : Bytes} (hr : r = 0x2028 ∨ r = 0x2029) (h : Wide r chunk) :
      Piece (ascii "\\u202" ++ [hexChar (r % 16)]) chunk
  | wide {r : Rune} {chunk : Bytes} (h : Wide r chunk) : Piece chunk chunk

inductive Pieces : Bytes → Bytes → Prop
  | nil : Pieces [] []
  | cons {e t es ts : Bytes} (h : Piece e t) (hs : Pieces es ts) : Pieces (e ++ es) (t ++ ts)

theorem quoteBody_fuel (s : Bytes) {fuel : Nat} (h : s.length ≤ fuel) :
    quoteBody fuel s = quoteBody s.length s := by
  induction hn : s.length using Nat.strongRecOn generalizing s fuel with
  | ind n ih =>
    cases s with
    | nil =>
      subst hn
      cases fuel <;> rfl
    | cons b rest =>
      obtain ⟨fuel, rfl⟩ : ∃ k, fuel = k + 1 := ⟨fuel - 1, by simp at h; omega⟩
      subst hn
      have hlen : rest.length ≤ fuel := by simpa using h
      have hrest : ∀ k, quoteBody fuel (rest.drop k) = quoteBody rest.length (rest.drop k) := by
        intro k
        have hk : (rest.drop k).length ≤ rest.length := by simp
        have hlt : (rest.drop k).length < (b :: rest).length := by
          simp only [List.length_cons]
          omega
        rw [ih _ hlt _ (Nat.le_trans hk hlen) rfl, ih _ hlt _ hk rfl]
      have hzero := hrest 0
      rw [List.drop_zero] at hzero
      simp only [List.length_cons, quoteBody, hrest, hzero]

theorem quoteBody_cons_ascii (hb : b.toNat < 0x80) (rest : Bytes) :
    quoteBody (b :: rest).length (b :: rest) =
      (if plain b then [b] else escaped b) ++ quoteBody rest.length rest := by
  cases hp : plain b <;> simp [quoteBody, hp, hb]

theorem plain_of_high (hb : 0x80 ≤ b.toNat) : plain b = false := by
  have hn : ¬ b.toNat < 0x80 := by omega
  simp [plain, hn]

theorem quoteBody_wide (h : Wide r chunk) (rest : Bytes) :
    quoteBody (chunk ++ rest).length (chunk ++ rest) =
      (if r = 0x2028 ∨ r = 0x2029 then ascii "\\u202" ++ [hexChar (r % 16)] else chunk) ++
        quoteBody rest.length rest := by
  have hread := h.reads rest
  have hhigh := h.high
  obtain ⟨b, tail, rfl⟩ := h.exists_cons
  have hb : 0x80 ≤ b.toNat := hhigh b (by simp)
  have hdrop : (tail ++ rest).drop ((b :: tail).length - 1) = rest := by simp
  have htake : (b :: (tail ++ rest)).take (b :: tail).length = b :: tail := by simp
  have hfuel : quoteBody (tail ++ rest).length rest = quoteBody rest.length rest :=
    quoteBody_fuel rest (by simp)
  rw [List.cons_append] at hread ⊢
  rw [List.length_cons, quoteBody]
  simp only [plain_of_high hb, hread, hdrop, htake, hfuel]
  rw [if_neg (by simp), if_neg (by omega), if_neg (by simp)]
  split_ifs <;> simp

theorem quoteBody_pieces (h : validString s = true) : Pieces (quoteBody s.length s) s := by
  refine validString_induction (motive := fun s => Pieces (quoteBody s.length s) s)
    .nil ?_ ?_ s h
  · intro b rest hb ih
    rw [quoteBody_cons_ascii hb]
    cases hp : plain b with
    | true => exact .cons (.copied hp) ih
    | false => exact .cons (.escaped hp hb) ih
  · intro r chunk rest hw ih
    rw [quoteBody_wide hw]
    split_ifs with hr
    · exact .cons (.separator hr hw) ih
    · exact .cons (.wide hw) ih

variable {n : Nat}

theorem hexDigit_hexChar (h : n < 16) : hexDigit (hexChar n) = some n := by
  interval_cases n <;> rfl

theorem encodeRune_ascii (hb : b.toNat < 0x80) : encodeRune b.toNat = [b] := by
  rw [encodeRune, if_pos hb]
  simp

theorem encodeRune_two (hlo : 0x80 ≤ n) (hhi : n < 0x800) :
    encodeRune n = [(0xc0 + n / 0x40).toUInt8, (0x80 + n % 0x40).toUInt8] := by
  have h1 : ¬ n < 0x80 := by omega
  rw [encodeRune, if_neg h1, if_pos hhi]

theorem encodeRune_three (hlo : 0x800 ≤ n) (hhi : n < 0x10000) :
    encodeRune n = [(0xe0 + n / 0x1000).toUInt8, (0x80 + n / 0x40 % 0x40).toUInt8,
      (0x80 + n % 0x40).toUInt8] := by
  have h1 : ¬ n < 0x80 := by omega
  have h2 : ¬ n < 0x800 := by omega
  rw [encodeRune, if_neg h1, if_neg h2, if_pos hhi]

theorem encodeRune_four (hlo : 0x10000 ≤ n) :
    encodeRune n = [(0xf0 + n / 0x40000).toUInt8, (0x80 + n / 0x1000 % 0x40).toUInt8,
      (0x80 + n / 0x40 % 0x40).toUInt8, (0x80 + n % 0x40).toUInt8] := by
  have h1 : ¬ n < 0x80 := by omega
  have h2 : ¬ n < 0x800 := by omega
  have h3 : ¬ n < 0x10000 := by omega
  rw [encodeRune, if_neg h1, if_neg h2, if_neg h3]

theorem encodeRune_wide (h : Wide r chunk) : encodeRune r = chunk := by
  have hbyte : ∀ {n : Nat} {b : UInt8}, n = b.toNat → n.toUInt8 = b := by
    intro n b hn
    simp [hn]
  cases h with
  | @two b0 b1 hw h1 =>
    have h0 := (leadWidth_bounds b0.toNat).2.1 hw
    have hrange : secondRange b0.toNat = (0x80, 0xbf) := by
      unfold secondRange
      repeat rw [if_neg (by omega)]
    rw [hrange] at h1
    have hb1 := cont_bounds h1
    simp only at hb1
    rw [encodeRune_two (by omega) (by omega)]
    simp only [List.cons.injEq, and_true]
    exact ⟨hbyte (by omega), hbyte (by omega)⟩
  | @three b0 b1 b2 hw h1 h2 =>
    have h0 := (leadWidth_bounds b0.toNat).2.2.1 hw
    have hb1 := cont_bounds h1
    have hb2 := cont_bounds h2
    have hlow : b0.toNat = 0xe0 → 0xa0 ≤ b1.toNat := by
      intro he
      simpa [secondRange, he] using hb1.1
    have h80 := Nat.le_trans (secondRange_low b0.toNat) hb1.1
    have hbf := Nat.le_trans hb1.2 (secondRange_high b0.toNat)
    rw [encodeRune_three (by omega) (by omega)]
    simp only [List.cons.injEq, and_true]
    exact ⟨hbyte (by omega), hbyte (by omega), hbyte (by omega)⟩
  | @four b0 b1 b2 b3 hw h1 h2 h3 =>
    have h0 := (leadWidth_bounds b0.toNat).2.2.2 hw
    have hb1 := cont_bounds h1
    have hb2 := cont_bounds h2
    have hb3 := cont_bounds h3
    have hlow : b0.toNat = 0xf0 → 0x90 ≤ b1.toNat := by
      intro he
      simpa [secondRange, he] using hb1.1
    have h80 := Nat.le_trans (secondRange_low b0.toNat) hb1.1
    have hbf := Nat.le_trans hb1.2 (secondRange_high b0.toNat)
    rw [encodeRune_four (by omega)]
    simp only [List.cons.injEq, and_true]
    exact ⟨hbyte (by omega), hbyte (by omega), hbyte (by omega), hbyte (by omega)⟩

theorem unicodeEscape_byte (hn : n < 0x80) (rest : Bytes) :
    unicodeEscape (0x30 :: 0x30 :: hexChar (n / 16) :: hexChar (n % 16) :: rest) =
      some (n, rest) := by
  have h0 : hexDigit 0x30 = some 0 := rfl
  have hunit : n / 16 * 16 + n % 16 = n := by omega
  have hhigh : ¬ (0xd800 ≤ n ∧ n ≤ 0xdbff) := by omega
  have hlow : ¬ (0xdc00 ≤ n ∧ n ≤ 0xdfff) := by omega
  simp [unicodeEscape, hex4, h0, hexDigit_hexChar (show n / 16 < 16 by omega),
    hexDigit_hexChar (show n % 16 < 16 by omega), hunit, hhigh, hlow]

theorem character_escaped (hb : b.toNat < 0x80) (rest : Bytes) :
    character (escaped b ++ rest) = some ([b], rest) := by
  unfold escaped
  split_ifs with hq hbs hff hnl hcr htab
  · rcases hq with rfl | rfl <;> rfl
  · subst hbs; rfl
  · subst hff; rfl
  · subst hnl; rfl
  · subst hcr; rfl
  · subst htab; rfl
  · have hu := unicodeEscape_byte hb rest
    have hesc : character (0x5c :: 0x75 :: 0x30 :: 0x30 :: hexChar (b.toNat / 16) ::
        hexChar (b.toNat % 16) :: rest) = some ([b], rest) := by
      simp [character, escape, hu, encodeRune_ascii hb]
    exact hesc

theorem character_separator (hr : r = 0x2028 ∨ r = 0x2029) (h : Wide r chunk) (rest : Bytes) :
    character (ascii "\\u202" ++ [hexChar (r % 16)] ++ rest) = some (chunk, rest) := by
  rw [← encodeRune_wide h]
  rcases hr with rfl | rfl <;> rfl

theorem character_wide (h : Wide r chunk) (rest : Bytes) :
    character (chunk ++ rest) = some (chunk, rest) := by
  have hread := h.reads rest
  have hhigh := h.high
  obtain ⟨b, tail, rfl⟩ := h.exists_cons
  have hb : 0x80 ≤ b.toNat := hhigh b (by simp)
  have hne : b ≠ 0x5c := by
    rintro rfl
    exact absurd hb (by decide)
  rw [List.cons_append] at hread ⊢
  rw [character, if_neg hne, if_neg (by omega), if_neg (by omega), hread]
  simp

theorem Piece.reads (h : Piece e t) (rest : Bytes) : character (e ++ rest) = some (t, rest) := by
  cases h with
  | @copied b h =>
    obtain ⟨_, hb, hlo, hhi⟩ := plain_spec h
    simp [character, hb, hlo, hhi]
  | escaped h hb => exact character_escaped hb rest
  | separator hr h => exact character_separator hr h rest
  | wide h => exact character_wide h rest

theorem Piece.head (h : Piece e t) : ∃ b more, e = b :: more ∧ b ≠ 0x22 := by
  cases h with
  | @copied b h => exact ⟨b, [], rfl, (plain_spec h).1⟩
  | @escaped b h hb =>
    unfold GoJson.escaped
    split_ifs <;> exact ⟨0x5c, _, rfl, by decide⟩
  | separator hr h => exact ⟨0x5c, _, rfl, by decide⟩
  | wide h =>
    have hhigh := h.high
    obtain ⟨b, tail, rfl⟩ := h.exists_cons
    refine ⟨b, tail, rfl, ?_⟩
    rintro rfl
    exact absurd (hhigh 0x22 (by simp)) (by decide)

theorem Piece.valid (h : Piece e t) : validString e = true := by
  cases h with
  | copied h => exact validString_plain (by simpa using h)
  | @escaped b h hb =>
    have hhex : ∀ n < 16, (hexChar n).toNat < 0x80 := by decide
    unfold GoJson.escaped
    split_ifs with hq
    · exact validString_ascii (by simp [hb])
    · rfl
    · rfl
    · rfl
    · rfl
    · rfl
    · rw [validString_append rfl]
      exact validString_ascii (by simp [hhex (b.toNat / 16) (by omega),
        hhex (b.toNat % 16) (by omega)])
  | separator hr h => rcases hr with rfl | rfl <;> rfl
  | wide h =>
    have hv := validString_wide h []
    rwa [List.append_nil] at hv

theorem Pieces.valid (h : Pieces e t) : validString e = true := by
  induction h with
  | nil => rfl
  | cons h _ ih => rw [validString_append h.valid, ih]

theorem stringBody_pieces (h : Pieces e t) (rest : Bytes) {fuel : Nat} (hf : e.length < fuel) :
    stringBody fuel (e ++ 0x22 :: rest) = some (t, rest) := by
  induction h generalizing fuel with
  | nil =>
    obtain ⟨fuel, rfl⟩ : ∃ k, fuel = k + 1 := ⟨fuel - 1, by simp at hf; omega⟩
    simp [stringBody]
  | @cons e t es ts h _ ih =>
    obtain ⟨fuel, rfl⟩ : ∃ k, fuel = k + 1 := ⟨fuel - 1, by omega⟩
    have hread := h.reads (es ++ 0x22 :: rest)
    obtain ⟨b, more, rfl, hb⟩ := h.head
    have hrest := ih (show es.length < fuel by simp at hf; omega)
    rw [List.append_assoc, stringBody, hread]
    simp [hb, hrest]

theorem quoted_reads (h : validString s = true) (rest : Bytes) :
    stringBody (quoted s ++ rest).length (quoted s ++ rest).tail = some (s, rest) := by
  have hbody := stringBody_pieces (quoteBody_pieces h) rest
    (show (quoteBody s.length s).length < (quoted s ++ rest).length by simp [quoted])
  simpa [quoted] using hbody

/-- Only a separator, a closing delimiter or the end can follow a rendered value. -/
def Stops : Bytes → Prop
  | [] => True
  | b :: _ => b = 0x2c ∨ b = 0x5d ∨ b = 0x7d

variable {rest : Bytes}

theorem Stops.takeWhile (h : Stops rest) : rest.takeWhile isDigit = [] := by
  cases rest with
  | nil => rfl
  | cons b t => rcases h with rfl | rfl | rfl <;> rfl

theorem Stops.dropWhile (h : Stops rest) : rest.dropWhile isDigit = rest := by
  cases rest with
  | nil => rfl
  | cons b t => rcases h with rfl | rfl | rfl <;> rfl

theorem Stops.fraction (h : Stops rest) : fraction rest = some ([], rest) := by
  cases rest with
  | nil => rfl
  | cons b t => rcases h with rfl | rfl | rfl <;> rfl

theorem Stops.exponent (h : Stops rest) : exponent rest = some ([], rest) := by
  cases rest with
  | nil => rfl
  | cons b t => rcases h with rfl | rfl | rfl <;> rfl

theorem toNat_digit {d : Nat} (h : d < 10) : (0x30 + d).toUInt8.toNat = 0x30 + d := by
  simp only [Nat.toUInt8_eq, UInt8.toNat_ofNat']
  omega

theorem isDigit_digit {d : Nat} (h : d < 10) : isDigit (0x30 + d).toUInt8 = true := by
  simp only [isDigit, toNat_digit h, Bool.and_eq_true, decide_eq_true_eq]
  omega

theorem formatUint_cons (n : Nat) :
    ∃ b t, formatUint n = b :: t ∧ isDigit b = true ∧ t.all isDigit = true ∧
      (b = 0x30 → t = []) := by
  by_cases hn : n = 0
  · exact ⟨0x30, [], by simp [formatUint, hn], by decide, rfl, fun _ => rfl⟩
  · have hne : Nat.digits 10 n ≠ [] := Nat.digits_ne_nil_iff_ne_zero.mpr hn
    have hlast : (Nat.digits 10 n).getLast hne ≠ 0 := Nat.getLast_digit_ne_zero 10 hn
    have hlt : ∀ d ∈ Nat.digits 10 n, d < 10 := fun d hd => Nat.digits_lt_base (by decide) hd
    obtain ⟨front, last, hsplit⟩ : ∃ front last, Nat.digits 10 n = front ++ [last] :=
      ⟨_, _, (List.dropLast_append_getLast hne).symm⟩
    have hl : last < 10 := hlt last (by simp [hsplit])
    have hl0 : last ≠ 0 := by simpa [hsplit] using hlast
    refine ⟨(0x30 + last).toUInt8, front.reverse.map fun d => (0x30 + d).toUInt8, ?_,
      isDigit_digit hl, ?_, fun h => ?_⟩
    · simp [formatUint, hn, hsplit]
    · rw [List.all_eq_true]
      intro b hb
      obtain ⟨d, hd, rfl⟩ := List.mem_map.mp hb
      exact isDigit_digit (hlt d (by simp [hsplit, List.mem_reverse.mp hd]))
    · have := congrArg UInt8.toNat h
      rw [toNat_digit hl] at this
      simp at this
      omega

theorem formatUint_digits (n : Nat) : (formatUint n).all isDigit = true := by
  obtain ⟨b, t, hf, hb, ht, _⟩ := formatUint_cons n
  simp [hf, hb, ht]

theorem foldl_digits (l : List Nat) (h : ∀ d ∈ l, d < 10) :
    (l.reverse.map fun d => (0x30 + d).toUInt8).foldl
      (fun n b => 10 * n + (b.toNat - 0x30)) 0 = Nat.ofDigits 10 l := by
  induction l with
  | nil => rfl
  | cons d l ih =>
    have hd : d < 10 := h d (by simp)
    have hl := ih fun e he => h e (by simp [he])
    simp only [List.reverse_cons, List.map_append, List.foldl_append, hl, List.map_cons,
      List.map_nil, List.foldl_cons, List.foldl_nil, toNat_digit hd, Nat.ofDigits_cons]
    omega

theorem foldl_formatUint (n : Nat) :
    (formatUint n).foldl (fun n b => 10 * n + (b.toNat - 0x30)) 0 = n := by
  by_cases hn : n = 0
  · simp [formatUint, hn]
  · simp only [formatUint, hn, if_false]
    rw [foldl_digits _ fun d hd => Nat.digits_lt_base (by decide) hd, Nat.ofDigits_digits]

theorem parseUint_formatUint (h : n < 2 ^ 64) : parseUint (formatUint n) = some n := by
  obtain ⟨b, t, hf, _⟩ := formatUint_cons n
  have hne : formatUint n ≠ [] := by simp [hf]
  simp only [parseUint, foldl_formatUint]
  exact if_pos ⟨hne, formatUint_digits n, h⟩

theorem length_formatUint {k : Nat} (hk : 0 < k) (h : n < 10 ^ k) :
    (formatUint n).length ≤ k := by
  by_cases hn : n = 0
  · simpa [formatUint, hn] using Nat.succ_le_of_lt hk
  · rw [formatUint, if_neg hn, List.length_map, List.length_reverse,
      Nat.digits_length_le_iff (by decide)]
    exact h

theorem length_formatUint_le (h : n < 2 ^ 64) : (formatUint n).length ≤ 20 :=
  length_formatUint (by decide) (Nat.lt_trans h (by decide))

theorem takeWhile_digits (ht : t.all isDigit = true) (hr : Stops rest) :
    (t ++ rest).takeWhile isDigit = t ∧ (t ++ rest).dropWhile isDigit = rest := by
  have hall : ∀ b ∈ t, isDigit b = true := List.all_eq_true.mp ht
  constructor
  · rw [List.takeWhile_append_of_pos hall, hr.takeWhile, List.append_nil]
  · rw [List.dropWhile_append_of_pos hall, hr.dropWhile]

theorem isDigit_ne {c : UInt8} (hb : isDigit b = true) (hc : isDigit c = false) : b ≠ c := by
  rintro rfl
  rw [hb] at hc
  exact Bool.noConfusion hc

theorem number_formatUint (n : Nat) (hr : Stops rest) :
    number (formatUint n ++ rest) = some (formatUint n, rest) := by
  obtain ⟨b, t, hf, hb, ht, hzero⟩ := formatUint_cons n
  have hsign : b ≠ 0x2d := isDigit_ne hb rfl
  have hint : intPart (b :: (t ++ rest)) = some (b :: t, rest) := by
    by_cases h0 : b = 0x30
    · simp [intPart, h0, hzero h0]
    · simp [intPart, h0, hb, takeWhile_digits ht hr]
  rw [hf]
  simp [number, hsign, hint, hr.fraction, hr.exponent]

theorem skipSpace_cons (h : isSpace b = false) (t : Bytes) :
    skipSpace (b :: t) = b :: t := by
  simp [skipSpace, h]

theorem Stops.skipSpace (h : Stops rest) : skipSpace rest = rest := by
  cases rest with
  | nil => rfl
  | cons b t => rcases h with rfl | rfl | rfl <;> rfl

theorem Value.render_cons (v : Value) (h : v.Encodable) :
    ∃ b t, v.render = b :: t ∧ isSpace b = false ∧ b ≠ 0x5d := by
  cases v with
  | null => exact ⟨_, _, rfl, by decide, by decide⟩
  | bool b => cases b <;> exact ⟨_, _, rfl, by decide, by decide⟩
  | num literal =>
    obtain ⟨n, rfl⟩ := h
    obtain ⟨b, t, hf, hb, _⟩ := formatUint_cons n
    refine ⟨b, t, hf, ?_, isDigit_ne hb rfl⟩
    simp [isSpace, isDigit_ne hb (c := 0x20) rfl, isDigit_ne hb (c := 0x09) rfl,
      isDigit_ne hb (c := 0x0a) rfl, isDigit_ne hb (c := 0x0d) rfl]
  | str text => exact ⟨0x22, _, rfl, by decide, by decide⟩
  | arr items => cases items <;> exact ⟨0x5b, _, rfl, by decide, by decide⟩
  | obj members => cases members <;> exact ⟨0x7b, _, rfl, by decide, by decide⟩

theorem Value.skipSpace_render {v : Value} (h : v.Encodable) (rest : Bytes) :
    skipSpace (v.render ++ rest) = v.render ++ rest := by
  obtain ⟨b, t, hb, hs, _⟩ := v.render_cons h
  rw [hb]
  exact skipSpace_cons hs _

theorem Value.head_render {v : Value} (h : v.Encodable) :
    v.render ≠ [] ∧ v.render.head? ≠ some 0x5d := by
  obtain ⟨b, t, hb, _, hne⟩ := v.render_cons h
  exact ⟨by simp [hb], by simpa [hb] using hne⟩

@[simp] theorem skipSpace_quoted (s rest : Bytes) :
    skipSpace (quoted s ++ rest) = quoted s ++ rest := rfl

@[simp] theorem head_quoted (s : Bytes) : (quoted s).head? = some 0x22 := rfl

@[simp] theorem quoted_ne_nil (s : Bytes) : quoted s ≠ [] := by simp [quoted]

theorem Elements.render_stops (items : Elements) (rest : Bytes) :
    Stops (items.render ++ rest) := by
  cases items with
  | nil => exact .inr (.inl rfl)
  | cons v items => exact .inl rfl

theorem Members.render_stops (members : Members) (rest : Bytes) :
    Stops (members.render ++ rest) := by
  cases members with
  | nil => exact .inr (.inr rfl)
  | cons k v members => exact .inl rfl

theorem scalar_number (n : Nat) (hr : Stops rest) :
    scalar (formatUint n ++ rest) = some (.num (formatUint n), rest) := by
  have hnum := number_formatUint n hr
  obtain ⟨b, t, hf, hb, _⟩ := formatUint_cons n
  rw [hf, List.cons_append] at hnum
  rw [hf]
  simp [scalar, hnum, isDigit_ne hb (c := 0x22) rfl, isDigit_ne hb (c := 0x74) rfl,
    isDigit_ne hb (c := 0x66) rfl, isDigit_ne hb (c := 0x6e) rfl]

theorem scalar_string {text : Bytes} (h : validString text = true) (rest : Bytes) :
    scalar (quoted text ++ rest) = some (.str text, rest) := by
  have hhead : (quoted text ++ rest).head? = some 0x22 := rfl
  rw [scalar, if_pos hhead, quoted_reads h]
  rfl

theorem member_render {key : Bytes} (hk : validString key = true) {value : Value}
    {parse : Bytes → Option (Value × Bytes)}
    (hv : parse (value.render ++ rest) = some (value, rest)) :
    member parse (quoted key ++ 0x3a :: (value.render ++ rest)) = some (key, value, rest) := by
  have hhead : (quoted key ++ 0x3a :: (value.render ++ rest)).head? = some 0x22 := rfl
  have hc : isSpace 0x3a = false := rfl
  rw [member, skipSpace_quoted]
  simp only [if_pos hhead, quoted_reads hk]
  simp [skipSpace_cons hc, hv]

theorem keyword_append (word : Bytes) (value : Value) (rest : Bytes) :
    keyword word value (word ++ rest) = some (value, rest) := by
  simp [keyword]

mutual
/-- What was rendered is parsed back, and nothing behind it is touched. -/
theorem parseValue_render (v : Value) (h : v.Encodable) {fuel : Nat} {rest : Bytes}
    (hf : v.render.length ≤ fuel) (hr : (∃ literal, v = .num literal) → Stops rest) :
    parseValue fuel (v.render ++ rest) = some (v, rest) := by
  obtain ⟨fuel, rfl⟩ : ∃ k, fuel = k + 1 := by
    obtain ⟨b, t, hb, _⟩ := v.render_cons h
    exact ⟨fuel - 1, by simp [hb] at hf; omega⟩
  rw [parseValue, Value.skipSpace_render h]
  cases v with
  | null => exact keyword_append (ascii "null") .null rest
  | bool b =>
    cases b with
    | true => exact keyword_append (ascii "true") (.bool true) rest
    | false => exact keyword_append (ascii "false") (.bool false) rest
  | num literal =>
    obtain ⟨n, rfl⟩ := h
    obtain ⟨c, u, hc, hd, _⟩ := formatUint_cons n
    have hnum := scalar_number n (hr ⟨_, rfl⟩)
    rw [hc, List.cons_append] at hnum
    simp [Value.render, hc, hnum, isDigit_ne hd (c := 0x7b) rfl, isDigit_ne hd (c := 0x5b) rfl]
  | str text => simp [Value.render, scalar_string h rest]
  | arr items =>
    cases items with
    | nil => rfl
    | cons value items =>
      have hv := parseValue_render value h.1
        (show value.render.length ≤ fuel by simp [Value.render] at hf; omega)
        (fun _ => items.render_stops rest)
      have hes := parseElements_render items h.2 rest
        (show items.render.length ≤ fuel by simp [Value.render] at hf; omega)
      simp [Value.render, Value.skipSpace_render h.1, Value.head_render h.1, hv, hes]
  | obj members =>
    cases members with
    | nil => rfl
    | cons key value members =>
      have hv := parseValue_render value h.2.1
        (show value.render.length ≤ fuel by simp [Value.render] at hf; omega)
        (fun _ => members.render_stops rest)
      have hms := parseMembers_render members h.2.2 rest
        (show members.render.length ≤ fuel by simp [Value.render] at hf; omega)
      simp [Value.render, member_render h.1 hv, hms]
theorem parseElements_render (items : Elements) (h : items.Encodable) (rest : Bytes) {fuel : Nat}
    (hf : items.render.length ≤ fuel) :
    parseElements fuel (items.render ++ rest) = some (items, rest) := by
  obtain ⟨fuel, rfl⟩ : ∃ k, fuel = k + 1 := by
    cases items <;> exact ⟨fuel - 1, by simp [Elements.render] at hf; omega⟩
  rw [parseElements, (items.render_stops rest).skipSpace]
  cases items with
  | nil => rfl
  | cons value items =>
    have hv := parseValue_render value h.1
      (show value.render.length ≤ fuel by simp [Elements.render] at hf; omega)
      (fun _ => items.render_stops rest)
    have hes := parseElements_render items h.2 rest
      (show items.render.length ≤ fuel by simp [Elements.render] at hf; omega)
    simp [Elements.render, hv, hes]
theorem parseMembers_render (members : Members) (h : members.Encodable) (rest : Bytes)
    {fuel : Nat} (hf : members.render.length ≤ fuel) :
    parseMembers fuel (members.render ++ rest) = some (members, rest) := by
  obtain ⟨fuel, rfl⟩ : ∃ k, fuel = k + 1 := by
    cases members <;> exact ⟨fuel - 1, by simp [Members.render] at hf; omega⟩
  rw [parseMembers, (members.render_stops rest).skipSpace]
  cases members with
  | nil => rfl
  | cons key value members =>
    have hv := parseValue_render value h.2.1
      (show value.render.length ≤ fuel by simp [Members.render] at hf; omega)
      (fun _ => members.render_stops rest)
    have hms := parseMembers_render members h.2.2 rest
      (show members.render.length ≤ fuel by simp [Members.render] at hf; omega)
    simp [Members.render, member_render h.1 hv, hms]
end

/-- A document may be followed by white space; after a number nothing else could tell where
it ends. -/
theorem parse_render_space {v : Value} (h : v.Encodable) {tail : Bytes}
    (ht : tail.all isSpace = true) (hv : (∃ literal, v = .num literal) → Stops tail) :
    parse (v.render ++ tail) = some v := by
  have hparse : parseValue ((v.render ++ tail).length + 1) (v.render ++ tail) = some (v, tail) :=
    parseValue_render v h (by simp; omega) hv
  have hskip : skipSpace tail = [] := by
    rw [skipSpace, List.dropWhile_eq_nil_iff]
    exact List.all_eq_true.mp ht
  rw [parse, hparse]
  simp [hskip]

theorem parse_render {v : Value} (h : v.Encodable) : parse v.render = some v := by
  have hparse : parse (v.render ++ []) = some v := parse_render_space h rfl fun _ => trivial
  rwa [List.append_nil] at hparse

theorem formatUint_ascii (n : Nat) : ∀ b ∈ formatUint n, b.toNat < 0x80 := by
  intro b hb
  have hd := List.all_eq_true.mp (formatUint_digits n) b hb
  simp only [isDigit, Bool.and_eq_true, decide_eq_true_eq] at hd
  omega

theorem quoted_valid (h : validString s = true) : validString (quoted s) = true := by
  have hbody := (quoteBody_pieces h).valid
  rw [quoted, List.cons_append, validString_cons_ascii (by decide), validString_append hbody]
  rfl

mutual
theorem Value.render_valid (v : Value) (h : v.Encodable) : validString v.render = true := by
  cases v with
  | null => rfl
  | bool b => cases b <;> rfl
  | num literal =>
    obtain ⟨n, rfl⟩ := h
    exact validString_ascii (formatUint_ascii n)
  | str text => exact quoted_valid h
  | arr items =>
    cases items with
    | nil => rfl
    | cons value items =>
      rw [Value.render, List.cons_append, validString_cons_ascii (by decide),
        validString_append (value.render_valid h.1)]
      exact items.render_valid h.2
  | obj members =>
    cases members with
    | nil => rfl
    | cons key value members =>
      rw [Value.render, List.cons_append, List.cons_append, List.append_assoc,
        validString_cons_ascii (by decide), validString_append (quoted_valid h.1),
        List.cons_append, validString_cons_ascii (by decide),
        validString_append (value.render_valid h.2.1)]
      exact members.render_valid h.2.2
theorem Elements.render_valid (items : Elements) (h : items.Encodable) :
    validString items.render = true := by
  cases items with
  | nil => rfl
  | cons value items =>
    rw [Elements.render, List.cons_append, validString_cons_ascii (by decide),
      validString_append (value.render_valid h.1)]
    exact items.render_valid h.2
theorem Members.render_valid (members : Members) (h : members.Encodable) :
    validString members.render = true := by
  cases members with
  | nil => rfl
  | cons key value members =>
    rw [Members.render, List.cons_append, List.cons_append, List.append_assoc,
      validString_cons_ascii (by decide), validString_append (quoted_valid h.1),
      List.cons_append, validString_cons_ascii (by decide),
      validString_append (value.render_valid h.2.1)]
    exact members.render_valid h.2.2
end

theorem asUint_formatUint {bits : Nat} (hb : bits ≤ 64) (h : n < 2 ^ bits) :
    asUint bits (.num (formatUint n)) = some n := by
  have h64 : n < 2 ^ 64 := Nat.lt_of_lt_of_le h (Nat.pow_le_pow_right (by decide) hb)
  simp [asUint, parseUint_formatUint h64, h]

end GoJson
