import Mathlib.Algebra.Group.Int.Defs
import Mathlib.Algebra.Group.Nat.Defs
import PhantoWD.TextFields

/-!
A Go string is a byte sequence with no encoding promise. Range loops decode it
rune by rune and substitute U+FFFD for one byte of every ill-formed sequence;
length is always counted in bytes.
-/
namespace GoText

abbrev Bytes := List UInt8

instance lawfulBEqBytes : LawfulBEq Bytes := inferInstance
instance lawfulBEqDevice : LawfulBEq (UInt32 × UInt32) := inferInstance

abbrev Rune := Nat

def ascii (s : String) : Bytes := s.toList.map fun c => c.toNat.toUInt8

def runeError : Rune := 0xfffd

def cont (lo hi : Nat) (b : UInt8) : Bool := lo ≤ b.toNat && b.toNat ≤ hi

/-- The second byte's admissible interval, which excludes overlong forms,
surrogates and values above U+10FFFF. -/
def secondRange (b0 : Nat) : Nat × Nat :=
  if b0 = 0xe0 then (0xa0, 0xbf)
  else if b0 = 0xed then (0x80, 0x9f)
  else if b0 = 0xf0 then (0x90, 0xbf)
  else if b0 = 0xf4 then (0x80, 0x8f)
  else (0x80, 0xbf)

def leadWidth (b0 : Nat) : Nat :=
  if b0 < 0x80 then 1
  else if 0xc2 ≤ b0 ∧ b0 ≤ 0xdf then 2
  else if 0xe0 ≤ b0 ∧ b0 ≤ 0xef then 3
  else if 0xf0 ≤ b0 ∧ b0 ≤ 0xf4 then 4
  else 0

/-- `utf8.DecodeRune` on a nonempty string: the rune and whether it was well formed,
with the number of bytes consumed. Ill-formed input consumes exactly one byte. -/
def decodeRune : Bytes → Rune × Nat × Bool
  | [] => (runeError, 0, false)
  | b0 :: rest =>
    let ill := (runeError, 1, false)
    let range := secondRange b0.toNat
    match leadWidth b0.toNat, rest with
    | 1, _ => (b0.toNat, 1, true)
    | 2, b1 :: _ =>
      if cont range.1 range.2 b1 then
        ((b0.toNat % 0x20) * 0x40 + b1.toNat % 0x40, 2, true) else ill
    | 3, b1 :: b2 :: _ =>
      if cont range.1 range.2 b1 && cont 0x80 0xbf b2 then
        ((b0.toNat % 0x10) * 0x1000 + (b1.toNat % 0x40) * 0x40 + b2.toNat % 0x40, 3, true)
      else ill
    | 4, b1 :: b2 :: b3 :: _ =>
      if cont range.1 range.2 b1 && cont 0x80 0xbf b2 && cont 0x80 0xbf b3 then
        ((b0.toNat % 0x08) * 0x40000 + (b1.toNat % 0x40) * 0x1000 +
          (b2.toNat % 0x40) * 0x40 + b3.toNat % 0x40, 4, true)
      else ill
    | _, _ => ill

/-- The decoding loop, bounded by the number of bytes: every turn consumes at least one. -/
def decodeAll : Nat → Bytes → List (Rune × Bool)
  | _, [] => []
  | 0, _ :: _ => []
  | fuel + 1, s@(_ :: _) =>
    let d := decodeRune s
    (d.1, d.2.2) :: decodeAll fuel (s.drop (max 1 d.2.1))

/-- What `for _, ch := range s` visits. -/
def runes (s : Bytes) : List Rune := (decodeAll s.length s).map Prod.fst

def validString (s : Bytes) : Bool := (decodeAll s.length s).all Prod.snd

theorem decodeRune_ascii {b : UInt8} (h : b.toNat < 0x80) (rest : Bytes) :
    decodeRune (b :: rest) = (b.toNat, 1, true) := by
  have hw : leadWidth b.toNat = 1 := if_pos h
  simp only [decodeRune, hw]

theorem leadWidth_bounds (n : Nat) :
    (leadWidth n = 1 → n < 0x80) ∧ (leadWidth n = 2 → 0xc2 ≤ n ∧ n ≤ 0xdf) ∧
      (leadWidth n = 3 → 0xe0 ≤ n ∧ n ≤ 0xef) ∧ (leadWidth n = 4 → 0xf0 ≤ n ∧ n ≤ 0xf4) := by
  unfold leadWidth
  refine ⟨fun h => ?_, fun h => ?_, fun h => ?_, fun h => ?_⟩ <;> split_ifs at h <;> omega

/-- A byte outside ASCII never decodes to an ASCII rune. -/
theorem decodeRune_of_ge {b : UInt8} (h : 0x80 ≤ b.toNat) (rest : Bytes) :
    (0x80 : Nat) ≤ (decodeRune (b :: rest)).1 := by
  obtain ⟨h1, h2, h3, h4⟩ := leadWidth_bounds b.toNat
  have herr : (0x80 : Nat) ≤ runeError := by decide
  simp only [decodeRune]
  split
  case h_1 hw => exact absurd (h1 hw) (by omega)
  case h_2 b1 _ hw =>
    have := h2 hw
    split_ifs
    · simp only
      omega
    · exact herr
  case h_3 b1 b2 _ hw =>
    have := h3 hw
    split_ifs with hc
    · simp only [secondRange, cont, Bool.and_eq_true, decide_eq_true_eq] at hc
      split_ifs at hc <;> simp only [decide_eq_true_eq] at hc ⊢ <;> omega
    · exact herr
  case h_4 b1 b2 b3 _ hw =>
    have := h4 hw
    split_ifs with hc
    · simp only [secondRange, cont, Bool.and_eq_true, decide_eq_true_eq] at hc
      split_ifs at hc <;> simp only [decide_eq_true_eq] at hc ⊢ <;> omega
    · exact herr
  case h_5 => exact herr

theorem mem_runes_of_ascii {s : Bytes} (h : ∀ r ∈ runes s, r < (0x80 : Nat)) :
    ∀ b ∈ s, b.toNat ∈ runes s := by
  induction s with
  | nil => simp
  | cons b rest ih =>
    have hb : b.toNat < 0x80 := by
      by_contra hn
      have hlt : (decodeRune (b :: rest)).1 < (0x80 : Nat) := h _ (by simp [runes, decodeAll])
      exact absurd (decodeRune_of_ge (Nat.not_lt.mp hn) rest) (Nat.not_le.mpr hlt)
    have hcons : runes (b :: rest) = b.toNat :: runes rest := by
      simp [runes, decodeAll, decodeRune_ascii hb rest]
    rw [hcons] at h ⊢
    intro c hc
    rcases List.mem_cons.mp hc with rfl | hc
    · exact List.mem_cons_self
    · exact List.mem_cons_of_mem _ (ih (fun r hr => h r (List.mem_cons_of_mem _ hr)) c hc)

theorem ascii_of_runes {s : Bytes} (h : ∀ r ∈ runes s, r < (0x80 : Nat)) :
    ∀ b ∈ s, b.toNat < 0x80 := fun b hb => h _ (mem_runes_of_ascii h b hb)

theorem validString_ascii {s : Bytes} (h : ∀ b ∈ s, b.toNat < 0x80) : validString s = true := by
  unfold validString
  induction s with
  | nil => rfl
  | cons b rest ih =>
    have hrest := ih fun c hc => h c (List.mem_cons_of_mem b hc)
    simpa [decodeAll, decodeRune_ascii (h b List.mem_cons_self)] using hrest

/-- One representative per simple case-folding orbit that meets ASCII. Every comparison in
the modelled code has a validated ASCII account name on one side, and no other rune folds
to an ASCII one; U+212A and U+017F are the two that do. -/
def foldRune (r : Rune) : Rune :=
  if 0x41 ≤ r ∧ r ≤ 0x5a then r + 0x20
  else if r = 0x212a then 0x6b
  else if r = 0x17f then 0x73
  else r

def equalFold (s t : Bytes) : Bool := (runes s).map foldRune = (runes t).map foldRune

@[simp] theorem equalFold_refl (s : Bytes) : equalFold s s = true := by simp [equalFold]

theorem equalFold_symm {s t : Bytes} (h : equalFold s t = true) : equalFold t s = true := by
  simp only [equalFold, decide_eq_true_eq] at h ⊢
  exact h.symm

def containsAny (s chars : Bytes) : Bool := s.any fun b => chars.contains b

/-- `strings.Split` at one separator byte; the empty string has one empty field. -/
def split (s : Bytes) (sep : UInt8) : List Bytes := s.splitOn sep

theorem mem_of_intercalate {sep b : UInt8} {ls : List Bytes} (h : b ∈ [sep].intercalate ls) :
    b = sep ∨ ∃ l ∈ ls, b ∈ l := by
  cases ls with
  | nil => simp at h
  | cons m rest =>
    rw [TextFields.intercalate_cons, List.mem_append, List.mem_flatMap] at h
    rcases h with hm | ⟨l, hl, hb⟩
    · exact .inr ⟨m, List.mem_cons_self, hm⟩
    · rcases List.mem_cons.mp hb with hsep | hb
      · exact .inl hsep
      · exact .inr ⟨l, List.mem_cons_of_mem m hl, hb⟩

theorem mem_intercalate {sep b : UInt8} {l : Bytes} {ls : List Bytes} (hl : l ∈ ls)
    (hb : b ∈ l) : b ∈ [sep].intercalate ls := by
  cases ls with
  | nil => cases hl
  | cons m rest =>
    rw [TextFields.intercalate_cons, List.mem_append, List.mem_flatMap]
    rcases List.mem_cons.mp hl with rfl | hl
    · exact .inl hb
    · exact .inr ⟨l, hl, List.mem_cons_of_mem sep hb⟩

theorem mem_of_split {s e : Bytes} {sep b : UInt8} (he : e ∈ split s sep) (hb : b ∈ e) :
    b ∈ s := by
  have hjoin : [sep].intercalate (split s sep) = s := List.intercalate_splitOn sep
  have hmem : b ∈ [sep].intercalate (split s sep) := mem_intercalate he hb
  rwa [hjoin] at hmem

def below (s dir : Bytes) : Bool := (dir ++ [0x2f]).isPrefixOf s

def spaceRune (r : Rune) : Bool :=
  (0x09 ≤ r && r ≤ 0x0d) || r == 0x20 || r == 0x85 || r == 0xa0 || r == 0x1680 ||
    (0x2000 ≤ r && r ≤ 0x200a) || r == 0x2028 || r == 0x2029 || r == 0x202f || r == 0x205f ||
    r == 0x3000

/-- `strings.TrimSpace(s) == s` for well-formed UTF-8. -/
def trimmed (s : Bytes) : Bool :=
  !((runes s).head?.any spaceRune) && !((runes s).getLast?.any spaceRune)

def chunks : Nat → Bytes → List (Rune × Bytes)
  | _, [] => []
  | 0, _ :: _ => []
  | fuel + 1, s@(_ :: _) =>
    let d := decodeRune s
    (d.1, s.take (max 1 d.2.1)) :: chunks fuel (s.drop (max 1 d.2.1))

def fields (s : Bytes) : List Bytes :=
  (((chunks s.length s).splitOnP fun c => spaceRune c.1).map fun part =>
    part.flatMap Prod.snd).filter (· ≠ [])

def trimSpace (s : Bytes) : Bytes :=
  let kept := (chunks s.length s).dropWhile fun c => spaceRune c.1
  (kept.reverse.dropWhile fun c => spaceRune c.1).reverse.flatMap Prod.snd

/-- One element of a rooted path under `path.Clean`; the elements kept so far, last first. -/
def cleanElement (kept : List Bytes) (e : Bytes) : List Bytes :=
  if e = [] ∨ e = ascii "." then kept
  else if e = ascii ".." then kept.tail
  else e :: kept

/-- `path.Join` of a rooted path with a relative one. -/
def joinRooted (base rel : Bytes) : Bytes :=
  0x2f :: [0x2f].intercalate ((split (base ++ 0x2f :: rel) 0x2f).foldl cleanElement []).reverse

theorem mem_of_joinRooted {base rel : Bytes} {b : UInt8} (h : b ∈ joinRooted base rel) :
    b = 0x2f ∨ b ∈ base ∨ b ∈ rel := by
  have hkept : ∀ (parts kept : List Bytes), ∀ e ∈ parts.foldl cleanElement kept,
      e ∈ kept ∨ e ∈ parts := by
    intro parts
    induction parts with
    | nil => exact fun kept e he => .inl he
    | cons part rest ih =>
      intro kept e he
      rcases ih _ e he with hin | hin
      · unfold cleanElement at hin
        split_ifs at hin
        · exact .inl hin
        · exact .inl (List.mem_of_mem_tail hin)
        · rcases List.mem_cons.mp hin with rfl | hin
          · exact .inr List.mem_cons_self
          · exact .inl hin
      · exact .inr (List.mem_cons_of_mem _ hin)
  rcases List.mem_cons.mp h with hsep | h
  · exact .inl hsep
  rcases mem_of_intercalate h with hsep | ⟨e, he, hb⟩
  · exact .inl hsep
  · rcases hkept _ _ e (List.mem_reverse.mp he) with hnil | hpart
    · cases hnil
    · rcases List.mem_append.mp (mem_of_split hpart hb) with hbase | hrel
      · exact .inr (.inl hbase)
      · rcases List.mem_cons.mp hrel with hsep | hrel
        · exact .inl hsep
        · exact .inr (.inr hrel)

/-- `fs.ValidPath`: unrooted, with no empty, `.` or `..` element. -/
def validPath (p : Bytes) : Bool :=
  validString p && (p == ascii "." ||
    (split p 0x2f).all fun e => e != [] && e != ascii "." && e != ascii "..")

/-- `strings.ToLower` of ASCII bytes. -/
def lowerAscii (s : Bytes) : Bytes :=
  s.map fun b => if 0x41 ≤ b ∧ b ≤ 0x5a then b + 0x20 else b

def pathBase (p : Bytes) : Bytes :=
  if p = [] then ascii "."
  else
    match (split p 0x2f).reverse.dropWhile (· = []) with
    | [] => ascii "/"
    | e :: _ => e

/-- `path.Clean`. A `..` that has nothing left to remove stays, unless the path is rooted. -/
def pathClean (p : Bytes) : Bytes :=
  let rooted := p.head? == some 0x2f
  let kept := (split p 0x2f).foldl (fun kept e =>
    if e = ascii ".." ∧ !rooted ∧ (kept = [] ∨ kept.head? = some (ascii "..")) then e :: kept
    else cleanElement kept e) []
  let joined := [0x2f].intercalate kept.reverse
  if rooted then 0x2f :: joined else if joined = [] then ascii "." else joined

/-- `path.Dir`: what stands up to the last slash, cleaned. -/
def pathDir (p : Bytes) : Bytes :=
  pathClean (p.reverse.dropWhile (· ≠ 0x2f)).reverse

def hexChar (n : Nat) : UInt8 := if n < 10 then (0x30 + n).toUInt8 else (0x57 + n).toUInt8

def hexEncode (s : Bytes) : Bytes :=
  s.flatMap fun b => [hexChar (b.toNat / 16), hexChar (b.toNat % 16)]

/-- A slice keeps nil apart from empty: `none` is nil. -/
abbrev Slice (α : Type) := Option (List α)

def Slice.items {α : Type} (s : Slice α) : List α := s.getD []

@[simp] theorem Slice.items_some {α : Type} (l : List α) : Slice.items (some l) = l := rfl
@[simp] theorem Slice.items_none {α : Type} : Slice.items (none : Slice α) = [] := rfl
/-- `data[low:high]`, which fails where Go would panic. -/
def slice (data : Bytes) (low high : Nat) : Option Bytes :=
  if low ≤ high ∧ high ≤ data.length then some ((data.take high).drop low) else none

theorem slice_append {before middle after : Bytes} {low high : Nat} (hlow : before.length = low)
    (hhigh : before.length + middle.length = high) :
    slice (before ++ (middle ++ after)) low high = some middle := by
  subst hlow hhigh
  rw [slice, if_pos ⟨Nat.le_add_right _ _, by simp⟩, ← List.append_assoc, ← List.length_append,
    List.take_left, List.drop_left]

theorem exists_append {data : Bytes} {n : Nat} (h : n ≤ data.length) :
    ∃ front back, data = front ++ back ∧ front.length = n :=
  ⟨_, _, (List.take_append_drop n data).symm, List.length_take_of_le h⟩

def maxInt64 : Nat := 2 ^ 63 - 1
def maxUint64 : Nat := 2 ^ 64 - 1

def succ64 (n : Nat) : Nat := (n + 1) % 2 ^ 64

theorem succ64_of_lt {n : Nat} (h : n < maxUint64) : succ64 n = n + 1 := by
  unfold succ64 maxUint64 at *
  omega

end GoText
