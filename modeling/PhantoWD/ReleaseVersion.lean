import PhantoWD.GoText
import Mathlib.Data.List.Chain
import Mathlib.Data.List.Lex
import Mathlib.Data.Prod.Lex
import Mathlib.Data.Sum.Order
import Mathlib.Order.WithBot
import Mathlib.Tactic.Ring

/-!
A bounded subset of SemVer 2.0 compared field by field on its text. The precedence of the
specification is a linear order on what the text denotes; the comparison decides that order.
-/
namespace ReleaseVersion

open GoText

inductive Side where
  | left | right
  deriving DecidableEq

inductive VersionError where
  | invalidVersion (side : Side)
  | notAnUpgrade
  deriving DecidableEq

@[ext]
structure SemanticVersion where
  major : Bytes
  minor : Bytes
  patch : Bytes
  prerelease : List Bytes
  deriving DecidableEq

def maxVersionLength : Nat := 128

def digit (character : Rune) : Bool := 0x30 ≤ character && character ≤ 0x39

def isNumericIdentifier (value : Bytes) : Bool := value ≠ [] && (runes value).all digit

def validNumericIdentifier (value : Bytes) : Bool :=
  !(value = [] || (1 < value.length && value.head? = some 0x30)) && (runes value).all digit

def identifierCharacter (character : Rune) : Bool :=
  digit character || (0x41 ≤ character && character ≤ 0x5a) ||
    (0x61 ≤ character && character ≤ 0x7a) || character = 0x2d

def validPrereleaseIdentifier (value : Bytes) : Bool :=
  if value = [] then false
  else if isNumericIdentifier value then validNumericIdentifier value
  else (runes value).all identifierCharacter

/-- `strings.Cut` at one separator byte: what stands before it, what follows, and whether it
occurs. -/
def cut (s : Bytes) (sep : UInt8) : Bytes × Bytes × Bool :=
  (s.takeWhile (· ≠ sep), (s.dropWhile (· ≠ sep)).tail, s.contains sep)

def parseVersion (value : Bytes) : Option SemanticVersion :=
  if value.length < 6 ∨ maxVersionLength < value.length ∨ value.head? ≠ some 0x76 then none
  else
    let (core, prereleaseText, hasPrerelease) := cut (value.drop 1) 0x2d
    match split core 0x2e with
    | [major, minor, patch] =>
      if [major, minor, patch].all validNumericIdentifier = false then none
      else if hasPrerelease = false then some ⟨major, minor, patch, []⟩
      else if prereleaseText = [] then none
      else if (split prereleaseText 0x2e).all validPrereleaseIdentifier then
        some ⟨major, minor, patch, split prereleaseText 0x2e⟩
      else none
    | _ => none

/-- Go's `<` and `>` on strings, which compare bytes. -/
def compareText (left right : Bytes) : Ordering :=
  if left < right then .lt else if right < left then .gt else .eq

/-- The results -1, 0 and 1 are `lt`, `eq` and `gt`. -/
def compareNumericIdentifiers (left right : Bytes) : Ordering :=
  if left.length < right.length then .lt
  else if right.length < left.length then .gt
  else compareText left right

def compareIdentifiers (left right : Bytes) : Ordering :=
  if isNumericIdentifier left ∧ isNumericIdentifier right then
    compareNumericIdentifiers left right
  else if isNumericIdentifier left then .lt
  else if isNumericIdentifier right then .gt
  else compareText left right

def comparePrereleases : List Bytes → List Bytes → Ordering
  | left :: lefts, right :: rights =>
    (compareIdentifiers left right).then (comparePrereleases lefts rights)
  | [], _ :: _ => .lt
  | _ :: _, [] => .gt
  | [], [] => .eq

def compareParsed (left right : SemanticVersion) : Ordering :=
  (compareNumericIdentifiers left.major right.major).then <|
    (compareNumericIdentifiers left.minor right.minor).then <|
      (compareNumericIdentifiers left.patch right.patch).then <|
        if left.prerelease = [] ∧ right.prerelease = [] then .eq
        else if left.prerelease = [] then .gt
        else if right.prerelease = [] then .lt
        else comparePrereleases left.prerelease right.prerelease

def compareVersions (left right : Bytes) : Except VersionError Ordering :=
  match parseVersion left, parseVersion right with
  | none, _ => .error (.invalidVersion .left)
  | some _, none => .error (.invalidVersion .right)
  | some l, some r => .ok (compareParsed l r)

def checkMonotonicUpgrade (current target : Bytes) : Except VersionError Unit :=
  match compareVersions target current with
  | .error e => .error e
  | .ok .gt => .ok ()
  | .ok _ => .error .notAnUpgrade

def natural (s : Bytes) : Nat := s.foldl (fun n b => 10 * n + (b.toNat - 0x30)) 0

def codes (s : Bytes) : List Nat := s.map UInt8.toNat

/-- A prerelease field: numbers below texts, numbers by size, texts in ASCII order. -/
abbrev Identifier := Nat ⊕ₗ List Nat

def identifier (s : Bytes) : Identifier :=
  if isNumericIdentifier s then toLex (.inl (natural s)) else toLex (.inr (codes s))

/-- Major, minor and patch in this order, then the prerelease fields one by one with a shorter
list below its extensions; a release is above all prereleases of it. -/
abbrev Precedence := Nat ×ₗ Nat ×ₗ Nat ×ₗ WithTop (List Identifier)

def stage (prerelease : List Bytes) : WithTop (List Identifier) :=
  if prerelease = [] then ⊤ else ↑(prerelease.map identifier)

def SemanticVersion.precedence (v : SemanticVersion) : Precedence :=
  toLex (natural v.major, toLex (natural v.minor, toLex (natural v.patch, stage v.prerelease)))

/-- The outcome `o` is the one that compares `a` with `b`. -/
def Decides {α : Type} [LinearOrder α] (o : Ordering) (a b : α) : Prop :=
  match o with
  | .lt => a < b
  | .eq => a = b
  | .gt => b < a

section Decides

variable {α β : Type} [LinearOrder α] [LinearOrder β] {o p : Ordering} {a b : α} {c d : β}

theorem Decides.eq_compare (h : Decides o a b) : o = compare a b := by
  cases o with
  | lt => exact (compare_lt_iff_lt.mpr h).symm
  | eq => exact (compare_eq_iff_eq.mpr h).symm
  | gt => exact (compare_gt_iff_gt.mpr h).symm

theorem Decides.strictMono {f : α → β} (h : Decides o a b) (hf : StrictMono f) :
    Decides o (f a) (f b) := by
  cases o with
  | lt | gt => exact hf h
  | eq => exact congrArg f h

theorem Decides.chain (h : Decides o a b) (hlt : a < b → c < d) (hgt : b < a → d < c)
    (heq : a = b → Decides p c d) : Decides (o.then p) c d := by
  cases o with
  | lt => exact hlt h
  | gt => exact hgt h
  | eq => exact heq h

theorem Decides.and_then (h : Decides o a b) (k : Decides p c d) :
    Decides (o.then p) (toLex (a, c)) (toLex (b, d)) := by
  refine h.chain (fun hab => ?_) (fun hab => ?_) ?_
  · exact Prod.Lex.toLex_lt_toLex.mpr (.inl hab)
  · exact Prod.Lex.toLex_lt_toLex.mpr (.inl hab)
  · rintro rfl
    exact k.strictMono fun _ _ hcd => Prod.Lex.toLex_lt_toLex.mpr (.inr ⟨rfl, hcd⟩)

theorem Decides.cons {l m : List α} (h : Decides o a b) (k : Decides p l m) :
    Decides (o.then p) (a :: l) (b :: m) := by
  refine h.chain (fun hab => ?_) (fun hab => ?_) ?_
  · exact List.cons_lt_cons_iff.mpr (.inl hab)
  · exact List.cons_lt_cons_iff.mpr (.inl hab)
  · rintro rfl
    exact k.strictMono fun _ _ hlm => List.cons_lt_cons_iff.mpr (.inr ⟨rfl, hlm⟩)

end Decides

def Digits (s : Bytes) : Prop := ∀ b ∈ s, 0x30 ≤ b.toNat ∧ b.toNat ≤ 0x39

variable {s : Bytes}

theorem digits_of_runes (h : (runes s).all digit = true) : Digits s := by
  have hrange : ∀ r ∈ runes s, (0x30 : Nat) ≤ r ∧ r ≤ (0x39 : Nat) := by
    intro r hr
    simpa [digit] using List.all_eq_true.mp h r hr
  intro b hb
  have hascii : ∀ r ∈ runes s, r < (0x80 : Nat) := fun r hr =>
    Nat.lt_of_le_of_lt (hrange r hr).2 (by decide)
  exact hrange _ (mem_runes_of_ascii hascii b hb)

theorem Digits.tail {b : UInt8} (h : Digits (b :: s)) : Digits s :=
  fun c hc => h c (List.mem_cons_of_mem b hc)

theorem foldl_natural (s : Bytes) (n : Nat) :
    s.foldl (fun n b => 10 * n + (b.toNat - 0x30)) n = n * 10 ^ s.length + natural s := by
  induction s generalizing n with
  | nil => simp [natural]
  | cons b s ih =>
    have hzero : natural (b :: s) = (b.toNat - 0x30) * 10 ^ s.length + natural s := by
      simp only [natural, List.foldl_cons, Nat.mul_zero, Nat.zero_add]
      exact ih _
    rw [List.foldl_cons, ih, hzero, List.length_cons, Nat.pow_succ]
    ring

theorem natural_cons (b : UInt8) (s : Bytes) :
    natural (b :: s) = (b.toNat - 0x30) * 10 ^ s.length + natural s := by
  simpa [natural] using foldl_natural s (b.toNat - 0x30)

theorem natural_lt (h : Digits s) : natural s < 10 ^ s.length := by
  induction s with
  | nil => simp [natural]
  | cons b s ih =>
    have hb := h b List.mem_cons_self
    have hs := ih h.tail
    have hlead : (b.toNat - 0x30) * 10 ^ s.length ≤ 9 * 10 ^ s.length :=
      Nat.mul_le_mul_right _ (by omega)
    rw [natural_cons, List.length_cons, Nat.pow_succ]
    omega

variable {t : Bytes}

theorem natural_lt_of_lt (hs : Digits s) (ht : Digits t) (hlen : s.length = t.length) (h : s < t) :
    natural s < natural t := by
  induction s generalizing t with
  | nil =>
    rw [List.length_nil, eq_comm, List.length_eq_zero_iff] at hlen
    subst hlen
    exact absurd h (List.not_lt_nil _)
  | cons b s ih =>
    cases t with
    | nil => exact absurd h (List.not_lt_nil _)
    | cons d t =>
      have hlen' : s.length = t.length := by simpa using hlen
      have hb := hs b List.mem_cons_self
      rw [natural_cons, natural_cons, hlen']
      rcases List.cons_lt_cons_iff.mp h with hlt | ⟨rfl, hlt⟩
      · -- the leading digits differ, so the tails no longer matter
        have hbd : b.toNat < d.toNat := UInt8.lt_iff_toNat_lt.mp hlt
        have htail := natural_lt hs.tail
        have hstep : (b.toNat - 0x30 + 1) * 10 ^ t.length ≤ (d.toNat - 0x30) * 10 ^ t.length :=
          Nat.mul_le_mul_right _ (by omega)
        rw [hlen'] at htail
        rw [Nat.add_mul, Nat.one_mul] at hstep
        omega
      · have := ih hs.tail ht.tail hlen' hlt
        omega

theorem validNumeric_spec (h : validNumericIdentifier s = true) :
    s ≠ [] ∧ Digits s ∧ (1 < s.length → s.head? ≠ some 0x30) := by
  simp only [validNumericIdentifier, Bool.and_eq_true, Bool.not_eq_true', Bool.or_eq_false_iff,
    Bool.and_eq_false_imp, decide_eq_true_eq, decide_eq_false_iff_not] at h
  exact ⟨h.1.1, digits_of_runes h.2, h.1.2⟩

theorem le_natural (h : validNumericIdentifier s = true) (hlong : 1 < s.length) :
    10 ^ (s.length - 1) ≤ natural s := by
  obtain ⟨_, hdigits, hlead⟩ := validNumeric_spec h
  cases s with
  | nil => simp at hlong
  | cons b s =>
    have hb := hdigits b List.mem_cons_self
    have hne : b.toNat ≠ 0x30 := by
      intro hz
      exact hlead hlong (congrArg some (UInt8.toNat_inj.mp hz))
    have hone : 1 * 10 ^ s.length ≤ (b.toNat - 0x30) * 10 ^ s.length :=
      Nat.mul_le_mul_right _ (by omega)
    rw [natural_cons]
    simp only [List.length_cons, Nat.add_sub_cancel]
    omega

theorem natural_lt_of_shorter (hs : validNumericIdentifier s = true)
    (ht : validNumericIdentifier t = true) (h : s.length < t.length) :
    natural s < natural t := by
  obtain ⟨hne, hdigits, _⟩ := validNumeric_spec hs
  have hpos : 0 < s.length := List.length_pos_iff.mpr hne
  calc natural s < 10 ^ s.length := natural_lt hdigits
    _ ≤ 10 ^ (t.length - 1) := Nat.pow_le_pow_right (by decide) (by omega)
    _ ≤ natural t := le_natural ht (by omega)

theorem codes_lt_iff (s t : Bytes) : codes s < codes t ↔ s < t := by
  induction s generalizing t with
  | nil => cases t <;> simp [codes]
  | cons b s ih =>
    cases t with
    | nil => simp [codes]
    | cons d t =>
      have := ih t
      simp only [codes, List.map_cons, List.cons_lt_cons_iff, UInt8.toNat_inj,
        UInt8.lt_iff_toNat_lt] at this ⊢
      rw [this]

theorem codes_injective : Function.Injective codes :=
  List.map_injective_iff.mpr fun _ _ => UInt8.toNat_inj.mp

theorem compareText_decides (s t : Bytes) : Decides (compareText s t) (codes s) (codes t) := by
  unfold compareText
  by_cases hlt : s < t
  · rw [if_pos hlt]
    exact (codes_lt_iff s t).mpr hlt
  by_cases hgt : t < s
  · rw [if_neg hlt, if_pos hgt]
    exact (codes_lt_iff t s).mpr hgt
  · rw [if_neg hlt, if_neg hgt]
    rw [← codes_lt_iff] at hlt hgt
    exact le_antisymm (not_lt.mp hgt) (not_lt.mp hlt)

theorem compareText_eq (h : compareText s t = .eq) : s = t := by
  have := compareText_decides s t
  rw [h] at this
  exact codes_injective this

theorem compareNumericIdentifiers_eq (h : compareNumericIdentifiers s t = .eq) :
    s = t := by
  unfold compareNumericIdentifiers at h
  split_ifs at h
  exact compareText_eq h

theorem compareNumericIdentifiers_decides (hs : validNumericIdentifier s = true)
    (ht : validNumericIdentifier t = true) :
    Decides (compareNumericIdentifiers s t) (natural s) (natural t) := by
  have hds := (validNumeric_spec hs).2.1
  have hdt := (validNumeric_spec ht).2.1
  unfold compareNumericIdentifiers
  by_cases hlt : s.length < t.length
  · rw [if_pos hlt]
    exact natural_lt_of_shorter hs ht hlt
  by_cases hgt : t.length < s.length
  · rw [if_neg hlt, if_pos hgt]
    exact natural_lt_of_shorter ht hs hgt
  · rw [if_neg hlt, if_neg hgt]
    have hlen : s.length = t.length := by omega
    have htext := compareText_decides s t
    cases h : compareText s t with
    | lt =>
      rw [h] at htext
      exact natural_lt_of_lt hds hdt hlen ((codes_lt_iff s t).mp htext)
    | gt =>
      rw [h] at htext
      exact natural_lt_of_lt hdt hds hlen.symm ((codes_lt_iff t s).mp htext)
    | eq => exact congrArg natural (compareText_eq h)

structure SemanticVersion.Valid (v : SemanticVersion) : Prop where
  major : validNumericIdentifier v.major = true
  minor : validNumericIdentifier v.minor = true
  patch : validNumericIdentifier v.patch = true
  prerelease : ∀ s ∈ v.prerelease, validPrereleaseIdentifier s = true

theorem numeric_of_valid (h : validPrereleaseIdentifier s = true)
    (hn : isNumericIdentifier s = true) : validNumericIdentifier s = true := by
  unfold validPrereleaseIdentifier at h
  by_cases hs : s = []
  · rw [if_pos hs] at h
    cases h
  · rwa [if_neg hs, if_pos hn] at h

theorem compareIdentifiers_decides (hs : validPrereleaseIdentifier s = true)
    (ht : validPrereleaseIdentifier t = true) :
    Decides (compareIdentifiers s t) (identifier s) (identifier t) := by
  unfold compareIdentifiers identifier
  cases hns : isNumericIdentifier s with
  | true =>
    cases hnt : isNumericIdentifier t with
    | true =>
      exact (compareNumericIdentifiers_decides (numeric_of_valid hs hns)
        (numeric_of_valid ht hnt)).strictMono Sum.Lex.inl_strictMono
    | false => exact Sum.Lex.inl_lt_inr _ _
  | false =>
    cases hnt : isNumericIdentifier t with
    | true => exact Sum.Lex.inl_lt_inr _ _
    | false => exact (compareText_decides s t).strictMono Sum.Lex.inr_strictMono

theorem compareIdentifiers_eq (h : compareIdentifiers s t = .eq) : s = t := by
  unfold compareIdentifiers at h
  split_ifs at h
  · exact compareNumericIdentifiers_eq h
  · exact compareText_eq h

theorem comparePrereleases_decides {l m : List Bytes}
    (hl : ∀ s ∈ l, validPrereleaseIdentifier s = true)
    (hm : ∀ s ∈ m, validPrereleaseIdentifier s = true) :
    Decides (comparePrereleases l m) (l.map identifier) (m.map identifier) := by
  induction l generalizing m with
  | nil =>
    cases m with
    | nil => rfl
    | cons t m => exact List.nil_lt_cons _ _
  | cons s l ih =>
    cases m with
    | nil => exact List.nil_lt_cons _ _
    | cons t m =>
      have hhead := compareIdentifiers_decides (hl s List.mem_cons_self) (hm t List.mem_cons_self)
      exact hhead.cons (ih (fun u hu => hl u (List.mem_cons_of_mem s hu))
        fun u hu => hm u (List.mem_cons_of_mem t hu))

theorem comparePrereleases_eq {l m : List Bytes} (h : comparePrereleases l m = .eq) : l = m := by
  induction l generalizing m with
  | nil =>
    cases m with
    | nil => rfl
    | cons t m => cases h
  | cons s l ih =>
    cases m with
    | nil => cases h
    | cons t m =>
      obtain ⟨hhead, htail⟩ := Ordering.then_eq_eq.mp h
      rw [compareIdentifiers_eq hhead, ih htail]

theorem stage_decides {l m : List Bytes} (hl : ∀ s ∈ l, validPrereleaseIdentifier s = true)
    (hm : ∀ s ∈ m, validPrereleaseIdentifier s = true) :
    Decides (if l = [] ∧ m = [] then .eq else if l = [] then .gt else if m = [] then .lt
      else comparePrereleases l m) (stage l) (stage m) := by
  unfold stage
  by_cases hle : l = []
  · by_cases hme : m = []
    · simp only [hle, hme, and_self, if_true]
      rfl
    · simp only [hle, hme, and_false, if_false, if_true]
      exact WithTop.coe_lt_top _
  · by_cases hme : m = []
    · simp only [hle, hme, false_and, if_false, if_true]
      exact WithTop.coe_lt_top _
    · simp only [hle, hme, false_and, if_false]
      exact (comparePrereleases_decides hl hm).strictMono WithTop.coe_strictMono

variable {v w : SemanticVersion}

theorem compareParsed_decides (hv : v.Valid) (hw : w.Valid) :
    Decides (compareParsed v w) v.precedence w.precedence := by
  have hmajor := compareNumericIdentifiers_decides hv.major hw.major
  have hminor := compareNumericIdentifiers_decides hv.minor hw.minor
  have hpatch := compareNumericIdentifiers_decides hv.patch hw.patch
  exact hmajor.and_then (hminor.and_then (hpatch.and_then
    (stage_decides hv.prerelease hw.prerelease)))

theorem compareParsed_eq (h : compareParsed v w = .eq) : v = w := by
  obtain ⟨hmajor, h⟩ := Ordering.then_eq_eq.mp h
  obtain ⟨hminor, h⟩ := Ordering.then_eq_eq.mp h
  obtain ⟨hpatch, h⟩ := Ordering.then_eq_eq.mp h
  have hpre : v.prerelease = w.prerelease := by
    split_ifs at h with hboth
    · rw [hboth.1, hboth.2]
    · exact comparePrereleases_eq h
  exact SemanticVersion.ext (compareNumericIdentifiers_eq hmajor)
    (compareNumericIdentifiers_eq hminor) (compareNumericIdentifiers_eq hpatch) hpre

def SemanticVersion.render (v : SemanticVersion) : Bytes :=
  0x76 :: [0x2e].intercalate [v.major, v.minor, v.patch] ++
    if v.prerelease = [] then [] else 0x2d :: [0x2e].intercalate v.prerelease

theorem cut_spec (s : Bytes) (sep : UInt8) :
    s = (cut s sep).1 ++ if (cut s sep).2.2 then sep :: (cut s sep).2.1 else [] := by
  induction s with
  | nil => rfl
  | cons b s ih =>
    by_cases hb : b = sep
    · simp [cut, hb]
    · have hsep : ¬ sep = b := fun h => hb h.symm
      simp only [cut] at ih ⊢
      simpa [hb, hsep] using ih

theorem intercalate_split (s : Bytes) (sep : UInt8) : [sep].intercalate (split s sep) = s :=
  List.intercalate_splitOn sep

/-- A version has one spelling. -/
theorem parseVersion_spec (h : parseVersion s = some v) :
    v.Valid ∧ s = v.render := by
  unfold parseVersion at h
  by_cases hhead : s.length < 6 ∨ maxVersionLength < s.length ∨ s.head? ≠ some 0x76
  · rw [if_pos hhead] at h
    cases h
  rw [if_neg hhead] at h
  simp only [not_or, Decidable.not_not] at hhead
  obtain ⟨rest, rfl⟩ : ∃ rest, s = 0x76 :: rest := List.head?_eq_some_iff.mp hhead.2.2
  have hcut := cut_spec rest 0x2d
  simp only [List.drop_one, List.tail_cons] at h
  rcases hc : cut rest 0x2d with ⟨core, text, found⟩
  rw [hc] at h hcut
  have hcore := intercalate_split core 0x2e
  simp only at h hcut
  split at h
  case h_2 => cases h
  case h_1 major minor patch hsplit =>
    rw [hsplit] at hcore
    split_ifs at h with hnum hfound htext hpre
    · cases h
      simp only [Bool.not_eq_false, List.all_cons, List.all_nil, Bool.and_true,
        Bool.and_eq_true] at hnum
      refine ⟨⟨hnum.1, hnum.2.1, hnum.2.2, by simp⟩, ?_⟩
      simpa [SemanticVersion.render, hcore, hfound] using hcut
    · cases h
      simp only [Bool.not_eq_false, List.all_cons, List.all_nil, Bool.and_true,
        Bool.and_eq_true] at hnum
      refine ⟨⟨hnum.1, hnum.2.1, hnum.2.2, List.all_eq_true.mp hpre⟩, ?_⟩
      have hne : split text 0x2e ≠ [] := List.splitOn_ne_nil _ _
      simpa [SemanticVersion.render, hcore, hfound, hne, intercalate_split] using hcut

theorem parseVersion_injective (hs : parseVersion s = some v) (ht : parseVersion t = some v) :
    s = t :=
  (parseVersion_spec hs).2.trans (parseVersion_spec ht).2.symm

variable {l r : Bytes}

theorem compareVersions_of_parse (hl : parseVersion l = some v) (hr : parseVersion r = some w) :
    compareVersions l r = .ok (compare v.precedence w.precedence) := by
  have hdec := compareParsed_decides (parseVersion_spec hl).1 (parseVersion_spec hr).1
  simp only [compareVersions, hl, hr, hdec.eq_compare]

theorem compareVersions_ok {o : Ordering} (h : compareVersions l r = .ok o) :
    ∃ v w, parseVersion l = some v ∧ parseVersion r = some w := by
  unfold compareVersions at h
  cases hl : parseVersion l with
  | none => simp [hl] at h
  | some v =>
    cases hr : parseVersion r with
    | none => simp [hl, hr] at h
    | some w => exact ⟨v, w, rfl, rfl⟩

theorem compareVersions_ok_iff {o : Ordering} :
    compareVersions l r = .ok o ↔ ∃ v w, parseVersion l = some v ∧ parseVersion r = some w ∧
      compare v.precedence w.precedence = o := by
  constructor
  · intro h
    obtain ⟨v, w, hl, hr⟩ := compareVersions_ok h
    rw [compareVersions_of_parse hl hr] at h
    exact ⟨v, w, hl, hr, Except.ok.inj h⟩
  · rintro ⟨v, w, hl, hr, rfl⟩
    exact compareVersions_of_parse hl hr

theorem compareVersions_eq_iff (hl : parseVersion l = some v) :
    compareVersions l r = .ok .eq ↔ l = r := by
  constructor
  · intro h
    obtain ⟨v', w, hl', hr⟩ := compareVersions_ok h
    simp only [compareVersions, hl', hr, Except.ok.injEq] at h
    rw [compareParsed_eq h] at hl'
    exact parseVersion_injective hl' hr
  · rintro rfl
    exact compareVersions_ok_iff.mpr ⟨v, v, hl, hl, compare_eq_iff_eq.mpr rfl⟩

theorem compareVersions_swap {o : Ordering} (h : compareVersions l r = .ok o) :
    compareVersions r l = .ok o.swap := by
  obtain ⟨v, w, hl, hr, hc⟩ := compareVersions_ok_iff.mp h
  refine compareVersions_ok_iff.mpr ⟨w, v, hr, hl, ?_⟩
  rw [← hc]
  exact Std.OrientedCmp.eq_swap

theorem compareVersions_trans {a b c : Bytes} (hab : compareVersions a b = .ok .lt)
    (hbc : compareVersions b c = .ok .lt) : compareVersions a c = .ok .lt := by
  obtain ⟨u, v, ha, hb, hlt⟩ := compareVersions_ok_iff.mp hab
  obtain ⟨v', w, hb', hc, hlt'⟩ := compareVersions_ok_iff.mp hbc
  rw [hb] at hb'
  cases hb'
  have htrans := (compare_lt_iff_lt.mp hlt).trans (compare_lt_iff_lt.mp hlt')
  exact compareVersions_ok_iff.mpr ⟨u, w, ha, hc, compare_lt_iff_lt.mpr htrans⟩

theorem checkMonotonicUpgrade_ok {current target : Bytes} :
    checkMonotonicUpgrade current target = .ok () ↔ compareVersions current target = .ok .lt := by
  have hswap : compareVersions target current = .ok .gt ↔
      compareVersions current target = .ok .lt :=
    ⟨fun h => compareVersions_swap h, fun h => compareVersions_swap h⟩
  rw [← hswap]
  unfold checkMonotonicUpgrade
  cases compareVersions target current with
  | error e => simp
  | ok o => cases o <;> simp

/-- Along a chain of admitted upgrades every version is below every later one. -/
theorem upgrades_ascend {chain : List Bytes}
    (h : chain.IsChain fun current target => checkMonotonicUpgrade current target = .ok ()) :
    chain.Pairwise fun a b => compareVersions a b = .ok .lt := by
  have hlt := h.imp fun _ _ hab => checkMonotonicUpgrade_ok.mp hab
  have htrans : IsTrans Bytes fun a b => compareVersions a b = .ok .lt :=
    ⟨fun _ _ _ => compareVersions_trans⟩
  exact hlt.pairwise

theorem upgrades_distinct {chain : List Bytes}
    (h : chain.IsChain fun current target => checkMonotonicUpgrade current target = .ok ()) :
    chain.Nodup := by
  refine (upgrades_ascend h).imp ?_
  rintro a b hab rfl
  obtain ⟨v, _, hv, _⟩ := compareVersions_ok hab
  rw [(compareVersions_eq_iff hv).mpr rfl] at hab
  cases hab

theorem compareVersions_same_core (hl : parseVersion l = some v) (hr : parseVersion r = some w)
    (hmajor : v.major = w.major) (hminor : v.minor = w.minor) (hpatch : v.patch = w.patch) :
    compareVersions l r = .ok (compare (stage v.prerelease) (stage w.prerelease)) := by
  have hself (s : Bytes) : compareNumericIdentifiers s s = .eq := by
    simp [compareNumericIdentifiers, compareText, ← codes_lt_iff]
  have hstage := stage_decides (parseVersion_spec hl).1.prerelease
    (parseVersion_spec hr).1.prerelease
  simp only [compareVersions, hl, hr, compareParsed, hmajor, hminor, hpatch, hself,
    Ordering.eq_then, ← hstage.eq_compare]

/-- On the accepted strings the comparison is the linear order of SemVer precedence, identical
strings alone compare equal, and no chain of admitted upgrades meets a version twice. -/
theorem compare_versions_precedence :
    (∀ l r v w, parseVersion l = some v → parseVersion r = some w →
      compareVersions l r = .ok (compare v.precedence w.precedence) ∧
      (compareVersions l r = .ok .eq ↔ l = r)) ∧
    (∀ l r o, compareVersions l r = .ok o → compareVersions r l = .ok o.swap) ∧
    (∀ a b c, compareVersions a b = .ok .lt → compareVersions b c = .ok .lt →
      compareVersions a c = .ok .lt) ∧
    (∀ s t, validNumericIdentifier s = true → validNumericIdentifier t = true →
      compareNumericIdentifiers s t = compare (natural s) (natural t)) ∧
    (∀ l r v w, parseVersion l = some v → parseVersion r = some w →
      v.major = w.major → v.minor = w.minor → v.patch = w.patch →
      (v.prerelease = [] → w.prerelease ≠ [] → compareVersions l r = .ok .gt) ∧
      (v.prerelease ≠ [] → w.prerelease ≠ [] → ∃ o, compareVersions l r = .ok o ∧
        Decides o (v.prerelease.map identifier) (w.prerelease.map identifier))) ∧
    ∀ chain : List Bytes,
      (chain.IsChain fun current target => checkMonotonicUpgrade current target = .ok ()) →
        chain.Nodup := by
  refine ⟨?_, fun l r o => compareVersions_swap, fun a b c => compareVersions_trans, ?_, ?_,
    fun chain => upgrades_distinct⟩
  · intro l r v w hl hr
    exact ⟨compareVersions_of_parse hl hr, compareVersions_eq_iff hl⟩
  · intro s t hs ht
    exact (compareNumericIdentifiers_decides hs ht).eq_compare
  · intro l r v w hl hr hmajor hminor hpatch
    rw [compareVersions_same_core hl hr hmajor hminor hpatch]
    constructor
    · intro hv hw
      simp only [stage, hv, hw, if_true, if_false]
      exact congrArg _ (compare_gt_iff_gt.mpr (WithTop.coe_lt_top _))
    · intro hv hw
      have hdec := comparePrereleases_decides (parseVersion_spec hl).1.prerelease
        (parseVersion_spec hr).1.prerelease
      simp only [stage, hv, hw, if_false]
      exact ⟨_, congrArg _ (hdec.strictMono WithTop.coe_strictMono).eq_compare.symm, hdec⟩

theorem prerelease_upgrades :
    checkMonotonicUpgrade (ascii "v1.0.0-rc.2") (ascii "v1.0.0-rc.10") = .ok () ∧
      checkMonotonicUpgrade (ascii "v1.0.0-rc.10") (ascii "v1.0.0") = .ok () ∧
        [ascii "v1.0.0-rc.2", ascii "v1.0.0-rc.10", ascii "v1.0.0"].Nodup := by
  have hfirst : checkMonotonicUpgrade (ascii "v1.0.0-rc.2") (ascii "v1.0.0-rc.10") = .ok () := by
    decide +kernel
  have hsecond : checkMonotonicUpgrade (ascii "v1.0.0-rc.10") (ascii "v1.0.0") = .ok () := by
    decide +kernel
  refine ⟨hfirst, hsecond, compare_versions_precedence.2.2.2.2.2 _ ?_⟩
  simp [List.isChain_cons_cons, hfirst, hsecond]

end ReleaseVersion
