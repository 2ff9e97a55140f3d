import PhantoWD.GoText
import Mathlib.Tactic.SplitIfs

/-!
The kernel reports changes of a directory as records with a fixed header and a padded name.
`consumeChanges` accepts a run of records only if each of them is a change of the one watched
directory.
-/
namespace RegistryWatch

open GoText

/-- `IN_MODIFY`, `IN_ATTRIB`, `IN_CLOSE_WRITE`, `IN_CREATE`, `IN_DELETE`, `IN_MOVED_FROM` and
`IN_MOVED_TO`. -/
def mutationEvents : UInt32 := 0x2 ||| 0x4 ||| 0x8 ||| 0x100 ||| 0x200 ||| 0x40 ||| 0x80

/-- `IN_DELETE_SELF`, `IN_MOVE_SELF`, `IN_UNMOUNT`, `IN_IGNORED` and `IN_Q_OVERFLOW`. -/
def lostWatchEvents : UInt32 := 0x400 ||| 0x800 ||| 0x2000 ||| 0x8000 ||| 0x4000

def isDirectory : UInt32 := 0x40000000

def sizeofInotifyEvent : Nat := 16

def nativeUint32 (big : Bool) (data : Bytes) (i : Nat) : Option UInt32 :=
  match data[i]?, data[i + 1]?, data[i + 2]?, data[i + 3]? with
  | some a, some b, some c, some d =>
    some (if big then
      a.toUInt32 <<< 24 ||| b.toUInt32 <<< 16 ||| c.toUInt32 <<< 8 ||| d.toUInt32
    else
      d.toUInt32 <<< 24 ||| c.toUInt32 <<< 16 ||| b.toUInt32 <<< 8 ||| a.toUInt32)
  | _, _, _, _ => none

def suffix (data : Bytes) (i : Nat) : Option Bytes :=
  if i ≤ data.length then some (data.drop i) else none

inductive Consumed where
  | ok (changed : Bool)
  | refused
  | outOfRange
  deriving DecidableEq

def headerOk (watchID : Nat) (wd mask length : UInt32) (available : Nat) : Bool :=
  wd.toNat == watchID % 2 ^ 32 && mask &&& lostWatchEvents == 0 &&
    mask &&& mutationEvents != 0 && mask &&& ~~~(mutationEvents ||| isDirectory) == 0 &&
    decide (length.toNat ≤ available % 2 ^ 32)

/-- One record off the front; `none` is an index outside the input, `some none` a refusal. -/
def consumeRecord (big : Bool) (watchID : Nat) (data : Bytes) : Option (Option Bytes) :=
  if data.length < sizeofInotifyEvent then some none
  else
    match nativeUint32 big data 0, nativeUint32 big data 4, nativeUint32 big data 12 with
    | some wd, some mask, some length =>
      if headerOk watchID wd mask length (data.length - sizeofInotifyEvent) = false then some none
      else (suffix data (sizeofInotifyEvent + length.toNat)).map some
    | _, _, _ => none

/-- The loop of `consumeChanges`. A record has at least its header, so a bound of the input's
length is never used up. -/
def consumeLoop (big : Bool) (watchID : Nat) : Nat → Bool → Bytes → Consumed
  | _, changed, [] => .ok changed
  | 0, _, _ :: _ => .refused
  | fuel + 1, _, b :: data =>
    match consumeRecord big watchID (b :: data) with
    | none => .outOfRange
    | some none => .refused
    | some (some rest) => consumeLoop big watchID fuel true rest

def consumeChanges (big : Bool) (watchID : Nat) (data : Bytes) : Consumed :=
  consumeLoop big watchID data.length false data

variable {big : Bool} {watchID : Nat}

def IsMutation (big : Bool) (watchID : Nat) (record : Bytes) : Prop :=
  ∃ wd mask length, nativeUint32 big record 0 = some wd ∧ nativeUint32 big record 4 = some mask ∧
    nativeUint32 big record 12 = some length ∧ wd.toNat = watchID % 2 ^ 32 ∧
    mask &&& lostWatchEvents = 0 ∧ mask &&& mutationEvents ≠ 0 ∧
    mask &&& ~~~(mutationEvents ||| isDirectory) = 0 ∧
    record.length = sizeofInotifyEvent + length.toNat

def Mutations (big : Bool) (watchID : Nat) (data : Bytes) : Prop :=
  ∃ records : List Bytes, data = records.flatten ∧ ∀ r ∈ records, IsMutation big watchID r

variable {data : Bytes}

theorem nativeUint32_some {i : Nat} (h : i + 3 < data.length) :
    ∃ word, nativeUint32 big data i = some word := by
  rw [nativeUint32, List.getElem?_eq_getElem (by omega), List.getElem?_eq_getElem (by omega),
    List.getElem?_eq_getElem (by omega), List.getElem?_eq_getElem h]
  exact ⟨_, rfl⟩

theorem nativeUint32_append {front rest : Bytes} {i : Nat} (h : i + 3 < front.length) :
    nativeUint32 big (front ++ rest) i = nativeUint32 big front i := by
  rw [nativeUint32, nativeUint32, List.getElem?_append_left (by omega),
    List.getElem?_append_left (by omega), List.getElem?_append_left (by omega),
    List.getElem?_append_left h]

theorem headerOk_iff {wd mask length : UInt32} {available : Nat} :
    headerOk watchID wd mask length available = true ↔ wd.toNat = watchID % 2 ^ 32 ∧
      mask &&& lostWatchEvents = 0 ∧ mask &&& mutationEvents ≠ 0 ∧
      mask &&& ~~~(mutationEvents ||| isDirectory) = 0 ∧ length.toNat ≤ available % 2 ^ 32 := by
  simp [headerOk, and_assoc]

theorem consumeRecord_inRange : consumeRecord big watchID data ≠ none := by
  rw [consumeRecord]
  split_ifs with hshort
  · exact nofun
  · rw [sizeofInotifyEvent] at hshort
    obtain ⟨wd, hwd⟩ := @nativeUint32_some big data 0 (by omega)
    obtain ⟨mask, hmask⟩ := @nativeUint32_some big data 4 (by omega)
    obtain ⟨length, hlength⟩ := @nativeUint32_some big data 12 (by omega)
    simp only [hwd, hmask, hlength]
    split_ifs with hbad
    · exact nofun
    · rw [Bool.not_eq_false, headerOk_iff] at hbad
      obtain ⟨-, -, -, -, hle⟩ := hbad
      have hmod := Nat.mod_le (data.length - sizeofInotifyEvent) (2 ^ 32)
      rw [suffix, if_pos (by rw [sizeofInotifyEvent] at hle hmod ⊢; omega)]
      exact nofun

/-- No input makes the loop look outside of it. -/
theorem consumeLoop_inRange {fuel : Nat} {changed : Bool} :
    consumeLoop big watchID fuel changed data ≠ .outOfRange := by
  induction fuel generalizing changed data with
  | zero => cases data <;> exact nofun
  | succ fuel ih =>
    cases data with
    | nil => exact nofun
    | cons b data =>
      rw [consumeLoop]
      split
      · rename_i hnone
        exact absurd hnone consumeRecord_inRange
      · exact nofun
      · exact ih

/-- A consumed record is a change of the watched directory. -/
theorem consumeRecord_some {rest : Bytes} (h : consumeRecord big watchID data = some (some rest)) :
    ∃ record, IsMutation big watchID record ∧ data = record ++ rest := by
  rw [consumeRecord] at h
  split_ifs at h with hshort
  · cases h
  split at h
  · rename_i wd mask length hwd hmask hlength
    split_ifs at h with hbad
    · cases h
    obtain ⟨rest', hrest, heq⟩ := Option.map_eq_some_iff.mp h
    cases heq
    rw [suffix] at hrest
    split_ifs at hrest with hle
    cases hrest
    rw [Bool.not_eq_false, headerOk_iff] at hbad
    obtain ⟨hid, hlost, hmutation, hother, -⟩ := hbad
    have hsplit := (List.take_append_drop (sizeofInotifyEvent + length.toNat) data).symm
    have hfront : (data.take (sizeofInotifyEvent + length.toNat)).length =
        sizeofInotifyEvent + length.toNat := List.length_take_of_le hle
    have hword : ∀ i, i + 3 < sizeofInotifyEvent →
        nativeUint32 big data i =
          nativeUint32 big (data.take (sizeofInotifyEvent + length.toNat)) i := by
      intro i hi
      conv_lhs => rw [hsplit]
      exact nativeUint32_append (by rw [hfront]; omega)
    refine ⟨data.take (sizeofInotifyEvent + length.toNat), ⟨wd, mask, length, ?_, ?_, ?_, hid,
      hlost, hmutation, hother, hfront⟩, hsplit⟩
    · rw [← hword 0 (by decide), hwd]
    · rw [← hword 4 (by decide), hmask]
    · rw [← hword 12 (by decide), hlength]
  · cases h

theorem consumeLoop_ok {fuel : Nat} {changed result : Bool}
    (h : consumeLoop big watchID fuel changed data = .ok result) :
    Mutations big watchID data ∧ (data = [] ∧ result = changed ∨ data ≠ [] ∧ result = true) := by
  induction fuel generalizing changed data with
  | zero =>
    cases data with
    | nil =>
      cases h
      exact ⟨⟨[], rfl, by simp⟩, .inl ⟨rfl, rfl⟩⟩
    | cons b data => cases h
  | succ fuel ih =>
    cases data with
    | nil =>
      cases h
      exact ⟨⟨[], rfl, by simp⟩, .inl ⟨rfl, rfl⟩⟩
    | cons b data =>
      rw [consumeLoop] at h
      split at h
      · cases h
      · cases h
      · rename_i rest hrecord
        obtain ⟨record, hmutation, hsplit⟩ := consumeRecord_some hrecord
        obtain ⟨⟨records, rfl, hall⟩, hresult⟩ := ih h
        refine ⟨⟨record :: records, hsplit, List.forall_mem_cons.mpr ⟨hmutation, hall⟩⟩,
          .inr ⟨by simp, ?_⟩⟩
        rcases hresult with ⟨-, hresult⟩ | ⟨-, hresult⟩
        · exact hresult
        · exact hresult

/-- What is consumed without a refusal is a run of changes, and if there was anything at all it
counts as a change. -/
theorem consumeChanges_ok {changed : Bool} (h : consumeChanges big watchID data = .ok changed) :
    Mutations big watchID data ∧ (data ≠ [] → changed = true) := by
  obtain ⟨hmutations, hresult⟩ := consumeLoop_ok h
  refine ⟨hmutations, fun hne => ?_⟩
  rcases hresult with ⟨hnil, -⟩ | ⟨-, hresult⟩
  · exact absurd hnil hne
  · exact hresult

theorem consumeRecord_mutation {record rest : Bytes} (h : IsMutation big watchID record)
    (hsmall : (record ++ rest).length < 2 ^ 32) :
    consumeRecord big watchID (record ++ rest) = some (some rest) := by
  obtain ⟨wd, mask, length, hwd, hmask, hlength, hid, hlost, hmutation, hother, hsize⟩ := h
  rw [List.length_append] at hsmall
  have hheader : headerOk watchID wd mask length
      (record.length + rest.length - sizeofInotifyEvent) = true :=
    headerOk_iff.mpr ⟨hid, hlost, hmutation, hother, by rw [Nat.mod_eq_of_lt]; all_goals omega⟩
  have hword : ∀ i, i + 3 < sizeofInotifyEvent →
      nativeUint32 big (record ++ rest) i = nativeUint32 big record i :=
    fun i hi => nativeUint32_append (by omega)
  have hsuffix : suffix (record ++ rest) (sizeofInotifyEvent + length.toNat) = some rest := by
    rw [suffix, if_pos (by simp; omega), ← hsize, List.drop_left]
  rw [consumeRecord, List.length_append, if_neg (by omega), hword 0 (by decide),
    hword 4 (by decide), hword 12 (by decide), hwd, hmask, hlength]
  simp only [hheader, Bool.true_eq_false, if_false, hsuffix, Option.map_some]

theorem consumeLoop_mutations {fuel : Nat} {changed : Bool} {records : List Bytes}
    (hfuel : records.flatten.length ≤ fuel) (hsmall : records.flatten.length < 2 ^ 32)
    (h : ∀ r ∈ records, IsMutation big watchID r) :
    consumeLoop big watchID fuel changed records.flatten =
      .ok (changed || decide (records.flatten ≠ [])) := by
  induction records generalizing fuel changed with
  | nil => cases fuel <;> simp [consumeLoop]
  | cons record rest ih =>
    obtain ⟨hrecord, hrest⟩ := List.forall_mem_cons.mp h
    rw [List.flatten_cons] at hfuel hsmall ⊢
    have hone := consumeRecord_mutation hrecord hsmall
    obtain ⟨-, -, length, -, -, -, -, -, -, -, hsize⟩ := hrecord
    rw [List.length_append, hsize, sizeofInotifyEvent] at hfuel hsmall
    obtain ⟨fuel, rfl⟩ : ∃ k, fuel = k + 1 := ⟨fuel - 1, by omega⟩
    obtain ⟨b, data, hdata⟩ : ∃ b data, record ++ rest.flatten = b :: data :=
      List.exists_cons_of_length_pos (by rw [List.length_append, hsize, sizeofInotifyEvent]; omega)
    rw [hdata] at hone ⊢
    rw [consumeLoop, hone]
    exact (ih (by omega) (by omega) hrest).trans (by simp)

/-- Of what fits an address space of four gigabytes exactly the runs of changes are consumed. A
lost watch, an overflow, a foreign watch or a malformed record is refused. -/
theorem consumeChanges_exact (hsmall : data.length < 2 ^ 32) :
    (Mutations big watchID data → consumeChanges big watchID data = .ok (decide (data ≠ []))) ∧
      (¬ Mutations big watchID data → consumeChanges big watchID data = .refused) := by
  constructor
  · rintro ⟨records, rfl, hall⟩
    rw [consumeChanges, consumeLoop_mutations (Nat.le_refl _) hsmall hall, Bool.false_or]
  · intro hforeign
    cases hconsumed : consumeChanges big watchID data with
    | ok changed => exact absurd (consumeChanges_ok hconsumed).1 hforeign
    | refused => rfl
    | outOfRange => exact absurd hconsumed consumeLoop_inRange

def modified : Bytes := [1, 0, 0, 0, 2, 0, 0, 0, 0, 0, 0, 0, 0, 0, 0, 0]

def createdWithName : Bytes := [1, 0, 0, 0, 0, 1, 0, 0, 0, 0, 0, 0, 4, 0, 0, 0, 0x61, 0, 0, 0]

theorem modified_exact : consumeChanges false 1 (modified ++ createdWithName) = .ok true :=
  (consumeChanges_exact (by decide)).1 ⟨[modified, createdWithName], rfl, List.forall_mem_cons.mpr
    ⟨⟨1, 2, 0, rfl, rfl, rfl, rfl, rfl, by decide, rfl, rfl⟩, List.forall_mem_singleton.mpr
      ⟨1, 0x100, 4, rfl, rfl, rfl, rfl, rfl, by decide, rfl, rfl⟩⟩⟩

end RegistryWatch
