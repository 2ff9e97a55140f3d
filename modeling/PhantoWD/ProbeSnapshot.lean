import PhantoWD.KeyedLists
import PhantoWD.VolumeProbe

/-!
The supervisor keeps one observation per source and refuses a set in which one object was
observed in two ways. A decoded result holds its partition table behind a pointer, so the heap
is part of what a result says.
-/
namespace ProbeSnapshot

open GoText KeyedLists
open VolumeProbe (Table validUUID)

structure ObjectKey where
  kind : Bytes
  device : UInt64
  inode : UInt64
  rawDevice : UInt64
  deriving DecidableEq

/-- `Result` as it lies in memory: the table is an address. -/
structure Result where
  status : Bytes
  sourceKind : Bytes
  filesystem : Bytes
  filesystemUUID : Bytes
  partitionTable : Option Nat
  deriving DecidableEq

structure Observation where
  result : Result
  object : ObjectKey
  deriving DecidableEq

abbrev Heap := Nat → Table

def Result.content (heap : Heap) (r : Result) : VolumeProbe.Result where
  status := r.status
  sourceKind := r.sourceKind
  filesystem := r.filesystem
  filesystemUUID := r.filesystemUUID
  partitionTable := r.partitionTable.map heap

abbrev Memory := List Table

def Memory.heap (m : Memory) : Heap := fun address => m.getD address ⟨[], [], []⟩

def allocate (m : Memory) (r : VolumeProbe.Result) : Memory × Result :=
  match r.partitionTable with
  | none => (m, ⟨r.status, r.sourceKind, r.filesystem, r.filesystemUUID, none⟩)
  | some table =>
    (m ++ [table], ⟨r.status, r.sourceKind, r.filesystem, r.filesystemUUID, some m.length⟩)

def observe (m : Memory) : List (ObjectKey × VolumeProbe.Result) → Memory × List Observation
  | [] => (m, [])
  | (object, r) :: rest =>
    let stored := allocate m r
    let more := observe stored.1 rest
    (more.1, ⟨stored.2, object⟩ :: more.2)

/-- The loop of `makeSnapshot`; `seen` is the map of the latest result of each object. The
comparison is the one of the language: a pointer equals a pointer to the same place. -/
def consistent (seen : ObjectKey → Option Result) : List Observation → Bool
  | [] => true
  | e :: rest =>
    match seen e.object with
    | some previous =>
      if previous ≠ e.result then false
      else consistent (fun k => if k = e.object then some e.result else seen k) rest
    | none => consistent (fun k => if k = e.object then some e.result else seen k) rest

def makeSnapshot (entries : List Observation) : Option (List Observation) :=
  if consistent (fun _ => none) entries then some entries else none

inductive MatchState where
  | notObserved
  | oneObject
  | conflictingObjects
  deriving DecidableEq

structure Match where
  state : MatchState
  sourceIndices : List Nat
  deriving DecidableEq

def carries (uuid : Bytes) (e : Observation) : Bool :=
  e.result.status == ascii "ext-metadata" && e.result.filesystemUUID == uuid

def matchLoop (uuid : Bytes) (i : Nat) (objects : List ObjectKey) (indices : List Nat) :
    List Observation → List ObjectKey × List Nat
  | [] => (objects, indices)
  | e :: rest =>
    if carries uuid e then
      matchLoop uuid (i + 1)
        (if e.object ∈ objects then objects else objects ++ [e.object]) (indices ++ [i]) rest
    else matchLoop uuid (i + 1) objects indices rest

def matchUUID (snapshot : List Observation) (uuid : Bytes) : Option Match :=
  if validUUID uuid = false then none
  else
    let found := matchLoop uuid 0 [] [] snapshot
    some {
      state := if 1 < found.1.length then .conflictingObjects
        else if found.1.length = 1 then .oneObject else .notObserved
      sourceIndices := found.2 }

def Consistent (heap : Heap) (entries : List Observation) : Prop :=
  ∀ x ∈ entries, ∀ y ∈ entries, x.object = y.object →
    x.result.content heap = y.result.content heap

def Identical (entries : List Observation) : Prop :=
  ∀ x ∈ entries, ∀ y ∈ entries, x.object = y.object → x.result = y.result

/-- Entries of one object do not hold tables in two places. -/
def SharedTables (entries : List Observation) : Prop :=
  ∀ x ∈ entries, ∀ y ∈ entries, x.object = y.object →
    ∀ a b, x.result.partitionTable = some a → y.result.partitionTable = some b → a = b

variable {entries : List Observation}

theorem consistent_eq {seen : ObjectKey → Option Result} :
    consistent seen entries = agrees seen (entries.map fun e => (e.object, e.result)) := by
  induction entries generalizing seen with
  | nil => rfl
  | cons e rest ih =>
    rw [consistent, List.map_cons, agrees]
    cases hprevious : seen e.object with
    | none => exact ih
    | some previous =>
      by_cases heq : previous = e.result
      · simp [heq, ih]
      · simp [heq]

theorem makeSnapshot_iff :
    (∃ snapshot, makeSnapshot entries = some snapshot) ↔ Identical entries := by
  have hloop : (∃ snapshot, makeSnapshot entries = some snapshot) ↔
      consistent (fun _ => none) entries = true := by
    rw [makeSnapshot]
    by_cases h : consistent (fun _ => none) entries = true
    · simp [h]
    · simp [h]
  rw [hloop, consistent_eq, agrees_start, Identical]
  simp only [List.forall_mem_map]

theorem makeSnapshot_eq {snapshot : List Observation} (h : makeSnapshot entries = some snapshot) :
    snapshot = entries := by
  rw [makeSnapshot] at h
  split_ifs at h
  exact (Option.some.inj h).symm

theorem identical_iff {heap : Heap} :
    Identical entries ↔ Consistent heap entries ∧ SharedTables entries := by
  constructor
  · intro h
    refine ⟨fun x hx y hy heq => by rw [h x hx y hy heq], fun x hx y hy heq a b ha hb => ?_⟩
    rw [h x hx y hy heq, hb] at ha
    exact (Option.some.inj ha).symm
  · rintro ⟨hcontent, hshared⟩ x hx y hy heq
    have hfields := hcontent x hx y hy heq
    have htables := hshared x hx y hy heq
    obtain ⟨⟨status, kind, filesystem, uuid, table⟩, object⟩ := x
    obtain ⟨⟨status', kind', filesystem', uuid', table'⟩, object'⟩ := y
    simp only [Result.content, VolumeProbe.Result.mk.injEq] at hfields htables
    obtain ⟨rfl, rfl, rfl, rfl, htable⟩ := hfields
    rcases table with _ | a <;> rcases table' with _ | b
    · rfl
    · cases htable
    · cases htable
    · rw [htables a b rfl rfl]

structure Matched (snapshot : List Observation) (uuid : Bytes) (m : Match) : Prop where
  one : m.state = .oneObject ↔
    ∃ k, ∀ k', (∃ e ∈ snapshot, e.object = k' ∧ carries uuid e = true) ↔ k' = k
  conflicting : m.state = .conflictingObjects ↔
    ∃ x ∈ snapshot, ∃ y ∈ snapshot, carries uuid x = true ∧ carries uuid y = true ∧
      x.object ≠ y.object
  ordered : m.sourceIndices.Pairwise (· < ·)
  indices : ∀ i, i ∈ m.sourceIndices ↔ ∃ e, snapshot[i]? = some e ∧ carries uuid e = true

structure Found (uuid : Bytes) (before : List Observation) (objects : List ObjectKey)
    (indices : List Nat) : Prop where
  nodup : objects.Nodup
  keys : ∀ k, k ∈ objects ↔ ∃ e ∈ before, e.object = k ∧ carries uuid e = true
  ordered : indices.Pairwise (· < ·)
  indices : ∀ i, i ∈ indices ↔ ∃ e, before[i]? = some e ∧ carries uuid e = true

theorem found_nil (uuid : Bytes) : Found uuid [] [] [] :=
  ⟨.nil, by simp, .nil, by simp⟩

variable {uuid : Bytes} {before : List Observation} {objects : List ObjectKey} {indices : List Nat}

theorem Found.lt_length (h : Found uuid before objects indices) {i : Nat} (hi : i ∈ indices) :
    i < before.length := by
  obtain ⟨e, he, -⟩ := (h.indices i).mp hi
  exact (List.getElem?_eq_some_iff.mp he).1

theorem getElem?_concat_iff {e f : Observation} {i : Nat} :
    (before ++ [e])[i]? = some f ↔ before[i]? = some f ∨ (i = before.length ∧ f = e) := by
  rcases Nat.lt_trichotomy i before.length with hlt | rfl | hgt
  · rw [List.getElem?_append_left hlt]
    simp [Nat.ne_of_lt hlt]
  · simp [eq_comm]
  · have hnone : before[i]? = none := List.getElem?_eq_none (Nat.le_of_lt hgt)
    have hend : (before ++ [e])[i]? = none := List.getElem?_eq_none (by simpa using hgt)
    simp [hnone, hend, Nat.ne_of_gt hgt]

theorem Found.skip (h : Found uuid before objects indices) {e : Observation}
    (he : carries uuid e = false) : Found uuid (before ++ [e]) objects indices := by
  refine ⟨h.nodup, fun k => ?_, h.ordered, fun i => ?_⟩
  · rw [h.keys]
    simp [or_and_right, exists_or, he]
  · rw [h.indices]
    constructor
    · rintro ⟨f, hf, hcarries⟩
      exact ⟨f, getElem?_concat_iff.mpr (.inl hf), hcarries⟩
    · rintro ⟨f, hf, hcarries⟩
      rcases getElem?_concat_iff.mp hf with hf | ⟨-, rfl⟩
      · exact ⟨f, hf, hcarries⟩
      · rw [he] at hcarries
        cases hcarries

theorem Found.take (h : Found uuid before objects indices) {e : Observation}
    (he : carries uuid e = true) :
    Found uuid (before ++ [e]) (if e.object ∈ objects then objects else objects ++ [e.object])
      (indices ++ [before.length]) := by
  have hkeys : ∀ k, (∃ f ∈ before ++ [e], f.object = k ∧ carries uuid f = true) ↔
      k ∈ objects ∨ k = e.object := by
    intro k
    rw [h.keys]
    constructor
    · rintro ⟨f, hf, hk, hcarries⟩
      rcases List.mem_append.mp hf with hf | hf
      · exact .inl ⟨f, hf, hk, hcarries⟩
      · rw [List.mem_singleton.mp hf] at hk
        exact .inr hk.symm
    · rintro (⟨f, hf, hk, hcarries⟩ | rfl)
      · exact ⟨f, List.mem_append_left _ hf, hk, hcarries⟩
      · exact ⟨e, by simp, rfl, he⟩
  refine ⟨?_, fun k => ?_, ?_, fun i => ?_⟩
  · split_ifs with hmem
    · exact h.nodup
    · exact List.Nodup.append h.nodup (by simp) (by simpa using hmem)
  · rw [hkeys]
    split_ifs with hmem
    · constructor
      · exact .inl
      · rintro (hk | rfl)
        · exact hk
        · exact hmem
    · simp
  · rw [List.pairwise_append]
    refine ⟨h.ordered, List.pairwise_singleton _ _, fun i hi j hj => ?_⟩
    rw [List.mem_singleton.mp hj]
    exact h.lt_length hi
  · rw [List.mem_append, h.indices, List.mem_singleton]
    constructor
    · rintro (⟨f, hf, hcarries⟩ | rfl)
      · exact ⟨f, getElem?_concat_iff.mpr (.inl hf), hcarries⟩
      · exact ⟨e, getElem?_concat_iff.mpr (.inr ⟨rfl, rfl⟩), he⟩
    · rintro ⟨f, hf, hcarries⟩
      rcases getElem?_concat_iff.mp hf with hf | ⟨hi, -⟩
      · exact .inl ⟨f, hf, hcarries⟩
      · exact .inr hi

theorem matchLoop_found {rest : List Observation} (h : Found uuid before objects indices) :
    Found uuid (before ++ rest) (matchLoop uuid before.length objects indices rest).1
      (matchLoop uuid before.length objects indices rest).2 := by
  induction rest generalizing before objects indices with
  | nil =>
    rw [List.append_nil]
    exact h
  | cons e rest ih =>
    have hlen : before.length + 1 = (before ++ [e]).length := by simp
    rw [matchLoop, List.append_cons, hlen]
    by_cases he : carries uuid e = true
    · rw [if_pos he]
      exact ih (h.take he)
    · rw [if_neg he]
      exact ih (h.skip (Bool.not_eq_true _ ▸ he))

theorem length_eq_one (h : objects.Nodup) :
    objects.length = 1 ↔ ∃ k, ∀ k', k' ∈ objects ↔ k' = k := by
  constructor
  · intro hone
    obtain ⟨k, rfl⟩ := List.length_eq_one_iff.mp hone
    exact ⟨k, by simp⟩
  · rintro ⟨k, hk⟩
    have hperm : objects.Perm [k] :=
      (List.perm_ext_iff_of_nodup h (by simp)).mpr (by simpa using hk)
    exact hperm.length_eq

theorem one_lt_length (h : objects.Nodup) :
    1 < objects.length ↔ ∃ k ∈ objects, ∃ k' ∈ objects, k ≠ k' := by
  rcases objects with _ | ⟨k, _ | ⟨k', rest⟩⟩
  · simp
  · simp
  · constructor
    · intro _
      refine ⟨k, by simp, k', by simp, ?_⟩
      rintro rfl
      simp at h
    · intro _
      simp

/-- What is matched is all that the snapshot has under the UUID. -/
theorem matchUUID_matched {snapshot : List Observation} {m : Match}
    (h : matchUUID snapshot uuid = some m) : Matched snapshot uuid m := by
  have hfound : Found uuid snapshot (matchLoop uuid 0 [] [] snapshot).1
      (matchLoop uuid 0 [] [] snapshot).2 := matchLoop_found (found_nil uuid)
  rw [matchUUID] at h
  split_ifs at h with hvalid
  cases h
  generalize matchLoop uuid 0 [] [] snapshot = found at hfound
  obtain ⟨objects, indices⟩ := found
  refine ⟨?_, ?_, hfound.ordered, hfound.indices⟩
  · have hstate : (if 1 < objects.length then MatchState.conflictingObjects
        else if objects.length = 1 then .oneObject else .notObserved) = .oneObject ↔
        objects.length = 1 := by
      split_ifs with hmany hone
      · simpa using Nat.ne_of_gt hmany
      · simpa using hone
      · simpa using hone
    rw [hstate, length_eq_one hfound.nodup]
    simp only [hfound.keys]
  · have hstate : (if 1 < objects.length then MatchState.conflictingObjects
        else if objects.length = 1 then .oneObject else .notObserved) = .conflictingObjects ↔
        1 < objects.length := by
      split_ifs with hmany hone
      · simpa using hmany
      · simpa using hmany
      · simpa using hmany
    rw [hstate, one_lt_length hfound.nodup]
    constructor
    · rintro ⟨k, hk, k', hk', hne⟩
      obtain ⟨x, hx, rfl, hcx⟩ := (hfound.keys k).mp hk
      obtain ⟨y, hy, rfl, hcy⟩ := (hfound.keys k').mp hk'
      exact ⟨x, hx, y, hy, hcx, hcy, hne⟩
    · rintro ⟨x, hx, y, hy, hcx, hcy, hne⟩
      exact ⟨x.object, (hfound.keys _).mpr ⟨x, hx, rfl, hcx⟩, y.object,
        (hfound.keys _).mpr ⟨y, hy, rfl, hcy⟩, hne⟩

/-- A snapshot of the entries, in any order, exists exactly when their contents agree, and every
valid UUID is matched in it. -/
def ByContent (heap : Heap) (entries : List Observation) : Prop :=
  ∀ order, order.Perm entries →
    ((∃ snapshot, makeSnapshot order = some snapshot) ↔ Consistent heap entries) ∧
      ∀ snapshot, makeSnapshot order = some snapshot → ∀ uuid, validUUID uuid = true →
        ∃ m, matchUUID snapshot uuid = some m ∧ Matched order uuid m

theorem Identical.perm {order : List Observation} (h : order.Perm entries) :
    Identical order ↔ Identical entries := by
  simp only [Identical, h.mem_iff]

theorem matchUUID_some {snapshot : List Observation} (h : validUUID uuid = true) :
    ∃ m, matchUUID snapshot uuid = some m := by
  rw [matchUUID, if_neg (by simp [h])]
  exact ⟨_, rfl⟩

/-- Observations are compared by content except where two entries of one object hold their
tables in two places. -/
theorem snapshot_by_content_iff (heap : Heap) (entries : List Observation) :
    ByContent heap entries ↔ (Consistent heap entries → SharedTables entries) := by
  have hmade : ∀ order, order.Perm entries →
      ((∃ snapshot, makeSnapshot order = some snapshot) ↔
        Consistent heap entries ∧ SharedTables entries) := by
    intro order hperm
    rw [makeSnapshot_iff, Identical.perm hperm, identical_iff]
  constructor
  · intro h hconsistent
    exact ((hmade entries (.refl _)).mp ((h entries (.refl _)).1.mpr hconsistent)).2
  · intro h order hperm
    refine ⟨?_, fun snapshot hsnapshot uuid huuid => ?_⟩
    · rw [hmade order hperm]
      exact ⟨And.left, fun hconsistent => ⟨hconsistent, h hconsistent⟩⟩
    · rw [makeSnapshot_eq hsnapshot]
      obtain ⟨m, hm⟩ : ∃ m, matchUUID order uuid = some m := matchUUID_some huuid
      exact ⟨m, hm, matchUUID_matched hm⟩

def sampleKey : ObjectKey := ⟨ascii "block-device", 6, 120, 2048⟩

def sampleResult : VolumeProbe.Result where
  status := ascii "other-signature"
  sourceKind := ascii "block-device"
  filesystem := []
  filesystemUUID := []
  partitionTable := some ⟨ascii "dos", ascii "1a2b3c4d", [⟨1, 2048, 4096, ascii "1a2b3c4d-01",
    ascii "0x83", false⟩]⟩

def sampleObserved : Memory × List Observation :=
  observe [] [(sampleKey, sampleResult), (sampleKey, sampleResult)]

/-- One disk given twice, read alike both times, is refused as inconsistent. -/
theorem same_disk_twice_refused :
    (sampleObserved.2.map fun e => e.result.content sampleObserved.1.heap) =
      [sampleResult, sampleResult] ∧ Consistent sampleObserved.1.heap sampleObserved.2 ∧
      makeSnapshot sampleObserved.2 = none ∧
      ¬ ByContent sampleObserved.1.heap sampleObserved.2 := by
  have hconsistent : Consistent sampleObserved.1.heap sampleObserved.2 := by
    unfold Consistent
    decide
  have hrefused : makeSnapshot sampleObserved.2 = none := by decide
  refine ⟨by decide, hconsistent, hrefused, fun h => ?_⟩
  obtain ⟨snapshot, hsnapshot⟩ := (h sampleObserved.2 (.refl _)).1.mpr hconsistent
  rw [hrefused] at hsnapshot
  cases hsnapshot

end ProbeSnapshot
