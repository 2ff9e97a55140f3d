import PhantoWD.MdSysfs

/-!
An array shows its UUID as present only in a complete inventory in which no other device carries
it. Copies of one array are all marked ambiguous, and a device that is seen with two UUIDs
spoils the whole inventory.
-/
namespace MdIdentities

open GoText KeyedLists MdStat MdSysfs
open ServicePreview (Sorter)

inductive InventoryStatus where
  | available
  | partly
  | unavailable
  | unsupported
  deriving DecidableEq

variable (P : Percentages)

structure Snapshot where
  status : InventoryStatus := .unavailable
  identityInventoryComplete : Bool := false
  arrayCount : Nat := 0
  arrays : List (Observation P) := []
  diagnosticCodes : List Diagnostic := []
  identityCollected : Bool := false

variable {P}

def device (a : Observation P) : Nat × Nat := (a.major, a.minor)

def identified (a : Observation P) : Bool := a.identityComplete && a.arrayUUID != []

/-- The first loop of `markDuplicateMDArrayUUIDs`. `uuidByDevice` is its map; the two maps keyed
by UUID are kept as the list of pairs they are filled from. It is left at once on a device with
two UUIDs. -/
def collectUUIDs (uuidByDevice : Nat × Nat → Option Bytes) (pairs : List (Bytes × (Nat × Nat))) :
    List (Observation P) → Option (List (Bytes × (Nat × Nat)))
  | [] => some pairs
  | a :: rest =>
    if identified a = false then collectUUIDs uuidByDevice pairs rest
    else if (uuidByDevice (device a)).any fun prior => prior ≠ a.arrayUUID then none
    else
      collectUUIDs (fun d => if d = device a then some a.arrayUUID else uuidByDevice d)
        (pairs ++ [(a.arrayUUID, device a)]) rest

def objects (pairs : List (Bytes × (Nat × Nat))) (uuid : Bytes) : List (Nat × Nat) :=
  ((pairs.filter fun p => p.1 = uuid).map Prod.snd).dedup

def markArray (pairs : List (Bytes × (Nat × Nat))) (a : Observation P) : Observation P :=
  if identified a = false then a
  else if (objects pairs a.arrayUUID).length < 2 then { a with uuidStatus := .present }
  else { a with uuidStatus := .ambiguous }

def markDuplicateMDArrayUUIDs (arrays : List (Observation P)) : Option (List (Observation P)) :=
  (collectUUIDs (fun _ => none) [] arrays).map fun pairs => arrays.map (markArray pairs)

def withdraw (a : Observation P) : Observation P :=
  { a with uuidStatus := .unavailable, arrayUUID := [] }

def truncated (snapshot : Snapshot P) : Bool := decide (maxMDArrayEntries < snapshot.arrays.length)

def listed (s : Sorter) (snapshot : Snapshot P) : List (Observation P) :=
  let sorted := s.run Observation.name snapshot.arrays
  if truncated snapshot then sorted.take maxMDArrayEntries else sorted

def comparable (s : Sorter) (snapshot : Snapshot P) : Bool :=
  snapshot.identityInventoryComplete && !truncated snapshot &&
    (listed s snapshot).all fun a => a.identityComplete

def finishMDArraySnapshot (s : Sorter) (snapshot : Snapshot P) : Snapshot P :=
  let arrays := listed s snapshot
  let marked := markDuplicateMDArrayUUIDs arrays
  let status := if truncated snapshot then .partly else snapshot.status
  { snapshot with
    arrays :=
      if comparable s snapshot = false then
        arrays.map fun a => if a.uuidStatus = .present then withdraw a else a
      else
        marked.getD (arrays.map fun a =>
          if a.uuidStatus = .present ∨ a.uuidStatus = .ambiguous then withdraw a else a)
    identityInventoryComplete := comparable s snapshot && marked.isSome
    arrayCount := arrays.length
    status :=
      if status ≠ .partly ∧ status ≠ .unsupported ∧ status ≠ .unavailable then .available
      else status
    diagnosticCodes := if truncated snapshot then
        appendMDArrayDiagnostic snapshot.diagnosticCodes .mdArrayObservationLimitExceeded
      else snapshot.diagnosticCodes
    identityCollected := true }

def OneEach (arrays : List (Observation P)) : Prop :=
  ∀ a ∈ arrays, ∀ b ∈ arrays, identified a = true → identified b = true → device a = device b →
    a.arrayUUID = b.arrayUUID

def pairsOf (arrays : List (Observation P)) : List (Bytes × (Nat × Nat)) :=
  (arrays.filter identified).map fun a => (a.arrayUUID, device a)

variable {arrays : List (Observation P)}

theorem collectUUIDs_eq {byDevice : Nat × Nat → Option Bytes} {pairs : List (Bytes × (Nat × Nat))} :
    collectUUIDs byDevice pairs arrays =
      if agrees byDevice ((arrays.filter identified).map fun a => (device a, a.arrayUUID)) then
        some (pairs ++ pairsOf arrays)
      else none := by
  induction arrays generalizing byDevice pairs with
  | nil => simp [collectUUIDs, agrees, pairsOf]
  | cons a rest ih =>
    rw [collectUUIDs, pairsOf]
    by_cases ha : identified a = true
    · rw [if_neg (by simp [ha]), List.filter_cons_of_pos ha, List.map_cons, List.map_cons, agrees,
        ih, pairsOf]
      cases byDevice (device a) with
      | none => simp
      | some prior =>
        by_cases hprior : prior = a.arrayUUID
        · simp [hprior]
        · simp [hprior]
    · rw [if_pos (by simpa using ha), List.filter_cons_of_neg (by simpa using ha), ih, pairsOf]

theorem markDuplicateMDArrayUUIDs_some (h : OneEach arrays) :
    markDuplicateMDArrayUUIDs arrays = some (arrays.map (markArray (pairsOf arrays))) := by
  rw [markDuplicateMDArrayUUIDs, collectUUIDs_eq, if_pos]
  · simp
  · rw [agrees_start]
    simp only [List.forall_mem_map, List.mem_filter]
    rintro a ⟨ha, hia⟩ b ⟨hb, hib⟩ hdevice
    exact h a ha b hb hia hib hdevice

theorem markDuplicateMDArrayUUIDs_none (h : ¬ OneEach arrays) :
    markDuplicateMDArrayUUIDs arrays = none := by
  rw [markDuplicateMDArrayUUIDs, collectUUIDs_eq, if_neg]
  · rfl
  · rw [agrees_start]
    simp only [List.forall_mem_map, List.mem_filter]
    intro hall
    exact h fun a ha b hb hia hib hdevice => hall a ⟨ha, hia⟩ b ⟨hb, hib⟩ hdevice

theorem mem_objects {uuid : Bytes} {d : Nat × Nat} :
    d ∈ objects (pairsOf arrays) uuid ↔
      ∃ a ∈ arrays, identified a = true ∧ a.arrayUUID = uuid ∧ device a = d := by
  simp only [objects, pairsOf, List.mem_dedup, List.mem_map, List.mem_filter, decide_eq_true_eq]
  constructor
  · rintro ⟨p, ⟨⟨a, ⟨ha, hia⟩, rfl⟩, huuid⟩, rfl⟩
    exact ⟨a, ha, hia, huuid, rfl⟩
  · rintro ⟨a, ha, hia, huuid, rfl⟩
    exact ⟨(a.arrayUUID, device a), ⟨⟨a, ⟨ha, hia⟩, rfl⟩, huuid⟩, rfl⟩

def Cloned (arrays : List (Observation P)) (a : Observation P) : Prop :=
  ∃ b ∈ arrays, identified b = true ∧ b.arrayUUID = a.arrayUUID ∧ device b ≠ device a

theorem lt_two_iff {a : Observation P} (ha : a ∈ arrays) (hia : identified a = true) :
    (objects (pairsOf arrays) a.arrayUUID).length < 2 ↔ ¬ Cloned arrays a := by
  rw [← not_iff_not, not_lt, not_not]
  refine (one_lt_length_iff (List.nodup_dedup _)).trans ⟨?_, ?_⟩
  · rintro ⟨d, hd, d', hd', hne⟩
    obtain ⟨b, hb, hib, huuid, rfl⟩ := mem_objects.mp hd
    obtain ⟨b', hb', hib', huuid', rfl⟩ := mem_objects.mp hd'
    by_cases hdevice : device b = device a
    · exact ⟨b', hb', hib', huuid', fun heq => hne (hdevice.trans heq.symm)⟩
    · exact ⟨b, hb, hib, huuid, hdevice⟩
  · rintro ⟨b, hb, hib, huuid, hdevice⟩
    exact ⟨device b, mem_objects.mpr ⟨b, hb, hib, huuid, rfl⟩, device a,
      mem_objects.mpr ⟨a, ha, hia, rfl, rfl⟩, hdevice⟩

theorem markArray_of_clone {a : Observation P} (ha : a ∈ arrays) (hia : identified a = true)
    (h : Cloned arrays a) :
    markArray (pairsOf arrays) a = { a with uuidStatus := .ambiguous } := by
  rw [markArray, if_neg (by simp [hia]), if_neg]
  rw [lt_two_iff ha hia]
  exact not_not_intro h

theorem markArray_of_single {a : Observation P} (ha : a ∈ arrays) (hia : identified a = true)
    (h : ¬ Cloned arrays a) :
    markArray (pairsOf arrays) a = { a with uuidStatus := .present } := by
  rw [markArray, if_neg (by simp [hia]), if_pos ((lt_two_iff ha hia).mpr h)]

/-- What reaches the end of the collection: a reading of sysfs, of which only the health may have
been replaced. -/
def Observed (o : Observation P) : Prop :=
  ∃ s sysfs record node health,
    o = { (readMDArraySysfs P s sysfs record node).1 with health := health }

theorem observed_reading (s : Sorter) (sysfs : Sysfs) (record : Record P) (node : Bool) :
    Observed (readMDArraySysfs P s sysfs record node).1 :=
  ⟨s, sysfs, record, node, _, rfl⟩

variable {o : Observation P}

theorem Observed.identity (h : Observed o) : IdentityRead o := by
  obtain ⟨s, sysfs, record, node, health, rfl⟩ := h
  exact readMDArraySysfs_identity.same ⟨rfl, rfl, rfl⟩

theorem identified_iff (h : IdentityRead o) :
    identified o = true ↔ o.identityComplete = true := by
  rw [identified, Bool.and_eq_true]
  refine ⟨And.left, fun hcomplete => ⟨hcomplete, ?_⟩⟩
  simpa using (h.complete hcomplete).2

def Contradictory (arrays : List (Observation P)) : Prop :=
  ∃ a ∈ arrays, ∃ b ∈ arrays, device a = device b ∧ a.arrayUUID ≠ [] ∧ b.arrayUUID ≠ [] ∧
    a.arrayUUID ≠ b.arrayUUID

/-- The inventory says less than all of the identities, or says two things of one device. -/
inductive Spoiled (snapshot : Snapshot P) : Prop
  | unlisted : snapshot.identityInventoryComplete = false → Spoiled snapshot
  | truncated : maxMDArrayEntries < snapshot.arrays.length → Spoiled snapshot
  | incomplete (a) : a ∈ snapshot.arrays → a.identityComplete = false → Spoiled snapshot
  | contradictory : Contradictory snapshot.arrays → Spoiled snapshot

variable {s : Sorter} {snapshot : Snapshot P}

theorem identified_of_uuid (h : IdentityRead o) (huuid : o.arrayUUID ≠ []) :
    identified o = true := by
  rw [identified_iff h]
  by_contra hcomplete
  exact huuid (h.incomplete (by simpa using hcomplete)).2.2

theorem not_oneEach_of_contradictory (hread : ∀ o ∈ arrays, IdentityRead o)
    (h : Contradictory arrays) : ¬ OneEach arrays := by
  obtain ⟨a, ha, b, hb, hdevice, hua, hub, hne⟩ := h
  intro hone
  exact hne (hone a ha b hb (identified_of_uuid (hread a ha) hua)
    (identified_of_uuid (hread b hb) hub) hdevice)

theorem oneEach_of_not_contradictory (h : ¬ Contradictory arrays) : OneEach arrays := by
  intro a ha b hb hia hib hdevice
  rw [identified, Bool.and_eq_true] at hia hib
  by_contra hne
  exact h ⟨a, ha, b, hb, hdevice, by simpa using hia.2, by simpa using hib.2, hne⟩

theorem mem_listed {a : Observation P} (h : a ∈ listed s snapshot) : a ∈ snapshot.arrays := by
  rw [listed] at h
  split_ifs at h
  · exact s.mem_run.mp (List.mem_of_mem_take h)
  · exact s.mem_run.mp h

theorem listed_of_short (h : truncated snapshot = false) :
    listed s snapshot = s.run Observation.name snapshot.arrays := by
  simp [listed, h]

theorem comparable_iff :
    comparable s snapshot = true ↔ snapshot.identityInventoryComplete = true ∧
      truncated snapshot = false ∧ ∀ a ∈ snapshot.arrays, a.identityComplete = true := by
  rw [comparable, Bool.and_eq_true, Bool.and_eq_true, List.all_eq_true, and_assoc,
    Bool.not_eq_true']
  refine and_congr_right fun _ => and_congr_right fun hshort => ?_
  rw [listed_of_short hshort]
  simp only [s.mem_run]

theorem finish_of_sound (h : ¬ Spoiled snapshot) :
    (finishMDArraySnapshot s snapshot).arrays =
        (s.run Observation.name snapshot.arrays).map
          (markArray (pairsOf (s.run Observation.name snapshot.arrays))) ∧
      (finishMDArraySnapshot s snapshot).identityInventoryComplete = true := by
  have hshort : truncated snapshot = false := by
    rw [truncated, decide_eq_false_iff_not]
    exact fun hlong => h (.truncated hlong)
  have hcomparable : comparable s snapshot = true := by
    refine comparable_iff.mpr ⟨?_, hshort, fun a ha => ?_⟩
    · by_contra hnot
      exact h (.unlisted (by simpa using hnot))
    · by_contra hnot
      exact h (.incomplete a ha (by simpa using hnot))
  have hone : OneEach (s.run Observation.name snapshot.arrays) := by
    apply oneEach_of_not_contradictory
    rintro ⟨a, ha, b, hb, hrest⟩
    exact h (.contradictory ⟨a, s.mem_run.mp ha, b, s.mem_run.mp hb, hrest⟩)
  simp [finishMDArraySnapshot, hcomparable, listed_of_short hshort,
    markDuplicateMDArrayUUIDs_some hone]

structure Withdrawn (snapshot : Snapshot P) : Prop where
  incomplete : snapshot.identityInventoryComplete = false
  arrays : ∀ a ∈ snapshot.arrays, a.uuidStatus ≠ .present ∧ a.uuidStatus ≠ .ambiguous

theorem withdraw_present (h : IdentityRead o) :
    (if o.uuidStatus = .present then withdraw o else o).uuidStatus ≠ .present ∧
      (if o.uuidStatus = .present then withdraw o else o).uuidStatus ≠ .ambiguous := by
  by_cases hpresent : o.uuidStatus = .present
  · rw [if_pos hpresent]
    exact ⟨nofun, nofun⟩
  · rw [if_neg hpresent]
    have hincomplete : o.identityComplete = false := by
      by_contra hnot
      exact hpresent (h.complete (by simpa using hnot)).1
    exact ⟨hpresent, (h.incomplete hincomplete).2.1⟩

theorem withdraw_any (o : Observation P) :
    (if o.uuidStatus = .present ∨ o.uuidStatus = .ambiguous then withdraw o
      else o).uuidStatus ≠ .present ∧
      (if o.uuidStatus = .present ∨ o.uuidStatus = .ambiguous then withdraw o
        else o).uuidStatus ≠ .ambiguous := by
  by_cases hshown : o.uuidStatus = .present ∨ o.uuidStatus = .ambiguous
  · rw [if_pos hshown]
    exact ⟨nofun, nofun⟩
  · rw [if_neg hshown]
    exact not_or.mp hshown

/-- A spoiled inventory shows no identity at all. -/
theorem finish_of_spoiled (hread : ∀ o ∈ snapshot.arrays, IdentityRead o)
    (h : Spoiled snapshot) : Withdrawn (finishMDArraySnapshot s snapshot) := by
  by_cases hcomparable : comparable s snapshot = true
  · -- every identity is there, so one device carries two of them
    obtain ⟨hlist, hshort, hcomplete⟩ := comparable_iff.mp hcomparable
    have hcontradictory : Contradictory snapshot.arrays := by
      cases h with
      | unlisted hnot => rw [hlist] at hnot; cases hnot
      | truncated hlong => simp [truncated, hlong] at hshort
      | incomplete a ha hnot => rw [hcomplete a ha] at hnot; cases hnot
      | contradictory hcontradictory => exact hcontradictory
    have hmany : ¬ OneEach (listed s snapshot) := by
      apply not_oneEach_of_contradictory
      · exact fun o ho => hread o (mem_listed ho)
      · obtain ⟨a, ha, b, hb, hrest⟩ := hcontradictory
        rw [listed_of_short hshort]
        exact ⟨a, s.mem_run.mpr ha, b, s.mem_run.mpr hb, hrest⟩
    constructor
    · simp [finishMDArraySnapshot, markDuplicateMDArrayUUIDs_none hmany]
    · intro a ha
      rw [finishMDArraySnapshot, markDuplicateMDArrayUUIDs_none hmany] at ha
      simp only [hcomparable, Bool.true_eq_false, if_false, Option.getD_none] at ha
      obtain ⟨o, -, rfl⟩ := List.mem_map.mp ha
      exact withdraw_any o
  · have hcomparable : comparable s snapshot = false := by simpa using hcomparable
    constructor
    · simp [finishMDArraySnapshot, hcomparable]
    · intro a ha
      rw [finishMDArraySnapshot] at ha
      simp only [hcomparable, if_true] at ha
      obtain ⟨o, ho, rfl⟩ := List.mem_map.mp ha
      exact withdraw_present (hread o (mem_listed ho))

def SameArray (a b : Observation P) : Prop := b = { a with uuidStatus := b.uuidStatus }

structure Unambiguous (before after : Snapshot P) : Prop where
  present : ∀ a ∈ after.arrays, a.uuidStatus = .present →
    after.identityInventoryComplete = true ∧
      ∀ b ∈ after.arrays, device b ≠ device a → b.arrayUUID ≠ a.arrayUUID
  spoiled : Spoiled before → Withdrawn after
  kept : ¬ Spoiled before → after.identityInventoryComplete = true ∧
    Reorders SameArray before.arrays after.arrays ∧
    ∀ a ∈ after.arrays,
      (a.uuidStatus = .ambiguous ↔
        ∃ b ∈ after.arrays, device b ≠ device a ∧ b.arrayUUID = a.arrayUUID) ∧
      (a.uuidStatus ≠ .ambiguous → a.uuidStatus = .present)

theorem markArray_same {pairs : List (Bytes × (Nat × Nat))} {a : Observation P} :
    SameArray a (markArray pairs a) := by
  rw [markArray]
  split_ifs <;> rfl

theorem SameArray.device_eq {a b : Observation P} (h : SameArray a b) : device b = device a := by
  rw [h]
  rfl

theorem SameArray.uuid_eq {a b : Observation P} (h : SameArray a b) :
    b.arrayUUID = a.arrayUUID := by
  rw [h]

/-- A UUID is ambiguous exactly when another device carries it. -/
theorem marked_status (hall : ∀ o ∈ arrays, identified o = true) {a : Observation P}
    (ha : a ∈ arrays.map (markArray (pairsOf arrays))) :
    (a.uuidStatus = .ambiguous ↔ ∃ b ∈ arrays.map (markArray (pairsOf arrays)),
        device b ≠ device a ∧ b.arrayUUID = a.arrayUUID) ∧
      (a.uuidStatus ≠ .ambiguous → a.uuidStatus = .present) := by
  obtain ⟨o, ho, rfl⟩ := List.mem_map.mp ha
  have hclone : (∃ b ∈ arrays.map (markArray (pairsOf arrays)),
      device b ≠ device (markArray (pairsOf arrays) o) ∧
        b.arrayUUID = (markArray (pairsOf arrays) o).arrayUUID) ↔ Cloned arrays o := by
    rw [markArray_same.device_eq, markArray_same.uuid_eq]
    constructor
    · rintro ⟨b, hb, hdevice, huuid⟩
      obtain ⟨t, ht, rfl⟩ := List.mem_map.mp hb
      rw [markArray_same.device_eq] at hdevice
      rw [markArray_same.uuid_eq] at huuid
      exact ⟨t, ht, hall t ht, huuid, hdevice⟩
    · rintro ⟨t, ht, -, huuid, hdevice⟩
      refine ⟨_, List.mem_map_of_mem ht, ?_, ?_⟩
      · rwa [markArray_same.device_eq]
      · rwa [markArray_same.uuid_eq]
  rw [hclone]
  by_cases h : Cloned arrays o
  · rw [markArray_of_clone ho (hall o ho) h]
    exact ⟨⟨fun _ => h, fun _ => rfl⟩, fun hnot => absurd rfl hnot⟩
  · rw [markArray_of_single ho (hall o ho) h]
    exact ⟨⟨nofun, fun hcloned => absurd hcloned h⟩, fun _ => rfl⟩

theorem unambiguous_of_read (hread : ∀ o ∈ snapshot.arrays, IdentityRead o) :
    Unambiguous snapshot (finishMDArraySnapshot s snapshot) := by
  by_cases hspoiled : Spoiled snapshot
  · have hwithdrawn : Withdrawn (finishMDArraySnapshot s snapshot) :=
      finish_of_spoiled hread hspoiled
    exact ⟨fun a ha hpresent => absurd hpresent (hwithdrawn.arrays a ha).1, fun _ => hwithdrawn,
      fun hsound => absurd hspoiled hsound⟩
  · obtain ⟨harrays, hcomplete⟩ := @finish_of_sound P s snapshot hspoiled
    have hidentified : ∀ o ∈ s.run Observation.name snapshot.arrays, identified o = true := by
      intro o ho
      rw [identified_iff (hread o (s.mem_run.mp ho))]
      by_contra hnot
      exact hspoiled (.incomplete o (s.mem_run.mp ho) (by simpa using hnot))
    refine ⟨fun a ha hpresent => ⟨hcomplete, fun b hb hdevice huuid => ?_⟩,
      fun h => absurd h hspoiled, fun _ => ⟨hcomplete, ?_, fun a ha => ?_⟩⟩
    · rw [harrays] at ha hb
      have hambiguous := (marked_status hidentified ha).1.mpr ⟨b, hb, hdevice, huuid⟩
      rw [hpresent] at hambiguous
      cases hambiguous
    · rw [harrays]
      refine ⟨s.run Observation.name snapshot.arrays, (s.perm _ _).symm, ?_⟩
      rw [List.forall₂_map_right_iff]
      exact List.forall₂_same.mpr fun a _ => markArray_same
    · rw [harrays] at ha ⊢
      exact marked_status hidentified ha

/-- In every finished inventory a UUID is shown as present only where it names one device of a
complete inventory, and copies are all marked. -/
theorem finished_unambiguous (s : Sorter) (snapshot : Snapshot P)
    (hobserved : ∀ o ∈ snapshot.arrays, Observed o) :
    Unambiguous snapshot (finishMDArraySnapshot s snapshot) :=
  unambiguous_of_read fun o ho => (hobserved o ho).identity

def noPercentages : Percentages := ⟨Unit, fun _ => none, fun _ _ => none⟩

def sampleUUID (array : Bytes) : Bytes :=
  if array = ascii "md2" then ascii "0c0ffee0-0000-4000-8000-000000000002"
  else ascii "0c0ffee0-0000-4000-8000-000000000001"

def sampleSysfs : Sysfs where
  blocks := some [ascii "md0", ascii "md1", ascii "md2"]
  file name a :=
    match a with
    | .dev => some (ascii "9:" ++ name.drop 2)
    | .uuid => some (sampleUUID name ++ ascii "\n")
    | _ => none
  slaves _ := none
  blocks_nodup := by
    rintro names ⟨⟩
    decide
  slaves_nodup := nofun

def sampleObservation (name : Bytes) : Observation noPercentages :=
  (readMDArraySysfs noPercentages .simple sampleSysfs { name := name } true).1

def sampleSnapshot : Snapshot noPercentages where
  status := .partly
  identityInventoryComplete := true
  arrays := [ascii "md2", ascii "md1", ascii "md0"].map sampleObservation

theorem sample_clones_marked :
    (∀ o ∈ sampleSnapshot.arrays, Observed o) ∧
      Unambiguous sampleSnapshot (finishMDArraySnapshot .simple sampleSnapshot) ∧
      ((finishMDArraySnapshot .simple sampleSnapshot).arrays.map fun a => (a.name, a.uuidStatus)) =
        [(ascii "md0", .ambiguous), (ascii "md1", .ambiguous), (ascii "md2", .present)] := by
  have hobserved : ∀ o ∈ sampleSnapshot.arrays, Observed o := by
    intro o ho
    obtain ⟨name, -, rfl⟩ := List.mem_map.mp ho
    exact observed_reading .simple sampleSysfs { name := name } true
  exact ⟨hobserved, finished_unambiguous .simple sampleSnapshot hobserved, by decide +kernel⟩

end MdIdentities
