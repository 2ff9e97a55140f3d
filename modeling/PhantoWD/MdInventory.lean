import PhantoWD.MdIdentities

/-!
`collectMDArrayInventory` joins the status text with what sysfs shows. An array of which only one
side tells is never healthy, and where both tell, a disagreement leaves the health unknown.
-/
namespace MdInventory

open GoText GoJson KeyedLists MdStat MdSysfs MdIdentities
open BlockTopology (validBlockName maxBlockEntries)
open ServicePreview (Sorter)

inductive ProcFile where
  | missing
  | unreadable
  | data (text : Bytes)

def ProcFile.bounded : ProcFile → ProcFile
  | .data text => if maxProcBytes < text.length then .unreadable else .data text
  | proc => proc

variable (P : Percentages)

def sysfsOnly (o : Observation P) : Observation P :=
  { o with health := if o.state = ascii "inactive" then .inactive else .unknown }

def appendSysfsOnlyArrays (s : Sorter) (sysfs : Sysfs) (snapshot : Snapshot P) :
    List Bytes → Snapshot P
  | [] => snapshot
  | name :: rest =>
    let reading := readMDArraySysfs P s sysfs { name := name } true
    appendSysfsOnlyArrays s sysfs { snapshot with
      status := if reading.2 then snapshot.status else .partly
      arrays := snapshot.arrays ++ [sysfsOnly P reading.1] } rest

def appendRecords (s : Sorter) (sysfs : Sysfs) (blocks : List Bytes) (snapshot : Snapshot P) :
    List (Record P) → Snapshot P
  | [] => snapshot
  | record :: rest =>
    let reading := readMDArraySysfs P s sysfs record (blocks.contains record.name)
    appendRecords s sysfs blocks { snapshot with
      status := if reading.2 then snapshot.status else .partly
      diagnosticCodes :=
        if reading.2 then snapshot.diagnosticCodes
        else appendMDArrayDiagnostics snapshot.diagnosticCodes reading.1.diagnosticCodes
      arrays := snapshot.arrays ++ [reading.1] } rest

def appendUnlisted (s : Sorter) (sysfs : Sysfs) (snapshot : Snapshot P) :
    List Bytes → Snapshot P
  | [] => snapshot
  | name :: rest =>
    let reading := readMDArraySysfs P s sysfs { name := name } true
    appendUnlisted s sysfs { snapshot with
      status := .partly
      diagnosticCodes := appendMDArrayDiagnostics
        (appendMDArrayDiagnostic snapshot.diagnosticCodes .sysfsArrayMissingFromMdstat)
        reading.1.diagnosticCodes
      arrays := snapshot.arrays ++ [sysfsOnly P reading.1] } rest

def arrayNames (s : Sorter) (blocks : List Bytes) : List Bytes :=
  s.strings (blocks.filter validMDName)

def sysfsArrays (s : Sorter) (blocks : List Bytes) : List Bytes :=
  (arrayNames s blocks).take maxMDArrayEntries

def startSnapshot (s : Sorter) (blocks : List Bytes) : Snapshot P :=
  if maxMDArrayEntries < (arrayNames s blocks).length then
    { status := .partly, identityInventoryComplete := false,
      diagnosticCodes := [.mdArrayLimitExceeded] }
  else { identityInventoryComplete := true }

def note (snapshot : Snapshot P) (code : Diagnostic) (status : InventoryStatus) : Snapshot P :=
  { snapshot with
    diagnosticCodes := appendMDArrayDiagnostic snapshot.diagnosticCodes code
    status := status }

def unlistedArrays (s : Sorter) (blocks : List Bytes) (records : List (Record P)) : List Bytes :=
  (sysfsArrays s blocks).filter fun name => !(records.map Record.name).contains name

def collectRecords (s : Sorter) (sysfs : Sysfs) (blocks : List Bytes)
    (records : List (Record P)) : Snapshot P :=
  let start := startSnapshot P s blocks
  let listed := appendRecords P s sysfs blocks
    { start with status := if start.status = .partly then .partly else .available } records
  appendUnlisted P s sysfs listed (unlistedArrays P s blocks records)

def collectSysfs (s : Sorter) (sysfs : Sysfs) (blocks : List Bytes) (snapshot : Snapshot P) :
    Snapshot P :=
  if sysfsArrays s blocks = [] then snapshot
  else appendSysfsOnlyArrays P s sysfs { snapshot with status := .partly } (sysfsArrays s blocks)

def collectMDArrayInventory (s : Sorter) (proc : ProcFile) (sysfs : Sysfs) : Snapshot P :=
  match sysfs.blocks.filter fun blocks => blocks.length ≤ maxBlockEntries with
  | none => note P {} .blockInventoryUnavailable .unavailable
  | some blocks =>
    let start := startSnapshot P s blocks
    match proc.bounded with
    | .missing =>
      finishMDArraySnapshot s
        (collectSysfs P s sysfs blocks (note P start .mdstatUnavailable .unsupported))
    | .unreadable =>
      finishMDArraySnapshot s
        (collectSysfs P s sysfs blocks (note P start .mdstatUnreadable start.status))
    | .data text =>
      match parseMDStat P text with
      | none =>
        finishMDArraySnapshot s
          (appendSysfsOnlyArrays P s sysfs (note P start .mdstatMalformed .partly)
            (sysfsArrays s blocks))
      | some records => finishMDArraySnapshot s (collectRecords P s sysfs blocks records)

def parsed (proc : ProcFile) : Option (List (Record P)) :=
  match proc.bounded with
  | .data text => parseMDStat P text
  | _ => none

variable {names : List Bytes} {name : Bytes}

section Loops

variable {P} {s : Sorter} {sysfs : Sysfs} {blocks : List Bytes} {snapshot : Snapshot P}

def readRecord (s : Sorter) (sysfs : Sysfs) (blocks : List Bytes) (record : Record P) :
    Observation P × Bool :=
  readMDArraySysfs P s sysfs record (blocks.contains record.name)

def readUnlisted (s : Sorter) (sysfs : Sysfs) (name : Bytes) : Observation P :=
  sysfsOnly P (readMDArraySysfs P s sysfs { name := name } true).1

theorem appendSysfsOnlyArrays_arrays :
    (appendSysfsOnlyArrays P s sysfs snapshot names).arrays =
      snapshot.arrays ++ names.map (readUnlisted s sysfs) := by
  induction names generalizing snapshot with
  | nil => simp [appendSysfsOnlyArrays]
  | cons name rest ih => simp [appendSysfsOnlyArrays, ih, readUnlisted]

variable {records : List (Record P)}

theorem appendRecords_arrays :
    (appendRecords P s sysfs blocks snapshot records).arrays =
      snapshot.arrays ++ records.map fun r => (readRecord s sysfs blocks r).1 := by
  induction records generalizing snapshot with
  | nil => simp [appendRecords]
  | cons r rest ih => simp [appendRecords, ih, readRecord]

theorem appendRecords_partly :
    (appendRecords P s sysfs blocks snapshot records).status = .partly ↔
      snapshot.status = .partly ∨ ∃ r ∈ records, (readRecord s sysfs blocks r).2 = false := by
  induction records generalizing snapshot with
  | nil => simp [appendRecords]
  | cons r rest ih =>
    rw [appendRecords, ih]
    change (if (readRecord s sysfs blocks r).2 then snapshot.status else .partly) = _ ∨ _ ↔ _
    cases hflag : (readRecord s sysfs blocks r).2 with
    | false | true => simp [hflag]

theorem appendUnlisted_arrays :
    (appendUnlisted P s sysfs snapshot names).arrays =
      snapshot.arrays ++ names.map (readUnlisted s sysfs) := by
  induction names generalizing snapshot with
  | nil => simp [appendUnlisted]
  | cons name rest ih => simp [appendUnlisted, ih, readUnlisted]

theorem appendUnlisted_partly :
    (appendUnlisted P s sysfs snapshot names).status = .partly ↔
      snapshot.status = .partly ∨ names ≠ [] := by
  induction names generalizing snapshot with
  | nil => simp [appendUnlisted]
  | cons name rest ih => simp [appendUnlisted, ih]

theorem startSnapshot_arrays : (startSnapshot P s blocks).arrays = [] := by
  rw [startSnapshot]
  split_ifs <;> rfl

theorem noted_arrays {code : Diagnostic} {status : InventoryStatus} :
    (note P (startSnapshot P s blocks) code status).arrays = [] :=
  startSnapshot_arrays

theorem collectRecords_arrays :
    (collectRecords P s sysfs blocks records).arrays =
      (records.map fun r => (readRecord s sysfs blocks r).1) ++
        (unlistedArrays P s blocks records).map (readUnlisted s sysfs) := by
  rw [collectRecords, appendUnlisted_arrays, appendRecords_arrays]
  simp only [startSnapshot_arrays, List.nil_append]

theorem collectRecords_partly :
    (collectRecords P s sysfs blocks records).status = .partly ↔
      maxMDArrayEntries < (arrayNames s blocks).length ∨
        (∃ r ∈ records, (readRecord s sysfs blocks r).2 = false) ∨
        unlistedArrays P s blocks records ≠ [] := by
  rw [collectRecords, appendUnlisted_partly, appendRecords_partly, or_assoc]
  refine or_congr_left ?_
  by_cases hmany : maxMDArrayEntries < (arrayNames s blocks).length
  · simp [startSnapshot, hmany]
  · simp [startSnapshot, hmany]

theorem readUnlisted_health : (readUnlisted s sysfs name : Observation P).health ≠ .healthy := by
  rw [readUnlisted, sysfsOnly]
  dsimp only
  split_ifs
  · exact nofun
  · exact nofun

theorem readUnlisted_name : (readUnlisted s sysfs name : Observation P).name = name :=
  readMDArraySysfs_name

theorem finish_map : ∃ f : Observation P → Observation P,
    (∀ o, (f o).name = o.name ∧ (f o).health = o.health) ∧
      (finishMDArraySnapshot s snapshot).arrays = (listed s snapshot).map f := by
  have hwithdraw : ∀ (p : Observation P → Prop) [DecidablePred p] (o : Observation P),
      (if p o then withdraw o else o).name = o.name ∧
        (if p o then withdraw o else o).health = o.health := by
    intro p _ o
    split_ifs
    · exact ⟨rfl, rfl⟩
    · exact ⟨rfl, rfl⟩
  by_cases hcomparable : comparable s snapshot = true
  · by_cases hone : OneEach (listed s snapshot)
    · refine ⟨markArray (pairsOf (listed s snapshot)), fun o => ?_, ?_⟩
      · have hsame : SameArray o (markArray (pairsOf (listed s snapshot)) o) := markArray_same
        rw [hsame]
        exact ⟨rfl, rfl⟩
      · simp [finishMDArraySnapshot, hcomparable, markDuplicateMDArrayUUIDs_some hone]
    · refine ⟨_, hwithdraw fun o => o.uuidStatus = .present ∨ o.uuidStatus = .ambiguous, ?_⟩
      simp [finishMDArraySnapshot, hcomparable, markDuplicateMDArrayUUIDs_none hone]
  · refine ⟨_, hwithdraw fun o => o.uuidStatus = .present, ?_⟩
    simp [finishMDArraySnapshot, Bool.not_eq_true _ ▸ hcomparable]

theorem finish_partly : (finishMDArraySnapshot s snapshot).status = .partly ↔
    truncated snapshot = true ∨ snapshot.status = .partly := by
  by_cases hlong : truncated snapshot = true
  · simp [finishMDArraySnapshot, hlong]
  · cases hstatus : snapshot.status <;> simp [finishMDArraySnapshot, hlong, hstatus]

theorem of_finished {a : Observation P} (h : a ∈ (finishMDArraySnapshot s snapshot).arrays) :
    ∃ o ∈ snapshot.arrays, a.name = o.name ∧ a.health = o.health := by
  obtain ⟨f, hf, harrays⟩ := @finish_map P s snapshot
  rw [harrays] at h
  obtain ⟨o, ho, rfl⟩ := List.mem_map.mp h
  exact ⟨o, mem_listed ho, hf o⟩

theorem finished_names : (finishMDArraySnapshot s snapshot).arrays.map Observation.name =
    (s.strings (snapshot.arrays.map Observation.name)).take maxMDArrayEntries := by
  obtain ⟨f, hf, harrays⟩ := @finish_map P s snapshot
  have hlisted : listed s snapshot =
      (s.run Observation.name snapshot.arrays).take maxMDArrayEntries := by
    rw [listed]
    split_ifs with hlong
    · rfl
    · have hshort : snapshot.arrays.length ≤ maxMDArrayEntries := by
        simpa [truncated] using hlong
      rw [List.take_of_length_le]
      rwa [(s.perm _ _).length_eq]
  have hnames : Observation.name ∘ f = Observation.name := funext fun o => (hf o).1
  rw [harrays, hlisted, List.map_map, hnames, List.map_take, s.run_keys
    (fun _ _ => UnixIdentity.bytesLe_antisymm), Sorter.strings]

theorem readUnlisted_observed : Observed (readUnlisted s sysfs name : Observation P) :=
  ⟨s, sysfs, _, true, _, rfl⟩

theorem collectSysfs_arrays (hempty : snapshot.arrays = []) :
    (collectSysfs P s sysfs blocks snapshot).arrays =
      (sysfsArrays s blocks).map (readUnlisted s sysfs) := by
  rw [collectSysfs]
  split_ifs with hnone
  · rw [hempty, hnone, List.map_nil]
  · rw [appendSysfsOnlyArrays_arrays, hempty, List.nil_append]

/-- Whatever the sources are, only readings of sysfs reach the end of the collection. -/
theorem collect_cases (s : Sorter) (proc : ProcFile) (sysfs : Sysfs) :
    collectMDArrayInventory P s proc sysfs = note P {} .blockInventoryUnavailable .unavailable ∨
      ∃ before, collectMDArrayInventory P s proc sysfs = finishMDArraySnapshot s before ∧
        ∀ o ∈ before.arrays, (∃ name, readUnlisted s sysfs name = o) ∨
          ∃ records, parsed P proc = some records ∧
            ∃ blocks, sysfs.blocks = some blocks ∧ blocks.length ≤ maxBlockEntries ∧
              ∃ r ∈ records, (readRecord s sysfs blocks r).1 = o := by
  have unlisted : ∀ {names : List Bytes} {o : Observation P},
      o ∈ names.map (readUnlisted s sysfs) → ∃ name, readUnlisted s sysfs name = o :=
    fun ho => (List.mem_map.mp ho).imp fun _ h => h.2
  rw [collectMDArrayInventory]
  split
  · exact .inl rfl
  · rename_i blocks hblocks
    right
    dsimp only
    split
    · refine ⟨_, rfl, fun o ho => .inl ?_⟩
      rw [collectSysfs_arrays noted_arrays] at ho
      exact unlisted ho
    · refine ⟨_, rfl, fun o ho => .inl ?_⟩
      rw [collectSysfs_arrays noted_arrays] at ho
      exact unlisted ho
    · rename_i text hbounded
      split
      · refine ⟨_, rfl, fun o ho => .inl ?_⟩
        rw [appendSysfsOnlyArrays_arrays, noted_arrays, List.nil_append] at ho
        exact unlisted ho
      · rename_i records hrecords
        refine ⟨_, rfl, fun o ho => ?_⟩
        rw [collectRecords_arrays, List.mem_append] at ho
        rcases ho with ho | ho
        · obtain ⟨hthere, hfew⟩ := Option.filter_eq_some_iff.mp hblocks
          refine .inr ⟨records, ?_, blocks, hthere, of_decide_eq_true hfew, List.mem_map.mp ho⟩
          rw [parsed, hbounded]
          exact hrecords
        · exact .inl (unlisted ho)

/-- In every inventory that is collected, a UUID is present only in a complete inventory that has
it on one device, and an incomplete inventory shows none. -/
theorem collected_unambiguous (s : Sorter) (proc : ProcFile) (sysfs : Sysfs)
    (a : Observation P) (ha : a ∈ (collectMDArrayInventory P s proc sysfs).arrays) :
    (a.uuidStatus = .present →
        (collectMDArrayInventory P s proc sysfs).identityInventoryComplete = true ∧
          ∀ b ∈ (collectMDArrayInventory P s proc sysfs).arrays,
            device b ≠ device a → b.arrayUUID ≠ a.arrayUUID) ∧
      ((collectMDArrayInventory P s proc sysfs).identityInventoryComplete = false →
        a.uuidStatus ≠ .present ∧ a.uuidStatus ≠ .ambiguous) := by
  rcases collect_cases s proc sysfs with hnone | ⟨before, hcollect, hcases⟩
  · rw [hnone] at ha
    cases ha
  · rw [hcollect] at ha ⊢
    have hfinished : Unambiguous before (finishMDArraySnapshot s before) := by
      refine unambiguous_of_read fun o ho => ?_
      rcases hcases o ho with ⟨name, rfl⟩ | ⟨_, _, _, _, _, r, _, rfl⟩
      · exact readUnlisted_observed.identity
      · exact (observed_reading s sysfs r _).identity
    refine ⟨hfinished.present a ha, fun hincomplete => ?_⟩
    have hspoiled : Spoiled before := by
      by_contra hsound
      rw [(hfinished.kept hsound).1] at hincomplete
      cases hincomplete
    exact (hfinished.spoiled hspoiled).arrays a ha

end Loops

section Agreement

variable {P} {s : Sorter} {sysfs : Sysfs} {record : Record P} {v : Values}

/-- The text states slots of members, and they are not those of so many disks of which so many
are missing. -/
def SlotsDiffer (record : Record P) (v : Values) : Prop :=
  record.memberSlots ≠ [] ∧ (record.memberSlots.length ≠ v.raidDisks ∨
    record.memberSlots.count 0x55 + v.degraded ≠ v.raidDisks)

inductive Differs (record : Record P) (v : Values) : Prop
  | level : record.level ≠ ascii "unknown" → record.level ≠ v.level → Differs record v
  | active : record.state = ascii "active" → v.state ∈ quietStates → Differs record v
  | inactive : record.state = ascii "inactive" → v.state ∉ quietStates → Differs record v
  | counts : record.countsKnown = true →
      record.expectedDevices ≠ v.raidDisks ∨
        record.activeDevices + v.degraded ≠ record.expectedDevices → Differs record v
  | slots : SlotsDiffer record v → Differs record v
  | action : normalizeMDSyncAction record.syncAction ≠ v.action → Differs record v
  | members : record.members ≠ [] → ¬ (record.members.map Member.name).Perm v.slaves →
      Differs record v
  | faulty (m) : m ∈ record.members → m.state = .faulty → v.degraded = 0 → Differs record v

theorem sysfsMembers_names : (sysfsMembers s v).map Member.name = s.strings v.slaves := by
  simp [sysfsMembers, Function.comp_def]

theorem sameMDMemberNames_iff :
    sameMDMemberNames s record.members (sysfsMembers s v) = true ↔
      (record.members.map Member.name).Perm v.slaves := by
  rw [sameMDMemberNames, sysfsMembers_names, Bool.and_eq_true, beq_iff_eq, beq_iff_eq]
  have hsort : ∀ l, (s.strings l).Perm l := fun l => s.perm id l
  constructor
  · rintro ⟨-, heq⟩
    have hperm : (s.strings (s.strings v.slaves)).Perm v.slaves :=
      (hsort _).trans (hsort _)
    exact (hsort _).symm.trans (heq ▸ hperm)
  · intro hperm
    constructor
    · have hlength := hperm.length_eq
      rw [List.length_map] at hlength
      rw [sysfsMembers, List.length_map, hlength, (hsort _).length_eq]
    · exact ServicePreview.sort_strings s s (hperm.trans (hsort _).symm)

structure Compared (record : Record P) (v : Values) : Prop where
  members : record.members ≠ [] → (record.members.map Member.name).Perm v.slaves
  faulty : v.degraded = 0 → ∀ m ∈ record.members, m.state ≠ .faulty
  counts : record.countsKnown = true → record.expectedDevices = v.raidDisks ∧
    sub32 record.expectedDevices record.activeDevices = v.degraded
  level : record.level ≠ ascii "unknown" → record.level = v.level
  action : record.syncAction ≠ [] → normalizeMDSyncAction record.syncAction = v.action
  inactive : record.state = ascii "inactive" → v.state ∈ quietStates
  active : record.state = ascii "active" → v.state ∉ quietStates

theorem disagrees_eq_false_iff : disagrees P s record v = false ↔ Compared record v := by
  have hnames : (record.members != [] && !sameMDMemberNames s record.members
      (sysfsMembers s v)) = false ↔
      (record.members ≠ [] → (record.members.map Member.name).Perm v.slaves) := by
    rw [← @sameMDMemberNames_iff P s]
    by_cases hempty : record.members = []
    · simp [hempty]
    · simp [hempty]
  have hfaulty : (record.members.any (fun m => m.state == .faulty) && v.degraded == 0) = false ↔
      (v.degraded = 0 → ∀ m ∈ record.members, m.state ≠ .faulty) := by
    by_cases hzero : v.degraded = 0
    · simp [hzero]
    · simp [hzero]
  have hcounts : (record.countsKnown && (record.expectedDevices != v.raidDisks ||
      sub32 record.expectedDevices record.activeDevices != v.degraded)) = false ↔
      (record.countsKnown = true → record.expectedDevices = v.raidDisks ∧
        sub32 record.expectedDevices record.activeDevices = v.degraded) := by
    by_cases hknown : record.countsKnown = true
    · simp [hknown]
    · simp [hknown]
  simp only [disagrees, Bool.or_eq_false_iff, hnames, hfaulty, hcounts]
  constructor
  · rintro ⟨⟨⟨⟨⟨⟨hmembers, hfaulty⟩, hcounts⟩, hlevel⟩, haction⟩, hinactive⟩, hactive⟩
    refine ⟨hmembers, hfaulty, hcounts, ?_, ?_, ?_, ?_⟩
    · intro hne
      simpa [hne] using hlevel
    · intro hne
      simpa [hne] using haction
    · intro heq
      simpa [heq] using hinactive
    · intro heq
      simpa [heq] using hactive
  · intro h
    refine ⟨⟨⟨⟨⟨⟨h.members, h.faulty⟩, h.counts⟩, ?_⟩, ?_⟩, ?_⟩, ?_⟩
    · by_cases hlevel : record.level = ascii "unknown"
      · simp [hlevel]
      · simp [h.level hlevel]
    · by_cases haction : record.syncAction = []
      · simp [haction]
      · simp [h.action haction]
    · by_cases hstate : record.state = ascii "inactive"
      · simp [h.inactive hstate]
      · simp [hstate]
    · by_cases hstate : record.state = ascii "active"
      · simp [h.active hstate]
      · simp [hstate]

theorem values_disks (h : values sysfs name = some v) : v.raidDisks ≤ maxMDMemberEntries := by
  rw [values] at h
  split_ifs at h
  split at h
  · cases h
  · rename_i w hw
    cases h
    rw [parseTexts] at hw
    dsimp only at hw
    split_ifs at hw
    cases hw
    dsimp only
    cases hdisks : parseBoundedMDInteger ((readTexts sysfs name).raidDisks.getD [])
      maxMDMemberEntries with
    | none => exact Nat.zero_le _
    | some n => exact of_decide_eq_true (Option.filter_eq_some_iff.mp hdisks).2

/-- The code compares whatever a text states, but for the slots. -/
theorem Compared.differs_iff (h : Compared record v) (hheaded : Headed record)
    (hcounted : wellCounted P record = true) (hdisks : v.raidDisks ≤ maxMDMemberEntries) :
    Differs record v ↔ SlotsDiffer record v := by
  refine ⟨fun hdiffers => ?_, .slots⟩
  cases hdiffers with
  | level hstated hne => exact absurd (h.level hstated) hne
  | active hstate hquiet => exact absurd hquiet (h.active hstate)
  | inactive hstate hquiet => exact absurd (h.inactive hstate) hquiet
  | counts hknown hne =>
    obtain ⟨hexpected, hactive⟩ := h.counts hknown
    have hle : record.activeDevices ≤ record.expectedDevices := by
      simp only [wellCounted, hknown, Bool.true_and, Bool.and_eq_true, Bool.not_eq_true',
        decide_eq_false_iff_not] at hcounted
      omega
    rw [sub32] at hactive
    rw [maxMDMemberEntries] at hdisks
    omega
  | slots hslots => exact hslots
  | action hne =>
    have hnamed : ∀ a ∈ ascii "idle" :: syncActions, a ≠ [] := by decide
    exact absurd (h.action (hnamed _ hheaded.action)) hne
  | members hstated hne => exact absurd (h.members hstated) hne
  | faulty m hm hfaulty hzero => exact absurd hfaulty (h.faulty hzero m hm)

variable {blocks : List Bytes}

/-- The code reaches its comparison of the two readings and finds no difference. -/
structure Taken (sysfs : Sysfs) (blocks : List Bytes) (record : Record P) (v : Values) : Prop where
  node : record.name ∈ blocks
  read : values sysfs record.name = some v
  progress : parseMDSyncCompleted P ((readTexts sysfs record.name).completed.getD []) ≠ none
  slaves : ∀ name ∈ v.slaves, validBlockName name = true
  compared : Compared record v

theorem readRecord_of_taken (h : Taken sysfs blocks record v) :
    (readRecord s sysfs blocks record).1.health =
        classifyMDHealth v.state v.action v.level v.raidDisks v.degraded true ∧
      (readRecord s sysfs blocks record).2 = true := by
  obtain ⟨progress, hprogress⟩ := Option.ne_none_iff_exists'.mp h.progress
  have hslaves : (v.slaves.any fun name => !validBlockName name) = false := by
    simpa using h.slaves
  have hagree : disagrees P s record v = false := disagrees_eq_false_iff.mpr h.compared
  rw [readRecord, List.contains_iff_mem.mpr h.node, readMDArraySysfs_some h.read, crossCheck,
    hprogress]
  simp [hslaves, hagree]

theorem readRecord_of_not_taken (h : ∀ v, ¬ Taken sysfs blocks record v) :
    (readRecord s sysfs blocks record).1.health = .unknown ∧
      (readRecord s sysfs blocks record).2 = false := by
  rw [readRecord]
  by_cases hnone : blocks.contains record.name = false ∨ values sysfs record.name = none
  · exact readMDArraySysfs_none hnone
  · rw [not_or, Bool.not_eq_false] at hnone
    obtain ⟨hnode, hsome⟩ := hnone
    obtain ⟨v, hv⟩ := Option.ne_none_iff_exists'.mp hsome
    have hhealth := @readIdentity_health P sysfs (fromRecord P record)
    rw [hnode, readMDArraySysfs_some hv, crossCheck]
    dsimp only
    split
    · exact ⟨hhealth, rfl⟩
    · rename_i progress hprogress
      split_ifs with hslaves
      · exact ⟨hhealth, rfl⟩
      · have hdisagrees : disagrees P s record v = true := by
          by_contra hagree
          refine h v ⟨List.contains_iff_mem.mp hnode, hv, ?_, by simpa using hslaves, ?_⟩
          · rw [hprogress]
            exact nofun
          · exact disagrees_eq_false_iff.mp (by simpa using hagree)
        rw [hdisagrees]
        exact ⟨rfl, rfl⟩

theorem readUnlisted_inactive :
    (readUnlisted s sysfs name : Observation P).health ≠ .unknown ↔
      ∃ v, values sysfs name = some v ∧ v.state = ascii "inactive" := by
  have hstate : (readMDArraySysfs P s sysfs { name := name } true).1.state =
      ((values sysfs name).map Values.state).getD [] := readMDArraySysfs_state
  rw [readUnlisted, sysfsOnly, hstate]
  cases values sysfs name with
  | none => simp [show [] ≠ ascii "inactive" by decide]
  | some v =>
    by_cases hinactive : v.state = ascii "inactive"
    · simp [hinactive]
    · simp [hinactive]

end Agreement

section Optimism

variable {P} {s : Sorter} {proc : ProcFile} {sysfs : Sysfs}

/-- Both sources show a healthy array, and they agree on it. -/
structure Sane (record : Record P) (v : Values) : Prop where
  operational : Operational v
  agree : ¬ Differs record v
  sound : ∀ m ∈ record.members, m.state ≠ .faulty
  up : 0x5f ∉ record.memberSlots

def Unlisted (records : List (Record P)) (blocks : List Bytes) (name : Bytes) : Prop :=
  name ∈ blocks ∧ validMDName name = true ∧ name ∉ records.map Record.name

/-- The arrays on which a text with these records and a directory with these block devices do not
say the same. -/
inductive Disagree (records : List (Record P)) (sysfs : Sysfs) (blocks : List Bytes) :
    Bytes → Prop
  | missing (r) : r ∈ records → r.name ∉ blocks → Disagree records sysfs blocks r.name
  | unread (r) : r ∈ records → values sysfs r.name = none → Disagree records sysfs blocks r.name
  | differs (r v) : r ∈ records → values sysfs r.name = some v → Differs r v →
      Disagree records sysfs blocks r.name
  | unlisted {n} : Unlisted records blocks n → Disagree records sysfs blocks n

structure NeverOptimistic (proc : ProcFile) (sysfs : Sysfs) (inventory : Snapshot P) : Prop where
  healthy : ∀ a ∈ inventory.arrays, a.health = .healthy →
    ∃ records, parsed P proc = some records ∧ ∃ r ∈ records, r.name = a.name ∧
      ∃ v, values sysfs a.name = some v ∧ Sane r v
  unknown : ∀ records, parsed P proc = some records →
    ∀ blocks, sysfs.blocks = some blocks → blocks.length ≤ maxBlockEntries →
    ∀ name, Disagree records sysfs blocks name →
      (∀ a ∈ inventory.arrays, a.name = name → a.health = .unknown) ∧
        inventory.status = .partly

theorem collect_of_parsed {records : List (Record P)} {blocks : List Bytes}
    (hparsed : parsed P proc = some records) (hblocks : sysfs.blocks = some blocks)
    (hfew : blocks.length ≤ maxBlockEntries) :
    collectMDArrayInventory P s proc sysfs =
      finishMDArraySnapshot s (collectRecords P s sysfs blocks records) := by
  rw [parsed] at hparsed
  split at hparsed
  · rename_i text hbounded
    have hkept : sysfs.blocks.filter (fun blocks => decide (blocks.length ≤ maxBlockEntries)) =
        some blocks := by
      simp [hblocks, hfew]
    rw [collectMDArrayInventory, hkept]
    simp only [hbounded, hparsed]
  · cases hparsed

/-- Health comes from a record that was read as healthy. -/
theorem healthy_recorded {a : Observation P}
    (ha : a ∈ (collectMDArrayInventory P s proc sysfs).arrays) (hhealthy : a.health = .healthy) :
    ∃ records, parsed P proc = some records ∧
      ∃ blocks, sysfs.blocks = some blocks ∧ blocks.length ≤ maxBlockEntries ∧
      ∃ r ∈ records, r.name = a.name ∧ (readRecord s sysfs blocks r).1.health = .healthy := by
  rcases collect_cases s proc sysfs with hnone | ⟨before, hcollect, hcases⟩
  · rw [hnone] at ha
    cases ha
  · rw [hcollect] at ha
    obtain ⟨o, ho, hname, hsame⟩ := of_finished ha
    have hhealth : o.health = .healthy := hsame.symm.trans hhealthy
    rcases hcases o ho with ⟨name, rfl⟩ | ⟨records, hparsed, blocks, hblocks, hfew, r, hr, rfl⟩
    · exact absurd hhealth readUnlisted_health
    · exact ⟨records, hparsed, blocks, hblocks, hfew, r, hr,
        readMDArraySysfs_name.symm.trans hname.symm, hhealth⟩

theorem parsed_sound {records : List (Record P)} (h : parsed P proc = some records) :
    Sound records ∧ ∀ r ∈ records, wellCounted P r = true := by
  rw [parsed] at h
  split at h
  · obtain ⟨hsound, hcounted, -⟩ := parseMDStat_sound h
    exact ⟨hsound, hcounted⟩
  · cases h

variable {records : List (Record P)} {blocks : List Bytes}

/-- The names of the arrays that are reported: the first ones of all that either source has. -/
def shown (s : Sorter) (records : List (Record P)) (blocks : List Bytes) : List Bytes :=
  (s.strings (records.map Record.name ++ unlistedArrays P s blocks records)).take maxMDArrayEntries

theorem shown_iff : name ∈ shown s records blocks ↔
    ∃ a ∈ (finishMDArraySnapshot s (collectRecords P s sysfs blocks records)).arrays,
      a.name = name := by
  have hrecords : (Observation.name ∘ fun r : Record P => (readRecord s sysfs blocks r).1) =
      Record.name := funext fun r => readMDArraySysfs_name
  have hunlisted : (Observation.name ∘ (readUnlisted s sysfs : Bytes → Observation P)) = id :=
    funext fun name => readUnlisted_name
  rw [← List.mem_map, finished_names, collectRecords_arrays, List.map_append, List.map_map,
    List.map_map, hrecords, hunlisted, List.map_id, shown]

theorem mem_unlistedArrays (h : name ∈ unlistedArrays P s blocks records) :
    Unlisted records blocks name := by
  obtain ⟨hmem, hnot⟩ := List.mem_filter.mp h
  have hblock := List.mem_filter.mp (s.mem_run.mp (List.mem_of_mem_take hmem))
  exact ⟨hblock.1, hblock.2, by simpa using hnot⟩

theorem mem_shown (h : name ∈ shown s records blocks) :
    name ∈ records.map Record.name ∨ Unlisted records blocks name := by
  rcases List.mem_append.mp (s.mem_run.mp (List.mem_of_mem_take h)) with hrecord | hunlisted
  · exact .inl hrecord
  · exact .inr (mem_unlistedArrays hunlisted)

/-- What is reported of an array with a record is what was read for the record. -/
theorem health_of_record (hnames : (records.map Record.name).Nodup) {r : Record P}
    (hr : r ∈ records) {a : Observation P}
    (ha : a ∈ (finishMDArraySnapshot s (collectRecords P s sysfs blocks records)).arrays)
    (hname : a.name = r.name) : a.health = (readRecord s sysfs blocks r).1.health := by
  obtain ⟨o, ho, hsame, hhealth⟩ := of_finished ha
  rw [hname] at hsame
  rw [collectRecords_arrays, List.mem_append] at ho
  rcases ho with ho | ho
  · obtain ⟨t, ht, rfl⟩ := List.mem_map.mp ho
    have heq : t.name = r.name := by
      rw [hsame]
      exact readMDArraySysfs_name.symm
    rw [hhealth, List.inj_on_of_nodup_map hnames ht hr heq]
  · obtain ⟨name, hmem, rfl⟩ := List.mem_map.mp ho
    rw [readUnlisted_name] at hsame
    exact absurd (hsame ▸ List.mem_map_of_mem hr) (mem_unlistedArrays hmem).2.2

theorem health_of_unlisted (hnot : name ∉ records.map Record.name) {a : Observation P}
    (ha : a ∈ (finishMDArraySnapshot s (collectRecords P s sysfs blocks records)).arrays)
    (hname : a.name = name) :
    a.health = (readUnlisted s sysfs name : Observation P).health := by
  obtain ⟨o, ho, hsame, hhealth⟩ := of_finished ha
  rw [hname] at hsame
  rw [collectRecords_arrays, List.mem_append] at ho
  rcases ho with ho | ho
  · obtain ⟨t, ht, rfl⟩ := List.mem_map.mp ho
    have heq : name = t.name := hsame.trans readMDArraySysfs_name
    exact absurd (heq ▸ List.mem_map_of_mem ht) hnot
  · obtain ⟨other, -, rfl⟩ := List.mem_map.mp ho
    rw [readUnlisted_name] at hsame
    rw [hhealth, hsame]

/-- Why an inventory is partial: an array without a record, or a record that is not read in full
or was found to differ. -/
def Incomplete (records : List (Record P)) (sysfs : Sysfs) (blocks : List Bytes) : Prop :=
  (∃ name, Unlisted records blocks name) ∨ ∃ r ∈ records, ∀ v, ¬ Taken sysfs blocks r v

theorem unlisted_of_many (hfew : records.length ≤ maxMDArrayEntries) (hblocks : blocks.Nodup)
    (hmany : maxMDArrayEntries < (arrayNames s blocks).length) :
    ∃ name, Unlisted records blocks name := by
  by_contra hnone
  have hsub : arrayNames s blocks ⊆ records.map Record.name := by
    intro name hname
    obtain ⟨hblock, hvalid⟩ := List.mem_filter.mp (s.mem_run.mp hname)
    by_contra hnot
    exact hnone ⟨name, hblock, hvalid, hnot⟩
  have hnodup : (arrayNames s blocks).Nodup :=
    (s.perm id _).nodup_iff.mpr (hblocks.filter _)
  have hlength := (List.subperm_of_subset hnodup hsub).length_le
  rw [List.length_map] at hlength
  omega

/-- The status tells when something is missing. -/
theorem partly_iff (hfew : records.length ≤ maxMDArrayEntries) (hblocks : blocks.Nodup) :
    (finishMDArraySnapshot s (collectRecords P s sysfs blocks records)).status = .partly ↔
      Incomplete records sysfs blocks := by
  have hread : ∀ r : Record P, (readRecord s sysfs blocks r).2 = false ↔
      ∀ v, ¬ Taken sysfs blocks r v := by
    intro r
    refine ⟨fun hflag v htaken => ?_, fun h => (readRecord_of_not_taken h).2⟩
    rw [(readRecord_of_taken htaken).2] at hflag
    cases hflag
  have hunlisted : unlistedArrays P s blocks records ≠ [] → ∃ name, Unlisted records blocks name :=
    fun hsome => (List.exists_mem_of_ne_nil _ hsome).imp fun _ => mem_unlistedArrays
  rw [finish_partly, collectRecords_partly]
  simp only [hread]
  constructor
  · rintro (hlong | hmany | hrecord | hsome)
    · -- there are too many records and arrays, and of records alone there are not
      left
      by_contra hnone
      have hempty : unlistedArrays P s blocks records = [] := not_not.mp (mt hunlisted hnone)
      rw [truncated, collectRecords_arrays, hempty] at hlong
      simp only [List.map_nil, List.append_nil, List.length_map, decide_eq_true_eq] at hlong
      omega
    · exact .inl (unlisted_of_many hfew hblocks hmany)
    · exact .inr hrecord
    · exact .inl (hunlisted hsome)
  · rintro (⟨name, hblock, hvalid, hnot⟩ | hrecord)
    · right
      by_cases hmany : maxMDArrayEntries < (arrayNames s blocks).length
      · exact .inl hmany
      · right
        right
        apply List.ne_nil_of_mem (a := name)
        refine List.mem_filter.mpr ⟨?_, by simpa using hnot⟩
        rw [sysfsArrays, List.take_of_length_le (Nat.not_lt.mp hmany)]
        exact s.mem_run.mpr (List.mem_filter.mpr ⟨hblock, hvalid⟩)
    · exact .inr (.inr (.inl hrecord))

/-- Where the code's comparison is enough. A record whose slots are not what sysfs shows, and which
the code takes all the same, is of unknown health by the values of sysfs alone, in an inventory
that is partial for another reason; and no array that only sysfs shows is inactive. -/
structure Cautious (s : Sorter) (records : List (Record P)) (sysfs : Sysfs)
    (blocks : List Bytes) : Prop where
  slots : ∀ r ∈ records, ∀ v, Taken sysfs blocks r v → SlotsDiffer r v →
    (r.name ∈ shown s records blocks →
        classifyMDHealth v.state v.action v.level v.raidDisks v.degraded true = .unknown) ∧
      Incomplete records sysfs blocks
  unlisted : ∀ name ∈ shown s records blocks, name ∉ records.map Record.name →
    ∀ v, values sysfs name = some v → v.state ≠ ascii "inactive"

theorem Sane.of_taken {r : Record P} {v : Values} (htaken : Taken sysfs blocks r v)
    (hoperational : Operational v) (hagree : ¬ Differs r v) : Sane r v := by
  refine ⟨hoperational, hagree, htaken.compared.faulty hoperational.degraded, fun hdown => ?_⟩
  -- every slot is counted and none of the disks is degraded
  have hstated : r.memberSlots ≠ [] := List.ne_nil_of_mem hdown
  have hslots : r.memberSlots.length = v.raidDisks ∧
      r.memberSlots.count 0x55 + v.degraded = v.raidDisks := by
    by_contra hne
    rw [not_and_or] at hne
    exact hagree (.slots ⟨hstated, hne⟩)
  rw [hoperational.degraded, Nat.add_zero, ← hslots.1] at hslots
  exact absurd (List.count_eq_length.mp hslots.2 _ hdown) (by decide)

theorem Cautious.unknown (h : Cautious s records sysfs blocks) (hsound : Sound records)
    (hdiffers : ∀ r ∈ records, ∀ v, Taken sysfs blocks r v → (Differs r v ↔ SlotsDiffer r v))
    (hdisagree : Disagree records sysfs blocks name) :
    (∀ a ∈ (finishMDArraySnapshot s (collectRecords P s sysfs blocks records)).arrays,
        a.name = name → a.health = .unknown) ∧ Incomplete records sysfs blocks := by
  have hunread : ∀ r ∈ records, (∀ v, ¬ Taken sysfs blocks r v) →
      (∀ a ∈ (finishMDArraySnapshot s (collectRecords P s sysfs blocks records)).arrays,
        a.name = r.name → a.health = .unknown) ∧ Incomplete records sysfs blocks := by
    intro r hr hnot
    refine ⟨fun a ha hname => ?_, .inr ⟨r, hr, hnot⟩⟩
    rw [health_of_record hsound.names hr ha hname]
    exact (readRecord_of_not_taken hnot).1
  cases hdisagree with
  | missing r hr hnode => exact hunread r hr fun v htaken => hnode htaken.node
  | unread r hr hnone =>
    refine hunread r hr fun v htaken => ?_
    rw [htaken.read] at hnone
    cases hnone
  | differs r v hr hv hdiff =>
    by_cases htaken : Taken sysfs blocks r v
    · obtain ⟨hhealth, hincomplete⟩ := h.slots r hr v htaken ((hdiffers r hr v htaken).mp hdiff)
      refine ⟨fun a ha hname => ?_, hincomplete⟩
      rw [health_of_record hsound.names hr ha hname, (readRecord_of_taken htaken).1]
      apply hhealth
      exact shown_iff.mpr ⟨a, ha, hname⟩
    · refine hunread r hr fun w hw => htaken ?_
      have heq : v = w := Option.some.inj (hv.symm.trans hw.read)
      exact heq ▸ hw
  | unlisted hunlisted =>
    refine ⟨fun a ha hname => ?_, .inl ⟨name, hunlisted⟩⟩
    rw [health_of_unlisted hunlisted.2.2 ha hname]
    by_contra hknown
    obtain ⟨v, hv, hstate⟩ := readUnlisted_inactive.mp hknown
    refine h.unlisted name ?_ hunlisted.2.2 v hv hstate
    exact shown_iff.mpr ⟨a, ha, hname⟩

/-- Health is reported with caution for exactly those texts and contents of sysfs for which the
code's comparison is enough. -/
theorem never_optimistic_iff (s : Sorter) (proc : ProcFile) (sysfs : Sysfs) :
    NeverOptimistic proc sysfs (collectMDArrayInventory P s proc sysfs) ↔
      ∀ records, parsed P proc = some records → ∀ blocks, sysfs.blocks = some blocks →
        blocks.length ≤ maxBlockEntries → Cautious s records sysfs blocks := by
  have hdiffers : ∀ {records : List (Record P)} {blocks : List Bytes},
      parsed P proc = some records → ∀ r ∈ records, ∀ v, Taken sysfs blocks r v →
        (Differs r v ↔ SlotsDiffer r v) := by
    intro records blocks hparsed r hr v htaken
    obtain ⟨hsound, hcounted⟩ := parsed_sound hparsed
    exact htaken.compared.differs_iff (hsound.headed r hr) (hcounted r hr)
      (values_disks htaken.read)
  constructor
  · intro h records hparsed blocks hblocks hfew
    have hsound := (parsed_sound hparsed).1
    have hunknown := h.unknown records hparsed blocks hblocks hfew
    rw [collect_of_parsed hparsed hblocks hfew] at hunknown
    constructor
    · intro r hr v htaken hslots
      obtain ⟨hhealth, hpartly⟩ := hunknown r.name
        (.differs r v hr htaken.read ((hdiffers hparsed r hr v htaken).mpr hslots))
      refine ⟨fun hshown => ?_, (partly_iff hsound.few (sysfs.blocks_nodup _ hblocks)).mp hpartly⟩
      obtain ⟨a, ha, hname⟩ := shown_iff.mp hshown
      rw [← (readRecord_of_taken htaken).1, ← health_of_record hsound.names hr ha hname]
      exact hhealth a ha hname
    · intro name hlisted hnot v hv hstate
      obtain ⟨a, ha, hname⟩ := shown_iff.mp hlisted
      have hunlisted : Unlisted records blocks name := (mem_shown hlisted).resolve_left hnot
      have hinactive := (hunknown name (.unlisted hunlisted)).1 a ha hname
      rw [health_of_unlisted hnot ha hname] at hinactive
      exact readUnlisted_inactive.mpr ⟨v, hv, hstate⟩ hinactive
  · intro h
    constructor
    · intro a ha hhealthy
      obtain ⟨records, hparsed, blocks, hblocks, hfew, r, hr, hname, hread⟩ :=
        healthy_recorded ha hhealthy
      have htaken : ∃ v, Taken sysfs blocks r v := by
        by_contra hnot
        rw [(readRecord_of_not_taken (not_exists.mp hnot)).1] at hread
        cases hread
      obtain ⟨v, htaken⟩ := htaken
      rw [(readRecord_of_taken htaken).1] at hread
      refine ⟨records, hparsed, r, hr, hname, v, hname ▸ htaken.read,
        .of_taken htaken (classify_healthy hread).2 fun hdiff => ?_⟩
      rw [collect_of_parsed hparsed hblocks hfew] at ha
      have hunknown := ((h records hparsed blocks hblocks hfew).unknown (parsed_sound hparsed).1
        (hdiffers hparsed) (.differs r v hr htaken.read hdiff)).1 a ha hname.symm
      rw [hhealthy] at hunknown
      cases hunknown
    · intro records hparsed blocks hblocks hfew name hdisagree
      have hsound := (parsed_sound hparsed).1
      rw [collect_of_parsed hparsed hblocks hfew,
        partly_iff hsound.few (sysfs.blocks_nodup _ hblocks)]
      exact (h records hparsed blocks hblocks hfew).unknown hsound (hdiffers hparsed) hdisagree

end Optimism

/-- A mirror of which the text says that its second member is down, in slots but not in counts. -/
def downText : Bytes :=
  ascii "md0 : active raid1 sda1[0] sdb1[1]\n" ++ ascii "      1024 blocks [U_]\n"

def mirrorSysfs (state : Bytes) : Sysfs where
  blocks := some [ascii "md0", ascii "sda1", ascii "sdb1"]
  file _ a :=
    match a with
    | .dev | .uuid => none
    | .level => some (ascii "raid1\n")
    | .arrayState => some state
    | .degraded => some (ascii "0\n")
    | .raidDisks => some (ascii "2\n")
    | .syncAction => some (ascii "idle\n")
    | .syncCompleted => some (ascii "none\n")
  slaves _ := some [ascii "sda1", ascii "sdb1"]
  blocks_nodup := by
    rintro names ⟨⟩
    decide
  slaves_nodup := by
    rintro name names ⟨⟩
    decide

def mirrorInventory (text state : Bytes) : Snapshot noPercentages :=
  collectMDArrayInventory noPercentages .simple (.data text) (mirrorSysfs state)

theorem down_slot_shown_healthy :
    ((parsed noPercentages (.data downText)).map fun records => records.map Record.memberSlots) =
        some [ascii "U_"] ∧
      ((mirrorInventory downText (ascii "clean\n")).arrays.map fun a => (a.name, a.health)) =
        [(ascii "md0", .healthy)] ∧
      (mirrorInventory downText (ascii "clean\n")).status = .available ∧
      ¬ NeverOptimistic (.data downText) (mirrorSysfs (ascii "clean\n"))
        (mirrorInventory downText (ascii "clean\n")) := by
  have hslots : ((parsed noPercentages (.data downText)).map fun records =>
      records.map Record.memberSlots) = some [ascii "U_"] := by decide +kernel
  have harrays : ((mirrorInventory downText (ascii "clean\n")).arrays.map
      fun a => (a.name, a.health)) = [(ascii "md0", .healthy)] := by decide +kernel
  refine ⟨hslots, harrays, by decide +kernel, fun h => ?_⟩
  have hmem : (ascii "md0", Health.healthy) ∈
      (mirrorInventory downText (ascii "clean\n")).arrays.map fun a => (a.name, a.health) := by
    rw [harrays]
    exact List.mem_singleton.mpr rfl
  obtain ⟨a, ha, heq⟩ := List.mem_map.mp hmem
  obtain ⟨records, hparsed, r, hr, -, v, -, hsane⟩ := h.healthy a ha (congrArg Prod.snd heq)
  rw [hparsed, Option.map_some, Option.some.injEq] at hslots
  have hstated : r.memberSlots ∈ records.map Record.memberSlots := List.mem_map_of_mem hr
  rw [hslots, List.mem_singleton] at hstated
  exact hsane.up (hstated ▸ (by decide))

/-- An array that only sysfs shows, and of which it says that it is not running, is not unknown. -/
example : ((mirrorInventory [] (ascii "inactive\n")).arrays.map fun a => (a.name, a.health)) =
    [(ascii "md0", .inactive)] := by decide +kernel

end MdInventory
