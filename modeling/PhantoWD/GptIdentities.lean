import PhantoWD.GptBinding

/-!
The identifiers of the bound tables are compared across the whole set of candidates, and what
leaves the broker is a summary. Each stage checks again what the stage before it has made.
-/
namespace GptIdentities

open GoText KeyedLists BlockTopology GptBinding
open VolumeProbe (Table)

inductive Coverage where
  | empty
  | none
  | partly
  | allCandidates
  deriving DecidableEq

structure SetObservation where
  candidateCount : Nat
  gptDiskCount : Nat
  unsupportedTableCount : Nat
  noTableCount : Nat
  coverage : Coverage
  vpdIdentityAmbiguous : Bool := false
  vpdIdentityEvidenceIncomplete : Bool := false
  bindings : Slice Binding

def validCanonicalGPTGUID (value : Bytes) : Bool :=
  MdSysfs.canonicalMDArrayUUID value == some value

structure Seen where
  names : List Bytes := []
  generations : List BlockDeviceGeneration := []
  deviceNumbers : List (UInt32 × UInt32) := []
  partitionNames : List Bytes := []
  gptDiskCount : Nat := 0
  unsupportedTableCount : Nat := 0
  noTableCount : Nat := 0

def deviceNumber (p : KernelPartition) : UInt32 × UInt32 := (p.major, p.minor)

def diskNumber (b : Binding) : UInt32 × UInt32 := (b.generation.major, b.generation.minor)

def partitionOk (p : KernelPartition) : Bool :=
  validBlockName p.kernelName && deviceNumber p != (0, 0) && validCanonicalGPTGUID p.uuid &&
    validCanonicalGPTGUID p.typeGUID && p.typeHint == classifyGPTPartitionTypeGUID p.typeGUID &&
    p.number != 0

def takePartitions (seen : Seen) (uuids : List Bytes) : List KernelPartition → Option Seen
  | [] => some seen
  | p :: rest =>
    if partitionOk p = false ∨ p.kernelName ∈ seen.partitionNames ∨
        deviceNumber p ∈ seen.deviceNumbers ∨ p.uuid ∈ uuids then none
    else
      takePartitions { seen with
        partitionNames := seen.partitionNames ++ [p.kernelName]
        deviceNumbers := seen.deviceNumbers ++ [deviceNumber p] } (uuids ++ [p.uuid]) rest

def bare (b : Binding) : Bool := b.scheme == [] && b.tableID == [] && b.partitions == []

def takeTable (seen : Seen) (b : Binding) : Option Seen :=
  match b.tableDisposition with
  | .noTable =>
    if bare b = false then none else some { seen with noTableCount := seen.noTableCount + 1 }
  | .unsupported =>
    if bare b = false then none
    else some { seen with unsupportedTableCount := seen.unsupportedTableCount + 1 }
  | .gpt =>
    if b.scheme ≠ ascii "gpt" ∨ validCanonicalGPTGUID b.tableID = false then none
    else takePartitions { seen with gptDiskCount := seen.gptDiskCount + 1 } [] b.partitions

def takeBinding (seen : Seen) (b : Binding) : Option Seen :=
  if validBlockName b.diskName = false ∨ b.diskName ∈ seen.names ∨ diskNumber b = (0, 0) ∨
      b.generation.diskSequence = 0 ∨ b.generation ∈ seen.generations then none
  else if diskNumber b ∈ seen.deviceNumbers then none
  else
    takeTable { seen with
      names := seen.names ++ [b.diskName]
      generations := seen.generations ++ [b.generation]
      deviceNumbers := seen.deviceNumbers ++ [diskNumber b] } b

def isGPT (b : Binding) : Bool := b.tableDisposition == .gpt

def diskGUIDOwners (bindings : List Binding) (id : Bytes) : Nat :=
  (bindings.filter isGPT).countP fun b => b.tableID == id

def partUUIDOwners (bindings : List Binding) (uuid : Bytes) : Nat :=
  ((bindings.filter isGPT).flatMap Binding.partitions).countP fun p => p.uuid == uuid

def statusOf (owners : Nat) : GuidStatus := if owners < 2 then .singleton else .ambiguous

def markPartition (bindings : List Binding) (p : KernelPartition) : KernelPartition :=
  { p with uuidStatus := statusOf (partUUIDOwners bindings p.uuid) }

def markBinding (bindings : List Binding) (b : Binding) : Binding :=
  if isGPT b then
    { b with
      tableIDStatus := statusOf (diskGUIDOwners bindings b.tableID)
      partitions := b.partitions.map (markPartition bindings) }
  else b

def coverageOf (candidates gpt : Nat) : Coverage :=
  if candidates = 0 then .empty
  else if gpt = 0 then .none
  else if gpt = candidates then .allCandidates
  else .partly

/-- `append` onto a nil slice: nothing appended leaves it nil. -/
def appendNil {α : Type} (l : List α) : Slice α := if l = [] then none else some l

def classifyGPTPartitionIdentities (bindings : Slice Binding) : Option SetObservation :=
  match bindings with
  | none => none
  | some list =>
    if maxBlockEntries < list.length then none
    else
      (list.foldlM takeBinding {}).map fun seen =>
        { candidateCount := list.length
          gptDiskCount := seen.gptDiskCount
          unsupportedTableCount := seen.unsupportedTableCount
          noTableCount := seen.noTableCount
          coverage := coverageOf list.length seen.gptDiskCount
          bindings := appendNil (list.map (markBinding list)) }

def storageGPTObservationMaxDisks : Nat := 6

def storageGPTObservationLimitations : List String :=
  ["only first-sector partition metadata and, for valid GPT candidates, GPT headers and " ++
      "entry metadata were read; filesystem signatures, partition contents and file data were " ++
      "not probed",
    "coverage and duplicate counts apply only to this complete eligible candidate set at one " ++
      "point in time; they do not establish global identity, WD compatibility, health or bay " ++
      "mapping",
    "only GPT candidates contribute identity; MBR/DOS, other partition schemes and candidates " ++
      "without a valid GPT table remain unsupported coverage gaps",
    "cancellation cannot guarantee prompt recovery from uninterruptible kernel block I/O; this " ++
      "is not EX4 hardware qualification",
    "no assembly, mount, import, repair, write or other storage mutation was performed"]

structure Summary where
  schemaVersion : Nat := 1
  status : String := "complete"
  scope : String := "manual-gpt-metadata-read-only"
  eligibleCandidateCount : Nat
  gptDiskCount : Nat
  partitionCount : Nat
  unsupportedTableCount : Nat
  coverage : Coverage
  ambiguousDiskGUIDCount : Nat
  ambiguousPARTUUIDCount : Nat
  identityEvidenceIncomplete : Bool
  contentRead : Bool := false
  mountPerformed : Bool := false
  assemblyPerformed : Bool := false
  importPerformed : Bool := false
  mutationsPerformed : Bool := false
  limitations : List String := storageGPTObservationLimitations
  deriving DecidableEq

def limitationsOk (limitations : List String) : Bool :=
  limitations.length == 5 && limitations == storageGPTObservationLimitations &&
    limitations.all fun text => text != "" && decide (text.utf8ByteSize ≤ 512)

def validStorageGPTObservationSummary (summary : Summary) : Bool :=
  summary.schemaVersion == 1 && summary.status == "complete" &&
    summary.scope == "manual-gpt-metadata-read-only" &&
    decide (summary.eligibleCandidateCount ≤ storageGPTObservationMaxDisks) &&
    decide (summary.gptDiskCount ≤ summary.eligibleCandidateCount) &&
    decide (summary.partitionCount ≤ storageGPTObservationMaxDisks * 256) &&
    summary.unsupportedTableCount == summary.eligibleCandidateCount - summary.gptDiskCount &&
    decide (summary.ambiguousDiskGUIDCount ≤ summary.gptDiskCount) &&
    decide (summary.ambiguousPARTUUIDCount ≤ summary.partitionCount) &&
    !summary.contentRead && !summary.mountPerformed && !summary.assemblyPerformed &&
    !summary.importPerformed && !summary.mutationsPerformed &&
    summary.coverage == coverageOf summary.eligibleCandidateCount summary.gptDiskCount &&
    limitationsOk summary.limitations

def ambiguousDisks (bindings : List Binding) : Nat :=
  (bindings.filter isGPT).countP fun b => b.tableIDStatus == .ambiguous

def boundPartitions (bindings : List Binding) : List KernelPartition :=
  (bindings.filter isGPT).flatMap Binding.partitions

def summaryOf (o : SetObservation) : Summary where
  eligibleCandidateCount := o.candidateCount
  gptDiskCount := o.gptDiskCount
  partitionCount := (boundPartitions o.bindings.items).length
  unsupportedTableCount := o.unsupportedTableCount + o.noTableCount
  coverage := o.coverage
  ambiguousDiskGUIDCount := ambiguousDisks o.bindings.items
  ambiguousPARTUUIDCount :=
    (boundPartitions o.bindings.items).countP fun p => p.uuidStatus == .ambiguous
  identityEvidenceIncomplete := o.vpdIdentityEvidenceIncomplete

def summarizeGPTIdentityObservation (o : SetObservation) : Option Summary :=
  if storageGPTObservationMaxDisks < o.candidateCount ∨ o.candidateCount < o.gptDiskCount ∨
      o.bindings = none ∨ o.bindings.items.length ≠ o.candidateCount then none
  else (some (summaryOf o)).filter validStorageGPTObservationSummary

structure FitBinding (b : Binding) : Prop where
  name : validBlockName b.diskName = true
  number : diskNumber b ≠ (0, 0)
  sequence : b.generation.diskSequence ≠ 0
  gpt : isGPT b = true → b.scheme = ascii "gpt" ∧ validCanonicalGPTGUID b.tableID = true ∧
    (∀ p ∈ b.partitions, partitionOk p = true) ∧ (b.partitions.map KernelPartition.uuid).Nodup
  bare : isGPT b = false → bare b = true

def numbersOf (b : Binding) : List (UInt32 × UInt32) :=
  diskNumber b :: b.partitions.map deviceNumber

def namesOf (b : Binding) : List Bytes := b.partitions.map KernelPartition.kernelName

structure Fit (bindings : List Binding) : Prop where
  each : ∀ b ∈ bindings, FitBinding b
  names : (bindings.map Binding.diskName).Nodup
  numbers : (bindings.flatMap numbersOf).Nodup
  partitionNames : (bindings.flatMap namesOf).Nodup

variable {α : Type} {seen : Seen} {id : Bytes} {slice : Slice Node}

theorem takePartitions_some {uuids : List Bytes} {ps : List KernelPartition}
    (hok : ∀ p ∈ ps, partitionOk p = true)
    (hnames : (seen.partitionNames ++ ps.map KernelPartition.kernelName).Nodup)
    (hnumbers : (seen.deviceNumbers ++ ps.map deviceNumber).Nodup)
    (huuids : (uuids ++ ps.map KernelPartition.uuid).Nodup) :
    takePartitions seen uuids ps = some { seen with
      partitionNames := seen.partitionNames ++ ps.map KernelPartition.kernelName
      deviceNumbers := seen.deviceNumbers ++ ps.map deviceNumber } := by
  induction ps generalizing seen uuids with
  | nil => simp [takePartitions]
  | cons p rest ih =>
    rw [List.map_cons] at hnames hnumbers huuids
    obtain ⟨hname, hnames⟩ := nodup_append_cons hnames
    obtain ⟨hnumber, hnumbers⟩ := nodup_append_cons hnumbers
    obtain ⟨huuid, huuids⟩ := nodup_append_cons huuids
    obtain ⟨hp, hrest⟩ := List.forall_mem_cons.mp hok
    rw [takePartitions, if_neg (by simp [hp, hname, hnumber, huuid]),
      ih hrest hnames hnumbers huuids]
    simp

def Seen.add (seen : Seen) (bindings : List Binding) : Seen where
  names := seen.names ++ bindings.map Binding.diskName
  generations := seen.generations ++ bindings.map Binding.generation
  deviceNumbers := seen.deviceNumbers ++ bindings.flatMap numbersOf
  partitionNames := seen.partitionNames ++ bindings.flatMap namesOf
  gptDiskCount := seen.gptDiskCount + bindings.countP isGPT
  unsupportedTableCount := seen.unsupportedTableCount +
    bindings.countP fun b => b.tableDisposition == .unsupported
  noTableCount := seen.noTableCount + bindings.countP fun b => b.tableDisposition == .noTable

theorem bare_partitions {b : Binding} (h : bare b = true) : b.partitions = [] := by
  simp only [bare, Bool.and_eq_true] at h
  simpa using h.2

theorem takeBinding_some {b : Binding} (hb : FitBinding b) (hname : b.diskName ∉ seen.names)
    (hgeneration : ∀ g ∈ seen.generations, (g.major, g.minor) ∈ seen.deviceNumbers)
    (hnumbers : (seen.deviceNumbers ++ numbersOf b).Nodup)
    (hnames : (seen.partitionNames ++ namesOf b).Nodup) :
    takeBinding seen b = some (seen.add [b]) := by
  obtain ⟨hnumber, hnumbers⟩ := nodup_append_cons hnumbers
  have hnew : b.generation ∉ seen.generations := fun hmem => hnumber (hgeneration _ hmem)
  rw [takeBinding, if_neg (by simp [hb.name, hname, hb.number, hb.sequence, hnew]),
    if_neg hnumber, takeTable]
  cases hdisposition : b.tableDisposition with
  | noTable | unsupported =>
    have hbare : bare b = true := hb.bare (by simp [isGPT, hdisposition])
    simp [hbare, Seen.add, isGPT, hdisposition, numbersOf, namesOf, bare_partitions hbare]
  | gpt =>
    have hgpt : isGPT b = true := by simp [isGPT, hdisposition]
    obtain ⟨hscheme, hid, hok, huuids⟩ := hb.gpt hgpt
    simp only [hscheme, hid, ne_eq, not_true_eq_false, Bool.true_eq_false, or_self, if_false]
    refine (takePartitions_some hok ?_ ?_ ?_).trans ?_
    · exact hnames
    · exact hnumbers
    · simpa using huuids
    · simp [Seen.add, hgpt, hdisposition, numbersOf, namesOf]

theorem Seen.add_add {b : Binding} {rest : List Binding} :
    (seen.add [b]).add rest = seen.add (b :: rest) := by
  simp only [Seen.add, List.map_cons, List.map_nil, List.flatMap_cons, List.flatMap_nil,
    List.append_nil, List.append_assoc, List.singleton_append, List.countP_cons, List.countP_nil,
    Seen.mk.injEq, true_and]
  omega

variable {bindings : List Binding}

theorem takeBindings_some (heach : ∀ b ∈ bindings, FitBinding b)
    (hnames : (seen.names ++ bindings.map Binding.diskName).Nodup)
    (hgenerations : ∀ g ∈ seen.generations, (g.major, g.minor) ∈ seen.deviceNumbers)
    (hnumbers : (seen.deviceNumbers ++ bindings.flatMap numbersOf).Nodup)
    (hpartitions : (seen.partitionNames ++ bindings.flatMap namesOf).Nodup) :
    bindings.foldlM takeBinding seen = some (seen.add bindings) := by
  induction bindings generalizing seen with
  | nil => simp [Seen.add]
  | cons b rest ih =>
    rw [List.map_cons] at hnames
    rw [List.flatMap_cons, ← List.append_assoc] at hnumbers hpartitions
    obtain ⟨hname, hnames⟩ := nodup_append_cons hnames
    obtain ⟨hb, hrest⟩ := List.forall_mem_cons.mp heach
    have hone : takeBinding seen b = some (seen.add [b]) :=
      takeBinding_some hb hname hgenerations hnumbers.of_append_left hpartitions.of_append_left
    have hadd : (seen.add [b]).add rest = seen.add (b :: rest) := Seen.add_add
    rw [List.foldlM_cons, hone, Option.bind_eq_bind, Option.bind_some, ← hadd]
    apply ih hrest
    · simpa [Seen.add] using hnames
    · intro g hg
      simp only [Seen.add, List.map_cons, List.map_nil, List.mem_append, List.mem_singleton,
        List.flatMap_cons, List.flatMap_nil, List.append_nil] at hg ⊢
      rcases hg with hg | rfl
      · exact .inl (hgenerations g hg)
      · exact .inr List.mem_cons_self
    · simpa [Seen.add] using hnumbers
    · simpa [Seen.add] using hpartitions

def observationFor (bindings : List Binding) : SetObservation where
  candidateCount := bindings.length
  gptDiskCount := bindings.countP isGPT
  unsupportedTableCount := bindings.countP fun b => b.tableDisposition == .unsupported
  noTableCount := bindings.countP fun b => b.tableDisposition == .noTable
  coverage := coverageOf bindings.length (bindings.countP isGPT)
  bindings := appendNil (bindings.map (markBinding bindings))

theorem classify_fit (h : Fit bindings) (hfew : bindings.length ≤ storageGPTObservationMaxDisks) :
    classifyGPTPartitionIdentities (some bindings) = some (observationFor bindings) := by
  have hlimit : ¬ maxBlockEntries < bindings.length := by
    rw [storageGPTObservationMaxDisks] at hfew
    rw [maxBlockEntries]
    omega
  have hloop : bindings.foldlM takeBinding {} = some (Seen.add {} bindings) := by
    apply takeBindings_some h.each
    · simpa using h.names
    · simp
    · simpa using h.numbers
    · simpa using h.partitionNames
  simp [classifyGPTPartitionIdentities, hlimit, hloop, Seen.add, observationFor]

theorem markBinding_isGPT {b : Binding} :
    isGPT (markBinding bindings b) = isGPT b := by
  rw [markBinding]
  split_ifs with hgpt
  · rfl
  · rfl

theorem filter_marked {list : List Binding} :
    (list.map (markBinding bindings)).filter isGPT =
      (list.filter isGPT).map (markBinding bindings) := by
  rw [List.filter_map]
  congr 1
  apply List.filter_congr
  intro b _
  exact markBinding_isGPT

theorem boundPartitions_marked {list : List Binding} :
    boundPartitions (list.map (markBinding bindings)) =
      (boundPartitions list).map (markPartition bindings) := by
  rw [boundPartitions, boundPartitions, filter_marked, List.flatMap_map, List.map_flatMap]
  apply List.flatMap_congr
  intro b hb
  simp [markBinding, (List.mem_filter.mp hb).2]

theorem countP_dispositions (bindings : List Binding) :
    (bindings.countP fun b => b.tableDisposition == .unsupported) +
        (bindings.countP fun b => b.tableDisposition == .noTable) + bindings.countP isGPT =
      bindings.length := by
  induction bindings with
  | nil => rfl
  | cons b rest ih =>
    rw [List.countP_cons, List.countP_cons, List.countP_cons, List.length_cons, ← ih]
    cases hdisposition : b.tableDisposition <;> simp [isGPT, hdisposition] <;> omega

def summaryFor (bindings : List Binding) : Summary where
  eligibleCandidateCount := bindings.length
  gptDiskCount := bindings.countP isGPT
  partitionCount := (boundPartitions bindings).length
  unsupportedTableCount := (bindings.countP fun b => b.tableDisposition == .unsupported) +
    bindings.countP fun b => b.tableDisposition == .noTable
  coverage := coverageOf bindings.length (bindings.countP isGPT)
  ambiguousDiskGUIDCount :=
    (bindings.filter isGPT).countP fun b => decide (2 ≤ diskGUIDOwners bindings b.tableID)
  ambiguousPARTUUIDCount :=
    (boundPartitions bindings).countP fun p => decide (2 ≤ partUUIDOwners bindings p.uuid)
  identityEvidenceIncomplete := false

theorem statusOf_ambiguous {owners : Nat} : statusOf owners = .ambiguous ↔ 2 ≤ owners := by
  rw [statusOf]
  split_ifs with h
  · simpa using h
  · simp only [true_iff]
    omega

theorem ambiguousDisks_marked :
    ambiguousDisks (bindings.map (markBinding bindings)) =
      (bindings.filter isGPT).countP fun b => decide (2 ≤ diskGUIDOwners bindings b.tableID) := by
  rw [ambiguousDisks, filter_marked, List.countP_map]
  apply List.countP_congr
  intro b hb
  simp [markBinding, (List.mem_filter.mp hb).2, statusOf_ambiguous]

theorem ambiguousPartitions_marked :
    ((boundPartitions (bindings.map (markBinding bindings))).countP
        fun p => p.uuidStatus == .ambiguous) =
      (boundPartitions bindings).countP fun p => decide (2 ≤ partUUIDOwners bindings p.uuid) := by
  rw [boundPartitions_marked, List.countP_map]
  apply List.countP_congr
  intro p _
  simp [markPartition, statusOf_ambiguous]

theorem boundPartitions_length {n : Nat} (h : ∀ b ∈ bindings, b.partitions.length ≤ n) :
    (boundPartitions bindings).length ≤ bindings.length * n := by
  induction bindings with
  | nil => simp [boundPartitions]
  | cons b rest ih =>
    obtain ⟨hb, hrest⟩ := List.forall_mem_cons.mp h
    have htail : (boundPartitions rest).length ≤ rest.length * n := ih hrest
    rw [boundPartitions] at htail ⊢
    rw [List.length_cons, Nat.succ_mul]
    by_cases hgpt : isGPT b = true
    · rw [List.filter_cons_of_pos hgpt, List.flatMap_cons, List.length_append]
      omega
    · rw [List.filter_cons_of_neg hgpt]
      omega

theorem limitations_ok : limitationsOk storageGPTObservationLimitations = true := by
  decide +kernel

theorem summary_valid (hfew : bindings.length ≤ storageGPTObservationMaxDisks)
    (hpartitions : ∀ b ∈ bindings, b.partitions.length ≤ 256) :
    validStorageGPTObservationSummary (summaryFor bindings) = true := by
  have hdispositions := countP_dispositions bindings
  have hgpt : bindings.countP isGPT ≤ bindings.length := List.countP_le_length
  have hpart : (boundPartitions bindings).length ≤ storageGPTObservationMaxDisks * 256 :=
    (boundPartitions_length hpartitions).trans (Nat.mul_le_mul_right 256 hfew)
  have hdisks : ((bindings.filter isGPT).countP
      fun b => decide (2 ≤ diskGUIDOwners bindings b.tableID)) ≤ bindings.countP isGPT := by
    rw [List.countP_eq_length_filter (p := isGPT)]
    exact List.countP_le_length
  have huuids : ((boundPartitions bindings).countP
      fun p => decide (2 ≤ partUUIDOwners bindings p.uuid)) ≤
      (boundPartitions bindings).length := List.countP_le_length
  have hrest : ((bindings.countP fun b => b.tableDisposition == .unsupported) +
      bindings.countP fun b => b.tableDisposition == .noTable) =
      bindings.length - bindings.countP isGPT := by omega
  simp [validStorageGPTObservationSummary, summaryFor, limitations_ok, hfew, hgpt, hpart, hdisks,
    huuids, hrest]

theorem appendNil_of_ne_nil {l : List α} (h : l ≠ []) : appendNil l = some l := by
  simp [appendNil, h]

theorem summarize_fit (hne : bindings ≠ [])
    (hfew : bindings.length ≤ storageGPTObservationMaxDisks)
    (hpartitions : ∀ b ∈ bindings, b.partitions.length ≤ 256) :
    summarizeGPTIdentityObservation (observationFor bindings) = some (summaryFor bindings) := by
  have hkept : appendNil (bindings.map (markBinding bindings)) =
      some (bindings.map (markBinding bindings)) :=
    appendNil_of_ne_nil (by simpa using hne)
  have hsummary : summaryOf (observationFor bindings) = summaryFor bindings := by
    simp only [summaryOf, observationFor, summaryFor, hkept, Slice.items_some,
      ambiguousDisks_marked, ambiguousPartitions_marked]
    rw [boundPartitions_marked, List.length_map]
  have hgpt : ¬ bindings.length < bindings.countP isGPT :=
    Nat.not_lt.mpr List.countP_le_length
  rw [summarizeGPTIdentityObservation, hsummary, if_neg]
  · simp [summary_valid hfew hpartitions]
  · simp [observationFor, hkept, hgpt, Nat.not_lt.mpr hfew]

theorem summarize_none : summarizeGPTIdentityObservation (observationFor []) = none := by
  simp [summarizeGPTIdentityObservation, observationFor, appendNil]

/-- The identifiers of a GPT as the probe's report carries them. -/
structure Canonical (table : Table) : Prop where
  id : VolumeProbe.validUUID table.id = true
  uuids : ∀ p ∈ table.partitions, VolumeProbe.validUUID p.uuid = true
  types : ∀ p ∈ table.partitions, VolumeProbe.validUUID p.typeID = true
  distinct : (table.partitions.map VolumeProbe.Partition.uuid).Nodup
  few : table.partitions.length ≤ VolumeProbe.maxPartitionEntries

def Decoded (result : VolumeProbe.Result) : Prop :=
  ∀ table, result.partitionTable = some table → table.scheme = ascii "gpt" → Canonical table

theorem lowerHex_of_hexLower {b : UInt8} (h : ShareConfig.hexLower b.toNat = true) :
    MdSysfs.lowerHex b = b := by
  have hrange : (0x30 ≤ b.toNat ∧ b.toNat ≤ 0x39) ∨ (0x61 ≤ b.toNat ∧ b.toNat ≤ 0x66) := by
    simpa [ShareConfig.hexLower, ShareConfig.digit] using h
  rw [MdSysfs.lowerHex, if_neg]
  omega

theorem validCanonicalGPTGUID_of_valid {value : Bytes}
    (h : VolumeProbe.validUUID value = true) : validCanonicalGPTGUID value = true := by
  rw [VolumeProbe.validUUID, ShareConfig.filesystemUUID, Bool.and_eq_true, Bool.and_eq_true,
    beq_iff_eq] at h
  obtain ⟨⟨hlength, hall⟩, hany⟩ := h
  have hplace : ∀ i, (hi : i < value.length) →
      (if ShareConfig.hyphenAt i then value[i] == 0x2d
        else ShareConfig.hexLower value[i].toNat) = true := by
    intro i hi
    exact List.all_eq_true.mp hall (value[i], i)
      (List.mk_mem_zipIdx_iff_getElem?.mpr (List.getElem?_eq_getElem hi))
  have hlowered : (value.mapIdx fun i b =>
      if ShareConfig.hyphenAt i then b else MdSysfs.lowerHex b) = value := by
    refine List.ext_getElem (by simp) fun i _ hi => ?_
    have hp : (if ShareConfig.hyphenAt i then value[i] == 0x2d
        else ShareConfig.hexLower value[i].toNat) = true := hplace i hi
    rw [List.getElem_mapIdx]
    split_ifs with hyphen
    · rfl
    · rw [if_neg hyphen] at hp
      exact lowerHex_of_hexLower hp
  have hline : value.getLast? ≠ some 0x0a := by
    intro hlast
    obtain ⟨i, hi, heq⟩ := List.getElem_of_mem (List.mem_of_getLast? hlast)
    have hp := hplace i hi
    rw [heq] at hp
    split_ifs at hp
    · cases hp
    · cases hp
  have hcanonical : MdSysfs.canonicalMDArrayUUID value = some value := by
    rw [MdSysfs.canonicalMDArrayUUID]
    simp only [if_neg hline, hlowered]
    exact if_pos ⟨hlength, hall, hany⟩
  simp [validCanonicalGPTGUID, hcanonical]

theorem decoded_of_decode {input : Bytes} {result : VolumeProbe.Result}
    (h : VolumeProbe.decode input = some result) : Decoded result := by
  intro table htable hgpt
  have hsound := VolumeProbe.decode_sound h htable
  exact ⟨hsound.id hgpt, fun p hp => (hsound.checked hgpt p hp).2.2.1,
    fun p hp => (hsound.checked hgpt p hp).2.2.2,
    List.pairwise_map.mpr (hsound.distinct.imp And.right), hsound.few⟩

section Candidates

variable {inventory : List Node} {bindings : List Binding}

def owner (o : Node) : Bytes := if o.kind = .block then o.name else o.parentName

theorem owned_nodup {γ : Type} {f : Node → γ} {g : Binding → List γ}
    (hinj : ∀ a ∈ inventory, ∀ b ∈ inventory, f a = f b → a = b)
    (hown : ∀ b ∈ bindings, ∃ nodes : List Node, nodes.Nodup ∧
      (∀ o ∈ nodes, o ∈ inventory ∧ owner o = b.diskName) ∧ g b = nodes.map f)
    (hnames : (bindings.map Binding.diskName).Nodup) : (bindings.flatMap g).Nodup := by
  rw [List.nodup_flatMap]
  constructor
  · intro b hb
    obtain ⟨nodes, hnodup, hmem, heq⟩ := hown b hb
    rw [heq]
    exact hnodup.map_on fun a ha c hc => hinj a (hmem a ha).1 c (hmem c hc).1
  · have hpairs : bindings.Pairwise fun a b => a.diskName ≠ b.diskName :=
      List.pairwise_map.mp hnames
    refine hpairs.imp_of_mem ?_
    intro a b ha hb hne x hxa hxb
    obtain ⟨nodes, -, hmem, heq⟩ := hown a ha
    obtain ⟨nodes', -, hmem', heq'⟩ := hown b hb
    rw [heq] at hxa
    rw [heq'] at hxb
    obtain ⟨o, ho, rfl⟩ := List.mem_map.mp hxa
    obtain ⟨o', ho', hsame⟩ := List.mem_map.mp hxb
    have hequal := hinj o' (hmem' o' ho').1 o (hmem o ho).1 hsame
    rw [← (hmem o ho).2, ← (hmem' o' ho').2, hequal] at hne
    exact hne rfl

variable {disk : Node} {result : VolumeProbe.Result} {b : Binding}

theorem inventory_nodup (h : Accepted (inventory.map Node.toBlockObservation)) :
    inventory.Nodup := by
  have hordered := List.pairwise_map.mp h.ordered
  refine hordered.imp ?_
  rintro a _ hlt rfl
  exact List.lt_irrefl _ hlt

theorem node_eq_of_name (h : Accepted (inventory.map Node.toBlockObservation)) {a c : Node}
    (ha : a ∈ inventory) (hc : c ∈ inventory) (heq : a.name = c.name) : a = c := by
  have hordered : (inventory.map fun o => o.name).Pairwise (· < ·) := by
    have hmapped := List.pairwise_map.mp h.ordered
    exact List.pairwise_map.mpr hmapped
  have hnodup : (inventory.map fun o => o.name).Nodup := by
    refine hordered.imp ?_
    rintro x _ hlt rfl
    exact List.lt_irrefl _ hlt
  exact List.inj_on_of_nodup_map hnodup ha hc heq

theorem node_eq_of_number (h : Accepted (inventory.map Node.toBlockObservation)) {a c : Node}
    (ha : a ∈ inventory) (hc : c ∈ inventory) (heq : (a.major, a.minor) = (c.major, c.minor)) :
    a = c := by
  have hnodup : (inventory.map fun o => (o.major, o.minor)).Nodup := by
    have hmapped := List.pairwise_map.mp h.numbers
    exact List.pairwise_map.mpr hmapped
  exact List.inj_on_of_nodup_map hnodup ha hc heq

structure Kids (disk : Node) (inventory : List Node) (b : Binding) (kids : List Node) : Prop where
  nodup : kids.Nodup
  mem : ∀ o ∈ kids, o ∈ inventory ∧ isChild disk o = true
  numbers : b.partitions.map deviceNumber = kids.map fun o => (o.major, o.minor)
  names : b.partitions.map KernelPartition.kernelName = kids.map fun o => o.name

theorem zipWith_bound {parts : List VolumeProbe.Partition} {kids : List Node}
    (h : List.Forall₂ (SamePartition disk) parts kids) :
    ((List.zipWith bound parts kids).map deviceNumber = kids.map fun o => (o.major, o.minor)) ∧
      (List.zipWith bound parts kids).map KernelPartition.kernelName =
        kids.map (fun o => o.name) ∧
      (List.zipWith bound parts kids).map KernelPartition.uuid =
        parts.map VolumeProbe.Partition.uuid := by
  induction h with
  | nil => exact ⟨rfl, rfl, rfl⟩
  | cons _ _ ih =>
    obtain ⟨hnumbers, hnames, huuids⟩ := ih
    refine ⟨?_, ?_, ?_⟩
    · rw [List.zipWith_cons_cons, List.map_cons, hnumbers]
      rfl
    · rw [List.zipWith_cons_cons, List.map_cons, hnames]
      rfl
    · rw [List.zipWith_cons_cons, List.map_cons, huuids]
      rfl

theorem correlated_kids (h : Correlated disk inventory result b) :
    ∃ kids, Kids disk inventory b kids := by
  have hempty : b.partitions = [] → Kids disk inventory b [] := by
    intro hpartitions
    exact ⟨.nil, by simp, by simp [hpartitions], by simp [hpartitions]⟩
  cases h.content with
  | noTable _ _ _ hpartitions | unsupported _ _ _ hpartitions => exact ⟨[], hempty hpartitions⟩
  | gpt table _ _ _ _ _ hbound =>
    obtain ⟨kids, hperm, hkids, hpartitions⟩ := hbound.pairs
    obtain ⟨hnumbers, hnames, -⟩ := zipWith_bound hkids
    refine ⟨kids, ?_, fun o ho => ?_, ?_, ?_⟩
    · exact hperm.nodup_iff.mpr ((inventory_nodup h.accepted).filter _)
    · exact List.mem_filter.mp (hperm.mem_iff.mp ho)
    · rw [hpartitions, hnumbers]
    · rw [hpartitions, hnames]

theorem owner_disk (h : disk.kind = .block) : owner disk = disk.name := by
  rw [owner, if_pos h]

theorem owner_child {o : Node} (h : isChild disk o = true) : owner o = disk.name := by
  rw [isChild, Bool.and_eq_true, beq_iff_eq, beq_iff_eq] at h
  rw [owner, if_neg (by rw [h.1]; decide), h.2]

theorem bound_ok (h : Correlated disk inventory result b) {table : Table}
    (hcanonical : Canonical table) (hbound : Bound disk inventory table b.partitions) :
    ∀ p ∈ b.partitions, partitionOk p = true := by
  obtain ⟨kids, hperm, hkids, hpartitions⟩ := hbound.pairs
  intro p hp
  rw [hpartitions] at hp
  obtain ⟨i, hi, rfl⟩ := List.getElem_of_mem hp
  rw [List.length_zipWith] at hi
  have hparts : i < table.partitions.length := by omega
  have hkid : i < kids.length := by omega
  have hsame : SamePartition disk table.partitions[i] kids[i] := hkids.get hparts hkid
  have hmem : kids[i] ∈ inventory :=
    (List.mem_filter.mp (hperm.mem_iff.mp (List.getElem_mem hkid))).1
  have hpart := List.getElem_mem hparts
  have hnode := (h.accepted.nodes _ (List.mem_map_of_mem hmem)).number
  rw [List.getElem_zipWith]
  simp [partitionOk, bound, deviceNumber, h.names _ hmem, Prod.mk.injEq, hnode,
    validCanonicalGPTGUID_of_valid (hcanonical.uuids _ hpart),
    validCanonicalGPTGUID_of_valid (hcanonical.types _ hpart),
    Nat.ne_of_gt hsame.positive.1]

theorem correlated_fit (h : Correlated disk inventory result b) (hdecoded : Decoded result) :
    FitBinding b ∧ b.partitions.length ≤ 256 := by
  have hnode := h.accepted.nodes _ (List.mem_map_of_mem h.mem)
  have hname : validBlockName b.diskName = true := by
    rw [h.name]
    exact h.names disk h.mem
  have hnumber : diskNumber b ≠ (0, 0) := by
    rw [diskNumber, h.generation]
    simpa [Prod.mk.injEq] using hnode.number
  have hsequence : b.generation.diskSequence ≠ 0 := by
    rw [h.generation]
    exact h.sequence
  cases h.content with
  | noTable hdisposition hscheme hid hpartitions
  | unsupported hdisposition hscheme hid hpartitions =>
    have hgpt : isGPT b = false := by simp [isGPT, hdisposition]
    refine ⟨⟨hname, hnumber, hsequence, fun hpos => ?_, fun _ => ?_⟩, by simp [hpartitions]⟩
    · rw [hgpt] at hpos
      cases hpos
    · simp [bare, hscheme, hid, hpartitions]
  | gpt table hdisposition htable hgpt hscheme hid hbound =>
    have hcanonical : Canonical table := hdecoded table htable hgpt
    obtain ⟨kids, -, hkids, hpartitions⟩ := hbound.pairs
    refine ⟨⟨hname, hnumber, hsequence, fun _ => ⟨hscheme, ?_, ?_, ?_⟩, fun hnot => ?_⟩, ?_⟩
    · rw [hid]
      exact validCanonicalGPTGUID_of_valid hcanonical.id
    · exact bound_ok h hcanonical hbound
    · rw [hpartitions, (zipWith_bound hkids).2.2]
      exact hcanonical.distinct
    · simp [isGPT, hdisposition] at hnot
    · rw [hpartitions, List.length_zipWith]
      exact (Nat.min_le_left _ _).trans hcanonical.few

/-- Distinct disks of one inventory, each with the result of its probe and its binding. -/
structure Candidates (inventory : Slice Node) (candidates : List (Node × VolumeProbe.Result))
    (bindings : List Binding) : Prop where
  correlated : List.Forall₂ (fun c b => correlateDiskPartitionTable c.1 inventory c.2 = some b)
    candidates bindings
  decoded : ∀ c ∈ candidates, Decoded c.2
  disks : (candidates.map fun c => c.1.name).Nodup
  few : candidates.length ≤ storageGPTObservationMaxDisks

variable {candidates : List (Node × VolumeProbe.Result)}

theorem candidates_names
    (h : List.Forall₂ (fun c b => correlateDiskPartitionTable c.1 slice c.2 =
      some b) candidates bindings) :
    bindings.map Binding.diskName = candidates.map fun c => c.1.name := by
  induction h with
  | nil => rfl
  | cons hone _ ih => rw [List.map_cons, List.map_cons, ih, (correlate_some hone).name]

theorem Candidates.correlated_of_mem (h : Candidates slice candidates bindings) {b : Binding}
    (hb : b ∈ bindings) : ∃ disk result, Correlated disk slice.items result b ∧ Decoded result := by
  obtain ⟨c, hc, hone⟩ := forall₂_mem_right h.correlated hb
  exact ⟨c.1, c.2, correlate_some hone, h.decoded c hc⟩

/-- What correlation accepts passes every later check. -/
theorem Candidates.fit (h : Candidates slice candidates bindings) :
    Fit bindings ∧ ∀ b ∈ bindings, b.partitions.length ≤ 256 := by
  have hnames : (bindings.map Binding.diskName).Nodup := by
    rw [candidates_names h.correlated]
    exact h.disks
  rcases List.eq_nil_or_concat bindings with rfl | ⟨_, last, hlast⟩
  · exact ⟨⟨by simp, .nil, .nil, .nil⟩, by simp⟩
  · have hmem : last ∈ bindings := by
      rw [hlast]
      simp
    obtain ⟨_, _, hsome, -⟩ := h.correlated_of_mem hmem
    have haccepted : Accepted (slice.items.map Node.toBlockObservation) := hsome.accepted
    refine ⟨⟨fun b hb => ?_, hnames, ?_, ?_⟩, fun b hb => ?_⟩
    · obtain ⟨disk, result, hcorrelated, hdecoded⟩ := h.correlated_of_mem hb
      exact (correlated_fit hcorrelated hdecoded).1
    · refine owned_nodup (fun a ha c hc => node_eq_of_number haccepted ha hc) (fun b hb => ?_)
        hnames
      obtain ⟨disk, result, hcorrelated, -⟩ := h.correlated_of_mem hb
      obtain ⟨kids, hkids⟩ := correlated_kids hcorrelated
      refine ⟨disk :: kids, List.nodup_cons.mpr ⟨fun hin => ?_, hkids.nodup⟩, ?_, ?_⟩
      · have hchild := (hkids.mem disk hin).2
        rw [isChild, hcorrelated.kind] at hchild
        cases hchild
      · refine List.forall_mem_cons.mpr ⟨⟨hcorrelated.mem, ?_⟩, fun o ho => ?_⟩
        · rw [owner_disk hcorrelated.kind, hcorrelated.name]
        · exact ⟨(hkids.mem o ho).1, by rw [owner_child (hkids.mem o ho).2, hcorrelated.name]⟩
      · rw [numbersOf, hkids.numbers, diskNumber, hcorrelated.generation]
        rfl
    · refine owned_nodup (fun a ha c hc => node_eq_of_name haccepted ha hc) (fun b hb => ?_) hnames
      obtain ⟨disk, result, hcorrelated, -⟩ := h.correlated_of_mem hb
      obtain ⟨kids, hkids⟩ := correlated_kids hcorrelated
      refine ⟨kids, hkids.nodup, fun o ho => ⟨(hkids.mem o ho).1, ?_⟩, hkids.names⟩
      rw [owner_child (hkids.mem o ho).2, hcorrelated.name]
    · obtain ⟨disk, result, hcorrelated, hdecoded⟩ := h.correlated_of_mem hb
      exact (correlated_fit hcorrelated hdecoded).2

variable {order : List Binding}

theorem Fit.perm (h : Fit bindings) (hp : order.Perm bindings) : Fit order where
  each := fun b hb => h.each b (hp.mem_iff.mp hb)
  names := (hp.map _).nodup_iff.mpr h.names
  numbers := (hp.flatMap_right _).nodup_iff.mpr h.numbers
  partitionNames := (hp.flatMap_right _).nodup_iff.mpr h.partitionNames

theorem boundPartitions_perm (hp : order.Perm bindings) :
    (boundPartitions order).Perm (boundPartitions bindings) :=
  (hp.filter _).flatMap_right _

theorem diskGUIDOwners_perm (hp : order.Perm bindings) :
    diskGUIDOwners order = diskGUIDOwners bindings := by
  funext id
  exact (hp.filter _).countP_eq _

theorem partUUIDOwners_perm (hp : order.Perm bindings) :
    partUUIDOwners order = partUUIDOwners bindings := by
  funext uuid
  exact (boundPartitions_perm hp).countP_eq _

theorem markBinding_perm (hp : order.Perm bindings) : markBinding order = markBinding bindings := by
  funext b
  have hmark : markPartition order = markPartition bindings := by
    funext p
    rw [markPartition, markPartition, partUUIDOwners_perm hp]
  rw [markBinding, markBinding, diskGUIDOwners_perm hp, hmark]

theorem summaryFor_perm (hp : order.Perm bindings) : summaryFor order = summaryFor bindings := by
  simp only [summaryFor, hp.length_eq, hp.countP_eq, diskGUIDOwners_perm hp,
    partUUIDOwners_perm hp, (boundPartitions_perm hp).length_eq,
    (boundPartitions_perm hp).countP_eq, (hp.filter isGPT).countP_eq]

end Candidates

structure Labelled (candidates gpt : Nat) (coverage : Coverage) : Prop where
  empty : coverage = .empty ↔ candidates = 0
  none : coverage = .none ↔ 0 < candidates ∧ gpt = 0
  all : coverage = .allCandidates ↔ 0 < candidates ∧ gpt = candidates
  partly : coverage = .partly ↔ 0 < gpt ∧ gpt < candidates

theorem coverageOf_labelled {candidates gpt : Nat} (h : gpt ≤ candidates) :
    Labelled candidates gpt (coverageOf candidates gpt) := by
  rw [coverageOf]
  split_ifs with hempty hnone hall
  · constructor <;> simp <;> omega
  · constructor <;> simp <;> omega
  · constructor <;> simp <;> omega
  · constructor <;> simp <;> omega

structure Told (bindings : List Binding) (o : SetObservation) (summary : Summary) : Prop where
  candidates : o.candidateCount = bindings.length ∧
    o.gptDiskCount + o.unsupportedTableCount + o.noTableCount = o.candidateCount
  disks : ∀ b ∈ o.bindings.items, b.tableDisposition = .gpt →
    (b.tableIDStatus = .ambiguous ↔
      2 ≤ ((bindings.filter fun c => c.tableDisposition = .gpt).map Binding.tableID).count
        b.tableID)
  partitions : ∀ b ∈ o.bindings.items, ∀ p ∈ b.partitions,
    (p.uuidStatus = .ambiguous ↔
      2 ≤ ((bindings.flatMap Binding.partitions).map KernelPartition.uuid).count p.uuid)
  summarised : summary.eligibleCandidateCount = o.candidateCount ∧
    summary.gptDiskCount = o.gptDiskCount ∧
    summary.unsupportedTableCount = o.unsupportedTableCount + o.noTableCount
  partitionCount : summary.partitionCount = (bindings.map fun b => b.partitions.length).sum
  coverage : Labelled summary.eligibleCandidateCount summary.gptDiskCount summary.coverage

/-- Both stages accept the set, tell the truth of it, and do so in every order of the disks. -/
def Observed (bindings : List Binding) : Prop :=
  ∃ o summary mark, classifyGPTPartitionIdentities (some bindings) = some o ∧
    summarizeGPTIdentityObservation o = some summary ∧ Told bindings o summary ∧
    ∀ order : List Binding, order.Perm bindings →
      ∃ o', classifyGPTPartitionIdentities (some order) = some o' ∧
        o'.bindings = some (order.map mark) ∧
        summarizeGPTIdentityObservation o' = some summary

/-- Every bound table is, entry by entry, what the kernel shows of its disk. -/
def TablesBound (inventory : Slice Node) (candidates : List (Node × VolumeProbe.Result))
    (bindings : List Binding) : Prop :=
  List.Forall₂ (fun c b => b.tableDisposition = .gpt →
    ∃ table, c.2.partitionTable = some table ∧ Bound c.1 inventory.items table b.partitions)
    candidates bindings

theorem tablesBound {inventory : Slice Node} {candidates : List (Node × VolumeProbe.Result)}
    (h : List.Forall₂ (fun c b => correlateDiskPartitionTable c.1 inventory c.2 = some b)
      candidates bindings) : TablesBound inventory candidates bindings := by
  refine h.imp fun c b hone hgpt => ?_
  cases (correlate_some hone).content with
  | noTable hdisposition | unsupported hdisposition =>
    rw [hdisposition] at hgpt
    cases hgpt
  | gpt table _ htable _ _ _ hbound => exact ⟨table, htable, hbound⟩

theorem boundPartitions_eq (h : ∀ b ∈ bindings, FitBinding b) :
    boundPartitions bindings = bindings.flatMap Binding.partitions := by
  induction bindings with
  | nil => rfl
  | cons b rest ih =>
    obtain ⟨hb, hrest⟩ := List.forall_mem_cons.mp h
    rw [List.flatMap_cons, ← ih hrest, boundPartitions, boundPartitions]
    by_cases hgpt : isGPT b = true
    · rw [List.filter_cons_of_pos hgpt, List.flatMap_cons]
    · rw [List.filter_cons_of_neg hgpt, bare_partitions (hb.bare (by simpa using hgpt)),
        List.nil_append]

theorem diskGUIDOwners_eq :
    diskGUIDOwners bindings id =
      ((bindings.filter fun c => c.tableDisposition = .gpt).map Binding.tableID).count id := by
  rw [List.count_eq_countP, List.countP_map]
  rfl

theorem partUUIDOwners_eq (h : ∀ b ∈ bindings, FitBinding b) {uuid : Bytes} :
    partUUIDOwners bindings uuid =
      ((bindings.flatMap Binding.partitions).map KernelPartition.uuid).count uuid := by
  rw [← boundPartitions_eq h, List.count_eq_countP, List.countP_map]
  rfl

theorem told_fit (h : Fit bindings) (hne : bindings ≠ []) :
    Told bindings (observationFor bindings) (summaryFor bindings) := by
  have hkept : (observationFor bindings).bindings.items =
      bindings.map (markBinding bindings) := by
    rw [observationFor, appendNil_of_ne_nil (by simpa using hne)]
    rfl
  have hdispositions := countP_dispositions bindings
  constructor
  · refine ⟨rfl, ?_⟩
    simp only [observationFor]
    omega
  · intro b hb hgpt
    rw [hkept] at hb
    obtain ⟨c, -, rfl⟩ := List.mem_map.mp hb
    have hc : isGPT c = true := by
      rw [← @markBinding_isGPT bindings, isGPT, hgpt]
      rfl
    simp only [markBinding, hc, if_true]
    rw [statusOf_ambiguous, diskGUIDOwners_eq]
  · intro b hb p hp
    rw [hkept] at hb
    obtain ⟨c, hmem, rfl⟩ := List.mem_map.mp hb
    by_cases hc : isGPT c = true
    · simp only [markBinding, hc, if_true] at hp
      obtain ⟨q, -, rfl⟩ := List.mem_map.mp hp
      simp only [markPartition]
      rw [statusOf_ambiguous, partUUIDOwners_eq h.each]
    · rw [Bool.not_eq_true] at hc
      simp only [markBinding, hc, Bool.false_eq_true, if_false] at hp
      rw [bare_partitions ((h.each c hmem).bare hc)] at hp
      cases hp
  · exact ⟨rfl, rfl, rfl⟩
  · simp only [summaryFor]
    rw [boundPartitions_eq h.each, List.length_flatMap]
  · exact coverageOf_labelled List.countP_le_length

/-- Nothing that was bound is refused further down. -/
theorem Candidates.observed {inventory : Slice Node}
    {candidates : List (Node × VolumeProbe.Result)} {bindings : List Binding}
    (h : Candidates inventory candidates bindings) (hsome : candidates ≠ []) :
    Observed bindings ∧ TablesBound inventory candidates bindings := by
  obtain ⟨hfit, hpartitions⟩ := h.fit
  have hlength : bindings.length = candidates.length := h.correlated.length_eq.symm
  have hfew : bindings.length ≤ storageGPTObservationMaxDisks := by
    rw [hlength]
    exact h.few
  have hne : bindings ≠ [] := by
    rintro rfl
    exact hsome (List.length_eq_zero_iff.mp hlength.symm)
  refine ⟨⟨observationFor bindings, summaryFor bindings, markBinding bindings,
    classify_fit hfit hfew, summarize_fit hne hfew hpartitions, told_fit hfit hne,
    fun order hp => ?_⟩, tablesBound h.correlated⟩
  have horder : order ≠ [] := by
    rintro rfl
    exact hne hp.nil_eq.symm
  have hshort : order.length ≤ storageGPTObservationMaxDisks := by
    rw [hp.length_eq]
    exact hfew
  refine ⟨observationFor order, classify_fit (hfit.perm hp) hshort, ?_, ?_⟩
  · rw [observationFor, appendNil_of_ne_nil (by simpa using horder), markBinding_perm hp]
  · rw [summarize_fit horder hshort fun b hb => hpartitions b (hp.mem_iff.mp hb),
      summaryFor_perm hp]

/-- Every set of candidates is observed, except the empty one. -/
theorem pipeline_observes_iff {inventory : Slice Node}
    {candidates : List (Node × VolumeProbe.Result)} {bindings : List Binding}
    (h : Candidates inventory candidates bindings) :
    (Observed bindings ∧ TablesBound inventory candidates bindings) ↔ candidates ≠ [] := by
  refine ⟨?_, h.observed⟩
  rintro ⟨⟨o, summary, mark, hclassify, hsummary, -⟩, -⟩ rfl
  have hnil : bindings = [] := List.length_eq_zero_iff.mp h.correlated.length_eq.symm
  rw [hnil, classify_fit (hnil ▸ h.fit.1) (by simp)] at hclassify
  cases hclassify
  rw [summarize_none] at hsummary
  cases hsummary

section Discovery

open StorageDiscovery (Candidate MountSnapshot Plan planTrustedStorageDiscovery)

structure Snapshot extends StorageSnapshot where
  nodes : Slice Node
  limitations : List Bytes
  shown : observations = nodes.map fun l => l.map Node.toBlockObservation

structure Source where
  opened : Bool
  generation : BlockDeviceGeneration

structure Discovery extends Plan where
  inventory : Snapshot
  mounts : MountSnapshot
  sources : List Source
  closed : Bool

def sameStorageSnapshot (a b : Snapshot) : Bool :=
  a.schemaVersion == b.schemaVersion && a.scope == b.scope &&
    a.inventoryReadOnly == b.inventoryReadOnly && a.blockDevicesOpened == b.blockDevicesOpened &&
    a.contentRead == b.contentRead && a.mutationsPerformed == b.mutationsPerformed &&
    a.stableIdentityAvailable == b.stableIdentityAvailable && a.deviceCount == b.deviceCount &&
    a.collectionComplete == b.collectionComplete && a.limitations == b.limitations &&
    a.nodes.items == b.nodes.items

def candidateDisk (nodes : List Node) (devices : List ObservedBlockDevice) (seen : List Bytes)
    (candidate : Candidate) (source : Source) : Option Node :=
  if source.opened = false ∨ source.generation ≠ candidate.generation ∨
      (devices.reverse.find? fun d => d.name == candidate.name).map (·.generation) ≠
        some candidate.generation ∨ candidate.name ∈ seen then none
  else nodes.reverse.find? fun o => o.name == candidate.name

def bindCandidates (nodes : Slice Node) (devices : List ObservedBlockDevice) (seen : List Bytes) :
    List (Candidate × Source × VolumeProbe.Result) → Option (List Binding)
  | [] => some []
  | (candidate, source, result) :: rest => do
    let disk ← candidateDisk nodes.items devices seen candidate source
    let binding ← correlateDiskPartitionTable disk nodes result
    let more ← bindCandidates nodes devices (seen ++ [candidate.name]) rest
    some (binding :: more)

def correlateCandidatePartitionTables (discovery : Option Discovery) (current : Snapshot)
    (results : List VolumeProbe.Result) : Option (List Binding) := do
  let d ← discovery
  guard (!d.closed && d.inventory.nodes.isSome && sameStorageSnapshot d.inventory current &&
    d.candidates.length == d.sources.length && results.length == d.candidates.length)
  let devices ← (completeObservedBlockDeviceSet current.toStorageSnapshot).toOption
  let plan ← (planTrustedStorageDiscovery current.toStorageSnapshot d.mounts).toOption
  guard (plan == d.toPlan)
  bindCandidates current.nodes devices [] (d.candidates.zip (d.sources.zip results))

theorem bindCandidates_some {nodes : Slice Node} {devices : List ObservedBlockDevice}
    {seen : List Bytes} {entries : List (Candidate × Source × VolumeProbe.Result)}
    {bindings : List Binding} (h : bindCandidates nodes devices seen entries = some bindings) :
    ∃ disks : List Node, (disks.map fun o => o.name) = (entries.map Prod.fst).map (·.name) ∧
      List.Forall₂ (fun c b => correlateDiskPartitionTable c.1 nodes c.2 = some b)
        (disks.zip ((entries.map Prod.snd).map Prod.snd)) bindings ∧
      (disks.map fun o => o.name).Nodup ∧ ∀ o ∈ disks, o.name ∉ seen := by
  induction entries generalizing seen bindings with
  | nil =>
    cases h
    exact ⟨[], rfl, .nil, .nil, by simp⟩
  | cons e rest ih =>
    obtain ⟨candidate, source, result⟩ := e
    simp only [bindCandidates, candidateDisk, Option.bind_eq_bind, Option.bind_eq_some_iff,
      Option.ite_none_left_eq_some, Option.some.injEq] at h
    obtain ⟨disk, ⟨hfresh, hdisk⟩, binding, hbinding, more, hmore, rfl⟩ := h
    have hname : disk.name = candidate.name := by simpa using List.find?_some hdisk
    obtain ⟨disks, hnames, hall, hnodup, hseen⟩ := ih hmore
    refine ⟨disk :: disks, by simp [hname, hnames], .cons hbinding hall, ?_, ?_⟩
    · refine List.nodup_cons.mpr ⟨fun hmem => ?_, hnodup⟩
      obtain ⟨o, ho, heq⟩ := List.mem_map.mp hmem
      exact hseen o ho (by simp [heq, hname])
    · refine List.forall_mem_cons.mpr ⟨fun hmem => hfresh (by simp [← hname, hmem]), ?_⟩
      exact fun o ho hmem => hseen o ho (by simp [hmem])

/-- What the broker correlates is a set of candidates, one for each disk of the plan. -/
theorem correlated_candidates {d : Discovery} {current : Snapshot}
    {results : List VolumeProbe.Result} {bindings : List Binding}
    (h : correlateCandidatePartitionTables (some d) current results = some bindings)
    (hdecoded : ∀ r ∈ results, ∃ input, VolumeProbe.decode input = some r)
    (hfew : d.candidates.length ≤ storageGPTObservationMaxDisks) :
    ∃ disks : List Node, (disks.map fun o => o.name) = d.candidates.map (·.name) ∧
      Candidates current.nodes (disks.zip results) bindings ∧
      (d.candidates ≠ [] → Observed bindings) := by
  simp only [correlateCandidatePartitionTables, Option.bind_eq_bind, Option.bind_some,
    Option.bind_eq_some_iff, Option.guard_eq_some', Bool.and_eq_true, beq_iff_eq] at h
  obtain ⟨-, ⟨⟨-, hsources⟩, hresults⟩, devices, -, plan, -, -, -, h⟩ := h
  have hzip : (d.sources.zip results).length = d.candidates.length := by
    simp only [List.length_zip]
    omega
  obtain ⟨disks, hnames, hall, hnodup, -⟩ := bindCandidates_some h
  rw [List.map_fst_zip (Nat.le_of_eq hzip.symm)] at hnames
  rw [List.map_snd_zip (Nat.le_of_eq hzip), List.map_snd_zip (by omega)] at hall
  have hdisks : disks.length = results.length := by
    have hlengths := congrArg List.length hnames
    simpa [hresults] using hlengths
  have hcandidates : Candidates current.nodes (disks.zip results) bindings := by
    refine ⟨hall, fun c hc => ?_, ?_, ?_⟩
    · obtain ⟨input, hinput⟩ := hdecoded c.2 (List.of_mem_zip hc).2
      exact decoded_of_decode hinput
    · rw [← List.map_fst_zip (Nat.le_of_eq hdisks), List.map_map] at hnodup
      exact hnodup
    · rw [List.length_zip]
      omega
  refine ⟨disks, hnames, hcandidates, fun hsome => (hcandidates.observed fun hnil => hsome ?_).1⟩
  have hlength := congrArg List.length hnil
  rw [List.length_zip, hdisks, Nat.min_self, hresults] at hlength
  exact List.length_eq_zero_iff.mp hlength

end Discovery

def sampleDisk (name target : String) (minor : UInt32) (sequence : UInt64) : Node where
  name := ascii name
  kind := .block
  major := 8
  minor := minor
  removable := false
  partitionNumber := 0
  parentName := []
  parentMajor := none
  parentMinor := none
  serialStatus := .unavailable
  wwnStatus := .unavailable
  diskSequence := sequence
  parentDiskSeq := 0
  sysfsTarget := ascii target
  lowerBlocks := []
  sizeBytes := 1048576
  readOnly := false
  partitionStart512B := 0
  serialEvidence := []
  wwnEvidence := []

def samplePartition (disk : Node) (name target : String) : Node where
  name := ascii name
  kind := .partition
  major := 8
  minor := disk.minor + 1
  removable := false
  partitionNumber := 1
  parentName := disk.name
  parentMajor := some disk.major
  parentMinor := some disk.minor
  serialStatus := .unavailable
  wwnStatus := .unavailable
  diskSequence := 0
  parentDiskSeq := disk.diskSequence
  sysfsTarget := ascii target
  lowerBlocks := []
  sizeBytes := 524288
  readOnly := false
  partitionStart512B := 34
  serialEvidence := []
  wwnEvidence := []

def sampleA : Node := sampleDisk "sda" "devices/a/sda" 0 1

def sampleB : Node := sampleDisk "sdb" "devices/b/sdb" 16 2

def sampleInventory : List Node :=
  [sampleA, samplePartition sampleA "sda1" "devices/a/sda/sda1", sampleB,
    samplePartition sampleB "sdb1" "devices/b/sdb/sdb1"]

def sampleResult (uuid : String) : VolumeProbe.Result where
  status := ascii "other-signature"
  sourceKind := ascii "block-device"
  filesystem := []
  filesystemUUID := []
  partitionTable := some {
    scheme := ascii "gpt"
    id := ascii "0c0ffee0-0000-4000-8000-000000000001"
    partitions := [{
      number := 1
      start512B := 34
      size512B := 1024
      uuid := ascii uuid
      typeID := ascii "0fc63daf-8483-4772-8e79-3d69d8477de4"
      extended := false }] }

def sampleCandidates : List (Node × VolumeProbe.Result) :=
  [(sampleA, sampleResult "0c0ffee0-0000-4000-8000-00000000000a"),
    (sampleB, sampleResult "0c0ffee0-0000-4000-8000-00000000000b")]

def sampleBinding (disk : Node) (name uuid : String) : Binding where
  diskName := disk.name
  generation := ⟨8, disk.minor, disk.diskSequence⟩
  sourceStatus := ascii "other-signature"
  tableDisposition := .gpt
  scheme := ascii "gpt"
  tableID := ascii "0c0ffee0-0000-4000-8000-000000000001"
  partitions := [{
    kernelName := ascii name
    major := 8
    minor := disk.minor + 1
    number := 1
    start512B := 34
    size512B := 1024
    typeGUID := ascii "0fc63daf-8483-4772-8e79-3d69d8477de4"
    typeHint := .linuxData
    uuid := ascii uuid }]

def sampleBindings : List Binding :=
  [sampleBinding sampleA "sda1" "0c0ffee0-0000-4000-8000-00000000000a",
    sampleBinding sampleB "sdb1" "0c0ffee0-0000-4000-8000-00000000000b"]

open GoJson in
def sampleReport (uuid : String) : Bytes :=
  let part := VolumeProbe.partitionFields.zip [.num (ascii "1"), .num (ascii "34"),
    .num (ascii "1024"), .str (ascii uuid), .str (ascii "0fc63daf-8483-4772-8e79-3d69d8477de4"),
    .bool false]
  (Value.obj (.ofList (VolumeProbe.responseFields.zip [.num (ascii "2"),
    .str (ascii "other-signature"), .str (ascii "block-device"), .str [], .str [],
    .str (ascii "gpt"), .str (ascii "0c0ffee0-0000-4000-8000-000000000001"),
    .arr (.cons (.obj (.ofList part)) .nil), .bool false, .bool false, .bool false]))).render

theorem sampleReports_decode : ∀ c ∈ sampleCandidates,
    ∃ input, VolumeProbe.decode input = some c.2 := by
  simp only [sampleCandidates, List.forall_mem_cons, List.not_mem_nil, false_implies,
    implies_true, and_true]
  exact ⟨⟨sampleReport "0c0ffee0-0000-4000-8000-00000000000a", by decide +kernel⟩,
    ⟨sampleReport "0c0ffee0-0000-4000-8000-00000000000b", by decide +kernel⟩⟩

theorem sampleCandidates_ok :
    Candidates (some sampleInventory) sampleCandidates sampleBindings := by
  constructor
  · exact .cons (by decide +kernel) (.cons (by decide +kernel) .nil)
  · intro c hc
    obtain ⟨input, hinput⟩ := sampleReports_decode c hc
    exact decoded_of_decode hinput
  · decide +kernel
  · decide

theorem sample_pipeline_observes :
    Candidates (some sampleInventory) sampleCandidates sampleBindings ∧
      ((Observed sampleBindings ∧
        TablesBound (some sampleInventory) sampleCandidates sampleBindings) ↔
        sampleCandidates ≠ []) ∧
      ((classifyGPTPartitionIdentities (some sampleBindings)).map fun o =>
        o.bindings.items.map fun b => (b.tableIDStatus, b.partitions.map (·.uuidStatus))) =
        some [(.ambiguous, [.singleton]), (.ambiguous, [.singleton])] :=
  ⟨sampleCandidates_ok, pipeline_observes_iff sampleCandidates_ok, by decide +kernel⟩

/-- No candidates at all are classified, and then refused for their missing list. -/
theorem no_candidates_refused :
    Candidates (some sampleInventory) [] [] ∧
      ((classifyGPTPartitionIdentities (some [])).map fun o => (o.candidateCount, o.coverage)) =
        some (0, .empty) ∧
      (classifyGPTPartitionIdentities (some [])).bind summarizeGPTIdentityObservation = none ∧
      ¬ Observed [] := by
  have hrefused :
      (classifyGPTPartitionIdentities (some [])).bind summarizeGPTIdentityObservation = none := by
    decide +kernel
  refine ⟨⟨.nil, by simp, .nil, by simp⟩, by decide, hrefused, ?_⟩
  rintro ⟨o, summary, mark, hclassify, hsummary, -⟩
  rw [hclassify, Option.bind_some, hsummary] at hrefused
  cases hrefused

end GptIdentities
