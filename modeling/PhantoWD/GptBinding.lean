import PhantoWD.MdSysfs
import PhantoWD.StorageDiscovery
import PhantoWD.VolumeProbe

/-!
`correlateDiskPartitionTable` joins the table a probe read from a disk with the partitions that
the kernel shows for it, and binds it only when the two agree entry by entry.
-/
namespace GptBinding

open GoText KeyedLists BlockTopology
open VolumeProbe (Partition Table)

def linuxSysfsSectorBytes : Nat := 512

structure Node extends BlockObservation where
  sizeBytes : Nat
  readOnly : Bool
  partitionStart512B : Nat
  serialEvidence : Bytes
  wwnEvidence : Bytes
  deriving DecidableEq

def sameBlockObservation (a b : Node) : Bool := a == b

inductive TypeHint where
  | unknown
  | efiSystem
  | linuxData
  | linuxRAID
  | linuxSwap
  | linuxLVM
  deriving DecidableEq

/-- `classifyGPTPartitionTypeGUID`. The texts have no letter that another script lowers to. -/
def classifyGPTPartitionTypeGUID (guid : Bytes) : TypeHint :=
  let lowered := lowerAscii guid
  if lowered = ascii "c12a7328-f81f-11d2-ba4b-00a0c93ec93b" then .efiSystem
  else if lowered = ascii "0fc63daf-8483-4772-8e79-3d69d8477de4" then .linuxData
  else if lowered = ascii "a19d880f-05fc-4d3b-a006-743f0f84911e" then .linuxRAID
  else if lowered = ascii "0657fd6d-a4ab-43c4-84e5-0933c84b4f4f" then .linuxSwap
  else if lowered = ascii "e6d6d379-f507-44c2-a23c-238f2a3df928" then .linuxLVM
  else .unknown

inductive GuidStatus where
  | unset
  | singleton
  | ambiguous
  deriving DecidableEq

structure KernelPartition where
  kernelName : Bytes
  major : UInt32
  minor : UInt32
  number : Nat
  start512B : Nat
  size512B : Nat
  typeGUID : Bytes
  typeHint : TypeHint
  uuid : Bytes
  uuidStatus : GuidStatus := .unset
  deriving DecidableEq

inductive Disposition where
  | noTable
  | gpt
  | unsupported
  deriving DecidableEq

structure Binding where
  diskName : Bytes
  generation : BlockDeviceGeneration
  sourceStatus : Bytes
  tableDisposition : Disposition := .noTable
  scheme : Bytes := []
  tableID : Bytes := []
  tableIDStatus : GuidStatus := .unset
  partitions : List KernelPartition := []
  deriving DecidableEq

def snapshotOf (inventory : Slice Node) : StorageSnapshot where
  schemaVersion := 2
  scope := ascii "kernel-sysfs-only"
  inventoryReadOnly := true
  blockDevicesOpened := false
  contentRead := false
  mutationsPerformed := false
  stableIdentityAvailable := false
  deviceCount := inventory.items.length
  observations := inventory.map fun nodes => nodes.map Node.toBlockObservation
  collectionComplete := true

def isChild (disk o : Node) : Bool := o.kind == .partition && o.parentName == disk.name

def childOk (disk o : Node) : Bool :=
  o.parentMajor == some disk.major && o.parentMinor == some disk.minor &&
    o.parentDiskSeq == disk.diskSequence && pathDir o.sysfsTarget == disk.sysfsTarget &&
    o.partitionNumber != 0 && o.partitionStart512B != 0 && o.sizeBytes != 0 &&
    o.sizeBytes % linuxSysfsSectorBytes == 0

def kernelByNumber (disk : Node) (found : List Node) : List Node → Option (List Node)
  | [] => some found
  | o :: rest =>
    if isChild disk o = false then kernelByNumber disk found rest
    else if childOk disk o = false then none
    else if found.any fun f => f.partitionNumber == o.partitionNumber then none
    else kernelByNumber disk (found ++ [o]) rest

def kernelPartition (kernel : List Node) (number : Nat) : Option Node :=
  kernel.find? fun o => o.partitionNumber.toNat == number

def bound (part : Partition) (kernel : Node) : KernelPartition where
  kernelName := kernel.name
  major := kernel.major
  minor := kernel.minor
  number := part.number
  start512B := part.start512B
  size512B := part.size512B
  typeGUID := part.typeID
  typeHint := classifyGPTPartitionTypeGUID part.typeID
  uuid := part.uuid

def entryOk (disk : Node) (part : Partition) : Bool :=
  part.number != 0 && part.start512B != 0 && part.size512B != 0 &&
    decide (part.start512B ≤ maxUint64 - part.size512B) &&
    decide (part.start512B + part.size512B ≤ disk.sizeBytes / linuxSysfsSectorBytes)

def bindPartitions (disk : Node) (kernel : List Node) (seen : List Nat) :
    List Partition → Option (List KernelPartition)
  | [] => some []
  | part :: rest =>
    if entryOk disk part = false ∨ part.number ∈ seen then none
    else
      match kernelPartition kernel part.number with
      | none => none
      | some o =>
        if o.partitionStart512B ≠ part.start512B ∨
            o.sizeBytes / linuxSysfsSectorBytes ≠ part.size512B then none
        else
          (bindPartitions disk kernel (seen ++ [part.number]) rest).map fun more =>
            bound part o :: more

def unbound (disk : Node) (result : VolumeProbe.Result) : Binding where
  diskName := disk.name
  generation := ⟨disk.major, disk.minor, disk.diskSequence⟩
  sourceStatus := result.status

def bindTable (disk : Node) (kernel : List Node) (result : VolumeProbe.Result) (table : Table) :
    Option Binding :=
  if result.status ≠ ascii "other-signature" then none
  else if table.scheme = ascii "dos" then
    some { unbound disk result with tableDisposition := .unsupported }
  else if table.scheme ≠ ascii "gpt" ∨ table.id = [] ∨
      table.partitions.length ≠ kernel.length then none
  else
    match bindPartitions disk kernel [] table.partitions with
    | none => none
    | some partitions =>
      -- the numbers seen are those of the bound partitions
      if partitions.length ≠ kernel.length then none
      else some { unbound disk result with
        tableDisposition := .gpt
        scheme := table.scheme
        tableID := table.id
        partitions := partitions }

def bindResult (disk : Node) (kernel : List Node) (result : VolumeProbe.Result) : Option Binding :=
  if result.status = ascii "unsupported-table" then
    some { unbound disk result with tableDisposition := .unsupported }
  else
    match result.partitionTable with
    | none => (some (unbound disk result)).filter fun _ => kernel.isEmpty
    | some table => bindTable disk kernel result table

def bindDisk (disk : Node) (inventory : List Node) (devices : List ObservedBlockDevice)
    (result : VolumeProbe.Result) : Option Binding :=
  if observedDevice disk.toBlockObservation ∉ devices then none
  else if inventory.any fun o => o.name == disk.name && !sameBlockObservation disk o then none
  else
    match kernelByNumber disk [] inventory with
    | none => none
    | some kernel => bindResult disk kernel result

def correlateDiskPartitionTable (disk : Node) (inventory : Slice Node)
    (result : VolumeProbe.Result) : Option Binding :=
  if result.sourceKind ≠ ascii "block-device" ∨ disk.kind ≠ .block ∨ disk.diskSequence = 0 ∨
      disk.sizeBytes = 0 ∨ disk.sizeBytes % linuxSysfsSectorBytes ≠ 0 then none
  else
    match completeObservedBlockDeviceSet (snapshotOf inventory) with
    | .error _ => none
    | .ok devices => bindDisk disk inventory.items devices result

variable {disk : Node} {inventory kernel : List Node}

theorem kernelByNumber_some {found : List Node}
    (h : kernelByNumber disk found inventory = some kernel) :
    kernel = found ++ inventory.filter (isChild disk) ∧
      (∀ o ∈ inventory, isChild disk o = true → childOk disk o = true) ∧
      ((found.map fun o => o.partitionNumber).Nodup →
        (kernel.map fun o => o.partitionNumber).Nodup) := by
  induction inventory generalizing found with
  | nil =>
    cases h
    simp
  | cons o rest ih =>
    rw [kernelByNumber] at h
    split_ifs at h with hchild hok hseen
    · obtain ⟨rfl, hchildren, hnodup⟩ := ih h
      rw [List.filter_cons_of_neg (by simp [hchild])]
      refine ⟨rfl, List.forall_mem_cons.mpr ⟨fun hpos => ?_, hchildren⟩, hnodup⟩
      rw [hchild] at hpos
      cases hpos
    · obtain ⟨rfl, hchildren, hnodup⟩ := ih h
      have hpos : isChild disk o = true := by simpa using hchild
      rw [List.filter_cons_of_pos hpos, List.append_assoc, List.singleton_append]
      refine ⟨rfl, List.forall_mem_cons.mpr ⟨fun _ => by simpa using hok, hchildren⟩, ?_⟩
      intro hfound
      rw [List.append_assoc, List.singleton_append] at hnodup
      apply hnodup
      rw [List.map_append, List.nodup_append_comm]
      refine List.nodup_cons.mpr ⟨fun hmem => hseen ?_, hfound⟩
      obtain ⟨f, hf, heq⟩ := List.mem_map.mp hmem
      exact List.any_eq_true.mpr ⟨f, hf, by simpa using heq⟩

/-- An entry of a table and the partition of the kernel that it is. -/
structure SamePartition (disk : Node) (part : Partition) (o : Node) : Prop where
  number : o.partitionNumber.toNat = part.number
  start : o.partitionStart512B = part.start512B
  size : o.sizeBytes / linuxSysfsSectorBytes = part.size512B
  positive : 0 < part.number ∧ 0 < part.start512B ∧ 0 < part.size512B
  inside : part.start512B + part.size512B ≤ disk.sizeBytes / linuxSysfsSectorBytes

theorem entryOk_facts {part : Partition} (h : entryOk disk part = true) :
    (0 < part.number ∧ 0 < part.start512B ∧ 0 < part.size512B) ∧
      part.start512B + part.size512B ≤ disk.sizeBytes / linuxSysfsSectorBytes := by
  simp only [entryOk, Bool.and_eq_true, bne_iff_ne, decide_eq_true_eq] at h
  omega

theorem kernelPartition_some {number : Nat} {o : Node}
    (h : kernelPartition kernel number = some o) :
    o ∈ kernel ∧ o.partitionNumber.toNat = number :=
  ⟨List.mem_of_find?_eq_some h, by simpa using List.find?_some h⟩

theorem bindPartitions_some {seen : List Nat} {parts : List Partition}
    {out : List KernelPartition} (h : bindPartitions disk kernel seen parts = some out) :
    ∃ kids : List Node, List.Forall₂ (SamePartition disk) parts kids ∧
      out = List.zipWith bound parts kids ∧ (∀ k ∈ kids, k ∈ kernel) ∧
      Fresh Partition.number seen parts := by
  induction parts generalizing seen out with
  | nil =>
    cases h
    exact ⟨[], .nil, rfl, by simp, fresh_nil⟩
  | cons part rest ih =>
    rw [bindPartitions] at h
    split_ifs at h with hbad
    rw [not_or, Bool.not_eq_false] at hbad
    split at h
    · cases h
    · rename_i o ho
      split_ifs at h with hother
      rw [not_or, not_not, not_not] at hother
      obtain ⟨more, hmore, rfl⟩ := Option.map_eq_some_iff.mp h
      obtain ⟨kids, hkids, rfl, hmem, hfresh⟩ := ih hmore
      obtain ⟨ho, hnumber⟩ := kernelPartition_some ho
      obtain ⟨hpositive, hinside⟩ := entryOk_facts hbad.1
      refine ⟨o :: kids, .cons ⟨hnumber, hother.1, hother.2, hpositive, hinside⟩ hkids, rfl,
        List.forall_mem_cons.mpr ⟨ho, hmem⟩, fresh_cons.mpr ⟨hbad.2, ?_⟩⟩
      exact ⟨fun p hp hseen => hfresh.1 p hp (by
        rcases List.mem_cons.mp hseen with heq | hseen
        · exact heq ▸ List.mem_append_right _ List.mem_cons_self
        · exact List.mem_append_left _ hseen), hfresh.2⟩

theorem kids_numbers {parts : List Partition} {kids : List Node}
    (h : List.Forall₂ (SamePartition disk) parts kids) :
    (kids.map fun o => o.partitionNumber.toNat) = parts.map Partition.number := by
  induction h with
  | nil => rfl
  | cons hsame _ ih => rw [List.map_cons, List.map_cons, hsame.number, ih]

def childrenOf (disk : Node) (inventory : List Node) : List Node := inventory.filter (isChild disk)

/-- A table bound to a disk: its entries, in order, are the partitions of the kernel, each once. -/
structure Bound (disk : Node) (inventory : List Node) (table : Table)
    (partitions : List KernelPartition) : Prop where
  pairs : ∃ kids : List Node, kids.Perm (childrenOf disk inventory) ∧
    List.Forall₂ (SamePartition disk) table.partitions kids ∧
    partitions = List.zipWith bound table.partitions kids
  numbers : (table.partitions.map Partition.number).Nodup

inductive Content (disk : Node) (inventory : List Node) (result : VolumeProbe.Result)
    (b : Binding) : Prop
  | noTable : b.tableDisposition = .noTable → b.scheme = [] → b.tableID = [] →
      b.partitions = [] → Content disk inventory result b
  | unsupported : b.tableDisposition = .unsupported → b.scheme = [] → b.tableID = [] →
      b.partitions = [] → Content disk inventory result b
  | gpt (table : Table) : b.tableDisposition = .gpt → result.partitionTable = some table →
      table.scheme = ascii "gpt" → b.scheme = ascii "gpt" → b.tableID = table.id →
      Bound disk inventory table b.partitions → Content disk inventory result b

structure Correlated (disk : Node) (inventory : List Node) (result : VolumeProbe.Result)
    (b : Binding) : Prop where
  accepted : Accepted (inventory.map Node.toBlockObservation)
  names : ∀ o ∈ inventory, validBlockName o.name = true
  mem : disk ∈ inventory
  kind : disk.kind = .block
  sequence : disk.diskSequence ≠ 0
  name : b.diskName = disk.name
  generation : b.generation = ⟨disk.major, disk.minor, disk.diskSequence⟩
  content : Content disk inventory result b

theorem bindPartitions_bound {table : Table} {out : List KernelPartition}
    (hkernel : kernelByNumber disk [] inventory = some kernel)
    (h : bindPartitions disk kernel [] table.partitions = some out)
    (hlength : table.partitions.length = kernel.length) : Bound disk inventory table out := by
  obtain ⟨kids, hkids, hout, hmem, hfresh⟩ := bindPartitions_some h
  have hnumbers : (table.partitions.map Partition.number).Nodup := fresh_start.mp hfresh
  refine ⟨⟨kids, ?_, hkids, hout⟩, hnumbers⟩
  have hnodup : kids.Nodup := by
    rw [← kids_numbers hkids] at hnumbers
    exact hnumbers.of_map _
  have hperm : kids.Perm kernel := by
    apply (List.subperm_of_subset hnodup fun k hk => hmem k hk).perm_of_length_le
    rw [← hlength, hkids.length_eq]
  rw [(kernelByNumber_some hkernel).1, List.nil_append] at hperm
  exact hperm

variable {result : VolumeProbe.Result}

variable {b : Binding}

theorem bindTable_content {table : Table} (htable : result.partitionTable = some table)
    (hkernel : kernelByNumber disk [] inventory = some kernel)
    (h : bindTable disk kernel result table = some b) :
    b.diskName = disk.name ∧ b.generation = ⟨disk.major, disk.minor, disk.diskSequence⟩ ∧
      Content disk inventory result b := by
  rw [bindTable] at h
  split_ifs at h with hstatus hdos hgpt
  · cases h
    exact ⟨rfl, rfl, .unsupported rfl rfl rfl rfl⟩
  · rw [not_or, not_or, not_not, not_not] at hgpt
    obtain ⟨hscheme, -, hlength⟩ := hgpt
    split at h
    · cases h
    · rename_i partitions hbind
      split_ifs at h
      cases h
      exact ⟨rfl, rfl, .gpt table rfl htable hscheme hscheme rfl
        (bindPartitions_bound hkernel hbind hlength)⟩

theorem bindResult_content (hkernel : kernelByNumber disk [] inventory = some kernel)
    (h : bindResult disk kernel result = some b) :
    b.diskName = disk.name ∧ b.generation = ⟨disk.major, disk.minor, disk.diskSequence⟩ ∧
      Content disk inventory result b := by
  rw [bindResult] at h
  split_ifs at h with hunsupported
  · cases h
    exact ⟨rfl, rfl, .unsupported rfl rfl rfl rfl⟩
  · split at h
    · cases (Option.filter_eq_some_iff.mp h).1
      exact ⟨rfl, rfl, .noTable rfl rfl rfl rfl⟩
    · rename_i table htable
      exact bindTable_content htable hkernel h

theorem collected_names {acc acc' : Collected} {nodes : List BlockObservation}
    (h : Checks.thread collectOne acc nodes = .ok acc') :
    ∀ o ∈ nodes, validBlockName o.name = true := by
  induction nodes generalizing acc with
  | nil => simp
  | cons o rest ih =>
    obtain ⟨mid, hone, hrest⟩ := Checks.thread_cons_ok.mp h
    refine List.forall_mem_cons.mpr ⟨?_, ih hrest⟩
    simp only [collectOne, Checks.bind_unit_ok, Checks.refuseIf_ok, not_or] at hone
    simpa using hone.1.1

variable {devices : List ObservedBlockDevice}

theorem complete_names {snapshot : StorageSnapshot}
    (h : completeObservedBlockDeviceSet snapshot = .ok devices) :
    ∀ o ∈ snapshot.observations.items, validBlockName o.name = true := by
  simp only [completeObservedBlockDeviceSet, Checks.bind_ok] at h
  obtain ⟨_, -, acc, hcollect, -⟩ := h
  exact collected_names hcollect

theorem bindDisk_mem (h : bindDisk disk inventory devices result = some b)
    (hdevices : devices = ((inventory.map Node.toBlockObservation).filter
      fun o => o.kind = .block).map observedDevice) : disk ∈ inventory := by
  rw [bindDisk] at h
  split_ifs at h with hfound hsame
  -- the device was found by its name, and what bears the name is the disk
  rw [hdevices] at hfound
  obtain ⟨block, hblock, heq⟩ := List.mem_map.mp hfound
  obtain ⟨o, ho, rfl⟩ := List.mem_map.mp (List.mem_filter.mp hblock).1
  have hbears : o.name = disk.name := congrArg ObservedBlockDevice.name heq
  have hequal : disk = o := by
    by_contra hne
    exact hsame (List.any_eq_true.mpr ⟨o, ho, by simp [hbears, sameBlockObservation, hne]⟩)
  rw [hequal]
  exact ho

theorem bindDisk_content (h : bindDisk disk inventory devices result = some b) :
    b.diskName = disk.name ∧ b.generation = ⟨disk.major, disk.minor, disk.diskSequence⟩ ∧
      Content disk inventory result b := by
  rw [bindDisk] at h
  split_ifs at h
  split at h
  · cases h
  · rename_i kernel hkernel
    exact bindResult_content hkernel h

/-- A table that is bound is the kernel's view of the disk. -/
theorem correlate_some {slice : Slice Node}
    (h : correlateDiskPartitionTable disk slice result = some b) :
    Correlated disk slice.items result b := by
  rw [correlateDiskPartitionTable] at h
  split_ifs at h with hdisk
  simp only [not_or, not_not] at hdisk
  split at h
  · cases h
  · rename_i devices hdevices
    obtain ⟨hname, hgeneration, hcontent⟩ := bindDisk_content h
    obtain ⟨nodes, hnodes, haccepted, hblocks⟩ := completeObservedBlockDeviceSet_ok hdevices
    have hitems : nodes = slice.items.map Node.toBlockObservation := by
      obtain ⟨list, rfl, hlist⟩ := Option.map_eq_some_iff.mp hnodes
      exact hlist.symm
    have hnames := complete_names hdevices
    rw [hnodes, Slice.items_some, hitems] at hnames
    rw [hitems] at haccepted hblocks
    exact ⟨haccepted, List.forall_mem_map.mp hnames, bindDisk_mem h hblocks, hdisk.2.1,
      hdisk.2.2.1, hname, hgeneration, hcontent⟩

end GptBinding
