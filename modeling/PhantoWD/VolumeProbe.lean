import PhantoWD.ConfigJson
import PhantoWD.PartitionTable
import PhantoWD.ShareConfig

/-!
The helper process prints what it found as one line of JSON. Its supervisor decodes the line with
the strictness it applies to any untrusted text.
-/
namespace VolumeProbe

open GoText GoJson ConfigJson
open RawImage

def maxOutput : Nat := 64 * 1024
def maxPartitionEntries : Nat := 256

structure Partition where
  number : Nat
  start512B : Nat
  size512B : Nat
  uuid : Bytes
  typeID : Bytes
  extended : Bool
  deriving DecidableEq

structure Table where
  scheme : Bytes
  id : Bytes
  partitions : List Partition
  deriving DecidableEq

structure Result where
  status : Bytes
  sourceKind : Bytes
  filesystem : Bytes
  filesystemUUID : Bytes
  partitionTable : Option Table
  deriving DecidableEq

/-- A missing member leaves its pointer nil. -/
structure PartitionResponse where
  number : Option Nat := none
  start512B : Option Nat := none
  size512B : Option Nat := none
  uuid : Option Bytes := none
  typeID : Option Bytes := none
  extended : Option Bool := none
  deriving DecidableEq

structure Response where
  schemaVersion : Int
  status : Option Bytes
  sourceKind : Option Bytes
  filesystem : Option Bytes
  filesystemUUID : Option Bytes
  partitionTable : Option Bytes
  partitionTableID : Option Bytes
  partitions : Option (List PartitionResponse)
  mountPerformed : Option Bool
  compatibilityQualified : Option Bool
  activationAllowed : Option Bool
  deriving DecidableEq

def partitionFields : List Bytes :=
  [ascii "number", ascii "start_512b_sectors", ascii "size_512b_sectors", ascii "uuid",
    ascii "type_id", ascii "extended"]

def responseFields : List Bytes :=
  [ascii "schema_version", ascii "status", ascii "source_kind", ascii "filesystem",
    ascii "filesystem_uuid", ascii "partition_table", ascii "partition_table_id",
    ascii "partitions", ascii "mount_performed", ascii "compatibility_qualified",
    ascii "activation_allowed"]

def fields : List Bytes := responseFields ++ partitionFields

def partitionResponse : Value → Option PartitionResponse
  | .obj members => do
    let members := members.toList
    guard (knownFields partitionFields members = true)
    let number ← bindPointer (asUint 32) (bound partitionFields (ascii "number") members)
    let start512B ← bindPointer (asUint 64)
      (bound partitionFields (ascii "start_512b_sectors") members)
    let size512B ← bindPointer (asUint 64)
      (bound partitionFields (ascii "size_512b_sectors") members)
    let uuid ← bindPointer asString (bound partitionFields (ascii "uuid") members)
    let typeID ← bindPointer asString (bound partitionFields (ascii "type_id") members)
    let extended ← bindPointer asBool (bound partitionFields (ascii "extended") members)
    some ⟨number, start512B, size512B, uuid, typeID, extended⟩
  | .null => some {}
  | _ => none

def response : Value → Option Response
  | .obj members => do
    let members := members.toList
    let text := fun name => bindPointer asString (bound responseFields name members)
    let flag := fun name => bindPointer asBool (bound responseFields name members)
    guard (knownFields responseFields members = true)
    let schemaVersion ← bindInt (bound responseFields (ascii "schema_version") members)
    let status ← text (ascii "status")
    let sourceKind ← text (ascii "source_kind")
    let filesystem ← text (ascii "filesystem")
    let filesystemUUID ← text (ascii "filesystem_uuid")
    let partitionTable ← text (ascii "partition_table")
    let partitionTableID ← text (ascii "partition_table_id")
    let partitions ← bindPointer (asSlice partitionResponse)
      (bound responseFields (ascii "partitions") members)
    let mountPerformed ← flag (ascii "mount_performed")
    let compatibilityQualified ← flag (ascii "compatibility_qualified")
    let activationAllowed ← flag (ascii "activation_allowed")
    some ⟨schemaVersion, status, sourceKind, filesystem, filesystemUUID, partitionTable,
      partitionTableID, partitions, mountPerformed, compatibilityQualified, activationAllowed⟩
  | .null => some ⟨0, none, none, none, none, none, none, none, none, none, none⟩
  | _ => none

def rangesOverlap (aStart aEnd bStart bEnd : Nat) : Bool := aStart < bEnd && bStart < aEnd

def lowerHex (value : Bytes) : Bool := (runes value).all ShareConfig.hexLower

def validUUID (value : Bytes) : Bool := ShareConfig.filesystemUUID value

def validDOSID (value : Bytes) : Bool :=
  value.length == 8 && lowerHex value && value != ascii "00000000"

def validDOSPartitionID (tableID : Bytes) (number : Nat) (value : Bytes) : Bool :=
  let suffix := formatHex 1 number
  let suffix := if suffix.length < 2 then ascii "0" ++ suffix else suffix
  value == tableID ++ ascii "-" ++ suffix

def validDOSType (value : Bytes) : Bool :=
  value.length == 4 && (ascii "0x").isPrefixOf value && lowerHex (value.drop 2) &&
    value != ascii "0x00"

def extendedTypes : List Bytes := [ascii "0x05", ascii "0x0f", ascii "0x85"]

structure Scan where
  partitions : List Partition := []
  extendedCount : Nat := 0
  deriving DecidableEq

def checkGPTPartition (part : Partition) : Prop :=
  part.number ≤ 4096 ∧ part.extended = false ∧ validUUID part.uuid = true ∧
    validUUID part.typeID = true

instance (part : Partition) : Decidable (checkGPTPartition part) := by
  unfold checkGPTPartition
  infer_instance

def checkDOSPartition (id : Bytes) (extendedCount : Nat) (part : Partition) : Prop :=
  part.number ≤ 256 ∧ validDOSPartitionID id part.number part.uuid = true ∧
    validDOSType part.typeID = true ∧ part.extended = extendedTypes.contains part.typeID ∧
    (part.extended = true → part.number ≤ 4 ∧ extendedCount = 0)

instance (id : Bytes) (extendedCount : Nat) (part : Partition) :
    Decidable (checkDOSPartition id extendedCount part) := by
  unfold checkDOSPartition
  infer_instance

def takePartition (scheme id : Bytes) (s : Scan) (part : PartitionResponse) : Option Scan := do
  let part : Partition := ⟨← part.number, ← part.start512B, ← part.size512B, ← part.uuid,
    ← part.typeID, ← part.extended⟩
  guard (part.number ≠ 0 ∧ part.start512B ≠ 0 ∧ part.size512B ≠ 0 ∧
    part.start512B ≤ maxUint64 - part.size512B)
  guard (∀ old ∈ s.partitions, old.number ≠ part.number ∧ old.uuid ≠ part.uuid)
  guard (if scheme = ascii "gpt" then checkGPTPartition part
    else checkDOSPartition id s.extendedCount part)
  some ⟨s.partitions ++ [part], s.extendedCount + if part.extended then 1 else 0⟩

def clash (left right : Partition) : Bool :=
  !left.extended && !right.extended &&
    rangesOverlap left.start512B (add64 left.start512B left.size512B)
      right.start512B (add64 right.start512B right.size512B)

def anyClash : List Partition → Bool
  | [] => false
  | right :: rest => rest.any (clash · right) || anyClash rest

def misplaced (container part : Partition) : Bool :=
  let containerEnd := add64 container.start512B container.size512B
  let partEnd := add64 part.start512B part.size512B
  !part.extended &&
    if part.number < 5 then
      rangesOverlap part.start512B partEnd container.start512B containerEnd
    else part.start512B < container.start512B || containerEnd < partEnd

def checkContainer (s : Scan) : Prop :=
  if s.extendedCount = 0 then ∀ part ∈ s.partitions, part.number ≤ 4
  else match s.partitions.find? (·.extended) with
    | none => False
    | some container => s.partitions.any (misplaced container) = false

instance (s : Scan) : Decidable (checkContainer s) := by
  unfold checkContainer
  split
  · infer_instance
  · split <;> infer_instance

def decodeTable (scheme id : Bytes) (parts : List PartitionResponse) : Option Table := do
  guard (parts.length ≤ maxPartitionEntries)
  guard (scheme = ascii "gpt" ∧ validUUID id = true ∨ scheme = ascii "dos" ∧ validDOSID id = true)
  let s ← parts.foldlM (takePartition scheme id) {}
  guard (anyClash s.partitions = false)
  guard (scheme = ascii "dos" → checkContainer s)
  some ⟨scheme, id, s.partitions⟩

def bareStatuses : List Bytes :=
  [ascii "unusable-signature", ascii "unidentified", ascii "ambiguous", ascii "unsupported-table"]

def extTypes : List Bytes := [ascii "ext2", ascii "ext3", ascii "ext4"]

def checkStatus (result : Result) (partitionTable partitionTableID : Bytes)
    (parts : List PartitionResponse) : Prop :=
  let bare := partitionTable = [] ∧ partitionTableID = [] ∧ parts = []
  if result.status = ascii "ext-metadata" then
    result.filesystem ∈ extTypes ∧ validUUID result.filesystemUUID = true ∧ bare
  else if result.status = ascii "other-signature" then
    result.filesystem = [] ∧ result.filesystemUUID = []
  else result.status ∈ bareStatuses ∧ result.filesystem = [] ∧ result.filesystemUUID = [] ∧ bare

instance (result : Result) (partitionTable partitionTableID : Bytes)
    (parts : List PartitionResponse) :
    Decidable (checkStatus result partitionTable partitionTableID parts) := by
  unfold checkStatus
  split
  · infer_instance
  · split <;> infer_instance

def decode (input : Bytes) : Option Result := do
  let wire ← (decodeValue input maxOutput 3 fields).bind response
  guard (wire.schemaVersion = 2)
  let result : Result := ⟨← wire.status, ← wire.sourceKind, ← wire.filesystem,
    ← wire.filesystemUUID, none⟩
  let partitionTable ← wire.partitionTable
  let partitionTableID ← wire.partitionTableID
  let parts ← wire.partitions
  guard (wire.mountPerformed = some false ∧ wire.compatibilityQualified = some false ∧
    wire.activationAllowed = some false)
  guard (result.sourceKind = ascii "regular-image" ∨ result.sourceKind = ascii "block-device")
  guard (checkStatus result partitionTable partitionTableID parts)
  if partitionTable = [] then do
    guard (partitionTableID = [] ∧ parts = [])
    some result
  else do
    guard (result.status = ascii "other-signature")
    let table ← decodeTable partitionTable partitionTableID parts
    some { result with partitionTable := some table }

structure Scanned (scheme : Bytes) (partitions : List Partition) : Prop where
  placed : ∀ p ∈ partitions, p.start512B + p.size512B ≤ maxUint64
  checked : scheme = ascii "gpt" → ∀ p ∈ partitions, checkGPTPartition p
  distinct : partitions.Pairwise fun a b => a.number ≠ b.number ∧ a.uuid ≠ b.uuid

variable {scheme id : Bytes} {s t : Scan}

theorem takePartition_scanned {part : PartitionResponse} (hs : Scanned scheme s.partitions)
    (h : takePartition scheme id s part = some t) :
    Scanned scheme t.partitions ∧ t.partitions.length = s.partitions.length + 1 := by
  simp only [takePartition, Option.bind_eq_bind, Option.bind_eq_some_iff, Option.guard_eq_some',
    Option.some.injEq, exists_and_left, exists_const] at h
  obtain ⟨_, -, _, -, _, -, _, -, _, -, _, -, ⟨-, hstart, hsize, hfits⟩, hnew, hcheck, rfl⟩ := h
  refine ⟨⟨?_, fun hgpt => ?_, ?_⟩, by simp⟩
  · exact List.forall_mem_append.mpr ⟨hs.placed, by simp; omega⟩
  · rw [if_pos hgpt] at hcheck
    exact List.forall_mem_append.mpr ⟨hs.checked hgpt, List.forall_mem_singleton.mpr hcheck⟩
  · exact List.pairwise_append.mpr ⟨hs.distinct, List.pairwise_singleton _ _, by simpa using hnew⟩

theorem takePartitions_scanned {parts : List PartitionResponse} (hs : Scanned scheme s.partitions)
    (h : parts.foldlM (takePartition scheme id) s = some t) :
    Scanned scheme t.partitions ∧
      t.partitions.length = s.partitions.length + parts.length := by
  induction parts generalizing s with
  | nil =>
    cases h
    exact ⟨hs, rfl⟩
  | cons part rest ih =>
    rw [List.foldlM_cons, Option.bind_eq_bind, Option.bind_eq_some_iff] at h
    obtain ⟨mid, hone, hrest⟩ := h
    obtain ⟨hmid, hlength⟩ := takePartition_scanned hs hone
    obtain ⟨ht, htotal⟩ := ih hmid hrest
    exact ⟨ht, by rw [htotal, hlength, List.length_cons]; omega⟩

structure Sound (table : Table) : Prop extends Scanned table.scheme table.partitions where
  id : table.scheme = ascii "gpt" → validUUID table.id = true
  few : table.partitions.length ≤ maxPartitionEntries
  clear : anyClash table.partitions = false

/-- The decoder's loop establishes all that a table promises. -/
theorem decode_sound {input : Bytes} {result : Result} {table : Table}
    (h : decode input = some result) (htable : result.partitionTable = some table) :
    Sound table := by
  rw [decode] at h
  simp only [Option.bind_eq_bind, Option.bind_eq_some_iff, Option.guard_eq_some',
    exists_and_left, exists_const] at h
  obtain ⟨_, -, -, _, -, _, -, _, -, _, -, scheme, -, id, -, parts, -, -, -, -, h⟩ := h
  split_ifs at h with hnone
  · obtain ⟨_, -, h⟩ := Option.bind_eq_some_iff.mp h
    cases h
    cases htable
  · simp only [decodeTable, Option.bind_eq_bind, Option.bind_eq_some_iff, Option.guard_eq_some',
      Option.some.injEq, exists_and_left, exists_const] at h
    obtain ⟨_, _, ⟨hfew, hid, s, hscan, hclear, -, rfl⟩, rfl⟩ := h
    cases htable
    obtain ⟨hscanned, hlength⟩ := takePartitions_scanned ⟨by simp, by simp, .nil⟩ hscan
    refine ⟨hscanned, fun hgpt => ?_, by rw [hlength]; simpa using hfew, hclear⟩
    exact (hid.resolve_right fun hdos => absurd (hgpt.symm.trans hdos.1) (by decide)).2

theorem anyClash_eq_false {l : List Partition} :
    anyClash l = false ↔ l.Pairwise fun a b => clash b a = false := by
  induction l with
  | nil => simp [anyClash]
  | cons right rest ih => simp [anyClash, ih]

/-- In an accepted report no two partitions share a number or an identifier, and no two of them
that hold data share a sector. -/
theorem decode_disjoint {input : Bytes} {result : Result} {table : Table}
    (h : decode input = some result) (htable : result.partitionTable = some table) :
    table.partitions.Pairwise fun a b => a.number ≠ b.number ∧ a.uuid ≠ b.uuid ∧
      (a.extended = false → b.extended = false → a.start512B + a.size512B ≤ b.start512B ∨
        b.start512B + b.size512B ≤ a.start512B) := by
  have hsound := decode_sound h htable
  refine (hsound.distinct.and (anyClash_eq_false.mp hsound.clear)).imp_of_mem ?_
  rintro a b ha hb ⟨⟨hnumber, huuid⟩, hclash⟩
  refine ⟨hnumber, huuid, fun hfirst hsecond => ?_⟩
  have hboth := And.intro (hsound.placed a ha) (hsound.placed b hb)
  unfold maxUint64 at hboth
  simp only [clash, hfirst, hsecond, rangesOverlap] at hclash
  rw [add64_eq (by omega), add64_eq (by omega)] at hclash
  simp at hclash
  omega

def sampleReport : Bytes :=
  let part := fun n id => Value.obj (.ofList (partitionFields.zip [.num n, .num n,
    .num (ascii "1"), .str (ascii id), .str (ascii "0x83"), .bool false]))
  (Value.obj (.ofList (responseFields.zip [.num (ascii "2"), .str (ascii "other-signature"),
    .str (ascii "block-device"), .str [], .str [], .str (ascii "dos"), .str (ascii "12345678"),
    .arr (.cons (part (ascii "1") "12345678-01") (.cons (part (ascii "2") "12345678-02") .nil)),
    .bool false, .bool false, .bool false]))).render

theorem sample_decode_disjoint :
    ∃ table, (decode sampleReport).bind (·.partitionTable) = some table ∧
      (table.partitions.map fun p => (p.number, p.extended)) = [(1, false), (2, false)] ∧
      table.partitions.Pairwise fun a b => a.number ≠ b.number ∧ a.uuid ≠ b.uuid ∧
        (a.extended = false → b.extended = false → a.start512B + a.size512B ≤ b.start512B ∨
          b.start512B + b.size512B ≤ a.start512B) := by
  have hparts : ((decode sampleReport).bind (·.partitionTable)).map
      (fun table => table.partitions.map fun p => (p.number, p.extended)) =
        some [(1, false), (2, false)] := by decide +kernel
  obtain ⟨table, htable, hshown⟩ := Option.map_eq_some_iff.mp hparts
  obtain ⟨_, hresult, hin⟩ := Option.bind_eq_some_iff.mp htable
  exact ⟨table, htable, hshown, decode_disjoint hresult hin⟩

end VolumeProbe
