import PhantoWD.RawImage

/-!
The metadata probe reads a GPT from an untrusted disk and reports it only when the whole of it
is consistent. Every refusal is the same answer; an access outside a buffer is kept
apart, so that its absence can be stated.
-/
namespace PartitionTable

open GoText
open RawImage

def maxPartitions : Nat := 256
def gptHeaderMinSize : Nat := 92
def gptEntrySize : Nat := 128
def gptMaxEntrySlots : Nat := 4096
def gptMaxEntryBytes : Nat := 524288
def sectorBuffer : Nat := 4096
def textCapacity : Nat := 37

def maxUint32 : Nat := 2 ^ 32 - 1

inductive Fault where
  | rejected
  | outOfBounds
  deriving DecidableEq

def rejectIf (c : Prop) [Decidable c] : Probe Fault Unit := .failIf c .rejected

def readExact (diskBytes offset capacity length : Nat) : Probe Fault Bytes := do
  rejectIf (diskBytes < offset ∨ diskBytes - offset < length ∨ maxInt64 < offset ∨
    maxInt64 - offset < length)
  if capacity < length then .fail .outOfBounds else .read offset length .rejected

/-- A pointer to `width` bytes of the part of a buffer that has been filled. -/
def field (buffer : Bytes) (offset width : Nat) : Probe Fault Bytes :=
  if offset + width ≤ buffer.length then pure (window buffer offset width)
  else .fail .outOfBounds

def push {α : Type} (capacity : Nat) (cells : List α) (x : α) : Probe Fault (List α) :=
  if cells.length < capacity then pure (cells ++ [x]) else .fail .outOfBounds

def lbaOffset (lba sectorSize : Nat) : Probe Fault Nat := do
  rejectIf (maxUint64 / sectorSize < lba)
  pure (mul64 lba sectorSize)

def multiplyU64 (left right : Nat) : Probe Fault Nat := do
  rejectIf (right ≠ 0 ∧ maxUint64 / right < left)
  pure (mul64 left right)

structure PartitionEntry where
  number : Nat
  start512 : Nat
  size512 : Nat
  uuid : Bytes
  typeId : Bytes
  extended : Bool
  deriving DecidableEq

structure Table where
  scheme : Bytes
  id : Bytes
  partitions : List PartitionEntry
  deriving DecidableEq

def rangesOverlap (firstStart firstEnd secondStart secondEnd : Nat) : Bool :=
  firstStart < secondEnd ∧ secondStart < firstEnd

def conflicts (part existing : PartitionEntry) : Bool :=
  existing.number = part.number ∨ existing.uuid = part.uuid ∨
    (part.extended = false ∧ existing.extended = false ∧
      rangesOverlap part.start512 (add64 part.start512 part.size512)
        existing.start512 (add64 existing.start512 existing.size512) = true)

/-- The texts are copied into arrays that keep one cell for the terminator. -/
def addPartition (partitions : List PartitionEntry) (part : PartitionEntry) :
    Probe Fault (List PartitionEntry) := do
  rejectIf (maxPartitions ≤ partitions.length ∨ part.number = 0 ∨ part.size512 = 0 ∨
    maxUint64 - part.size512 < part.start512 ∨ part.uuid = [] ∨ part.typeId = [])
  rejectIf (partitions.any (conflicts part) = true)
  push maxPartitions partitions { part with
    uuid := part.uuid.take (textCapacity - 1), typeId := part.typeId.take (textCapacity - 1) }

structure GptCopy where
  revision : Nat
  headerSize : Nat
  firstUsable : Nat
  lastUsable : Nat
  diskGuid : Bytes
  entriesLba : Nat
  entryCount : Nat
  entrySize : Nat
  entriesCrc : Nat
  entries : Bytes
  entriesSectors : Nat
  deriving DecidableEq

def hexBytes (raw : Bytes) : Bytes := raw.flatMap fun b => formatHex 2 b.toNat

theorem hexBytes_length (s : Bytes) : (hexBytes s).length = 2 * s.length := by
  induction s with
  | nil => rfl
  | cons b rest ih =>
    have hb : (formatHex 2 b.toNat).length = 2 := length_formatHex (by decide) b.toNat_lt
    rw [hexBytes] at ih ⊢
    rw [List.flatMap_cons, List.length_append, ih, hb, List.length_cons]
    omega

def guidText (raw : Bytes) : Bytes :=
  formatHex 8 (wordAt raw 0 4) ++ ascii "-" ++ formatHex 4 (wordAt raw 4 2) ++ ascii "-" ++
    formatHex 4 (wordAt raw 6 2) ++ ascii "-" ++ hexBytes (window raw 8 2) ++ ascii "-" ++
    hexBytes (window raw 10 6)

def formatGptGuid (raw : Bytes) : Probe Fault Bytes := do
  rejectIf (allZero raw = true)
  rejectIf ((guidText raw).length ≠ 36)
  pure (guidText raw)

def checkedBytes (sector : Bytes) (headerSize : Nat) : Bytes :=
  let crcSector := sector.take headerSize
  crcSector.take 16 ++ [0, 0, 0, 0] ++ crcSector.drop 20

def readGptCopy (diskBytes sectorSize diskLbas headerLba expectedAlternate : Nat) :
    Probe Fault GptCopy := do
  rejectIf (sectorBuffer < sectorSize)
  let offset ← lbaOffset headerLba sectorSize
  let sector ← readExact diskBytes offset sectorBuffer sectorSize
  let header ← field sector 0 gptHeaderMinSize
  rejectIf (window header 0 8 ≠ ascii "EFI PART")
  let headerSize := wordAt header 12 4
  rejectIf (wordAt header 8 4 ≠ 0x00010000 ∨ headerSize < gptHeaderMinSize ∨
    sectorSize < headerSize ∨ wordAt header 20 4 ≠ 0 ∨ wordAt header 24 8 ≠ headerLba ∨
    wordAt header 32 8 ≠ expectedAlternate)
  rejectIf (crc32 (checkedBytes sector headerSize) ≠ wordAt header 16 4)
  let firstUsable := wordAt header 40 8
  let lastUsable := wordAt header 48 8
  let entriesLba := wordAt header 72 8
  let entryCount := wordAt header 80 4
  let entrySize := wordAt header 84 4
  rejectIf (allZero (window header 56 16) = true ∨ firstUsable < 2 ∨ lastUsable < firstUsable ∨
    diskLbas - 1 ≤ lastUsable ∨ (firstUsable ≤ headerLba ∧ headerLba ≤ lastUsable) ∨
    entryCount = 0 ∨ gptMaxEntrySlots < entryCount ∨ entrySize ≠ gptEntrySize)
  let entriesBytes := entryCount * entrySize
  rejectIf (entriesBytes = 0 ∨ gptMaxEntryBytes < entriesBytes)
  let entriesSectors := (entriesBytes + sectorSize - 1) / sectorSize
  rejectIf (entriesSectors = 0 ∨ diskLbas ≤ entriesLba ∨ diskLbas - entriesLba < entriesSectors)
  let entriesEnd := add64 entriesLba entriesSectors
  rejectIf (headerLba = 1 ∧ (entriesLba < 2 ∨ firstUsable < entriesEnd))
  rejectIf (headerLba ≠ 1 ∧ (entriesLba ≤ lastUsable ∨ headerLba < entriesEnd))
  let offset ← lbaOffset entriesLba sectorSize
  let entries ← readExact diskBytes offset entriesBytes entriesBytes
  rejectIf (crc32 entries ≠ wordAt header 88 4)
  pure {
    revision := wordAt header 8 4
    headerSize := headerSize
    firstUsable := firstUsable
    lastUsable := lastUsable
    diskGuid := window header 56 16
    entriesLba := entriesLba
    entryCount := entryCount
    entrySize := entrySize
    entriesCrc := wordAt header 88 4
    entries := entries
    entriesSectors := entriesSectors }

def countProtective (mbr : Bytes) (lastLba : Nat) : List Nat → Nat → Probe Fault Nat
  | [], protectiveCount => pure protectiveCount
  | i :: rest, protectiveCount => do
    let entry ← field mbr (446 + i * 16) 16
    if entry.getD 4 0 = 0 then do
      rejectIf (allZero entry = false)
      countProtective mbr lastLba rest protectiveCount
    else do
      rejectIf (entry.getD 4 0 ≠ 0xee ∨ entry.getD 0 0 ≠ 0 ∨ wordAt entry 8 4 ≠ 1 ∨
        wordAt entry 12 4 = 0 ∨
        wordAt entry 12 4 ≠ if maxUint32 < lastLba then maxUint32 else lastLba)
      countProtective mbr lastLba rest (protectiveCount + 1)

def copiesDiffer (primary backup : GptCopy) : Prop :=
  primary.firstUsable ≠ backup.firstUsable ∨ primary.lastUsable ≠ backup.lastUsable ∨
    primary.headerSize ≠ backup.headerSize ∨ primary.revision ≠ backup.revision ∨
    primary.entryCount ≠ backup.entryCount ∨ primary.entrySize ≠ backup.entrySize ∨
    primary.entriesCrc ≠ backup.entriesCrc ∨ primary.diskGuid ≠ backup.diskGuid ∨
    primary.entries ≠ backup.entries ∨
    rangesOverlap primary.entriesLba (add64 primary.entriesLba primary.entriesSectors)
      backup.entriesLba (add64 backup.entriesLba backup.entriesSectors) = true

instance (primary backup : GptCopy) : Decidable (copiesDiffer primary backup) := by
  unfold copiesDiffer
  infer_instance

def addGptEntry (primary : GptCopy) (multiplier i : Nat) (entry : Bytes)
    (partitions : List PartitionEntry) : Probe Fault (List PartitionEntry) := do
  let first := wordAt entry 32 8
  let last := wordAt entry 40 8
  rejectIf (allZero (window entry 16 16) = true ∨ last < first ∨ first < primary.firstUsable ∨
    primary.lastUsable < last)
  let size := add64 (sub64 last first) 1
  rejectIf (size = 0)
  let start512 ← multiplyU64 first multiplier
  let size512 ← multiplyU64 size multiplier
  let uuid ← formatGptGuid (window entry 16 16)
  let typeId ← formatGptGuid (window entry 0 16)
  addPartition partitions ⟨i + 1, start512, size512, uuid, typeId, false⟩

def addGptEntries (primary : GptCopy) (multiplier : Nat) :
    List Nat → List PartitionEntry → Probe Fault (List PartitionEntry)
  | [], partitions => pure partitions
  | i :: rest, partitions => do
    let entry ← field primary.entries (i * primary.entrySize) primary.entrySize
    if allZero (window entry 0 16) then do
      rejectIf (allZero entry = false)
      addGptEntries primary multiplier rest partitions
    else do
      let partitions ← addGptEntry primary multiplier i entry partitions
      addGptEntries primary multiplier rest partitions

def parseGpt (diskBytes sectorSize : Nat) : Probe Fault Table := do
  rejectIf (sectorSize < 512 ∨ 4096 < sectorSize ∨ sectorSize % 512 ≠ 0 ∨
    diskBytes % sectorSize ≠ 0)
  let diskLbas := diskBytes / sectorSize
  rejectIf (diskLbas < 68)
  let lastLba := diskLbas - 1
  let mbr ← readExact diskBytes 0 512 512
  let signature ← field mbr 510 2
  rejectIf (signature ≠ [0x55, 0xaa])
  let protectiveCount ← countProtective mbr lastLba (List.range 4) 0
  rejectIf (protectiveCount ≠ 1)
  let primary ← readGptCopy diskBytes sectorSize diskLbas 1 lastLba
  let backup ← readGptCopy diskBytes sectorSize diskLbas lastLba 1
  rejectIf (copiesDiffer primary backup)
  let id ← formatGptGuid primary.diskGuid
  let partitions ← addGptEntries primary (sectorSize / 512) (List.range primary.entryCount) []
  pure ⟨ascii "gpt", id, partitions⟩

section Helpers

variable {image : Image}

@[simp] theorem result_rejectIf {c : Prop} [Decidable c] {u : Unit} :
    (rejectIf c).result image = .ok u ↔ ¬ c := Probe.result_failIf

theorem result_readExact {diskBytes offset capacity length : Nat} {data : Bytes} :
    (readExact diskBytes offset capacity length).result image = .ok data ↔
      offset + length ≤ diskBytes ∧ offset + length ≤ maxInt64 ∧ length ≤ capacity ∧
        image.failing offset length = false ∧ data = image.slice offset length := by
  simp only [readExact, Probe.result_bind, result_rejectIf]
  constructor
  · rintro ⟨_, hguard, h⟩
    split at h
    · simp at h
    · obtain ⟨hread, hdata⟩ := Probe.result_read.mp h
      exact ⟨by omega, by omega, by omega, hread, hdata⟩
  · rintro ⟨hdisk, hmax, hcapacity, hread, hdata⟩
    refine ⟨(), by omega, ?_⟩
    rw [if_neg (by omega)]
    exact Probe.result_read.mpr ⟨hread, hdata⟩

@[simp] theorem result_field {buffer data : Bytes} {offset width : Nat} :
    (field buffer offset width).result image = .ok data ↔
      offset + width ≤ buffer.length ∧ data = window buffer offset width := by
  unfold field
  split
  · simp [*, eq_comm]
  · simp [*]

@[simp] theorem result_push {α : Type} {capacity : Nat} {cells cells' : List α} {x : α} :
    (push capacity cells x).result image = .ok cells' ↔
      cells.length < capacity ∧ cells' = cells ++ [x] := by
  unfold push
  split
  · simp [*, eq_comm]
  · simp [*]

theorem mul_le_of_le_div {a b m : Nat} (h : a ≤ m / b) : a * b ≤ m :=
  (Nat.mul_le_mul_right b h).trans (Nat.div_mul_le_self m b)

theorem result_multiplyU64 {left right product : Nat} (hr : 0 < right) :
    (multiplyU64 left right).result image = .ok product ↔
      left ≤ maxUint64 / right ∧ product = left * right := by
  simp only [multiplyU64, Probe.result_bind, result_rejectIf, Probe.result_pure, Except.ok.injEq]
  constructor
  · rintro ⟨_, hle, h⟩
    have hle' : left ≤ maxUint64 / right := by
      by_contra hlt
      exact hle ⟨by omega, by omega⟩
    have hmul := mul_le_of_le_div hle'
    unfold maxUint64 at hmul
    rw [mul64_eq (by omega)] at h
    exact ⟨hle', h.symm⟩
  · rintro ⟨hle, rfl⟩
    have hmul := mul_le_of_le_div hle
    unfold maxUint64 at hmul
    exact ⟨(), by omega, mul64_eq (by omega)⟩

end Helpers

/-- Two partitions that are not containers have no sector in common. -/
def Apart (a b : PartitionEntry) : Prop :=
  a.extended = false → b.extended = false →
    a.start512 + a.size512 ≤ b.start512 ∨ b.start512 + b.size512 ≤ a.start512

structure Acceptable (partitions : List PartitionEntry) (part : PartitionEntry) : Prop where
  room : partitions.length < maxPartitions
  numbered : part.number ≠ 0
  sized : part.size512 ≠ 0
  fits : part.start512 + part.size512 < 2 ^ 64
  identified : part.uuid ≠ []
  typed : part.typeId ≠ []
  clear : ∀ existing ∈ partitions, conflicts part existing = false

section Adding

variable {image : Image} {partitions partitions' : List PartitionEntry} {part : PartitionEntry}

/-- An entry is added exactly when it is acceptable beside the others. -/
theorem result_addPartition (hu : part.uuid.length < textCapacity)
    (ht : part.typeId.length < textCapacity) (hs : part.size512 < 2 ^ 64) :
    (addPartition partitions part).result image = .ok partitions' ↔
      Acceptable partitions part ∧ partitions' = partitions ++ [part] := by
  have hmax : maxUint64 = 2 ^ 64 - 1 := rfl
  have hcopy : ({ part with
      uuid := part.uuid.take (textCapacity - 1)
      typeId := part.typeId.take (textCapacity - 1) } : PartitionEntry) = part := by
    rw [List.take_of_length_le (by omega), List.take_of_length_le (by omega)]
  simp only [addPartition, Probe.result_bind, result_rejectIf, result_push, hcopy]
  constructor
  · rintro ⟨_, hfields, _, hclear, hroom, h⟩
    push Not at hfields
    obtain ⟨-, hn, hsize, hfits, huuid, htype⟩ := hfields
    refine ⟨⟨hroom, hn, hsize, by omega, huuid, htype, ?_⟩, h⟩
    intro existing hmem
    by_contra hconflict
    exact hclear (List.any_eq_true.mpr ⟨existing, hmem, by simpa using hconflict⟩)
  · rintro ⟨h, rfl⟩
    have hroom := h.room
    have hfits := h.fits
    refine ⟨(), ?_, (), ?_, hroom, rfl⟩
    · push Not
      exact ⟨hroom, h.numbered, h.sized, by omega, h.identified, h.typed⟩
    · simpa using h.clear

theorem conflicts_eq_false {part existing : PartitionEntry}
    (hp : part.start512 + part.size512 < 2 ^ 64)
    (he : existing.start512 + existing.size512 < 2 ^ 64) :
    conflicts part existing = false ↔ existing.number ≠ part.number ∧
      existing.uuid ≠ part.uuid ∧ Apart existing part := by
  simp only [conflicts, rangesOverlap, add64_eq hp, add64_eq he, decide_eq_false_iff_not,
    decide_eq_true_eq, not_or, Apart]
  constructor
  · rintro ⟨hn, hu, ha⟩
    refine ⟨hn, hu, fun hext hext' => ?_⟩
    have hdisjoint : ¬ (part.start512 < existing.start512 + existing.size512 ∧
        existing.start512 < part.start512 + part.size512) := fun h => ha ⟨hext', hext, h⟩
    omega
  · rintro ⟨hn, hu, ha⟩
    refine ⟨hn, hu, ?_⟩
    rintro ⟨hext', hext, hoverlap⟩
    have hdisjoint := ha hext hext'
    omega

end Adding

end PartitionTable
