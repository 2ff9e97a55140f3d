import Mathlib.Data.List.Sort
import Mathlib.Data.List.Nodup
import Mathlib.Data.List.Pairwise
import PhantoWD.RawImage

/-!
Both copies of a partition table are read from a raw image, checked and compared. A table is
called valid when its partitions lie apart from each other and from everything the table itself
occupies.
-/
namespace GptInspection

open GoText
open RawImage

def logicalSectorBytes : Nat := 512
def minimumHeaderBytes : Nat := 92
def maximumHeaderBytes : Nat := logicalSectorBytes
def minimumEntryBytes : Nat := 128
def maximumEntryBytes : Nat := 1024
def maximumEntries : Nat := 128
def maximumArrayBytes : Nat := 128 * 1024

inductive Status where
  | valid | damaged | unsupported
  deriving DecidableEq

structure Partition where
  number : Nat
  typeGUID : Bytes
  identityFingerprint : Bytes
  firstLBA : Nat
  lastLBA : Nat
  sizeBytes : Nat
  attributes : Nat
  deriving DecidableEq

structure Report where
  format : String := "phantowd-disk-image-inspection"
  schemaVersion : Nat := 1
  status : Status := .unsupported
  wdCompatibility : String := "unqualified"
  logicalSector : Nat := logicalSectorBytes
  diskSectors : Nat := 0
  partitionCount : Nat := 0
  primaryHeaderValid : Bool := false
  backupHeaderValid : Bool := false
  partitionArraysEqual : Bool := false
  diskIdentityFingerprint : Bytes := []
  tableFingerprint : Bytes := []
  rawIdentityRedacted : Bool := true
  imageMetadataRead : Bool := false
  blockDeviceOpened : Bool := false
  mutationsPerformed : Bool := false
  assemblyPerformed : Bool := false
  mountPerformed : Bool := false
  partitions : List Partition := []
  findings : List String := []
  limitations : List String := [
    "only GPT partition-table metadata in a supplied raw image is inspected; filesystem, RAID, " ++
      "health and WD XML data are not read",
    "a structurally valid GPT is not proof of a supported WD layout or healthy user data",
    "disk and partition unique GUIDs are replaced with deterministic SHA-256 fingerprints; " ++
      "fingerprints are not authenticity checks",
    "input must be a regular local file; no block device is opened, and no array is assembled " ++
      "or filesystem mounted"]
  deriving DecidableEq

structure GptHeader where
  revision : Nat
  headerSize : Nat
  currentLBA : Nat
  backupLBA : Nat
  firstUsableLBA : Nat
  lastUsableLBA : Nat
  diskGUID : Bytes
  entriesLBA : Nat
  entryCount : Nat
  entrySize : Nat
  entriesCRC : Nat
  entries : Bytes
  deriving DecidableEq

inductive ProtectiveMBRStatus where
  | invalid | valid | unsupported
  deriving DecidableEq

def readAt (size : Int64) (offset length : Nat) : Probe String Bytes :=
  .readAt size offset length "disk-image metadata read is out of bounds"
    "cannot read disk-image metadata"

def scanProtective (mbr : Bytes) (sectors : Nat) : List Nat → Nat → ProtectiveMBRStatus
  | [], protectiveCount => if protectiveCount ≠ 1 then .unsupported else .valid
  | index :: rest, protectiveCount =>
    let entry := window mbr (446 + index * 16) 16
    let typeID := entry.getD 4 0
    let start := wordAt entry 8 4
    let count := wordAt entry 12 4
    if typeID = 0 ∧ start = 0 ∧ count = 0 then scanProtective mbr sectors rest protectiveCount
    else if typeID ≠ 0xee then .unsupported
    else if start ≠ 1 ∨ count ≠ min (sectors - 1) (2 ^ 32 - 1) ∨
        (entry.getD 0 0 ≠ 0 ∧ entry.getD 0 0 ≠ 0x80) then .invalid
    else scanProtective mbr sectors rest (protectiveCount + 1)

def validateProtectiveMBR (size : Int64) (sectors : Nat) : Probe String ProtectiveMBRStatus := do
  let mbr ← readAt size 0 logicalSectorBytes
  if mbr.getD 510 0 ≠ 0x55 ∨ mbr.getD 511 0 ≠ 0xaa then pure .unsupported
  else pure (scanProtective mbr sectors (List.range 4) 0)

def arraySectors (header : GptHeader) : Nat :=
  (header.entryCount * header.entrySize + logicalSectorBytes - 1) / logicalSectorBytes

def arrayLastLBA (header : GptHeader) : Nat :=
  sub64 (add64 header.entriesLBA (arraySectors header)) 1

def validHeaderGeometry (header : GptHeader) (sectors lba : Nat) (primary : Bool) : Bool :=
  if header.revision ≠ 0x00010000 ∨ header.currentLBA ≠ lba ∨ sectors ≤ header.backupLBA ∨
      header.firstUsableLBA < 2 ∨ header.lastUsableLBA < header.firstUsableLBA ∨
      sectors ≤ header.lastUsableLBA ∨ allZero header.diskGUID = true ∨
      header.entryCount = 0 ∨ maximumEntries < header.entryCount ∨
      header.entrySize < minimumEntryBytes ∨ maximumEntryBytes < header.entrySize ∨
      header.entrySize % 8 ≠ 0 then false
  else if arraySectors header = 0 ∨ sectors ≤ header.entriesLBA ∨
      sectors - header.entriesLBA < arraySectors header then false
  else if primary then
    lba = 1 ∧ header.backupLBA = sectors - 1 ∧ 2 ≤ header.entriesLBA ∧
      arrayLastLBA header < header.firstUsableLBA
  else
    lba = sectors - 1 ∧ header.backupLBA = 1 ∧ arrayLastLBA header < lba ∧
      header.lastUsableLBA < header.entriesLBA

def checkedBytes (buffer : Bytes) : Bytes :=
  let headerBytes := buffer.take (wordAt buffer 12 4)
  headerBytes.take 16 ++ [0, 0, 0, 0] ++ headerBytes.drop 20

def headerFields (buffer : Bytes) : GptHeader where
  revision := wordAt buffer 8 4
  headerSize := wordAt buffer 12 4
  currentLBA := wordAt buffer 24 8
  backupLBA := wordAt buffer 32 8
  firstUsableLBA := wordAt buffer 40 8
  lastUsableLBA := wordAt buffer 48 8
  diskGUID := window buffer 56 16
  entriesLBA := wordAt buffer 72 8
  entryCount := wordAt buffer 80 4
  entrySize := wordAt buffer 84 4
  entriesCRC := wordAt buffer 88 4
  entries := []

def readGPTHeader (size : Int64) (sectors lba : Nat) (primary : Bool) :
    Probe String (Option GptHeader) :=
  if sectors ≤ lba then pure none
  else do
    let buffer ← readAt size (mul64 lba logicalSectorBytes) logicalSectorBytes
    let header := headerFields buffer
    let arrayBytes := header.entryCount * header.entrySize
    if window buffer 0 8 ≠ ascii "EFI PART" ∨ header.headerSize < minimumHeaderBytes ∨
        maximumHeaderBytes < header.headerSize ∨
        crc32 (checkedBytes buffer) ≠ wordAt buffer 16 4 ∨ wordAt buffer 20 4 ≠ 0 ∨
        validHeaderGeometry header sectors lba primary = false ∨
        maximumArrayBytes < arrayBytes then pure none
    else do
      let entries ← readAt size (mul64 header.entriesLBA logicalSectorBytes) arrayBytes
      if crc32 entries ≠ header.entriesCRC then pure none
      else pure (some { header with entries := entries })

def headersAgree (primary backup : GptHeader) (sectors : Nat) : Bool :=
  primary.currentLBA = 1 ∧ primary.backupLBA = sectors - 1 ∧
    backup.currentLBA = sectors - 1 ∧ backup.backupLBA = 1 ∧
    primary.revision = backup.revision ∧ primary.headerSize = backup.headerSize ∧
    primary.firstUsableLBA = backup.firstUsableLBA ∧
    primary.lastUsableLBA = backup.lastUsableLBA ∧ primary.diskGUID = backup.diskGUID ∧
    primary.entryCount = backup.entryCount ∧ primary.entrySize = backup.entrySize ∧
    primary.entriesCRC = backup.entriesCRC ∧ primary.entries = backup.entries

def formatGUID (guid : Bytes) : Bytes :=
  formatHex 8 (wordAt guid 0 4) ++ ascii "-" ++ formatHex 4 (wordAt guid 4 2) ++ ascii "-" ++
    formatHex 4 (wordAt guid 6 2) ++ ascii "-" ++ hexEncode (window guid 8 2) ++ ascii "-" ++
    hexEncode (window guid 10 6)

section Fingerprints

variable (sha256 : Bytes → Bytes)

def fingerprint (domain : Bytes) (identity : Bytes) : Bytes :=
  hexEncode (sha256 (domain ++ identity))

def diskDomain : Bytes := ascii "phantowd-gpt-disk-v1" ++ [0x0a]
def partitionDomain : Bytes := ascii "phantowd-gpt-partition-v1" ++ [0x0a]
def tableDomain : Bytes := ascii "phantowd-gpt-table-v1" ++ [0x0a]

def tableFingerprint (header : GptHeader) : Bytes :=
  hexEncode (sha256 (tableDomain ++ header.diskGUID ++ header.entries))

def entryAt (header : GptHeader) (index : Nat) : Bytes :=
  window header.entries (mul64 index header.entrySize) header.entrySize

def entryType (header : GptHeader) (index : Nat) : Bytes := window (entryAt header index) 0 16

def entryGUID (header : GptHeader) (index : Nat) : Bytes := window (entryAt header index) 16 16

def entryFirst (header : GptHeader) (index : Nat) : Nat := wordAt (entryAt header index) 32 8

def entryLast (header : GptHeader) (index : Nat) : Nat := wordAt (entryAt header index) 40 8

structure Scan where
  partitions : List Partition := []
  ranges : List (Nat × Nat) := []
  uniqueGUIDs : List Bytes := []
  deriving DecidableEq

def scanEntries (header : GptHeader) : List Nat → Scan → Scan × List String
  | [], scan => (scan, [])
  | index :: rest, scan =>
    let firstLBA := entryFirst header index
    let lastLBA := entryLast header index
    let sectors := add64 (sub64 lastLBA firstLBA) 1
    if allZero (entryType header index) then scanEntries header rest scan
    else if allZero (entryGUID header index) = true ∨ entryGUID header index ∈ scan.uniqueGUIDs ∨
        firstLBA < header.firstUsableLBA ∨ lastLBA < firstLBA ∨
        header.lastUsableLBA < lastLBA then
      (scan, ["GPT contains an empty/duplicate partition identity or invalid partition bounds"])
    else if maxUint64 / logicalSectorBytes < sectors then
      (scan, ["GPT partition byte size overflows the supported range"])
    else scanEntries header rest
      { partitions := scan.partitions ++ [{
          number := index + 1
          typeGUID := formatGUID (entryType header index)
          identityFingerprint := fingerprint sha256 partitionDomain (entryGUID header index)
          firstLBA := firstLBA
          lastLBA := lastLBA
          sizeBytes := mul64 sectors logicalSectorBytes
          attributes := wordAt (entryAt header index) 48 8 }]
        ranges := scan.ranges ++ [(firstLBA, lastLBA)]
        uniqueGUIDs := scan.uniqueGUIDs ++ [entryGUID header index] }

def adjacentOverlap : List (Nat × Nat) → Bool
  | left :: right :: rest => right.1 ≤ left.2 || adjacentOverlap (right :: rest)
  | _ => false

/-- Partitions that start at the same sector overlap, so the order `sort.Slice` leaves them in
is never seen in a valid report. -/
def parsePartitions (header : GptHeader) : List Partition × List String :=
  match scanEntries sha256 header (List.range header.entryCount) {} with
  | (scan, []) =>
    let partitions := scan.partitions.insertionSort fun p q => p.firstLBA ≤ q.firstLBA
    let ranges := scan.ranges.insertionSort fun a b => a.1 ≤ b.1
    if adjacentOverlap ranges then (partitions, ["GPT partitions overlap"]) else (partitions, [])
  | (scan, findings) => (scan.partitions, findings)

def newReport : Report := {}

def inspectTable (size : Int64) (sectors : Nat) : Probe String Report := do
  let report := { newReport with diskSectors := sectors, imageMetadataRead := true }
  let damaged (finding : String) := { report with status := .damaged, findings := [finding] }
  let primary ← readGPTHeader size sectors 1 true
  match primary with
  | none => pure (damaged "primary GPT header or partition array is invalid")
  | some primary => do
    let backup ← readGPTHeader size sectors (sectors - 1) false
    let inconsistent := { damaged
      "primary and backup GPT metadata are missing, invalid, or inconsistent" with
      primaryHeaderValid := true }
    match backup with
    | none => pure inconsistent
    | some backup =>
      if headersAgree primary backup sectors = false then pure inconsistent
      else
        let report := { report with
          primaryHeaderValid := true, backupHeaderValid := true, partitionArraysEqual := true }
        match parsePartitions sha256 primary with
        | (partitions, []) => pure { report with
            status := .valid
            partitionCount := partitions.length
            partitions := partitions
            diskIdentityFingerprint := fingerprint sha256 diskDomain primary.diskGUID
            tableFingerprint := tableFingerprint sha256 primary
            findings := ["GPT structures are internally consistent; WD storage compatibility " ++
              "remains unqualified"] }
        | (_, findings) => pure { report with status := .damaged, findings := findings }

def inspect (size : Int64) : Probe String Report :=
  if size.toInt < 0 then .fail "invalid disk-image reader or size"
  else if size.toInt < 34 * 512 then
    pure { newReport with
      findings := ["input is too small to contain a standard GPT layout"] }
  else if size.toInt % 512 ≠ 0 then
    pure { newReport with
      status := .damaged
      findings := ["image size is not aligned to the supported 512-byte logical sector size"] }
  else do
    let sectors := (size.toInt / 512).toNat
    let report := { newReport with diskSectors := sectors, imageMetadataRead := true }
    let protective ← validateProtectiveMBR size sectors
    match protective with
    | .unsupported => pure { report with
        findings := ["input is not a protective-MBR GPT image or uses a hybrid MBR"] }
    | .invalid => pure { report with
        status := .damaged
        findings := ["protective MBR is malformed or inconsistent with image size"] }
    | .valid => inspectTable sha256 size sectors

end Fingerprints

def rawHeader (image : Image) (lba : Nat) : GptHeader :=
  let header := headerFields (image.slice (lba * logicalSectorBytes) logicalSectorBytes)
  { header with
    entries := image.slice (header.entriesLBA * logicalSectorBytes)
      (header.entryCount * header.entrySize) }

def HeaderIntact (image : Image) (lba : Nat) : Prop :=
  let buffer := image.slice (lba * logicalSectorBytes) logicalSectorBytes
  crc32 (checkedBytes buffer) = wordAt buffer 16 4

def ArrayIntact (image : Image) (lba : Nat) : Prop :=
  crc32 (rawHeader image lba).entries = (rawHeader image lba).entriesCRC

def SameTable (primary backup : GptHeader) : Prop :=
  backup = { primary with
    currentLBA := backup.currentLBA
    backupLBA := backup.backupLBA
    entriesLBA := backup.entriesLBA }

def used (header : GptHeader) : List Nat :=
  (List.range header.entryCount).filter fun i => !allZero (entryType header i)

def Overlapping (header : GptHeader) : Prop :=
  ∃ i ∈ used header, ∃ j ∈ used header, i ≠ j ∧
    entryFirst header i ≤ entryLast header j ∧ entryFirst header j ≤ entryLast header i

def InArray (header : GptHeader) (lba : Nat) : Prop :=
  header.entriesLBA ≤ lba ∧ lba < header.entriesLBA + arraySectors header

/-- The sectors the table occupies: the protective record, both headers and both arrays. -/
def Reserved (primary backup : GptHeader) (sectors lba : Nat) : Prop :=
  lba = 0 ∨ lba = 1 ∨ lba = sectors - 1 ∨ InArray primary lba ∨ InArray backup lba

def described (sha256 : Bytes → Bytes) (header : GptHeader) (index : Nat) : Partition where
  number := index + 1
  typeGUID := formatGUID (entryType header index)
  identityFingerprint := fingerprint sha256 partitionDomain (entryGUID header index)
  firstLBA := entryFirst header index
  lastLBA := entryLast header index
  sizeBytes := logicalSectorBytes * (entryLast header index - entryFirst header index + 1)
  attributes := wordAt (entryAt header index) 48 8

def CollisionFree (sha256 : Bytes → Bytes) (header : GptHeader) : Prop :=
  ∀ i ∈ used header, ∀ j ∈ used header,
    fingerprint sha256 partitionDomain (entryGUID header i) =
      fingerprint sha256 partitionDomain (entryGUID header j) →
    entryGUID header i = entryGUID header j

structure SoundTable (sha256 : Bytes → Bytes) (image : Image) (sectors : Nat)
    (partitions : List Partition) : Prop where
  complete : partitions.Perm
    ((used (rawHeader image 1)).map (described sha256 (rawHeader image 1)))
  identities : ((used (rawHeader image 1)).map (entryGUID (rawHeader image 1))).Nodup
  fingerprints : CollisionFree sha256 (rawHeader image 1) →
    (partitions.map Partition.identityFingerprint).Nodup
  sorted : partitions.Pairwise fun p q => p.firstLBA < q.firstLBA
  disjoint : partitions.Pairwise fun p q => p.lastLBA < q.firstLBA
  usable : ∀ p ∈ partitions, (rawHeader image 1).firstUsableLBA ≤ p.firstLBA ∧
    p.firstLBA ≤ p.lastLBA ∧ p.lastLBA ≤ (rawHeader image 1).lastUsableLBA
  clear : ∀ p ∈ partitions, ∀ lba, p.firstLBA ≤ lba → lba ≤ p.lastLBA →
    ¬ Reserved (rawHeader image 1) (rawHeader image (sectors - 1)) sectors lba
  sizes : ∀ p ∈ partitions,
    p.sizeBytes = 512 * (p.lastLBA - p.firstLBA + 1) ∧ p.sizeBytes < 2 ^ 64

/-- Reasons for which an image must not be called valid. -/
def Contradictory (image : Image) (sectors : Nat) : Prop :=
  ¬ SameTable (rawHeader image 1) (rawHeader image (sectors - 1)) ∨
    ¬ HeaderIntact image 1 ∨ ¬ HeaderIntact image (sectors - 1) ∨
    ¬ ArrayIntact image 1 ∨ ¬ ArrayIntact image (sectors - 1) ∨
    Overlapping (rawHeader image 1)

def diskSectors (size : Int64) : Nat := (size.toInt / 512).toNat

variable {image : Image}

theorem validateProtectiveMBR_asks (size : Int64) (sectors : Nat) :
    (validateProtectiveMBR size sectors).Asks image (Extent.inside size.toInt.toNat) := by
  unfold validateProtectiveMBR
  apply Probe.asks_bind Probe.asks_readAt
  intro mbr _
  exact Probe.asks_stop fun _ => Probe.asks_pure _

theorem readGPTHeader_asks (size : Int64) (sectors lba : Nat) (primary : Bool) :
    (readGPTHeader size sectors lba primary).Asks image (Extent.inside size.toInt.toNat) := by
  unfold readGPTHeader
  apply Probe.asks_stop
  intro _
  apply Probe.asks_bind Probe.asks_readAt
  intro buffer _
  apply Probe.asks_stop
  intro _
  apply Probe.asks_bind Probe.asks_readAt
  intro entries _
  exact Probe.asks_stop fun _ => Probe.asks_pure _

theorem inspectTable_asks (sha256 : Bytes → Bytes) (size : Int64) (sectors : Nat) :
    (inspectTable sha256 size sectors).Asks image (Extent.inside size.toInt.toNat) := by
  unfold inspectTable
  apply Probe.asks_bind (readGPTHeader_asks _ _ _ _)
  intro primary _
  cases primary with
  | none => exact Probe.asks_pure _
  | some primary =>
    apply Probe.asks_bind (readGPTHeader_asks _ _ _ _)
    intro backup _
    cases backup with
    | none => exact Probe.asks_pure _
    | some backup =>
      apply Probe.asks_stop
      intro _
      dsimp only
      split
      · exact Probe.asks_pure _
      · exact Probe.asks_pure _

theorem inspect_asks (sha256 : Bytes → Bytes) (size : Int64) :
    (inspect sha256 size).Asks image (Extent.inside size.toInt.toNat) := by
  unfold inspect
  apply Probe.asks_ite
  · exact fun _ => Probe.asks_fail _
  intro _
  apply Probe.asks_stop
  intro _
  apply Probe.asks_stop
  intro _
  apply Probe.asks_bind (validateProtectiveMBR_asks _ _)
  intro protective _
  cases protective with
  | valid => exact inspectTable_asks _ _ _
  | invalid | unsupported => exact Probe.asks_pure _

structure Placed (header : GptHeader) (sectors : Nat) : Prop where
  low : 2 ≤ header.firstUsableLBA
  high : header.lastUsableLBA < sectors
  array : header.entriesLBA + arraySectors header ≤ sectors
  nonempty : 0 < arraySectors header

variable {header h : GptHeader} {sectors lba : Nat} {primary : Bool}

structure LabGeometry (h : GptHeader) (sectors lba : Nat) : Prop where
  revision : h.revision = 0x00010000
  current : h.currentLBA = lba
  alternate : h.backupLBA < sectors
  low : 2 ≤ h.firstUsableLBA
  ordered : h.firstUsableLBA ≤ h.lastUsableLBA
  high : h.lastUsableLBA < sectors
  identified : allZero h.diskGUID = false
  nonempty : 0 < h.entryCount
  slots : h.entryCount ≤ maximumEntries
  sizeLow : minimumEntryBytes ≤ h.entrySize
  sizeHigh : h.entrySize ≤ maximumEntryBytes
  aligned : h.entrySize % 8 = 0
  array : 0 < arraySectors h
  starts : h.entriesLBA < sectors
  fits : arraySectors h ≤ sectors - h.entriesLBA

theorem labGeometry_of (hg : validHeaderGeometry h sectors lba primary = true) :
    LabGeometry h sectors lba := by
  unfold validHeaderGeometry at hg
  split at hg
  · simp at hg
  next hfields =>
  split at hg
  · simp at hg
  next harray =>
  push Not at hfields harray
  obtain ⟨h1, h2, h3, h4, h5, h6, h7, h8, h9, h10, h11, h12⟩ := hfields
  exact ⟨h1, h2, h3, h4, h5, h6, Bool.eq_false_iff.mpr h7, Nat.pos_of_ne_zero h8, h9, h10, h11,
    h12, Nat.pos_of_ne_zero harray.1, harray.2.1, harray.2.2⟩

theorem LabGeometry.placed (hg : LabGeometry h sectors lba) : Placed h sectors := by
  have hfits := hg.fits
  have hstarts := hg.starts
  exact ⟨hg.low, hg.high, by omega, hg.array⟩

theorem validHeaderGeometry_placed (h : validHeaderGeometry header sectors lba primary = true) :
    Placed header sectors :=
  (labGeometry_of h).placed

theorem arrayLastLBA_eq (h : Placed header sectors) (hs : sectors < 2 ^ 64) :
    arrayLastLBA header = header.entriesLBA + arraySectors header - 1 := by
  have harray := h.array
  have hne := h.nonempty
  unfold arrayLastLBA
  rw [add64_eq (by omega), sub64_eq (by omega) (by omega)]

theorem labGeometry_iff (hs : sectors < 2 ^ 64) :
    validHeaderGeometry h sectors lba primary = true ↔ LabGeometry h sectors lba ∧
      if primary then lba = 1 ∧ h.backupLBA = sectors - 1 ∧ 2 ≤ h.entriesLBA ∧
        h.entriesLBA + arraySectors h ≤ h.firstUsableLBA
      else lba = sectors - 1 ∧ h.backupLBA = 1 ∧ h.entriesLBA + arraySectors h ≤ lba ∧
        h.lastUsableLBA < h.entriesLBA := by
  by_cases hg : LabGeometry h sectors lba
  · have hlast := arrayLastLBA_eq hg.placed hs
    have harray := hg.array
    unfold validHeaderGeometry
    rw [and_iff_right hg, if_neg, if_neg]
    · cases primary with
      | true =>
        simp only [if_true, decide_eq_true_eq, hlast]
        omega
      | false =>
        simp only [Bool.false_eq_true, if_false, decide_eq_true_eq, hlast]
        omega
    · push Not
      exact ⟨harray.ne', hg.starts, hg.fits⟩
    · push Not
      exact ⟨hg.revision, hg.current, hg.alternate, hg.low, hg.ordered, hg.high,
        Bool.eq_false_iff.mp hg.identified, hg.nonempty.ne', hg.slots, hg.sizeLow, hg.sizeHigh,
        hg.aligned⟩
  · exact iff_of_false (fun hvalid => hg (labGeometry_of hvalid)) fun hboth => hg hboth.1

def headerOf (image : Image) (buffer : Bytes) : GptHeader :=
  { headerFields buffer with
    entries := image.slice ((headerFields buffer).entriesLBA * logicalSectorBytes)
      ((headerFields buffer).entryCount * (headerFields buffer).entrySize) }

def sectorAt (image : Image) (lba : Nat) : Bytes :=
  image.slice (lba * logicalSectorBytes) logicalSectorBytes

theorem rawHeader_eq (image : Image) (lba : Nat) :
    rawHeader image lba = headerOf image (sectorAt image lba) := by
  simp only [rawHeader, headerOf, sectorAt]

section Copy

variable {size : Int64} {buffer data : Bytes}

/-- What both readers ask of a copy before they look at its geometry, and of its array. -/
structure Stored (image : Image) (lba : Nat) (buffer : Bytes) : Prop where
  readable : image.failing (lba * logicalSectorBytes) logicalSectorBytes = false
  signature : window buffer 0 8 = ascii "EFI PART"
  revision : (headerOf image buffer).revision = 0x00010000
  small : minimumHeaderBytes ≤ (headerOf image buffer).headerSize
  large : (headerOf image buffer).headerSize ≤ maximumHeaderBytes
  sum : crc32 (checkedBytes buffer) = wordAt buffer 16 4
  reserved : wordAt buffer 20 4 = 0
  current : (headerOf image buffer).currentLBA = lba
  listed : image.failing ((headerOf image buffer).entriesLBA * logicalSectorBytes)
    ((headerOf image buffer).entryCount * (headerOf image buffer).entrySize) = false
  array : crc32 (headerOf image buffer).entries = (headerOf image buffer).entriesCRC

theorem arrayBytes_le (h : GptHeader) :
    h.entryCount * h.entrySize ≤ arraySectors h * logicalSectorBytes := by
  unfold arraySectors logicalSectorBytes
  omega

theorem lab_read_iff {offset length : Nat} (h : ((offset + length : Nat) : Int) ≤ size.toInt) :
    (readAt size offset length).result image = .ok data ↔
      image.failing offset length = false ∧ data = image.slice offset length := by
  unfold readAt
  rw [Probe.readAt_eq h]
  exact Probe.result_read

theorem lab_array_read_iff (hsize : size.toInt = 512 * sectors)
    (hs : sectors < 2 ^ 54) {h : GptHeader} (hplaced : Placed h sectors) :
    (readAt size (mul64 h.entriesLBA logicalSectorBytes) (h.entryCount * h.entrySize)).result
        image = .ok data ↔
      image.failing (h.entriesLBA * logicalSectorBytes) (h.entryCount * h.entrySize) = false ∧
        data = image.slice (h.entriesLBA * logicalSectorBytes) (h.entryCount * h.entrySize) := by
  have hfits := hplaced.array
  have hne := hplaced.nonempty
  have hbytes := arrayBytes_le h
  unfold logicalSectorBytes at hbytes ⊢
  rw [mul64_eq (by omega)]
  exact lab_read_iff (by omega)

/-- The inspector's tests come to its geometry on a stored copy. -/
theorem lab_copy_iff (hsize : size.toInt = 512 * sectors)
    (hs : sectors < 2 ^ 54) (hlba : lba < sectors) (hbuffer : sectorAt image lba = buffer)
    {header : GptHeader} :
    (readGPTHeader size sectors lba primary).result image = .ok (some header) ↔
      header = headerOf image buffer ∧ Stored image lba buffer ∧
        validHeaderGeometry (headerOf image buffer) sectors lba primary = true ∧
        (headerOf image buffer).entryCount * (headerOf image buffer).entrySize ≤
          maximumArrayBytes := by
  have hoffset : mul64 lba logicalSectorBytes = lba * logicalSectorBytes :=
    mul64_eq (by unfold logicalSectorBytes; omega)
  have hheader : ∀ {data}, (readAt size (lba * logicalSectorBytes) logicalSectorBytes).result
      image = .ok data ↔ image.failing (lba * logicalSectorBytes) logicalSectorBytes = false ∧
        data = buffer := by
    intro data
    rw [← hbuffer]
    exact lab_read_iff (by unfold logicalSectorBytes; omega)
  simp only [readGPTHeader, if_neg (Nat.not_le.mpr hlba), hoffset, Probe.result_bind, hheader]
  constructor
  · rintro ⟨data, ⟨hreadable, rfl⟩, h⟩
    split at h
    · simp at h
    next hchecks =>
    push Not at hchecks
    obtain ⟨hsig, hsmall, hlarge, hcrc, hzero, hgeometry, hbytes⟩ := hchecks
    replace hgeometry : validHeaderGeometry (headerOf image data) sectors lba primary = true := by
      rw [ne_eq, Bool.not_eq_false] at hgeometry
      exact hgeometry
    obtain ⟨entries, hentries, h⟩ := Probe.result_bind.mp h
    obtain ⟨hlisted, rfl⟩ := (lab_array_read_iff hsize hs
      (validHeaderGeometry_placed hgeometry)).mp hentries
    split at h
    · simp at h
    next hsum =>
    simp only [Probe.result_pure, Except.ok.injEq, Option.some.injEq] at h
    have hg := labGeometry_of hgeometry
    exact ⟨h.symm, ⟨hreadable, hsig, hg.revision, hsmall, hlarge, hcrc, hzero, hg.current, hlisted,
      not_not.mp hsum⟩, hgeometry, hbytes⟩
  · rintro ⟨rfl, hstored, hgeometry, hbytes⟩
    refine ⟨buffer, ⟨hstored.readable, rfl⟩, ?_⟩
    rw [if_neg]
    · refine Probe.result_bind.mpr ⟨(headerOf image buffer).entries, (lab_array_read_iff hsize hs
        (validHeaderGeometry_placed hgeometry)).mpr ⟨hstored.listed, rfl⟩, ?_⟩
      have hsum : crc32 (headerOf image buffer).entries = (headerFields buffer).entriesCRC :=
        hstored.array
      rw [if_neg (not_not.mpr hsum)]
      rfl
    · push Not
      exact ⟨hstored.signature, hstored.small, hstored.large, hstored.sum, hstored.reserved,
        by rw [ne_eq, Bool.not_eq_false]; exact hgeometry, hbytes⟩

end Copy

theorem headersAgree_same {primary backup : GptHeader}
    (h : headersAgree primary backup sectors = true) : SameTable primary backup := by
  simp only [headersAgree, decide_eq_true_eq] at h
  obtain ⟨-, -, -, -, h1, h2, h3, h4, h5, h6, h7, h8, h9⟩ := h
  cases primary
  cases backup
  simp only [SameTable, GptHeader.mk.injEq] at *
  simp [*]

section Array

variable {sha256 : Bytes → Bytes} {header : GptHeader}

structure Scanned (sha256 : Bytes → Bytes) (header : GptHeader) (done : List Nat)
    (scan : Scan) : Prop where
  partitions : scan.partitions = done.map (described sha256 header)
  ranges : scan.ranges = done.map fun i => (entryFirst header i, entryLast header i)
  guids : scan.uniqueGUIDs = done.map (entryGUID header)
  nodup : (done.map (entryGUID header)).Nodup
  bounds : ∀ i ∈ done, header.firstUsableLBA ≤ entryFirst header i ∧
    entryFirst header i ≤ entryLast header i ∧ entryLast header i ≤ header.lastUsableLBA

theorem Scanned.unique {done : List Nat} {s t : Scan} (hs : Scanned sha256 header done s)
    (ht : Scanned sha256 header done t) : s = t := by
  obtain ⟨partitions, ranges, guids⟩ := s
  obtain ⟨partitions', ranges', guids'⟩ := t
  rw [Scan.mk.injEq]
  exact ⟨hs.partitions.trans ht.partitions.symm, hs.ranges.trans ht.ranges.symm,
    hs.guids.trans ht.guids.symm⟩

section Slots

variable {h : GptHeader} {i : Nat} {done : List Nat}

def usedOf (h : GptHeader) (slots : List Nat) : List Nat :=
  slots.filter fun i => !allZero (entryType h i)

theorem usedOf_empty (rest : List Nat) (hzero : allZero (entryType h i) = true) :
    usedOf h (i :: rest) = usedOf h rest :=
  List.filter_cons_of_neg (by simp [hzero])

theorem usedOf_used (rest : List Nat) (hused : allZero (entryType h i) = false) :
    usedOf h (i :: rest) = i :: usedOf h rest :=
  List.filter_cons_of_pos (by simp [hused])

/-- Slots that each name a partition inside the usable sectors, under identities of their own. -/
structure Fits (h : GptHeader) (slots : List Nat) : Prop where
  identified : ∀ i ∈ slots, allZero (entryGUID h i) = false
  bounds : ∀ i ∈ slots, h.firstUsableLBA ≤ entryFirst h i ∧ entryFirst h i ≤ entryLast h i ∧
    entryLast h i ≤ h.lastUsableLBA
  distinct : (slots.map (entryGUID h)).Nodup

def EntriesApart (h : GptHeader) (i j : Nat) : Prop :=
  entryLast h i < entryFirst h j ∨ entryLast h j < entryFirst h i

theorem Fits.left {slots rest : List Nat} (hfits : Fits h (slots ++ rest)) : Fits h slots := by
  constructor
  · exact fun i hi => hfits.identified i (List.mem_append_left _ hi)
  · exact fun i hi => hfits.bounds i (List.mem_append_left _ hi)
  · have hdistinct := hfits.distinct
    rw [List.map_append] at hdistinct
    exact hdistinct.of_append_left

theorem fits_nil : Fits h [] := ⟨by simp, by simp, by simp⟩

theorem fits_concat : Fits h (done ++ [i]) ↔
    Fits h done ∧ allZero (entryGUID h i) = false ∧
      (h.firstUsableLBA ≤ entryFirst h i ∧ entryFirst h i ≤ entryLast h i ∧
        entryLast h i ≤ h.lastUsableLBA) ∧ entryGUID h i ∉ done.map (entryGUID h) := by
  constructor
  · intro hfits
    refine ⟨hfits.left, hfits.identified i (by simp), hfits.bounds i (by simp), ?_⟩
    have hdistinct := hfits.distinct
    rw [List.map_append, List.nodup_append] at hdistinct
    intro hmem
    exact hdistinct.2.2 _ hmem (entryGUID h i) (by simp) rfl
  · rintro ⟨hfits, hidentified, hbounds, hnew⟩
    constructor
    · intro j hj
      rcases List.mem_append.mp hj with hj | hj
      · exact hfits.identified j hj
      · rw [List.mem_singleton.mp hj]
        exact hidentified
    · intro j hj
      rcases List.mem_append.mp hj with hj | hj
      · exact hfits.bounds j hj
      · rw [List.mem_singleton.mp hj]
        exact hbounds
    · rw [List.map_append, List.nodup_append_comm]
      exact List.nodup_cons.mpr ⟨hnew, hfits.distinct⟩

theorem Scanned.take {scan : Scan} (hscan : Scanned sha256 h done scan)
    (hlast : h.lastUsableLBA < 2 ^ 54) (hfits : Fits h (done ++ [i])) :
    Scanned sha256 h (done ++ [i])
      { partitions := scan.partitions ++ [{
          number := i + 1
          typeGUID := formatGUID (entryType h i)
          identityFingerprint := fingerprint sha256 partitionDomain (entryGUID h i)
          firstLBA := entryFirst h i
          lastLBA := entryLast h i
          sizeBytes := mul64 (add64 (sub64 (entryLast h i) (entryFirst h i)) 1)
            logicalSectorBytes
          attributes := wordAt (entryAt h i) 48 8 }]
        ranges := scan.ranges ++ [(entryFirst h i, entryLast h i)]
        uniqueGUIDs := scan.uniqueGUIDs ++ [entryGUID h i] } := by
  have hb := hfits.bounds i (by simp)
  have hsize : mul64 (add64 (sub64 (entryLast h i) (entryFirst h i)) 1) logicalSectorBytes =
      logicalSectorBytes * (entryLast h i - entryFirst h i + 1) := by
    rw [sub64_eq (by omega) (by omega), add64_eq (by omega),
      mul64_eq (by unfold logicalSectorBytes; omega), Nat.mul_comm]
  constructor
  · simp [hscan.partitions, hsize, described]
  · simp [hscan.ranges]
  · simp [hscan.guids]
  · exact hfits.distinct
  · exact hfits.bounds

/-- A scan without findings has seen slots that fit. -/
theorem scanEntries_iff (hlast : h.lastUsableLBA < 2 ^ 54) (rest : List Nat) {scan final : Scan}
    (hscan : Scanned sha256 h done scan) (hfits : Fits h done) :
    scanEntries sha256 h rest scan = (final, []) ↔
      Fits h (done ++ usedOf h rest) ∧ Scanned sha256 h (done ++ usedOf h rest) final := by
  induction rest generalizing done scan with
  | nil =>
    rw [scanEntries, Prod.mk.injEq, usedOf, List.filter_nil, List.append_nil]
    constructor
    · rintro ⟨rfl, -⟩
      exact ⟨hfits, hscan⟩
    · exact fun hfinal => ⟨hscan.unique hfinal.2, rfl⟩
  | cons i rest ih =>
    unfold scanEntries
    dsimp only
    by_cases hzero : allZero (entryType h i) = true
    · rw [if_pos hzero, usedOf_empty rest hzero]
      exact ih hscan hfits
    rw [if_neg hzero, usedOf_used rest (Bool.eq_false_iff.mpr hzero)]
    rw [List.append_cons done]
    by_cases hbad : allZero (entryGUID h i) = true ∨ entryGUID h i ∈ scan.uniqueGUIDs ∨
        entryFirst h i < h.firstUsableLBA ∨ entryLast h i < entryFirst h i ∨
        h.lastUsableLBA < entryLast h i
    · rw [if_pos hbad]
      constructor
      · simp
      · rintro ⟨hall, -⟩
        obtain ⟨-, hidentified, hbounds, hnew⟩ := fits_concat.mp hall.left
        rw [← hscan.guids] at hnew
        rcases hbad with h0 | h0 | h0
        · rw [h0] at hidentified
          cases hidentified
        · exact absurd h0 hnew
        · omega
    · rw [if_neg hbad]
      push Not at hbad
      obtain ⟨hidentified, hnew, hbounds⟩ := hbad
      rw [hscan.guids] at hnew
      have hfits' := fits_concat.mpr
        ⟨hfits, Bool.eq_false_iff.mpr hidentified, hbounds, hnew⟩
      have hsize : ¬maxUint64 / logicalSectorBytes <
          add64 (sub64 (entryLast h i) (entryFirst h i)) 1 := by
        rw [sub64_eq (by omega) (by omega), add64_eq (by omega)]
        unfold maxUint64 logicalSectorBytes
        omega
      rw [if_neg hsize]
      exact ih (hscan.take hlast hfits') hfits'

theorem pairwise_of_adjacent {ranges : List (Nat × Nat)} (hr : ∀ r ∈ ranges, r.1 ≤ r.2)
    (h : adjacentOverlap ranges = false) : ranges.Pairwise fun a b => a.2 < b.1 := by
  induction ranges with
  | nil => exact List.Pairwise.nil
  | cons a rest ih =>
    cases rest with
    | nil => exact List.pairwise_singleton _ _
    | cons b rest =>
      simp only [adjacentOverlap, Bool.or_eq_false_iff, decide_eq_false_iff_not, not_le] at h
      have hrest := ih (fun r hr' => hr r (List.mem_cons_of_mem _ hr')) h.2
      have hb : b.1 ≤ b.2 := hr b (by simp)
      constructor
      · intro c hc
        rcases List.mem_cons.mp hc with rfl | hc
        · exact h.1
        · have hbc := List.rel_of_pairwise_cons hrest hc
          omega
      · exact hrest

def Apart (a b : Nat × Nat) : Prop := a.2 < b.1 ∨ b.2 < a.1

def Partition.range (p : Partition) : Nat × Nat := (p.firstLBA, p.lastLBA)

theorem adjacent_of_pairwise {ranges : List (Nat × Nat)}
    (hp : ranges.Pairwise fun a b => a.2 < b.1) : adjacentOverlap ranges = false := by
  induction ranges with
  | nil => rfl
  | cons a rest ih =>
    cases rest with
    | nil => rfl
    | cons b rest =>
      obtain ⟨hhead, htail⟩ := List.pairwise_cons.mp hp
      have hab := hhead b (by simp)
      rw [adjacentOverlap, ih htail, Bool.or_false, decide_eq_false_iff_not]
      omega

theorem sorted_of_apart {α : Type} (range : α → Nat × Nat) {l : List α}
    (horder : ∀ a ∈ l, (range a).1 ≤ (range a).2)
    (happart : l.Pairwise fun a b => Apart (range a) (range b)) :
    (l.insertionSort fun a b => (range a).1 ≤ (range b).1).Pairwise
      fun a b => (range a).2 < (range b).1 := by
  have hperm := List.perm_insertionSort (fun a b => (range a).1 ≤ (range b).1) l
  have hsorted := List.pairwise_insertionSort (fun a b => (range a).1 ≤ (range b).1) l
  rw [← hperm.pairwise_iff fun {a b} hab => hab.symm] at happart
  refine (hsorted.and happart).imp_of_mem ?_
  rintro a b ha hb ⟨hle, hapart⟩
  have horder' := horder a (hperm.mem_iff.mp ha)
  have hborder := horder b (hperm.mem_iff.mp hb)
  unfold Apart at hapart
  omega

theorem adjacentOverlap_iff {ranges : List (Nat × Nat)} (horder : ∀ r ∈ ranges, r.1 ≤ r.2) :
    adjacentOverlap (ranges.insertionSort fun a b => a.1 ≤ b.1) = false ↔
      ranges.Pairwise Apart := by
  have hperm := List.perm_insertionSort (fun a b : Nat × Nat => a.1 ≤ b.1) ranges
  constructor
  · intro h
    rw [← hperm.pairwise_iff fun {a b} hab => hab.symm]
    exact (pairwise_of_adjacent (fun r hr => horder r (hperm.mem_iff.mp hr)) h).imp .inl
  · exact fun h => adjacent_of_pairwise (sorted_of_apart id horder h)

theorem used_nodup : (used header).Nodup := List.nodup_range.filter _

theorem apart_iff_not_overlapping :
    (used h).Pairwise (EntriesApart h) ↔ ¬Overlapping h := by
  constructor
  · rintro hapart ⟨i, hi, j, hj, hne, hij, hji⟩
    have hsymm : Std.Symm (EntriesApart h) := ⟨fun i j hij => Or.symm hij⟩
    have hpair := hapart.forall hi hj hne
    unfold EntriesApart at hpair
    omega
  · intro hnot
    refine used_nodup.imp_of_mem ?_
    intro i j hi hj hne
    by_contra hover
    unfold EntriesApart at hover
    exact hnot ⟨i, hi, j, hj, hne, by omega, by omega⟩

theorem parsePartitions_iff (hlast : h.lastUsableLBA < 2 ^ 54) {partitions : List Partition} :
    parsePartitions sha256 h = (partitions, []) ↔
      Fits h (used h) ∧ (used h).Pairwise (EntriesApart h) ∧ partitions =
        ((used h).map (described sha256 h)).insertionSort fun p q => p.firstLBA ≤ q.firstLBA := by
  have hempty : Scanned sha256 h [] {} := ⟨rfl, rfl, rfl, by simp, by simp⟩
  have hscans : ∀ {final}, scanEntries sha256 h (List.range h.entryCount) {} = (final, []) ↔
      Fits h (used h) ∧ Scanned sha256 h (used h) final :=
    scanEntries_iff hlast _ hempty fits_nil
  have hadjacent : Fits h (used h) → (adjacentOverlap (((used h).map fun i =>
      (entryFirst h i, entryLast h i)).insertionSort fun a b => a.1 ≤ b.1) = false ↔
        (used h).Pairwise (EntriesApart h)) := by
    intro hfits
    rw [adjacentOverlap_iff, List.pairwise_map]
    · rfl
    · intro r hr
      obtain ⟨i, hi, rfl⟩ := List.mem_map.mp hr
      exact (hfits.bounds i hi).2.1
  constructor
  · intro hparsed
    unfold parsePartitions at hparsed
    split at hparsed
    next scan hscan =>
      obtain ⟨hfits, hfinal⟩ := hscans.mp hscan
      dsimp only at hparsed
      rw [hfinal.ranges, hfinal.partitions] at hparsed
      split at hparsed
      · simp at hparsed
      next hnone =>
        rw [Prod.mk.injEq] at hparsed
        exact ⟨hfits, (hadjacent hfits).mp (Bool.eq_false_iff.mpr hnone), hparsed.1.symm⟩
    next scan findings hne hscan =>
      rw [Prod.mk.injEq] at hparsed
      exact absurd hparsed.2 hne
  · rintro ⟨hfits, hapart, rfl⟩
    have hscan := (@hscans ⟨_, _, _⟩).mpr ⟨hfits, rfl, rfl, rfl, hfits.distinct, hfits.bounds⟩
    unfold parsePartitions
    rw [hscan]
    simp [(hadjacent hfits).mpr hapart]

theorem partitions_apart (hfits : Fits h (used h)) (hapart : (used h).Pairwise (EntriesApart h)) :
    (((used h).map (described sha256 h)).insertionSort fun p q =>
      p.firstLBA ≤ q.firstLBA).Pairwise fun p q => p.lastLBA < q.firstLBA := by
  refine sorted_of_apart Partition.range (fun p hp => ?_) (List.pairwise_map.mpr hapart)
  obtain ⟨i, hi, rfl⟩ := List.mem_map.mp hp
  exact (hfits.bounds i hi).2.1

end Slots

theorem fingerprints_nodup {partitions : List Partition}
    (hperm : partitions.Perm ((used header).map (described sha256 header)))
    (hguids : ((used header).map (entryGUID header)).Nodup)
    (hfree : CollisionFree sha256 header) :
    (partitions.map Partition.identityFingerprint).Nodup := by
  have hmap := hperm.map Partition.identityFingerprint
  rw [List.map_map] at hmap
  rw [hmap.nodup_iff]
  have hdigests : (((used header).map (entryGUID header)).map
      (fingerprint sha256 partitionDomain)).Nodup := by
    apply List.Nodup.map_on ?_ hguids
    intro a ha b hb hab
    obtain ⟨i, hi, rfl⟩ := List.mem_map.mp ha
    obtain ⟨j, hj, rfl⟩ := List.mem_map.mp hb
    exact hfree i hi j hj hab
  rw [List.map_map] at hdigests
  exact hdigests

end Array

/-- What a valid report rests on: both copies read and in agreement, and the scan. -/
structure Agreed (sha256 : Bytes → Bytes) (image : Image) (sectors : Nat)
    (partitions : List Partition) : Prop where
  same : SameTable (rawHeader image 1) (rawHeader image (sectors - 1))
  primaryHeader : HeaderIntact image 1
  backupHeader : HeaderIntact image (sectors - 1)
  primaryArray : ArrayIntact image 1
  backupArray : ArrayIntact image (sectors - 1)
  primaryGeometry : validHeaderGeometry (rawHeader image 1) sectors 1 true = true
  backupGeometry :
    validHeaderGeometry (rawHeader image (sectors - 1)) sectors (sectors - 1) false = true
  parsed : parsePartitions sha256 (rawHeader image 1) = (partitions, [])

section Verdict

variable {sha256 : Bytes → Bytes} {size : Int64} {report : Report} {partitions : List Partition}

theorem not_valid {r : Report} (h : (pure r : Probe String Report).result image = .ok report)
    (hr : r.status ≠ .valid) : report.status ≠ .valid := by
  rw [Probe.result_pure, Except.ok.injEq] at h
  rwa [← h]

theorem inspectTable_iff :
    (∃ report, (inspectTable sha256 size sectors).result image = .ok report ∧
      report.status = .valid ∧ report.partitions = partitions) ↔
    ∃ primary backup, (readGPTHeader size sectors 1 true).result image = .ok (some primary) ∧
      (readGPTHeader size sectors (sectors - 1) false).result image = .ok (some backup) ∧
      headersAgree primary backup sectors = true ∧
      parsePartitions sha256 primary = (partitions, []) := by
  constructor
  · rintro ⟨report, h, hvalid, hpartitions⟩
    unfold inspectTable at h
    dsimp only at h
    obtain ⟨primary, hprimary, h⟩ := Probe.result_bind.mp h
    cases primary with
    | none => exact absurd hvalid (not_valid h (by simp))
    | some primary =>
      obtain ⟨backup, hbackup, h⟩ := Probe.result_bind.mp h
      cases backup with
      | none => exact absurd hvalid (not_valid h (by simp))
      | some backup =>
        dsimp only at h
        split at h
        · exact absurd hvalid (not_valid h (by simp))
        next hagree =>
        split at h
        next found hparsed =>
          simp only [Probe.result_pure, Except.ok.injEq] at h
          rw [← h] at hpartitions
          exact ⟨primary, backup, hprimary, hbackup, by simpa using hagree, hpartitions ▸ hparsed⟩
        · exact absurd hvalid (not_valid h (by simp))
  · rintro ⟨primary, backup, hprimary, hbackup, hagree, hparsed⟩
    unfold inspectTable
    dsimp only
    rw [(Probe.bind_ok hprimary).1]
    dsimp only
    rw [(Probe.bind_ok hbackup).1]
    simp [hagree, hparsed]

theorem inspectTable_valid (hsize : size.toInt = 512 * sectors) (hlarge : 2 ≤ sectors)
    (hs : sectors < 2 ^ 54) (h : (inspectTable sha256 size sectors).result image = .ok report)
    (hvalid : report.status = .valid) : Agreed sha256 image sectors report.partitions := by
  obtain ⟨primary, backup, hprimary, hbackup, hagree, hparsed⟩ :=
    inspectTable_iff.mp ⟨report, h, hvalid, rfl⟩
  obtain ⟨rfl, hp, hpGeometry, -⟩ := (lab_copy_iff hsize hs (by omega) rfl).mp hprimary
  obtain ⟨rfl, hb, hbGeometry, -⟩ := (lab_copy_iff hsize hs (by omega) rfl).mp hbackup
  exact ⟨headersAgree_same hagree, hp.sum, hb.sum, hp.array, hb.array, hpGeometry, hbGeometry,
    hparsed⟩

theorem diskSectors_lt (size : Int64) : diskSectors size < 2 ^ 54 := by
  have h := size.toInt_lt
  unfold diskSectors
  omega

theorem inspect_iff :
    ((inspect sha256 size).result image = .ok report ∧ report.status = .valid) ↔
    34 * 512 ≤ size.toInt ∧ size.toInt % 512 = 0 ∧
      (validateProtectiveMBR size (diskSectors size)).result image = .ok .valid ∧
      (inspectTable sha256 size (diskSectors size)).result image = .ok report ∧
      report.status = .valid := by
  unfold inspect
  constructor
  · rintro ⟨h, hvalid⟩
    split at h
    · simp at h
    split at h
    · exact absurd hvalid (not_valid h (by simp [newReport]))
    next hlarge =>
    split at h
    · exact absurd hvalid (not_valid h (by simp))
    next haligned =>
    obtain ⟨protective, hprotective, h⟩ := Probe.result_bind.mp h
    cases protective with
    | valid => exact ⟨not_lt.mp hlarge, not_not.mp haligned, hprotective, h, hvalid⟩
    | invalid => exact absurd hvalid (not_valid h (by simp))
    | unsupported => exact absurd hvalid (not_valid h (by simp [newReport]))
  · rintro ⟨hlarge, haligned, hprotective, h, hvalid⟩
    rw [if_neg (by omega), if_neg (by omega), if_neg (by omega)]
    exact ⟨Probe.result_bind.mpr ⟨.valid, hprotective, h⟩, hvalid⟩

theorem inspect_valid (h : (inspect sha256 size).result image = .ok report)
    (hvalid : report.status = .valid) :
    Agreed sha256 image (diskSectors size) report.partitions := by
  obtain ⟨hlarge, haligned, -, htable, -⟩ := inspect_iff.mp ⟨h, hvalid⟩
  have hsize : size.toInt = 512 * (diskSectors size : Nat) := by
    unfold diskSectors
    omega
  exact inspectTable_valid hsize (by omega) (diskSectors_lt size) htable hvalid

end Verdict

section Agreed

variable {sha256 : Bytes → Bytes} {sectors : Nat} {partitions : List Partition}

theorem Agreed.not_contradictory (h : Agreed sha256 image sectors partitions)
    (hs : sectors < 2 ^ 54) : ¬ Contradictory image sectors := by
  have hlast := (validHeaderGeometry_placed h.primaryGeometry).high
  obtain ⟨-, hapart, -⟩ := (parsePartitions_iff (by omega)).mp h.parsed
  rintro (hsame | hcrc | hcrc | hcrc | hcrc | hoverlap)
  · exact hsame h.same
  · exact hcrc h.primaryHeader
  · exact hcrc h.backupHeader
  · exact hcrc h.primaryArray
  · exact hcrc h.backupArray
  · exact apart_iff_not_overlapping.mp hapart hoverlap

theorem Agreed.clear (h : Agreed sha256 image sectors partitions) (hs : sectors < 2 ^ 54)
    {lba : Nat} (hlow : (rawHeader image 1).firstUsableLBA ≤ lba)
    (hhigh : lba ≤ (rawHeader image 1).lastUsableLBA) :
    ¬ Reserved (rawHeader image 1) (rawHeader image (sectors - 1)) sectors lba := by
  have hplaced := validHeaderGeometry_placed h.primaryGeometry
  have hfirst := hplaced.low
  obtain ⟨-, -, -, -, hprimary⟩ := (labGeometry_iff (by omega)).mp h.primaryGeometry
  obtain ⟨-, -, -, hfits, hbackup⟩ := (labGeometry_iff (by omega)).mp h.backupGeometry
  have hne := (validHeaderGeometry_placed h.backupGeometry).nonempty
  -- The usable range is the same in both copies: it ends before the backup array.
  have hlast : (rawHeader image (sectors - 1)).lastUsableLBA =
      (rawHeader image 1).lastUsableLBA := by
    rw [h.same]
  unfold Reserved InArray
  omega

/-- Agreement of the copies and the scan make a sound table. -/
theorem Agreed.sound (h : Agreed sha256 image sectors partitions) (hs : sectors < 2 ^ 54) :
    SoundTable sha256 image sectors partitions := by
  have hlast := (validHeaderGeometry_placed h.primaryGeometry).high
  obtain ⟨hfits, hapart, hsorted⟩ := (parsePartitions_iff (by omega)).mp h.parsed
  have hperm : partitions.Perm ((used (rawHeader image 1)).map (described sha256 _)) :=
    hsorted ▸ List.perm_insertionSort _ _
  have hentry : ∀ p ∈ partitions, ∃ i ∈ used (rawHeader image 1),
      p = described sha256 (rawHeader image 1) i := by
    intro p hp
    obtain ⟨i, hi, rfl⟩ := List.mem_map.mp (hperm.mem_iff.mp hp)
    exact ⟨i, hi, rfl⟩
  have husable : ∀ p ∈ partitions, (rawHeader image 1).firstUsableLBA ≤ p.firstLBA ∧
      p.firstLBA ≤ p.lastLBA ∧ p.lastLBA ≤ (rawHeader image 1).lastUsableLBA := by
    intro p hp
    obtain ⟨i, hi, heq⟩ := hentry p hp
    simpa only [heq, described] using hfits.bounds i hi
  have hdisjoint : partitions.Pairwise fun p q => p.lastLBA < q.firstLBA := by
    rw [hsorted]
    exact partitions_apart hfits hapart
  constructor
  case complete => exact hperm
  case identities => exact hfits.distinct
  case fingerprints => exact fingerprints_nodup hperm hfits.distinct
  case sorted =>
    refine hdisjoint.imp_of_mem ?_
    intro p q hp _ hpq
    have horder := husable p hp
    omega
  case disjoint => exact hdisjoint
  case usable => exact husable
  case clear =>
    intro p hp lba hlow hhigh
    have horder := husable p hp
    exact h.clear hs (by omega) (by omega)
  case sizes =>
    intro p hp
    obtain ⟨i, hi, heq⟩ := hentry p hp
    have horder := hfits.bounds i hi
    rw [heq]
    unfold described logicalSectorBytes
    dsimp only
    omega

end Agreed

/-- A table called valid is sound, nothing that contradicts itself is called valid, and no read
leaves the image. -/
theorem inspect_sound (sha256 : Bytes → Bytes) (image : Image) (size : Int64) :
    (∀ read ∈ (inspect sha256 size).reads image, Extent.inside size.toInt.toNat read) ∧
      (∀ report, (inspect sha256 size).result image = .ok report → report.status = .valid →
        SoundTable sha256 image (diskSectors size) report.partitions) ∧
      (Contradictory image (diskSectors size) → ∀ report,
        (inspect sha256 size).result image = .ok report → report.status ≠ .valid) := by
  constructor
  · exact inspect_asks sha256 size
  constructor
  · intro report h hvalid
    exact (inspect_valid h hvalid).sound (diskSectors_lt size)
  · intro hcontradictory report h hvalid
    exact (inspect_valid h hvalid).not_contradictory (diskSectors_lt size) hcontradictory

end GptInspection
