import PhantoWD.RawImage

/-!
The service and the laboratory tool each carry a parser of Linux MD 1.0 component superblocks.
The service goes no further than the feature map when that is not zero.
-/
namespace MdSuperblock

open GoText
open RawImage

def logicalSectorBytes : Nat := 512
def mdV1Magic : Nat := 0xa92b4efc
def mdV1FixedBytes : Nat := 256
def mdV1MaximumBytes : Nat := 4096
def mdV1MaxDevices : Nat := (mdV1MaximumBytes - mdV1FixedBytes) / 2
def mdV1SuperOffset : Nat := 144
def mdV1ChecksumOffset : Nat := 216
def mdV1MaxDevicesOffset : Nat := 220
def mdV1RolesOffset : Nat := mdV1FixedBytes
def mdV1RoleJournal : Nat := 0xfffd
def mdV1RoleFaulty : Nat := 0xfffe
def mdV1RoleSpare : Nat := 0xffff

inductive Status where
  | candidate | notFound | damaged | unsupported
  deriving DecidableEq

inductive ChecksumStatus where
  | notValidated | invalid | valid
  deriving DecidableEq

inductive RoleDescription where
  | activeSlot | spare | faulty | journal
  deriving DecidableEq

structure Observed where
  status : Status := .unsupported
  metadataVersion : String := ""
  partitionFirstLBA : Nat
  partitionLastLBA : Nat
  diskSectors : Nat := 0
  partitionBytes : Nat := 0
  superblockOffsetBytes : Nat := 0
  arrayLevel : Int := 0
  arrayLayout : Nat := 0
  arraySizeSectors : Nat := 0
  chunkSizeSectors : Nat := 0
  raidDisks : Nat := 0
  maxDevices : Nat := 0
  memberNumber : Nat := 0
  memberRole : Nat := 0
  memberRoleDescription : Option RoleDescription := none
  featureMap : Nat := 0
  events : Nat := 0
  componentDataOffsetSectors : Nat := 0
  componentDataSectors : Nat := 0
  superblockChecksumStatus : ChecksumStatus := .notValidated
  arrayIdentityFingerprint : Bytes := []
  memberIdentityFingerprint : Bytes := []
  metadataRead : Bool := false
  deriving DecidableEq

/-- `mdV1Checksum` adds up the words that remain, and a trailing half word. -/
def wordSum (W : Words) (sum : Nat) : Bytes → Nat
  | a :: b :: c :: d :: rest => wordSum W (W.add sum (ofBytes [a, b, c, d])) rest
  | [a, b] => W.add sum (ofBytes [a, b])
  | _ => sum

def mdV1Checksum (W : Words) (superblock : Bytes) : Nat :=
  let copyForChecksum := superblock.take mdV1ChecksumOffset ++ [0, 0, 0, 0] ++
    superblock.drop (mdV1ChecksumOffset + 4)
  let sum := wordSum W 0 copyForChecksum
  (sum % 2 ^ 32 + sum / 2 ^ 32 % 2 ^ 32) % 2 ^ 32

def toInt32 (n : Nat) : Int := if n < 2 ^ 31 then n else (n : Int) - 2 ^ 32

def clearLowBits (n : Nat) : Nat := n / 8 * 8

def roleDescription (role raidDisks : Nat) : Option RoleDescription :=
  if role < raidDisks % 2 ^ 16 then some .activeSlot
  else if role = mdV1RoleSpare then some .spare
  else if role = mdV1RoleFaulty then some .faulty
  else if role = mdV1RoleJournal then some .journal
  else none

section Code

variable (W : Words) (sha256 : Bytes → Bytes)

def fingerprint (domain : String) (identity : Bytes) : Bytes :=
  hexEncode (sha256 (ascii domain ++ [0x0a] ++ identity))

def identityFingerprint (domain : String) (identity : Bytes) : Bytes :=
  if allZero identity then [] else fingerprint sha256 domain identity

structure Partition where
  number : Nat
  startLBA : Nat
  sizeLBA : Nat
  deriving DecidableEq

structure Observation extends Observed where
  partitionNumber : Nat
  deriving DecidableEq

inductive SourceError where
  | unsafeSource | readFailed
  deriving DecidableEq

def newObservation (partition : Partition) : Observation where
  partitionNumber := partition.number
  partitionFirstLBA := partition.startLBA
  partitionLastLBA :=
    if partition.sizeLBA ≠ 0 ∧
        partition.startLBA ≤ W.sub maxUint64 (W.sub partition.sizeLBA 1) then
      W.sub (W.add partition.startLBA partition.sizeLBA) 1
    else 0

def damaged (result : Observation) : Observation := { result with status := .damaged }

def unsupported (result : Observation) : Observation := { result with status := .unsupported }

def interpret (result : Observation) (superSector maxDevices : Nat) (superblock : Bytes) :
    Observation :=
  let result := { result with
    arrayLevel := toInt32 (wordAt superblock 72 4)
    arrayLayout := wordAt superblock 76 4
    arraySizeSectors := wordAt superblock 80 8
    chunkSizeSectors := wordAt superblock 88 4
    raidDisks := wordAt superblock 92 4
    componentDataOffsetSectors := wordAt superblock 128 8
    componentDataSectors := wordAt superblock 136 8
    memberNumber := wordAt superblock 160 4
    maxDevices := maxDevices
    events := wordAt superblock 200 8 }
  if result.arraySizeSectors = 0 ∨ result.raidDisks = 0 ∨ maxDevices < result.raidDisks ∨
      maxDevices ≤ result.memberNumber then damaged result
  else if superSector < result.componentDataOffsetSectors ∨ result.componentDataSectors = 0 ∨
      W.sub superSector result.componentDataOffsetSectors < result.componentDataSectors then
    damaged result
  else
    let role := wordAt superblock (mdV1RolesOffset + result.memberNumber * 2) 2
    let result := { result with memberRole := role }
    match roleDescription role result.raidDisks with
    | none => unsupported result
    | some description => { result with
        memberRoleDescription := some description
        arrayIdentityFingerprint :=
          identityFingerprint sha256 "phantowd-md-array-v1" (window superblock 16 16)
        memberIdentityFingerprint :=
          identityFingerprint sha256 "phantowd-md-member-v1" (window superblock 168 16)
        status := .candidate }

def observe (result : Observation) (superSector maxDevices : Nat) (superblock : Bytes) :
    Observation :=
  if mdV1Checksum W superblock ≠ wordAt superblock mdV1ChecksumOffset 4 then
    damaged { result with superblockChecksumStatus := .invalid }
  else
    let result := { result with superblockChecksumStatus := .valid }
    if wordAt superblock mdV1SuperOffset 8 ≠ superSector then unsupported result
    else
      let result := { result with
        metadataVersion := "1.0", featureMap := wordAt superblock 8 4 }
      if result.featureMap ≠ 0 then unsupported result
      else interpret W sha256 result superSector maxDevices superblock

def readAt (size : Int64) (offset length : Nat) : Probe SourceError Bytes :=
  .readAt size offset length .unsafeSource .readFailed

def readSuperblock (sourceBytes : Int64) (result : Observation)
    (superSector metadataStartBytes base : Nat) : Probe SourceError Observation := do
  let fixed ← readAt sourceBytes base mdV1FixedBytes
  let result := { result with superblockOffsetBytes := base, metadataRead := true }
  if wordAt fixed 0 4 ≠ mdV1Magic then pure { result with status := .notFound }
  else if wordAt fixed 4 4 ≠ 1 then pure (unsupported result)
  else
    let maxDevices := wordAt fixed mdV1MaxDevicesOffset 4
    if maxDevices = 0 ∨ mdV1MaxDevices < maxDevices then pure (damaged result)
    else
      let metadataBytes := W.add mdV1FixedBytes (W.mul maxDevices 2)
      if mdV1MaximumBytes < metadataBytes ∨ result.partitionBytes < metadataBytes ∨
          W.sub result.partitionBytes metadataBytes < metadataStartBytes then
        pure (damaged result)
      else do
        let roles ← readAt sourceBytes (W.add base mdV1FixedBytes)
          (metadataBytes - mdV1FixedBytes)
        pure (observe W sha256 result superSector maxDevices (fixed ++ roles))

def inspectPartition (sourceBytes : Int64) (partition : Partition) :
    Probe SourceError Observation :=
  if sourceBytes.toInt ≤ 0 ∨ partition.number = 0 ∨ partition.sizeLBA = 0 ∨
      partition.startLBA = 0 then .fail .unsafeSource
  else if sourceBytes.toInt % 512 ≠ 0 then .fail .unsafeSource
  else
    let diskSectors := sourceBytes.toInt.toNat / logicalSectorBytes
    if W.sub maxUint64 partition.sizeLBA < partition.startLBA then .fail .unsafeSource
    else
      let endExclusive := W.add partition.startLBA partition.sizeLBA
      if diskSectors < endExclusive ∨ maxUint64 / logicalSectorBytes < partition.sizeLBA then
        .fail .unsafeSource
      else
        let result := { newObservation W partition with
          diskSectors := diskSectors
          partitionLastLBA := W.sub endExclusive 1
          partitionBytes := W.mul partition.sizeLBA logicalSectorBytes }
        if partition.sizeLBA < 24 then pure (unsupported result)
        else
          let superSector := clearLowBits (W.sub partition.sizeLBA 16)
          if maxInt64 / logicalSectorBytes < partition.startLBA ∨
              W.sub (maxInt64 / logicalSectorBytes) partition.startLBA < superSector then
            pure (damaged result)
          else
            let metadataStartBytes := W.mul superSector logicalSectorBytes
            let base := W.mul (W.add partition.startLBA superSector) logicalSectorBytes
            if result.partitionBytes < metadataStartBytes ∨
                W.sub result.partitionBytes metadataStartBytes < mdV1FixedBytes then
              pure (damaged result)
            else readSuperblock W sha256 sourceBytes result superSector metadataStartBytes base

structure MDV10Report extends Observed where
  format : String := "phantowd-md-v1.0-superblock-inspection"
  schemaVersion : Nat := 1
  rawIdentityRedacted : Bool := true
  wdCompatibility : String := "unqualified"
  blockDeviceOpened : Bool := false
  mutationsPerformed : Bool := false
  assemblyPerformed : Bool := false
  mountPerformed : Bool := false
  findings : List String := []
  limitations : List String := [
    "only one generic Linux MD v1.0 component superblock and bounded role array are read; other " ++
      "component metadata and live array state are not inspected",
    "a plausible component superblock does not establish cross-member consistency, array " ++
      "health, filesystem integrity, WD compatibility, or safe assembly",
    "raw array/member UUIDs and host-supplied paths are not returned; identity fingerprints are " ++
      "not authenticity checks",
    "input must be a regular local image file; no block device is opened, no array is " ++
      "assembled, no filesystem is mounted, and no image is modified"]
  deriving DecidableEq

def newMDV10Report (firstLBA lastLBA : Nat) : MDV10Report where
  partitionFirstLBA := firstLBA
  partitionLastLBA := lastLBA

def damagedMDV10 (report : MDV10Report) (finding : String) : MDV10Report :=
  { report with status := .damaged, findings := [finding] }

def unsupportedMDV10 (report : MDV10Report) (finding : String) : MDV10Report :=
  { report with status := .unsupported, findings := [finding] }

def interpretMDV10 (report : MDV10Report) (superSector maxDevices : Nat) (superblock : Bytes) :
    MDV10Report :=
  let report := { report with
    arrayLevel := toInt32 (wordAt superblock 72 4)
    arrayLayout := wordAt superblock 76 4
    arraySizeSectors := wordAt superblock 80 8
    chunkSizeSectors := wordAt superblock 88 4
    raidDisks := wordAt superblock 92 4
    componentDataOffsetSectors := wordAt superblock 128 8
    componentDataSectors := wordAt superblock 136 8
    memberNumber := wordAt superblock 160 4
    maxDevices := maxDevices
    events := wordAt superblock 200 8 }
  if report.arraySizeSectors = 0 ∨ report.raidDisks = 0 ∨ maxDevices < report.raidDisks ∨
      maxDevices ≤ report.memberNumber then
    damagedMDV10 report ("MD array size, member number, and device counts are inconsistent " ++
      "with the bounded role array")
  else if superSector < report.componentDataOffsetSectors ∨ report.componentDataSectors = 0 ∨
      W.sub superSector report.componentDataOffsetSectors < report.componentDataSectors then
    damagedMDV10 report ("MD component data extent overlaps metadata or exceeds the " ++
      "containing partition")
  else
    let role := wordAt superblock (mdV1RolesOffset + report.memberNumber * 2) 2
    let report := { report with memberRole := role }
    match roleDescription role report.raidDisks with
    | none => unsupportedMDV10 report "MD member role uses an unrecognized reserved value"
    | some description => { report with
        memberRoleDescription := some description
        arrayIdentityFingerprint :=
          identityFingerprint sha256 "phantowd-md-array-v1" (window superblock 16 16)
        memberIdentityFingerprint :=
          identityFingerprint sha256 "phantowd-md-member-v1" (window superblock 168 16)
        status := .candidate
        findings := ["one generic MD v1.0 component superblock is structurally plausible; " ++
          "array-wide consistency, filesystem integrity, WD compatibility and assembly " ++
          "safety are unqualified"] }

def observeMDV10 (report : MDV10Report) (superSector maxDevices : Nat) (superblock : Bytes) :
    MDV10Report :=
  if mdV1Checksum W superblock ≠ wordAt superblock mdV1ChecksumOffset 4 then
    damagedMDV10 { report with superblockChecksumStatus := .invalid }
      "MD v1 superblock checksum does not match"
  else
    let report := { report with superblockChecksumStatus := .valid }
    if wordAt superblock mdV1SuperOffset 8 ≠ superSector then
      unsupportedMDV10 report
        "MD v1 superblock at this location does not declare metadata version 1.0"
    else
      interpretMDV10 W sha256 { report with
        metadataVersion := "1.0", featureMap := wordAt superblock 8 4 }
        superSector maxDevices superblock

def readImageAt (size : Int64) (offset length : Nat) : Probe String Bytes :=
  .readAt size offset length "disk-image metadata read is out of bounds"
    "cannot read disk-image metadata"

def readMDV10 (imageSize : Int64) (report : MDV10Report)
    (superSector metadataStart base : Nat) : Probe String MDV10Report := do
  let fixed ← readImageAt imageSize base mdV1FixedBytes
  let report := { report with superblockOffsetBytes := base, metadataRead := true }
  if wordAt fixed 0 4 ≠ mdV1Magic then
    pure { report with
      status := .notFound
      findings := ["no Linux MD superblock magic at the standard metadata 1.0 " ++
        "end-of-component offset"] }
  else if wordAt fixed 4 4 ≠ 1 then
    pure (unsupportedMDV10 report "MD superblock is not version 1")
  else
    let maxDevices := wordAt fixed mdV1MaxDevicesOffset 4
    if maxDevices = 0 ∨ mdV1MaxDevices < maxDevices then
      pure (damagedMDV10 report "MD v1 role-array length exceeds the bounded superblock size")
    else
      let metadataBytes := W.add mdV1FixedBytes (W.mul maxDevices 2)
      if mdV1MaximumBytes < metadataBytes ∨ report.partitionBytes < metadataBytes ∨
          W.sub report.partitionBytes metadataBytes < metadataStart then
        pure (damagedMDV10 report "MD v1 role array extends beyond its containing partition")
      else do
        let roles ← readImageAt imageSize (W.add base mdV1FixedBytes)
          (metadataBytes - mdV1FixedBytes)
        pure (observeMDV10 W sha256 report superSector maxDevices (fixed ++ roles))

def inspectMDV10Superblock (imageSize : Int64) (firstLBA lastLBA : Nat) :
    Probe String MDV10Report :=
  let report := newMDV10Report firstLBA lastLBA
  if imageSize.toInt < 0 then .fail "invalid disk-image reader or size"
  else if imageSize.toInt % 512 ≠ 0 then
    pure (damagedMDV10 report
      "image size is not aligned to the supported 512-byte logical sector size")
  else
    let diskSectors := imageSize.toInt.toNat / logicalSectorBytes
    let report := { report with diskSectors := diskSectors }
    if lastLBA < firstLBA ∨ diskSectors ≤ lastLBA then
      pure (damagedMDV10 report "partition bounds are inconsistent with the supplied image")
    else
      let partitionSectors := W.add (W.sub lastLBA firstLBA) 1
      let report := { report with
        partitionBytes := W.mul partitionSectors logicalSectorBytes }
      if partitionSectors < 24 then
        pure (unsupportedMDV10 report
          "partition is too small to contain a standard MD v1.0 superblock")
      else
        let superSector := clearLowBits (W.sub partitionSectors 16)
        let metadataStart := W.mul superSector logicalSectorBytes
        if maxInt64 / logicalSectorBytes < firstLBA ∨
            W.sub maxInt64 (W.mul firstLBA logicalSectorBytes) < metadataStart then
          pure (damagedMDV10 report "superblock offset exceeds the supported image range")
        else
          let base := W.add (W.mul firstLBA logicalSectorBytes) metadataStart
          if report.partitionBytes < metadataStart ∨
              W.sub report.partitionBytes metadataStart < mdV1FixedBytes then
            pure (damagedMDV10 report
              "MD v1.0 superblock range exceeds its containing partition")
          else readMDV10 W sha256 imageSize report superSector metadataStart base

end Code

structure InRange (size : Int64) (partition : Partition) : Prop where
  sized : 0 < size.toInt
  aligned : size.toInt % 512 = 0
  numbered : 0 < partition.number
  started : 0 < partition.startLBA
  nonempty : 0 < partition.sizeLBA
  fits : partition.startLBA + partition.sizeLBA ≤ size.toInt.toNat / logicalSectorBytes

/-- What the service leaves out of its observation when it stops at the feature map. -/
def Observed.withheld (o : Observed) : Observed :=
  { o with
    status := .unsupported
    arrayLevel := 0
    arrayLayout := 0
    arraySizeSectors := 0
    chunkSizeSectors := 0
    raidDisks := 0
    maxDevices := 0
    memberNumber := 0
    memberRole := 0
    memberRoleDescription := none
    events := 0
    componentDataOffsetSectors := 0
    componentDataSectors := 0
    arrayIdentityFingerprint := []
    memberIdentityFingerprint := [] }

structure Agreement (observation : Observation) (report : MDV10Report) : Prop where
  same : report.featureMap = 0 → observation.toObserved = report.toObserved
  withheld : report.featureMap ≠ 0 → observation.toObserved = report.toObserved.withheld
  candidate : observation.status = .candidate ↔
    report.status = .candidate ∧ report.featureMap = 0

variable {o : Observation} {r : MDV10Report} {superblock : Bytes} {n : Nat}

theorem Agreement.of_same (h : o.toObserved = r.toObserved) (hzero : r.featureMap = 0) :
    Agreement o r := by
  constructor
  · exact fun _ => h
  · exact fun hne => absurd hzero hne
  · rw [h]
    simp [hzero]

theorem Agreement.of_withheld (h : o.toObserved = r.toObserved.withheld) (hne : r.featureMap ≠ 0) :
    Agreement o r := by
  constructor
  · exact fun hzero => absurd hzero hne
  · exact fun _ => h
  · rw [h]
    simp [Observed.withheld, hne]

section Interpretation

variable (W W' : Words) (sha256 : Bytes → Bytes)

theorem wordSum_eq {data : Bytes} {sum : Nat} (h : sum + data.length * 2 ^ 32 < 2 ^ 64) :
    wordSum W sum data = wordSum W' sum data := by
  induction sum, data using wordSum.induct W with
  | case1 sum a b c d rest ih =>
    have hword := ofBytes_lt [a, b, c, d]
    simp only [List.length_cons, List.length_nil] at h hword
    rw [wordSum, wordSum, W.add_eq (by omega), W'.add_eq (by omega)]
    rw [W.add_eq (by omega)] at ih
    exact ih (by omega)
  | case2 sum a b =>
    have hword := ofBytes_lt [a, b]
    simp only [List.length_cons, List.length_nil] at h hword
    rw [wordSum, wordSum, W.add_eq (by omega), W'.add_eq (by omega)]
  | case3 sum data hne hne' =>
    rw [wordSum, wordSum]
    all_goals assumption

theorem mdV1Checksum_eq (h : superblock.length ≤ mdV1MaximumBytes) :
    mdV1Checksum W superblock = mdV1Checksum W' superblock := by
  unfold mdV1Checksum
  dsimp only
  rw [wordSum_eq W W']
  simp only [mdV1MaximumBytes] at h
  simp only [List.length_append, List.length_take, List.length_drop, List.length_cons,
    List.length_nil]
  omega

/-- The laboratory's interpretation touches only what the service may withhold. -/
theorem interpretMDV10_withheld (report : MDV10Report) (superSector maxDevices : Nat)
    (superblock : Bytes) :
    (interpretMDV10 W sha256 report superSector maxDevices superblock).toObserved.withheld =
      report.toObserved.withheld := by
  unfold interpretMDV10
  dsimp only
  split_ifs
  · rfl
  · rfl
  · split
    · rfl
    · rfl

variable {superSector : Nat}

/-- The difference of two sectors is only taken once it is known not to be negative. -/
theorem extent_words {offset length : Nat} (hs : superSector < 2 ^ 64) :
    (superSector < offset ∨ length = 0 ∨ W.sub superSector offset < length) ↔
      (superSector < offset ∨ length = 0 ∨ W'.sub superSector offset < length) := by
  by_cases hlt : superSector < offset
  · simp [hlt]
  · rw [W.sub_eq (by omega) hs, W'.sub_eq (by omega) hs]

theorem interpret_words (o : Observation) (hs : superSector < 2 ^ 64) (maxDevices : Nat)
    (superblock : Bytes) :
    interpret W sha256 o superSector maxDevices superblock =
      interpret W' sha256 o superSector maxDevices superblock := by
  unfold interpret
  dsimp only
  simp only [extent_words W W' hs]

theorem interpretMDV10_words (r : MDV10Report) (hs : superSector < 2 ^ 64) (maxDevices : Nat)
    (superblock : Bytes) :
    interpretMDV10 W sha256 r superSector maxDevices superblock =
      interpretMDV10 W' sha256 r superSector maxDevices superblock := by
  unfold interpretMDV10
  dsimp only
  simp only [extent_words W W' hs]

theorem observe_words (o : Observation) (hs : superSector < 2 ^ 64) (maxDevices : Nat)
    (hlen : superblock.length ≤ mdV1MaximumBytes) :
    observe W sha256 o superSector maxDevices superblock =
      observe W' sha256 o superSector maxDevices superblock := by
  unfold observe
  rw [mdV1Checksum_eq W W' hlen]
  simp only [interpret_words W W' sha256 _ hs]

theorem observeMDV10_words (r : MDV10Report) (hs : superSector < 2 ^ 64) (maxDevices : Nat)
    (hlen : superblock.length ≤ mdV1MaximumBytes) :
    observeMDV10 W sha256 r superSector maxDevices superblock =
      observeMDV10 W' sha256 r superSector maxDevices superblock := by
  unfold observeMDV10
  rw [mdV1Checksum_eq W W' hlen]
  simp only [interpretMDV10_words W W' sha256 _ hs]

theorem interpret_same (h : o.toObserved = r.toObserved) (superSector maxDevices : Nat)
    (superblock : Bytes) :
    (interpret W sha256 o superSector maxDevices superblock).toObserved =
      (interpretMDV10 W sha256 r superSector maxDevices superblock).toObserved := by
  obtain ⟨o, number⟩ := o
  obtain ⟨r⟩ := r
  simp only at h
  subst h
  unfold interpret interpretMDV10
  dsimp only
  split
  · rfl
  split
  · rfl
  split
  · rfl
  · rfl

theorem observe_agrees (h : o.toObserved = r.toObserved)
    (hfresh : r.toObserved = { r.toObserved.withheld with status := r.status })
    (hzero : r.featureMap = 0) (superSector maxDevices : Nat) (superblock : Bytes) :
    Agreement (observe W sha256 o superSector maxDevices superblock)
      (observeMDV10 W sha256 r superSector maxDevices superblock) := by
  unfold observe observeMDV10
  by_cases hsum : mdV1Checksum W superblock ≠ wordAt superblock mdV1ChecksumOffset 4
  · rw [if_pos hsum, if_pos hsum]
    apply Agreement.of_same
    · simp only [damaged, damagedMDV10, h]
    · exact hzero
  rw [if_neg hsum, if_neg hsum]
  dsimp only
  by_cases hsuper : wordAt superblock mdV1SuperOffset 8 ≠ superSector
  · rw [if_pos hsuper, if_pos hsuper]
    apply Agreement.of_same
    · simp only [unsupported, unsupportedMDV10, h]
    · exact hzero
  rw [if_neg hsuper, if_neg hsuper]
  have hkept := interpretMDV10_withheld W sha256 { r with
    superblockChecksumStatus := .valid, metadataVersion := "1.0"
    featureMap := wordAt superblock 8 4 } superSector maxDevices superblock
  have hmap := congrArg Observed.featureMap hkept
  simp only [Observed.withheld] at hmap
  by_cases hfeature : wordAt superblock 8 4 ≠ 0
  · rw [if_pos hfeature]
    apply Agreement.of_withheld
    · rw [hkept]
      simp only [unsupported, h]
      rw [hfresh]
      rfl
    · rw [hmap]
      exact hfeature
  · rw [if_neg hfeature]
    apply Agreement.of_same
    · apply interpret_same
      simp only [h]
    · rw [hmap]
      exact not_not.mp hfeature

end Interpretation

/-- Where the superblock of a component lies: `start` bytes into `bytes` of it, the component
being at `origin`, all of it within the medium. -/
structure Placed (size : Int64) (origin start bytes : Nat) : Prop where
  room : start + mdV1FixedBytes ≤ bytes
  inside : ((origin + bytes : Nat) : Int) ≤ size.toInt

section Reading

variable (W W' : Words) (sha256 : Bytes → Bytes) {image : Image} {size : Int64}
  {origin start : Nat}

theorem metadataBytes_eq (h : ¬ (n = 0 ∨ mdV1MaxDevices < n)) :
    W.add mdV1FixedBytes (W.mul n 2) = mdV1FixedBytes + n * 2 := by
  simp only [mdV1MaxDevices, mdV1MaximumBytes, mdV1FixedBytes] at *
  rw [W.mul_eq (by omega), W.add_eq (by omega)]

/-- The room left after the role array does not depend on a wrap. -/
theorem room_words {bytes : Nat} (hb : bytes < 2 ^ 64) :
    (mdV1MaximumBytes < mdV1FixedBytes + n * 2 ∨ bytes < mdV1FixedBytes + n * 2 ∨
        W.sub bytes (mdV1FixedBytes + n * 2) < start) ↔
      (mdV1MaximumBytes < mdV1FixedBytes + n * 2 ∨ bytes < mdV1FixedBytes + n * 2 ∨
        W'.sub bytes (mdV1FixedBytes + n * 2) < start) := by
  by_cases hlong : bytes < mdV1FixedBytes + n * 2
  · simp [hlong]
  · rw [W.sub_eq (by omega) hb, W'.sub_eq (by omega) hb]

theorem length_superblock {fixed roles : Bytes} {base : Nat}
    (hfixed : fixed = image.slice base mdV1FixedBytes)
    (hroles : roles = image.slice (base + mdV1FixedBytes) (mdV1FixedBytes + n * 2 - mdV1FixedBytes))
    (hn : ¬ (n = 0 ∨ mdV1MaxDevices < n)) : (fixed ++ roles).length ≤ mdV1MaximumBytes := by
  rw [hfixed, hroles, List.length_append, Image.length_slice, Image.length_slice]
  simp only [mdV1MaxDevices, mdV1MaximumBytes, mdV1FixedBytes] at *
  omega

theorem readSuperblock_words (o : Observation) {superSector : Nat} (hs : superSector < 2 ^ 64)
    (hplaced : Placed size origin start o.partitionBytes) :
    readSuperblock W sha256 size o superSector start (origin + start) image =
      readSuperblock W' sha256 size o superSector start (origin + start) image := by
  have hroom := hplaced.room
  have hinside := hplaced.inside
  have hsize := size.toInt_lt
  unfold readSuperblock
  apply Probe.bind_congr
  intro fixed hfixed
  dsimp only
  split
  · rfl
  split
  · rfl
  split
  · rfl
  next hdevices =>
    rw [metadataBytes_eq W hdevices, metadataBytes_eq W' hdevices]
    simp only [room_words W W' (show o.partitionBytes < 2 ^ 64 by omega)]
    split
    · rfl
    · rw [W.add_eq (by unfold mdV1FixedBytes at *; omega),
        W'.add_eq (by unfold mdV1FixedBytes at *; omega)]
      apply Probe.bind_congr
      intro roles hroles
      rw [observe_words W W' sha256 _ hs _ (length_superblock (Probe.result_readAt hfixed)
        (Probe.result_readAt hroles) hdevices)]

theorem readMDV10_words (r : MDV10Report) {superSector : Nat} (hs : superSector < 2 ^ 64)
    (hplaced : Placed size origin start r.partitionBytes) :
    readMDV10 W sha256 size r superSector start (origin + start) image =
      readMDV10 W' sha256 size r superSector start (origin + start) image := by
  have hroom := hplaced.room
  have hinside := hplaced.inside
  have hsize := size.toInt_lt
  unfold readMDV10
  apply Probe.bind_congr
  intro fixed hfixed
  dsimp only
  split
  · rfl
  split
  · rfl
  split
  · rfl
  next hdevices =>
    rw [metadataBytes_eq W hdevices, metadataBytes_eq W' hdevices]
    simp only [room_words W W' (show r.partitionBytes < 2 ^ 64 by omega)]
    split
    · rfl
    · rw [W.add_eq (by unfold mdV1FixedBytes at *; omega),
        W'.add_eq (by unfold mdV1FixedBytes at *; omega)]
      apply Probe.bind_congr
      intro roles hroles
      rw [observeMDV10_words W W' sha256 _ hs _ (length_superblock (Probe.result_readAt hfixed)
        (Probe.result_readAt hroles) hdevices)]

/-- Both parsers stop at the same test. -/
theorem stops_alike {c d : Prop} [Decidable c] [Decidable d]
    {m : Probe SourceError Observation} {m' : Probe String MDV10Report} (hcd : c ↔ d)
    (h : o.toObserved = r.toObserved) (hzero : r.featureMap = 0)
    (hgo : Probe.Matches Agreement m m' image) :
    Probe.Matches Agreement (if c then pure o else m) (if d then pure r else m') image :=
  Probe.matches_ite hcd (fun _ => Probe.matches_pure (.of_same h hzero)) fun _ => hgo

/-- The two parsers go through the same reads and tests. -/
theorem readSuperblock_matches (h : o.toObserved = r.toObserved)
    (hfresh : r.toObserved = { r.toObserved.withheld with status := r.status })
    (hzero : r.featureMap = 0) (superSector base : Nat) :
    Probe.Matches Agreement (readSuperblock W sha256 size o superSector start base)
      (readMDV10 W sha256 size r superSector start base) image := by
  unfold readSuperblock readMDV10
  dsimp only
  apply Probe.matches_bind Probe.matches_readAt
  rintro fixed _ - rfl
  refine stops_alike Iff.rfl (by simp only [h]) hzero ?_
  refine stops_alike Iff.rfl (by simp only [unsupported, unsupportedMDV10, h]) hzero ?_
  refine stops_alike Iff.rfl (by simp only [damaged, damagedMDV10, h]) hzero ?_
  refine stops_alike (by rw [h]) (by simp only [damaged, damagedMDV10, h]) hzero ?_
  apply Probe.matches_bind Probe.matches_readAt
  rintro roles _ - rfl
  apply Probe.matches_pure
  apply observe_agrees W sha256
  · simp only [h]
  · rw [hfresh]
    rfl
  · exact hzero

theorem readSuperblock_asks (superSector : Nat)
    (hplaced : Placed size origin start o.partitionBytes) :
    (readSuperblock W sha256 size o superSector start (origin + start)).Asks image
      fun read => origin ≤ read.1 ∧ read.1 + read.2 ≤ origin + o.partitionBytes := by
  have hroom := hplaced.room
  have hinside := hplaced.inside
  have hsize := size.toInt_lt
  unfold readSuperblock
  rw [readAt, Probe.readAt_eq (by omega)]
  apply Probe.asks_bind
  · apply Probe.asks_read
    omega
  intro fixed _
  apply Probe.asks_stop
  intro _
  apply Probe.asks_stop
  intro _
  apply Probe.asks_stop
  intro hdevices
  rw [metadataBytes_eq W hdevices]
  apply Probe.asks_stop
  intro hfits
  simp only [mdV1MaxDevices, mdV1MaximumBytes, mdV1FixedBytes] at *
  rw [W.sub_eq (by omega) (by omega)] at hfits
  rw [W.add_eq (by omega), readAt, Probe.readAt_eq (by omega)]
  apply Probe.asks_bind
  · apply Probe.asks_read
    omega
  · exact fun _ _ => Probe.asks_pure _

end Reading

section Placement

variable (W W' : Words) (sha256 : Bytes → Bytes) {image : Image} {size : Int64}
  {partition : Partition}

def superSector (partition : Partition) : Nat := clearLowBits (partition.sizeLBA - 16)

/-- What both parsers know before they read, in exact arithmetic. -/
def geometry (size : Int64) (partition : Partition) : Observed where
  partitionFirstLBA := partition.startLBA
  partitionLastLBA := partition.startLBA + partition.sizeLBA - 1
  diskSectors := size.toInt.toNat / logicalSectorBytes
  partitionBytes := partition.sizeLBA * logicalSectorBytes

theorem InRange.small (h : InRange size partition) :
    partition.startLBA + partition.sizeLBA < 2 ^ 54 := by
  have hfits := h.fits
  have hsize := size.toInt_lt
  unfold logicalSectorBytes at hfits
  omega

theorem superSector_room (h : 24 ≤ partition.sizeLBA) :
    superSector partition + 16 ≤ partition.sizeLBA := by
  unfold superSector clearLowBits
  omega

theorem InRange.placed (h : InRange size partition) (hlong : 24 ≤ partition.sizeLBA) :
    Placed size (partition.startLBA * logicalSectorBytes)
      (superSector partition * logicalSectorBytes) (geometry size partition).partitionBytes := by
  have hroom := superSector_room hlong
  have hfits := h.fits
  have hsized := h.sized
  constructor
  · simp only [geometry, mdV1FixedBytes, logicalSectorBytes]
    omega
  · simp only [geometry, logicalSectorBytes] at *
    omega

theorem sectors_bytes (h : n < 2 ^ 54) : W.mul n logicalSectorBytes = n * logicalSectorBytes := by
  rw [W.mul_eq]
  unfold logicalSectorBytes
  omega

theorem superblock_room (hlong : ¬ partition.sizeLBA < 24) (hsmall : partition.sizeLBA < 2 ^ 54) :
    ¬ (partition.sizeLBA * logicalSectorBytes < superSector partition * logicalSectorBytes ∨
      W.sub (partition.sizeLBA * logicalSectorBytes) (superSector partition * logicalSectorBytes) <
        mdV1FixedBytes) := by
  have hroom := superSector_room (Nat.not_lt.mp hlong)
  unfold mdV1FixedBytes logicalSectorBytes
  rw [W.sub_eq (by omega) (by omega)]
  omega

/-- In range the parser computes with exact numbers. -/
theorem inspectPartition_eq (h : InRange size partition) :
    inspectPartition W sha256 size partition =
      if partition.sizeLBA < 24 then
        pure ⟨geometry size partition, partition.number⟩
      else readSuperblock W sha256 size ⟨geometry size partition, partition.number⟩
        (superSector partition) (superSector partition * logicalSectorBytes)
        (partition.startLBA * logicalSectorBytes + superSector partition * logicalSectorBytes) := by
  have hsmall := h.small
  obtain ⟨hsized, haligned, hnumber, hstart, hsize, hfits⟩ := h
  have hmax : maxUint64 = 2 ^ 64 - 1 := rfl
  have hmax' : maxInt64 / logicalSectorBytes = 2 ^ 54 - 1 := rfl
  have hsector : maxUint64 / logicalSectorBytes = 2 ^ 55 - 1 := rfl
  have hvalid : ¬ (size.toInt ≤ 0 ∨ partition.number = 0 ∨ partition.sizeLBA = 0 ∨
      partition.startLBA = 0) := by omega
  have hroom : ¬ maxUint64 - partition.sizeLBA < partition.startLBA := by omega
  have hinside : ¬ (size.toInt.toNat / logicalSectorBytes <
      partition.startLBA + partition.sizeLBA ∨
      maxUint64 / logicalSectorBytes < partition.sizeLBA) := by omega
  unfold inspectPartition
  dsimp only
  rw [if_neg hvalid, if_neg (not_not.mpr haligned),
    W.sub_eq (show partition.sizeLBA ≤ maxUint64 by omega) (by omega), if_neg hroom,
    W.add_eq (show partition.startLBA + partition.sizeLBA < 2 ^ 64 by omega), if_neg hinside,
    W.sub_eq (show 1 ≤ partition.startLBA + partition.sizeLBA by omega) (by omega),
    sectors_bytes W (n := partition.sizeLBA) (by omega)]
  by_cases hshort : partition.sizeLBA < 24
  · rw [if_pos hshort, if_pos hshort]
    rfl
  have hsuper := superSector_room (Nat.not_lt.mp hshort)
  have hrange : ¬ (maxInt64 / logicalSectorBytes < partition.startLBA ∨
      maxInt64 / logicalSectorBytes - partition.startLBA < superSector partition) := by omega
  rw [if_neg hshort, if_neg hshort, W.sub_eq (show 16 ≤ partition.sizeLBA by omega) (by omega),
    show clearLowBits (partition.sizeLBA - 16) = superSector partition from rfl,
    W.sub_eq (show partition.startLBA ≤ maxInt64 / logicalSectorBytes by omega) (by omega),
    if_neg hrange, sectors_bytes W (n := superSector partition) (by omega),
    if_neg (superblock_room W hshort (by omega)), W.add_eq (by omega),
    sectors_bytes W (n := partition.startLBA + superSector partition) (by omega), Nat.add_mul]
  rfl

theorem inspectMDV10Superblock_eq (h : InRange size partition) :
    inspectMDV10Superblock W sha256 size partition.startLBA
        (partition.startLBA + partition.sizeLBA - 1) =
      if partition.sizeLBA < 24 then
        pure { toObserved := geometry size partition
               findings := ["partition is too small to contain a standard MD v1.0 superblock"] }
      else readMDV10 W sha256 size { toObserved := geometry size partition }
        (superSector partition) (superSector partition * logicalSectorBytes)
        (partition.startLBA * logicalSectorBytes + superSector partition * logicalSectorBytes) := by
  have hsmall := h.small
  obtain ⟨hsized, haligned, hnumber, hstart, hsize, hfits⟩ := h
  have hmax : maxInt64 / logicalSectorBytes = 2 ^ 54 - 1 := rfl
  have hmax' : maxInt64 = 2 ^ 63 - 1 := rfl
  have hinside : ¬ (partition.startLBA + partition.sizeLBA - 1 < partition.startLBA ∨
      size.toInt.toNat / logicalSectorBytes ≤
        partition.startLBA + partition.sizeLBA - 1) := by omega
  have hsectors : partition.startLBA + partition.sizeLBA - 1 - partition.startLBA + 1 =
      partition.sizeLBA := by omega
  unfold inspectMDV10Superblock
  dsimp only
  rw [if_neg (show ¬ size.toInt < 0 by omega), if_neg (not_not.mpr haligned), if_neg hinside,
    W.sub_eq (show partition.startLBA ≤ partition.startLBA + partition.sizeLBA - 1 by omega)
      (by omega), W.add_eq (by omega), hsectors,
    sectors_bytes W (n := partition.sizeLBA) (by omega)]
  by_cases hshort : partition.sizeLBA < 24
  · rw [if_pos hshort, if_pos hshort]
    rfl
  have hsuper := superSector_room (Nat.not_lt.mp hshort)
  have hstartBytes : partition.startLBA * logicalSectorBytes +
      superSector partition * logicalSectorBytes ≤ maxInt64 := by
    unfold logicalSectorBytes
    omega
  have hrange : ¬ (maxInt64 / logicalSectorBytes < partition.startLBA ∨
      maxInt64 - partition.startLBA * logicalSectorBytes <
        superSector partition * logicalSectorBytes) := by omega
  rw [if_neg hshort, if_neg hshort, W.sub_eq (show 16 ≤ partition.sizeLBA by omega) (by omega),
    show clearLowBits (partition.sizeLBA - 16) = superSector partition from rfl,
    sectors_bytes W (n := superSector partition) (by omega),
    sectors_bytes W (n := partition.startLBA) (by omega), W.sub_eq (by omega) (by omega),
    if_neg hrange, if_neg (superblock_room W hshort (by omega)), W.add_eq (by omega)]
  rfl

theorem superSector_lt (h : InRange size partition) : superSector partition < 2 ^ 64 := by
  have hsmall := h.small
  unfold superSector clearLowBits
  omega

theorem inspectPartition_words (h : InRange size partition) :
    inspectPartition W sha256 size partition image =
      inspectPartition W' sha256 size partition image := by
  rw [inspectPartition_eq W sha256 h, inspectPartition_eq W' sha256 h]
  by_cases hshort : partition.sizeLBA < 24
  · rw [if_pos hshort, if_pos hshort]
  · rw [if_neg hshort, if_neg hshort]
    exact readSuperblock_words W W' sha256 _ (superSector_lt h) (h.placed (by omega))

theorem inspectMDV10Superblock_words (h : InRange size partition) :
    inspectMDV10Superblock W sha256 size partition.startLBA
        (partition.startLBA + partition.sizeLBA - 1) image =
      inspectMDV10Superblock W' sha256 size partition.startLBA
        (partition.startLBA + partition.sizeLBA - 1) image := by
  rw [inspectMDV10Superblock_eq W sha256 h, inspectMDV10Superblock_eq W' sha256 h]
  by_cases hshort : partition.sizeLBA < 24
  · rw [if_pos hshort, if_pos hshort]
  · rw [if_neg hshort, if_neg hshort]
    exact readMDV10_words W W' sha256 _ (superSector_lt h) (h.placed (by omega))

theorem inspections_match (h : InRange size partition) :
    Probe.Matches Agreement (inspectPartition W sha256 size partition)
      (inspectMDV10Superblock W sha256 size partition.startLBA
        (partition.startLBA + partition.sizeLBA - 1)) image := by
  rw [inspectPartition_eq W sha256 h, inspectMDV10Superblock_eq W sha256 h]
  apply Probe.matches_ite Iff.rfl
  · intro _
    apply Probe.matches_pure
    exact Agreement.of_same rfl rfl
  · intro _
    exact readSuperblock_matches W sha256 rfl rfl rfl _ _

theorem inspectPartition_asks (h : InRange size partition) :
    (inspectPartition W sha256 size partition).Asks image fun read =>
      partition.startLBA * 512 ≤ read.1 ∧
        read.1 + read.2 ≤ (partition.startLBA + partition.sizeLBA) * 512 := by
  rw [inspectPartition_eq W sha256 h]
  apply Probe.asks_stop
  intro hlong read hread
  obtain ⟨hlow, hhigh⟩ := readSuperblock_asks W sha256 _ (h.placed (by omega)) read hread
  constructor
  · exact hlow
  · rw [Nat.add_mul]
    exact hhigh

end Placement

/-- On every partition that lies in the image the two parsers read the same bytes, all of them
in the partition, and agree; where the feature map is not zero the service stops at it. No
result depends on what a wrapped sum, difference or product would be. -/
theorem parsers_agree (sha256 : Bytes → Bytes) (image : Image) (size : Int64)
    (partition : Partition) (h : InRange size partition) :
    Probe.Matches Agreement (inspectPartition .machine sha256 size partition)
        (inspectMDV10Superblock .machine sha256 size partition.startLBA
          (partition.startLBA + partition.sizeLBA - 1)) image ∧
      (∀ read ∈ (inspectPartition .machine sha256 size partition).reads image,
        partition.startLBA * 512 ≤ read.1 ∧
          read.1 + read.2 ≤ (partition.startLBA + partition.sizeLBA) * 512) ∧
      ∀ W : Words,
        inspectPartition W sha256 size partition image =
            inspectPartition .machine sha256 size partition image ∧
          inspectMDV10Superblock W sha256 size partition.startLBA
              (partition.startLBA + partition.sizeLBA - 1) image =
            inspectMDV10Superblock .machine sha256 size partition.startLBA
              (partition.startLBA + partition.sizeLBA - 1) image := by
  constructor
  · exact inspections_match .machine sha256 h
  constructor
  · exact inspectPartition_asks .machine sha256 h
  · intro W
    constructor
    · exact inspectPartition_words W .machine sha256 h
    · exact inspectMDV10Superblock_words W .machine sha256 h

def demoSuperblock (featureMap checksum : Nat) : Bytes :=
  toBytes 4 mdV1Magic ++ toBytes 4 1 ++ toBytes 4 featureMap ++ toBytes 60 0 ++ toBytes 4 1 ++
    toBytes 4 0 ++ toBytes 8 8 ++ toBytes 4 0 ++ toBytes 4 1 ++ toBytes 32 0 ++ toBytes 8 0 ++
    toBytes 8 8 ++ toBytes 8 8 ++ toBytes 8 0 ++ toBytes 4 0 ++ toBytes 36 0 ++ toBytes 8 1 ++
    toBytes 8 0 ++ toBytes 4 checksum ++ toBytes 4 1 ++ toBytes 34 0

def demoImage (featureMap : Nat) : Image :=
  .written [(4608, demoSuperblock featureMap
    (mdV1Checksum .machine (demoSuperblock featureMap 0)))]

def demoPartition : Partition := ⟨1, 1, 24⟩

theorem demoPartition_inRange : InRange 12800 demoPartition := by
  constructor
  all_goals decide

theorem candidate_agreed :
    ((inspectPartition .machine id 12800 demoPartition).result (demoImage 0)).map
        (fun o => o.status) = .ok .candidate ∧
      Probe.Matches Agreement (inspectPartition .machine id 12800 demoPartition)
        (inspectMDV10Superblock .machine id 12800 demoPartition.startLBA
          (demoPartition.startLBA + demoPartition.sizeLBA - 1)) (demoImage 0) :=
  ⟨by decide +kernel,
    (parsers_agree id (demoImage 0) 12800 demoPartition demoPartition_inRange).1⟩

/-- A bit in the feature map: the laboratory calls the superblock a candidate, the service
does not support it. -/
theorem feature_map_told_apart :
    InRange 12800 demoPartition ∧ ∃ o r,
      (inspectPartition .machine id 12800 demoPartition).result (demoImage 1) = .ok o ∧
      (inspectMDV10Superblock .machine id 12800 1 24).result (demoImage 1) = .ok r ∧
      ¬ ((o.status = .notFound ∧ r.status = .notFound) ∨
        (o.status = .damaged ∧ r.status = .damaged) ∨ o.toObserved = r.toObserved) := by
  have hservice : ((inspectPartition .machine id 12800 demoPartition).result (demoImage 1)).map
      (fun o => o.status) = .ok .unsupported := by decide +kernel
  have hlab : ((inspectMDV10Superblock .machine id 12800 1 24).result (demoImage 1)).map
      (fun r => r.status) = .ok .candidate := by decide +kernel
  refine ⟨demoPartition_inRange, ?_⟩
  rcases ho : (inspectPartition .machine id 12800 demoPartition).result (demoImage 1) with e | o
  · simp [ho, Except.map] at hservice
  rcases hr : (inspectMDV10Superblock .machine id 12800 1 24).result (demoImage 1) with e | r
  · simp [hr, Except.map] at hlab
  simp only [ho, hr, Except.map, Except.ok.injEq] at hservice hlab
  refine ⟨o, r, rfl, rfl, ?_⟩
  rintro (⟨hnone, -⟩ | ⟨hdamaged, -⟩ | hsame)
  · simp [hservice] at hnone
  · simp [hservice] at hdamaged
  · rw [hsame, hlab] at hservice
    simp at hservice

end MdSuperblock
