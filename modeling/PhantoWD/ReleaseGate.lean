import PhantoWD.ReleaseManifest

/-!
A release is judged from a signed manifest, a requested target, an installer version, the
version to upgrade from and the files of one directory. Every call the gate makes on a file is
answered by the environment, so a file may change between two calls.
-/
namespace ReleaseGate

open GoText ReleaseManifest
open ReleaseVersion (parseVersion compareVersions)

/-- SHA-256 and `ed25519.Verify` of a key, a message and a signature. -/
structure Crypto where
  sha256 : Bytes → Bytes
  verify : Bytes → Bytes → Bytes → Bool

def Crypto.digest (c : Crypto) (data : Bytes) : Bytes := hexEncode (c.sha256 data)

def Crypto.fingerprint (c : Crypto) (key : Bytes) : Bytes := ascii "sha256:" ++ c.digest key

structure Reader where
  bytes : Bytes
  fails : Bool

/-- `io.ReadAll(io.LimitReader(r, limit))`: a failure past the limit is not seen. -/
def Reader.readAll (r : Reader) (limit : Nat) : Option Bytes :=
  if r.bytes.length < limit ∧ r.fails then none else some (r.bytes.take limit)

structure FileInfo where
  isDir : Bool
  isRegular : Bool
  isSymlink : Bool
  size : Int
  modTime : Int
  identity : Nat
  deriving DecidableEq

/-- The answers to the calls `hashRegularArtifact` makes, in their order. -/
structure ArtifactIO where
  root : Option FileInfo
  before : Option FileInfo
  openOk : Bool
  opened : Option FileInfo
  reader : Reader
  after : Option FileInfo

structure ArtifactResult where
  name : Bytes
  role : Bytes
  expected : Int
  actual : Int
  sha256Match : Bool
  valid : Bool
  deriving DecidableEq

structure InstallerPolicy where
  evaluated : Bool
  installerVersion : Bytes
  minimumInstaller : Bytes
  compatible : Bool
  finding : String
  deriving DecidableEq

structure UpgradePrerequisite where
  evaluated : Bool
  currentVersion : Bytes
  releaseVersion : Bytes
  strictlyNewer : Bool
  finding : String
  deriving DecidableEq

structure Report where
  valid : Bool := false
  signatureValid : Bool := false
  artifactsChecked : Bool := false
  artifactsValid : Bool := false
  targetMatched : Bool := false
  channelMatched : Bool := false
  manifestSHA256 : Bytes := []
  signingKeyID : Bytes := []
  releaseVersion : Bytes := []
  channel : Bytes := []
  modelID : Bytes := []
  hardwareRevisions : List Bytes := []
  requestedModelID : Bytes := []
  requestedHardware : Bytes := []
  requestedChannel : Bytes := []
  artifacts : List ArtifactResult := []
  installerPolicy : Option InstallerPolicy := none
  upgradePrerequisite : Option UpgradePrerequisite := none
  findings : List String := []

inductive InspectError where
  | publicKeySize
  | requestedTarget
  | requestedChannel
  | readManifest
  | manifestSize
  | readSignature
  | invalidManifest
  | installerVersion
  | currentVersion
  deriving DecidableEq

structure VerifiedManifest where
  manifest : Manifest
  report : Report

structure Request where
  manifest : Reader
  signature : Reader
  publicKey : Bytes
  modelID : Bytes
  hardwareRevision : Bytes
  channel : Bytes

structure Inspection where
  verified : Option VerifiedManifest
  report : Report
  error : Option InspectError

def targetOf (r : Request) (m : Manifest) : Bool :=
  m.modelID == r.modelID && m.hardwareRevisions.items.contains r.hardwareRevision

def finding (missing : Bool) (text : String) : List String := if missing then [text] else []

def manifestReport (c : Crypto) (r : Request) (data : Bytes) (signed : Bool) (m : Manifest) :
    Report :=
  { signatureValid := signed
    targetMatched := targetOf r m
    channelMatched := m.channel == r.channel
    manifestSHA256 := c.digest data
    signingKeyID := if m.signingKeyID = c.fingerprint r.publicKey then m.signingKeyID else []
    releaseVersion := m.releaseVersion
    channel := m.channel
    modelID := m.modelID
    hardwareRevisions := m.hardwareRevisions.items
    requestedModelID := r.modelID
    requestedHardware := r.hardwareRevision
    requestedChannel := r.channel
    findings :=
      finding (!signed) "detached Ed25519 signature is invalid" ++
      finding (m.signingKeyID != c.fingerprint r.publicKey)
        "manifest signing_key_id does not match the supplied public key" ++
      (validateManifest m).toList ++
      finding (!targetOf r m)
        "release does not explicitly target the requested model and hardware revision" ++
      finding (m.channel != r.channel) "release channel does not match the requested channel" }

def concludeManifest (c : Crypto) (r : Request) (data : Bytes) (signed : Bool) (m : Manifest) :
    Inspection :=
  let report := manifestReport c r data signed m
  if signed = false ∨ m.signingKeyID ≠ c.fingerprint r.publicKey ∨ validateManifest m ≠ none ∨
      report.targetMatched = false ∨ report.channelMatched = false then
    ⟨none, report, none⟩
  else ⟨some ⟨m, report⟩, report, none⟩

def signatureSize : Nat := 64

def publicKeySize : Nat := 32

def inspectManifest (c : Crypto) (r : Request) : Inspection :=
  let report : Report :=
    { requestedModelID := r.modelID
      requestedHardware := r.hardwareRevision
      requestedChannel := r.channel }
  if r.publicKey.length ≠ publicKeySize then ⟨none, report, some .publicKeySize⟩
  else if !identifierPattern r.modelID ∨ !validHardwareRevision r.hardwareRevision then
    ⟨none, report, some .requestedTarget⟩
  else if !validChannel r.channel then ⟨none, report, some .requestedChannel⟩
  else
    match r.manifest.readAll (maxManifestSize + 1) with
    | none => ⟨none, report, some .readManifest⟩
    | some data =>
      if data = [] ∨ data.length > maxManifestSize then ⟨none, report, some .manifestSize⟩
      else
        let report := { report with manifestSHA256 := c.digest data }
        match r.signature.readAll (signatureSize + 1) with
        | none => ⟨none, report, some .readSignature⟩
        | some signature =>
          let signed := signature.length == signatureSize && c.verify r.publicKey data signature
          match decodeManifest data with
          | none =>
            ⟨none, { report with
              signatureValid := signed
              findings := finding (!signed) "detached Ed25519 signature is invalid" },
              some .invalidManifest⟩
          | some m => concludeManifest c r data signed m

def unverifiedFinding : String :=
  "verified signed metadata for the exact target and channel is required"

def VerifiedManifest.authenticated (v : VerifiedManifest) : Bool :=
  v.report.signatureValid && v.report.targetMatched && v.report.channelMatched

def assessInstallerVersion (v : VerifiedManifest) (installerVersion : Bytes) : InstallerPolicy :=
  if !v.authenticated then ⟨false, [], [], false, unverifiedFinding⟩
  else
    match compareVersions installerVersion v.manifest.minimumInstaller with
    | .error _ =>
      ⟨false, [], [], false,
        "installer and signed minimum must use strict v-prefixed SemVer syntax"⟩
    | .ok order =>
      ⟨true, installerVersion, v.manifest.minimumInstaller, order != .lt,
        if order = .lt then "installer version is below the signed minimum" else ""⟩

def assessUpgradePrerequisite (v : VerifiedManifest) (currentVersion : Bytes) :
    UpgradePrerequisite :=
  if !v.authenticated then ⟨false, [], [], false, unverifiedFinding⟩
  else
    match compareVersions v.manifest.releaseVersion currentVersion with
    | .error _ =>
      ⟨false, [], [], false,
        "current and signed release versions must use strict v-prefixed SemVer syntax"⟩
    | .ok order =>
      ⟨true, currentVersion, v.manifest.releaseVersion, order == .gt,
        if order = .gt then "" else "signed release is not a strictly newer version"⟩

def hashArtifactBytes (c : Crypto) (reader : Reader) (expectedSize : Int) : Int × Bytes × Bool :=
  if expectedSize ≤ 0 ∨ expectedSize > maxArtifactSize then (0, [], true)
  else
    let data := reader.bytes.take (expectedSize.toNat + 1)
    if (reader.bytes.length < expectedSize.toNat + 1 ∧ reader.fails) ∨
        (data.length : Int) ≠ expectedSize then
      (data.length, [], true)
    else (data.length, c.digest data, false)

def hashOpened (c : Crypto) (io : ArtifactIO) (opened : FileInfo) (expectedSize : Int) :
    Int × Bytes × Bool :=
  match hashArtifactBytes c io.reader expectedSize with
  | (count, _, true) => (count, [], true)
  | (count, digest, false) =>
    match io.after with
    | none => (count, [], true)
    | some after =>
      if count ≠ opened.size ∨ after.size ≠ opened.size ∨ after.modTime ≠ opened.modTime then
        (count, [], true)
      else (count, digest, false)

def hashFile (c : Crypto) (io : ArtifactIO) (before : FileInfo) (expectedSize : Int) :
    Int × Bytes × Bool :=
  if !io.openOk then (0, [], true)
  else
    match io.opened with
    | none => (0, [], true)
    | some opened =>
      if !opened.isRegular ∨ before.identity ≠ opened.identity ∨ opened.size ≠ expectedSize then
        (0, [], true)
      else hashOpened c io opened expectedSize

def hashEntry (c : Crypto) (io : ArtifactIO) (expectedSize : Int) : Int × Bytes × Bool :=
  match io.before with
  | none => (0, [], true)
  | some before =>
    if !before.isRegular ∨ before.isSymlink then (0, [], true)
    else if before.size < 0 ∨ before.size > maxArtifactSize then (before.size, [], true)
    else if before.size ≠ expectedSize then (before.size, [], false)
    else hashFile c io before expectedSize

def hashRegularArtifact (c : Crypto) (io : ArtifactIO) (expectedSize : Int) :
    Int × Bytes × Bool :=
  match io.root with
  | none => (0, [], true)
  | some root =>
    if !root.isDir ∨ root.isSymlink then (0, [], true)
    else hashEntry c io expectedSize

structure ArtifactCheck where
  result : ArtifactResult
  findings : List String
  touched : List Bytes

def specified (a : Artifact) : Bool :=
  validArtifactName a.name && decide (0 ≤ a.sizeBytes) && decide (a.sizeBytes ≤ maxArtifactSize) &&
    digestPattern a.sha256

def nameText (name : Bytes) : String := String.ofList (name.map fun b => Char.ofNat b.toNat)

def checkArtifact (c : Crypto) (io : ArtifactIO) (a : Artifact) : ArtifactCheck :=
  if !specified a then ⟨⟨a.name, a.role, a.sizeBytes, 0, false, false⟩, [], []⟩
  else
    let (actual, digest, failed) := hashRegularArtifact c io a.sizeBytes
    let matched := !failed && digest == a.sha256
    let valid := !failed && actual == a.sizeBytes && matched
    ⟨⟨a.name, a.role, a.sizeBytes, actual, matched, valid⟩,
      if valid then []
      else if failed then
        ["artifact " ++ nameText a.name ++ " is unavailable or not a regular file"]
      else if actual ≠ a.sizeBytes then
        ["artifact " ++ nameText a.name ++ " size does not match the signed manifest"]
      else ["artifact " ++ nameText a.name ++ " SHA-256 does not match the signed manifest"],
      [a.name]⟩

/-- The answers to the calls on the `i`-th artifact, which has the given name. -/
abbrev Environment := Nat → Bytes → ArtifactIO

def artifactChecks (c : Crypto) (env : Environment) (m : Manifest) : List ArtifactCheck :=
  m.artifacts.items.zipIdx.map fun p => checkArtifact c (env p.2 p.1.name) p.1

/-- The report and the names of the artifacts whose files were looked at. -/
def verifyArtifacts (c : Crypto) (env : Environment) (v : VerifiedManifest) :
    Report × List Bytes :=
  let checks := artifactChecks c env v.manifest
  let findings := v.report.findings ++ checks.flatMap (·.findings)
  let artifactsValid := checks.all (·.result.valid) && v.manifest.artifacts.items != []
  ({ v.report with
      artifactsChecked := true
      artifacts := v.report.artifacts ++ checks.map (·.result)
      artifactsValid := artifactsValid
      findings := findings
      valid := v.report.signatureValid && artifactsValid && v.report.targetMatched &&
        v.report.channelMatched && findings == [] },
    checks.flatMap (·.touched))

structure Outcome where
  report : Report
  error : Option InspectError
  touched : List Bytes

def inspectUpgradeFrom (c : Crypto) (env : Environment) (v : VerifiedManifest) (report : Report)
    (policy : Option InstallerPolicy) (upgradeFrom : Bytes) : Outcome :=
  if upgradeFrom ≠ [] then
    let upgrade := assessUpgradePrerequisite v upgradeFrom
    if !upgrade.strictlyNewer then
      ⟨{ report with upgradePrerequisite := some upgrade, installerPolicy := policy }, none, []⟩
    else
      let (checked, touched) := verifyArtifacts c env v
      ⟨{ checked with installerPolicy := policy, upgradePrerequisite := some upgrade }, none,
        touched⟩
  else
    let (checked, touched) := verifyArtifacts c env v
    ⟨{ checked with installerPolicy := policy, upgradePrerequisite := none }, none, touched⟩

def inspectVerified (c : Crypto) (env : Environment) (v : VerifiedManifest) (report : Report)
    (installerVersion upgradeFrom : Bytes) : Outcome :=
  if installerVersion ≠ [] then
    let policy := assessInstallerVersion v installerVersion
    if !policy.compatible then ⟨{ report with installerPolicy := some policy }, none, []⟩
    else inspectUpgradeFrom c env v report (some policy) upgradeFrom
  else inspectUpgradeFrom c env v report none upgradeFrom

def strictVersion (v : Bytes) : Bool :=
  match compareVersions v v with
  | .ok _ => true
  | .error _ => false

def inspectWithPrerequisites (c : Crypto) (env : Environment) (r : Request)
    (installerVersion upgradeFrom : Bytes) : Outcome :=
  if installerVersion ≠ [] ∧ !strictVersion installerVersion then
    ⟨{}, some .installerVersion, []⟩
  else
    let inspection := inspectManifest c r
    match inspection.error, inspection.verified with
    | none, some v => inspectVerified c env v inspection.report installerVersion upgradeFrom
    | error, _ => ⟨inspection.report, error, []⟩

def inspectWithInstallerVersion (c : Crypto) (env : Environment) (r : Request)
    (installerVersion : Bytes) : Outcome :=
  inspectWithPrerequisites c env r installerVersion []

def inspectUpgrade (c : Crypto) (env : Environment) (r : Request)
    (installerVersion currentVersion : Bytes) : Outcome :=
  if !strictVersion currentVersion then ⟨{}, some .currentVersion, []⟩
  else inspectWithPrerequisites c env r installerVersion currentVersion

structure LogicalPayload where
  name : Bytes
  role : Bytes
  sizeBytes : Int
  destination : String
  deriving DecidableEq

structure InstallationPreview where
  status : String
  verification : Report
  writeOperations : List String
  logicalPayloads : List LogicalPayload
  blockers : List String

def blockers : List String :=
  ["g8_target_qualification_deferred", "recovery_unqualified", "installation_layout_unapproved"]

def previewOf (report : Report) (currentVersion : Bytes) : InstallationPreview :=
  if !report.valid then
    ⟨"verification-failed", report, [], [], "bundle_verification_failed" :: blockers⟩
  else
    ⟨"refused", report, [],
      report.artifacts.map fun a => ⟨a.name, a.role, a.expected, "unassigned"⟩,
      if currentVersion = [] then blockers ++ ["installed_version_unknown"] else blockers⟩

def previewInstallation (c : Crypto) (env : Environment) (r : Request)
    (installerVersion currentVersion : Bytes) : Except InspectError InstallationPreview :=
  if !strictVersion installerVersion then .error .installerVersion
  else
    let outcome :=
      if currentVersion = [] then inspectWithInstallerVersion c env r installerVersion
      else inspectUpgrade c env r installerVersion currentVersion
    match outcome.error with
    | some e => .error e
    | none => .ok (previewOf outcome.report currentVersion)

structure Authentic (c : Crypto) (r : Request) (m : Manifest) : Prop where
  key : r.publicKey.length = publicKeySize
  delivered : r.manifest.fails = false ∧ r.signature.fails = false
  size : r.signature.bytes.length = signatureSize
  signed : c.verify r.publicKey r.manifest.bytes r.signature.bytes = true
  decoded : decodeManifest r.manifest.bytes = some m
  validated : validateManifest m = none
  signer : m.signingKeyID = c.fingerprint r.publicKey
  model : m.modelID = r.modelID
  hardware : r.hardwareRevision ∈ m.hardwareRevisions.items
  channel : m.channel = r.channel

structure Eligible (c : Crypto) (r : Request) (installerVersion upgradeFrom : Bytes)
    (m : Manifest) : Prop extends Authentic c r m where
  installer : installerVersion ≠ [] →
    ∃ o, compareVersions installerVersion m.minimumInstaller = .ok o ∧ o ≠ .lt
  newer : upgradeFrom ≠ [] → compareVersions m.releaseVersion upgradeFrom = .ok .gt

/-- The artifact was read, unchanged, as a regular file of the signed size and digest. -/
structure ReadExactly (c : Crypto) (io : ArtifactIO) (a : Artifact) : Prop where
  root : ∃ i, io.root = some i ∧ i.isDir = true ∧ i.isSymlink = false
  file : ∃ before opened after, io.before = some before ∧ io.openOk = true ∧
    io.opened = some opened ∧ io.after = some after ∧
    before.isRegular = true ∧ before.isSymlink = false ∧ opened.isRegular = true ∧
    before.identity = opened.identity ∧ before.size = a.sizeBytes ∧
    opened.size = a.sizeBytes ∧ after.size = a.sizeBytes ∧ after.modTime = opened.modTime
  complete : io.reader.fails = false
  size : (io.reader.bytes.length : Int) = a.sizeBytes
  digest : c.digest io.reader.bytes = a.sha256

theorem readAll_some {r : Reader} {limit : Nat} {data : Bytes}
    (h : r.readAll limit = some data) (hlen : data.length < limit) :
    data = r.bytes ∧ r.fails = false := by
  unfold Reader.readAll at h
  by_cases hf : r.bytes.length < limit ∧ r.fails = true
  · simp [hf] at h
  · rw [if_neg hf, Option.some.injEq] at h
    subst h
    rw [List.length_take] at hlen
    have hlt : r.bytes.length < limit := by omega
    refine ⟨List.take_of_length_le (Nat.le_of_lt hlt), ?_⟩
    simpa [hlt] using hf

theorem readAll_eq {r : Reader} {limit : Nat} (hf : r.fails = false)
    (hlen : r.bytes.length < limit) : r.readAll limit = some r.bytes := by
  simp [Reader.readAll, hf, List.take_of_length_le (Nat.le_of_lt hlen)]

variable {m : Manifest}

theorem decoded_size {data : Bytes} (h : decodeManifest data = some m) :
    data ≠ [] ∧ data.length ≤ maxManifestSize := by
  obtain ⟨v, hv, -⟩ := Option.bind_eq_some_iff.mp h
  simp only [checkManifestStructure, Option.bind_eq_bind, Option.bind_eq_some_iff,
    Option.guard_eq_some'] at hv
  obtain ⟨_, hguard, -⟩ := hv
  exact ⟨hguard.1, hguard.2.1⟩

@[simp] theorem finding_eq_nil {missing : Bool} {text : String} :
    finding missing text = [] ↔ missing = false := by
  cases missing <;> simp [finding]

variable {r : Request}

theorem targetOf_iff :
    targetOf r m = true ↔
      m.modelID = r.modelID ∧ r.hardwareRevision ∈ m.hardwareRevisions.items := by
  simp [targetOf]

structure Clean (v : VerifiedManifest) : Prop where
  signed : v.report.signatureValid = true
  target : v.report.targetMatched = true
  channel : v.report.channelMatched = true
  findings : v.report.findings = []

variable {v : VerifiedManifest}

theorem Clean.authenticated (h : Clean v) : v.authenticated = true := by
  simp [VerifiedManifest.authenticated, h.signed, h.target, h.channel]

variable {c : Crypto}

theorem concludeManifest_verified {data : Bytes} {signed : Bool}
    (h : (concludeManifest c r data signed m).verified = some v) :
    v.manifest = m ∧ Clean v ∧ signed = true ∧ m.signingKeyID = c.fingerprint r.publicKey ∧
      validateManifest m = none ∧ targetOf r m = true ∧ m.channel = r.channel := by
  simp only [concludeManifest] at h
  split at h
  · cases h
  · next hall =>
    simp only [Option.some.injEq] at h
    subst h
    simp only [manifestReport, not_or, Bool.not_eq_false, not_not, ne_eq,
      beq_eq_false_iff_ne] at hall
    obtain ⟨hsigned, hkey, hvalid, htarget, hchannel⟩ := hall
    refine ⟨rfl, ⟨hsigned, htarget, by simpa [manifestReport] using hchannel, ?_⟩, hsigned, hkey,
      hvalid, htarget, hchannel⟩
    simp [manifestReport, hsigned, hkey, hvalid, htarget, hchannel]

theorem concludeManifest_of (data : Bytes) (hkey : m.signingKeyID = c.fingerprint r.publicKey)
    (hvalid : validateManifest m = none) (htarget : targetOf r m = true)
    (hchannel : m.channel = r.channel) :
    ∃ v report, concludeManifest c r data true m = ⟨some v, report, none⟩ ∧ v.manifest = m := by
  refine ⟨⟨m, manifestReport c r data true m⟩, manifestReport c r data true m, ?_, rfl⟩
  simp [concludeManifest, manifestReport, hkey, hvalid, htarget, hchannel]

theorem inspectManifest_verified (h : (inspectManifest c r).verified = some v) :
    Authentic c r v.manifest ∧ Clean v := by
  unfold inspectManifest at h
  split_ifs at h with hkey
  cases hm : r.manifest.readAll (maxManifestSize + 1) with
  | none => simp [hm] at h
  | some data =>
    simp only [hm] at h
    split_ifs at h
    cases hs : r.signature.readAll (signatureSize + 1) with
    | none => simp [hs] at h
    | some signature =>
      cases hd : decodeManifest data with
      | none => simp [hs, hd] at h
      | some m =>
        simp only [hs, hd] at h
        obtain ⟨hmanifest, hclean, hsigned, hsigner, hvalid, hmatch, hchan⟩ :=
          concludeManifest_verified h
        obtain ⟨hmodel, hhardware⟩ := targetOf_iff.mp hmatch
        rw [Bool.and_eq_true, beq_iff_eq] at hsigned
        obtain ⟨rfl, hmfails⟩ := readAll_some hm (by omega)
        obtain ⟨rfl, hsfails⟩ := readAll_some hs (by omega)
        subst hmanifest
        exact ⟨⟨not_not.mp hkey, ⟨hmfails, hsfails⟩, hsigned.1, hsigned.2, hd, hvalid, hsigner,
          hmodel, hhardware, hchan⟩, hclean⟩

theorem inspectManifest_of (h : Authentic c r m) :
    ∃ v report, inspectManifest c r = ⟨some v, report, none⟩ ∧ v.manifest = m := by
  have hvalid := valid_of_validate h.validated
  obtain ⟨hne, hmax⟩ := decoded_size h.decoded
  have hm : r.manifest.readAll (maxManifestSize + 1) = some r.manifest.bytes :=
    readAll_eq h.delivered.1 (by omega)
  have hs : r.signature.readAll (signatureSize + 1) = some r.signature.bytes :=
    readAll_eq h.delivered.2 (by rw [h.size]; omega)
  obtain ⟨v, report, hv, hvm⟩ := concludeManifest_of r.manifest.bytes h.signer h.validated
    (targetOf_iff.mpr ⟨h.model, h.hardware⟩) h.channel
  refine ⟨v, report, ?_, hvm⟩
  have hmodel : identifierPattern r.modelID = true := h.model ▸ hvalid.model
  have hhardware := hvalid.revisions _ h.hardware
  have hchannel : validChannel r.channel = true := h.channel ▸ hvalid.channel
  simp [inspectManifest, h.key, hmodel, hhardware, hchannel, hm, hne, Nat.not_lt.mpr hmax, hs,
    h.size, h.signed, h.decoded, hv]

section Hashing

variable {c : Crypto} {io : ArtifactIO} {a : Artifact}

/-- A stage that fails never returns the signed size and digest. -/
theorem refused_iff {p : Prop} [Decidable p] {n size : Int} {digest : Bytes}
    {rest : Int × Bytes × Bool} :
    (if p then (n, [], true) else rest) = (size, digest, false) ↔
      ¬p ∧ rest = (size, digest, false) := by
  by_cases h : p <;> simp [h]

theorem hashArtifactBytes_iff (ha : a.Valid) {count : Int} {digest : Bytes} :
    hashArtifactBytes c io.reader a.sizeBytes = (count, digest, false) ↔
      (io.reader.fails = false ∧ (io.reader.bytes.length : Int) = a.sizeBytes) ∧
        count = a.sizeBytes ∧ digest = c.digest io.reader.bytes := by
  have hpos := ha.positive
  have hmax := ha.bounded
  have hbound : ¬(a.sizeBytes ≤ 0 ∨ a.sizeBytes > maxArtifactSize) := by omega
  rw [hashArtifactBytes, if_neg hbound]
  by_cases hlen : (io.reader.bytes.length : Int) = a.sizeBytes
  · have htake : io.reader.bytes.take (a.sizeBytes.toNat + 1) = io.reader.bytes :=
      List.take_of_length_le (by omega)
    have hlt : io.reader.bytes.length < a.sizeBytes.toNat + 1 := by omega
    simp only [htake, hlen, refused_iff, hlt, true_and, ne_eq, not_true_eq_false, or_false,
      Bool.not_eq_true, Prod.mk.injEq, and_true]
    constructor
    · rintro ⟨hf, hcount, hdigest⟩
      exact ⟨hf, hcount.symm, hdigest.symm⟩
    · rintro ⟨hf, hcount, hdigest⟩
      exact ⟨hf, hcount.symm, hdigest.symm⟩
  · have hne : ((io.reader.bytes.take (a.sizeBytes.toNat + 1)).length : Int) ≠ a.sizeBytes := by
      rw [List.length_take]
      omega
    simp only [refused_iff, hlen, and_false, false_and, iff_false]
    exact fun h => h.1 (.inr hne)

theorem hashOpened_iff (ha : a.Valid) {opened : FileInfo} :
    hashOpened c io opened a.sizeBytes = (a.sizeBytes, a.sha256, false) ↔
      (io.reader.fails = false ∧ (io.reader.bytes.length : Int) = a.sizeBytes ∧
        c.digest io.reader.bytes = a.sha256) ∧
      ∃ after, io.after = some after ∧ a.sizeBytes = opened.size ∧ after.size = opened.size ∧
        after.modTime = opened.modTime := by
  rcases hbytes : hashArtifactBytes c io.reader a.sizeBytes with ⟨count, digest, failed⟩
  cases failed with
  | true =>
    have hno : ¬(io.reader.fails = false ∧ (io.reader.bytes.length : Int) = a.sizeBytes) := by
      intro hok
      have hread : hashArtifactBytes c io.reader a.sizeBytes = (_, _, false) :=
        (hashArtifactBytes_iff ha).mpr ⟨hok, rfl, rfl⟩
      simp [hbytes] at hread
    simp only [hashOpened, hbytes, Prod.mk.injEq, Bool.true_eq_false, and_false, false_iff]
    exact fun h => hno ⟨h.1.1, h.1.2.1⟩
  | false =>
    obtain ⟨⟨hf, hlen⟩, rfl, rfl⟩ := (hashArtifactBytes_iff ha).mp hbytes
    cases hafter : io.after with
    | none => simp [hashOpened, hbytes, hafter]
    | some after =>
      simp only [hashOpened, hbytes, hafter, refused_iff, not_or, not_not, ne_eq, hf, hlen,
        true_and, Prod.mk.injEq, and_true, Option.some.injEq, exists_eq_left']
      exact and_comm

theorem hashFile_iff {before : FileInfo} :
    hashFile c io before a.sizeBytes = (a.sizeBytes, a.sha256, false) ↔
      io.openOk = true ∧ ∃ opened, io.opened = some opened ∧
        (opened.isRegular = true ∧ before.identity = opened.identity ∧
          opened.size = a.sizeBytes) ∧
        hashOpened c io opened a.sizeBytes = (a.sizeBytes, a.sha256, false) := by
  rw [hashFile, refused_iff]
  cases hopened : io.opened with
  | none => simp
  | some opened => simp [refused_iff, and_assoc]

theorem hashEntry_iff (ha : a.Valid) :
    hashEntry c io a.sizeBytes = (a.sizeBytes, a.sha256, false) ↔
      ∃ before, io.before = some before ∧
        (before.isRegular = true ∧ before.isSymlink = false ∧ before.size = a.sizeBytes) ∧
        hashFile c io before a.sizeBytes = (a.sizeBytes, a.sha256, false) := by
  have hpos := ha.positive
  have hmax := ha.bounded
  rw [hashEntry]
  cases hbefore : io.before with
  | none => simp
  | some before =>
    by_cases hsize : before.size = a.sizeBytes
    · have hbound : ¬(a.sizeBytes < 0 ∨ a.sizeBytes > maxArtifactSize) := by omega
      simp only [refused_iff, hsize, hbound, ne_eq, not_true_eq_false, if_false,
        Option.some.injEq, exists_eq_left']
      simp
    · simp [refused_iff, hsize]

/-- Size and digest come back only from an unchanged regular file. -/
theorem hashRegularArtifact_iff (ha : a.Valid) :
    hashRegularArtifact c io a.sizeBytes = (a.sizeBytes, a.sha256, false) ↔
      ReadExactly c io a := by
  have hroot : hashRegularArtifact c io a.sizeBytes = (a.sizeBytes, a.sha256, false) ↔
      (∃ i, io.root = some i ∧ i.isDir = true ∧ i.isSymlink = false) ∧
        hashEntry c io a.sizeBytes = (a.sizeBytes, a.sha256, false) := by
    rw [hashRegularArtifact]
    cases io.root with
    | none => simp
    | some root => simp [refused_iff]
  rw [hroot, hashEntry_iff ha]
  simp only [hashFile_iff, hashOpened_iff ha]
  constructor
  · rintro ⟨hdir, before, hbefore, ⟨hreg, hsym, hsize⟩, hopen, opened, hopened,
      ⟨hreg', hid, hosize⟩, ⟨hf, hlen, hdigest⟩, after, hafter, -, hasize, hmod⟩
    exact ⟨hdir, ⟨before, opened, after, hbefore, hopen, hopened, hafter, hreg, hsym, hreg', hid,
      hsize, hosize, hasize.trans hosize, hmod⟩, hf, hlen, hdigest⟩
  · intro h
    obtain ⟨before, opened, after, hbefore, hopen, hopened, hafter, hreg, hsym, hreg', hid, hsize,
      hosize, hasize, hmod⟩ := h.file
    exact ⟨h.root, before, hbefore, ⟨hreg, hsym, hsize⟩, hopen, opened, hopened,
      ⟨hreg', hid, hosize⟩, ⟨h.complete, h.size, h.digest⟩, after, hafter, hosize.symm,
      hasize.trans hosize.symm, hmod⟩

end Hashing

theorem specified_of_valid {a : Artifact} (h : a.Valid) : specified a = true := by
  simp [specified, h.name, h.digest, h.bounded, Int.le_of_lt h.positive]

theorem checkArtifact_iff {io : ArtifactIO} {a : Artifact} (ha : a.Valid) :
    ((checkArtifact c io a).result.valid = true ↔ ReadExactly c io a) ∧
      ((checkArtifact c io a).result.valid = true → (checkArtifact c io a).findings = []) := by
  rw [← hashRegularArtifact_iff ha]
  rcases hh : hashRegularArtifact c io a.sizeBytes with ⟨actual, digest, failed⟩
  cases failed with
  | true => simp [checkArtifact, specified_of_valid ha, hh]
  | false =>
    by_cases hactual : actual = a.sizeBytes
    · by_cases hdigest : digest = a.sha256
      · simp [checkArtifact, specified_of_valid ha, hh, hactual, hdigest]
      · simp [checkArtifact, specified_of_valid ha, hh, hdigest]
    · simp [checkArtifact, specified_of_valid ha, hh, hactual]

def AllRead (c : Crypto) (env : Environment) (m : Manifest) : Prop :=
  ∀ p ∈ m.artifacts.items.zipIdx, ReadExactly c (env p.2 p.1.name) p.1

theorem artifactChecks_iff (c : Crypto) (env : Environment) (hm : Valid m) :
    ((artifactChecks c env m).all (·.result.valid) = true ↔ AllRead c env m) ∧
      ((artifactChecks c env m).all (·.result.valid) = true →
        (artifactChecks c env m).flatMap (·.findings) = []) := by
  have hartifact : ∀ p ∈ m.artifacts.items.zipIdx, p.1.Valid := by
    intro p hp
    exact hm.artifacts p.1 (List.fst_mem_of_mem_zipIdx hp)
  simp only [artifactChecks, List.all_map, List.all_eq_true, Function.comp_apply,
    List.flatMap_map, List.flatMap_eq_nil_iff, AllRead]
  constructor
  · constructor
    · exact fun h p hp => (checkArtifact_iff (hartifact p hp)).1.mp (h p hp)
    · exact fun h p hp => (checkArtifact_iff (hartifact p hp)).1.mpr (h p hp)
  · exact fun h p hp => (checkArtifact_iff (hartifact p hp)).2 (h p hp)

theorem verifyArtifacts_valid_iff (c : Crypto) (env : Environment) (hclean : Clean v)
    (hm : Valid v.manifest) :
    (verifyArtifacts c env v).1.valid = true ↔ AllRead c env v.manifest := by
  obtain ⟨hiff, hfindings⟩ := artifactChecks_iff c env hm
  rw [← hiff]
  simp only [verifyArtifacts, hclean.signed, hclean.target, hclean.channel, hclean.findings,
    Bool.true_and, Bool.and_true, List.nil_append, Bool.and_eq_true, bne_iff_ne, ne_eq,
    beq_iff_eq]
  constructor
  · exact fun h => h.1.1
  · exact fun h => ⟨⟨h, hm.listed⟩, hfindings h⟩

theorem inspectManifest_report (c : Crypto) (r : Request) :
    (inspectManifest c r).report.valid = false := by
  unfold inspectManifest
  by_cases hkey : r.publicKey.length ≠ publicKeySize
  · rw [if_pos hkey]
  rw [if_neg hkey]
  by_cases htarget : !identifierPattern r.modelID ∨ !validHardwareRevision r.hardwareRevision
  · rw [if_pos htarget]
  rw [if_neg htarget]
  by_cases hchannel : (!validChannel r.channel) = true
  · rw [if_pos hchannel]
  rw [if_neg hchannel]
  cases r.manifest.readAll (maxManifestSize + 1) with
  | none => rfl
  | some data =>
    by_cases hsize : data = [] ∨ data.length > maxManifestSize
    · simp [hsize]
    simp only [if_neg hsize]
    cases r.signature.readAll (signatureSize + 1) with
    | none => rfl
    | some signature =>
      cases decodeManifest data with
      | none => rfl
      | some m =>
        simp only [concludeManifest]
        split <;> rfl

section Prerequisites

variable (c : Crypto) (env : Environment) {v : VerifiedManifest} {report : Report}

theorem compatible_iff (hclean : Clean v) (installerVersion : Bytes) :
    (assessInstallerVersion v installerVersion).compatible = true ↔
      ∃ o, compareVersions installerVersion v.manifest.minimumInstaller = .ok o ∧ o ≠ .lt := by
  simp only [assessInstallerVersion, hclean.authenticated, Bool.not_true, Bool.false_eq_true,
    if_false]
  cases compareVersions installerVersion v.manifest.minimumInstaller with
  | error e => simp
  | ok o => simp

theorem strictlyNewer_iff (hclean : Clean v) (currentVersion : Bytes) :
    (assessUpgradePrerequisite v currentVersion).strictlyNewer = true ↔
      compareVersions v.manifest.releaseVersion currentVersion = .ok .gt := by
  simp only [assessUpgradePrerequisite, hclean.authenticated, Bool.not_true, Bool.false_eq_true,
    if_false]
  cases compareVersions v.manifest.releaseVersion currentVersion with
  | error e => simp
  | ok o => simp

/-- An outcome is valid exactly when the condition holds and all artifacts were read, and
touches none otherwise. -/
structure Gated (out : Outcome) (condition : Prop) (c : Crypto) (env : Environment)
    (m : Manifest) : Prop where
  valid_iff : out.report.valid = true ↔ condition ∧ AllRead c env m
  untouched : ¬condition → out.touched = []

theorem inspectUpgradeFrom_gated (hclean : Clean v) (hm : Valid v.manifest)
    (hreport : report.valid = false) (policy : Option InstallerPolicy) (upgradeFrom : Bytes) :
    Gated (inspectUpgradeFrom c env v report policy upgradeFrom)
      (upgradeFrom ≠ [] → compareVersions v.manifest.releaseVersion upgradeFrom = .ok .gt)
      c env v.manifest := by
  have hverify := verifyArtifacts_valid_iff c env hclean hm
  have hnewer := strictlyNewer_iff hclean upgradeFrom
  by_cases hup : upgradeFrom = []
  · constructor
    · simp [inspectUpgradeFrom, hup, hverify]
    · simp [hup]
  by_cases hok : compareVersions v.manifest.releaseVersion upgradeFrom = .ok .gt
  · constructor
    · simp [inspectUpgradeFrom, hup, hnewer.mpr hok, hok, hverify]
    · simp [hok]
  · have hnot : (assessUpgradePrerequisite v upgradeFrom).strictlyNewer = false :=
      Bool.eq_false_iff.mpr fun h => hok (hnewer.mp h)
    constructor
    · simp [inspectUpgradeFrom, hup, hnot, hok, hreport]
    · simp [inspectUpgradeFrom, hup, hnot]

theorem inspectVerified_gated (hclean : Clean v) (hm : Valid v.manifest)
    (hreport : report.valid = false) (installerVersion upgradeFrom : Bytes) :
    Gated (inspectVerified c env v report installerVersion upgradeFrom)
      ((installerVersion ≠ [] →
          ∃ o, compareVersions installerVersion v.manifest.minimumInstaller = .ok o ∧ o ≠ .lt) ∧
        (upgradeFrom ≠ [] → compareVersions v.manifest.releaseVersion upgradeFrom = .ok .gt))
      c env v.manifest := by
  have hcompatible := compatible_iff hclean installerVersion
  by_cases hi : installerVersion = []
  · have hrest := inspectUpgradeFrom_gated c env hclean hm hreport none upgradeFrom
    constructor
    · simpa [inspectVerified, hi] using hrest.valid_iff
    · simpa [inspectVerified, hi] using hrest.untouched
  by_cases hok : (assessInstallerVersion v installerVersion).compatible = true
  · have hrest := inspectUpgradeFrom_gated c env hclean hm hreport
      (some (assessInstallerVersion v installerVersion)) upgradeFrom
    have hinstaller := hcompatible.mp hok
    constructor
    · rw [inspectVerified, if_pos hi]
      simp only [hok, Bool.not_true, Bool.false_eq_true, if_false]
      rw [hrest.valid_iff]
      exact and_congr_left fun _ => ⟨fun h => ⟨fun _ => hinstaller, h⟩, fun h => h.2⟩
    · intro hnot
      rw [inspectVerified, if_pos hi]
      simp only [hok, Bool.not_true, Bool.false_eq_true, if_false]
      exact hrest.untouched fun h => hnot ⟨fun _ => hinstaller, h⟩
  · have hno := fun h => hok (hcompatible.mpr h)
    constructor
    · rw [inspectVerified, if_pos hi]
      simp only [hok, Bool.not_false, if_true, hreport, Bool.false_eq_true, false_iff]
      exact fun h => hno (h.1.1 hi)
    · intro _
      simp [inspectVerified, hi, hok]

end Prerequisites

theorem strictVersion_of_ok {a b : Bytes} {o : Ordering} (h : compareVersions a b = .ok o) :
    strictVersion a = true ∧ strictVersion b = true := by
  obtain ⟨v, w, ha, hb⟩ := ReleaseVersion.compareVersions_ok h
  simp [strictVersion, compareVersions, ha, hb]

def Accepts (c : Crypto) (env : Environment) (r : Request) (installerVersion upgradeFrom : Bytes) :
    Prop :=
  ∃ m, Eligible c r installerVersion upgradeFrom m ∧ AllRead c env m

/-- The stages together: valid on all facts, untouched until eligible. -/
theorem inspectWithPrerequisites_gate (c : Crypto) (env : Environment) (r : Request)
    (installerVersion upgradeFrom : Bytes) :
    ((inspectWithPrerequisites c env r installerVersion upgradeFrom).report.valid = true ↔
      Accepts c env r installerVersion upgradeFrom) ∧
    ((inspectWithPrerequisites c env r installerVersion upgradeFrom).touched ≠ [] →
      ∃ m, Eligible c r installerVersion upgradeFrom m) := by
  by_cases hstrict : installerVersion ≠ [] ∧ !strictVersion installerVersion
  · have hno : ∀ m, ¬Eligible c r installerVersion upgradeFrom m := by
      intro m hm
      obtain ⟨o, ho, -⟩ := hm.installer hstrict.1
      simpa [(strictVersion_of_ok ho).1] using hstrict.2
    rw [inspectWithPrerequisites, if_pos hstrict]
    simp [Accepts, hno]
  rw [inspectWithPrerequisites, if_neg hstrict]
  cases hv : (inspectManifest c r).verified with
  | none =>
    have hno : ∀ m, ¬Authentic c r m := by
      intro m hm
      obtain ⟨v, report, hi, -⟩ := inspectManifest_of hm
      rw [hi] at hv
      cases hv
    have hnoe : ∀ m, ¬Eligible c r installerVersion upgradeFrom m :=
      fun m hm => hno m hm.toAuthentic
    cases he : (inspectManifest c r).error <;> simp [Accepts, hnoe, hv, he, inspectManifest_report]
  | some v =>
    obtain ⟨hauth, hclean⟩ := inspectManifest_verified hv
    obtain ⟨v', report, hi, -⟩ := inspectManifest_of hauth
    have herror : (inspectManifest c r).error = none := by rw [hi]
    have hgate := inspectVerified_gated c env hclean
      (valid_of_validate hauth.validated) (inspectManifest_report c r) installerVersion upgradeFrom
    -- the manifest of any eligible reading is the one that was decoded
    have hunique : ∀ {m}, Authentic c r m → m = v.manifest := fun hm =>
      Option.some.inj (hm.decoded.symm.trans hauth.decoded)
    simp only [herror, hv]
    constructor
    · rw [hgate.valid_iff]
      constructor
      · rintro ⟨⟨hinst, hnew⟩, hread⟩
        exact ⟨v.manifest, ⟨hauth, hinst, hnew⟩, hread⟩
      · rintro ⟨m, hm, hread⟩
        obtain rfl := hunique hm.toAuthentic
        exact ⟨⟨hm.installer, hm.newer⟩, hread⟩
    · intro htouched
      by_contra hnone
      exact htouched (hgate.untouched fun h => hnone ⟨v.manifest, hauth, h.1, h.2⟩)

theorem inspectUpgrade_gate (c : Crypto) (env : Environment) (r : Request)
    (installerVersion currentVersion : Bytes) :
    ((inspectUpgrade c env r installerVersion currentVersion).report.valid = true ↔
      currentVersion ≠ [] ∧ Accepts c env r installerVersion currentVersion) ∧
    ((inspectUpgrade c env r installerVersion currentVersion).touched ≠ [] →
      ∃ m, Eligible c r installerVersion currentVersion m) := by
  obtain ⟨hvalid, htouched⟩ :=
    inspectWithPrerequisites_gate c env r installerVersion currentVersion
  by_cases hstrict : strictVersion currentVersion = true
  · have hne : currentVersion ≠ [] := by
      rintro rfl
      exact absurd hstrict (by decide)
    simp only [inspectUpgrade, hstrict, Bool.not_true, Bool.false_eq_true, if_false]
    exact ⟨by rw [hvalid]; exact ⟨fun h => ⟨hne, h⟩, fun h => h.2⟩, htouched⟩
  · have hno : ¬(currentVersion ≠ [] ∧ Accepts c env r installerVersion currentVersion) := by
      rintro ⟨hne, m, hm, -⟩
      exact hstrict (strictVersion_of_ok (hm.newer hne)).2
    simp [inspectUpgrade, hstrict, hno]

theorem inspectUpgradeFrom_error (c : Crypto) (env : Environment) (v : VerifiedManifest)
    (report : Report) (policy : Option InstallerPolicy) (upgradeFrom : Bytes) :
    (inspectUpgradeFrom c env v report policy upgradeFrom).error = none := by
  simp only [inspectUpgradeFrom]
  split
  · split <;> rfl
  · rfl

theorem inspectVerified_error (c : Crypto) (env : Environment) (v : VerifiedManifest)
    (report : Report) (installerVersion upgradeFrom : Bytes) :
    (inspectVerified c env v report installerVersion upgradeFrom).error = none := by
  simp only [inspectVerified]
  split
  · split
    · rfl
    · exact inspectUpgradeFrom_error c env v report _ upgradeFrom
  · exact inspectUpgradeFrom_error c env v report none upgradeFrom

theorem error_of_valid {env : Environment} {installerVersion upgradeFrom : Bytes}
    (h : (inspectWithPrerequisites c env r installerVersion upgradeFrom).report.valid = true) :
    (inspectWithPrerequisites c env r installerVersion upgradeFrom).error = none := by
  unfold inspectWithPrerequisites at h ⊢
  split_ifs at h ⊢
  cases he : (inspectManifest c r).error with
  | some e => simp [he, inspectManifest_report] at h
  | none =>
    cases hv : (inspectManifest c r).verified with
    | none => simp only [he, hv]
    | some v =>
      simp only [he, hv]
      exact inspectVerified_error c env v _ installerVersion upgradeFrom

/-- A preview's report is valid on the same facts, and payloads are listed only with it. -/
theorem previewInstallation_gate {env : Environment} {installerVersion currentVersion : Bytes}
    {p : InstallationPreview}
    (h : previewInstallation c env r installerVersion currentVersion = .ok p) :
    (p.verification.valid = true ↔ Accepts c env r installerVersion currentVersion) ∧
      (p.logicalPayloads ≠ [] → p.verification.valid = true) := by
  unfold previewInstallation at h
  split at h
  · cases h
  generalize hout : (if currentVersion = [] then
      inspectWithInstallerVersion c env r installerVersion
    else inspectUpgrade c env r installerVersion currentVersion) = outcome at h
  have hgate : outcome.report.valid = true ↔ Accepts c env r installerVersion currentVersion := by
    rw [← hout]
    by_cases hc : currentVersion = []
    · rw [if_pos hc, hc]
      exact (inspectWithPrerequisites_gate c env r installerVersion []).1
    · rw [if_neg hc, (inspectUpgrade_gate c env r installerVersion currentVersion).1]
      exact ⟨fun h => h.2, fun h => ⟨hc, h⟩⟩
  cases herr : outcome.error with
  | some e => simp [herr] at h
  | none =>
    simp only [herr, Except.ok.injEq] at h
    subst h
    rw [← hgate]
    by_cases hv : outcome.report.valid = true
    · simp [previewOf, hv]
    · simp [previewOf, hv]

theorem previewInstallation_of_accepts {env : Environment}
    {installerVersion currentVersion : Bytes} (hi : installerVersion ≠ [])
    (h : Accepts c env r installerVersion currentVersion) :
    ∃ p, previewInstallation c env r installerVersion currentVersion = .ok p ∧
      p.verification.valid = true := by
  obtain ⟨m, hm, -⟩ := id h
  obtain ⟨o, ho, -⟩ := hm.installer hi
  have hvalid := (inspectWithPrerequisites_gate c env r installerVersion currentVersion).1.mpr h
  have herror := error_of_valid hvalid
  have hrun : (if currentVersion = [] then inspectWithInstallerVersion c env r installerVersion
      else inspectUpgrade c env r installerVersion currentVersion) =
      inspectWithPrerequisites c env r installerVersion currentVersion := by
    by_cases hc : currentVersion = []
    · rw [if_pos hc, hc]
      rfl
    · rw [if_neg hc]
      simp [inspectUpgrade, (strictVersion_of_ok (hm.newer hc)).2]
  refine ⟨previewOf (inspectWithPrerequisites c env r installerVersion currentVersion).report
    currentVersion, ?_, by simp [previewOf, hvalid]⟩
  simp [previewInstallation, (strictVersion_of_ok ho).1, hrun, herror]

structure StoredFile where
  info : FileInfo
  readable : Bool
  content : Bytes
  size_eq : info.size = content.length

structure Directory where
  root : Option FileInfo
  file : Bytes → Option StoredFile

def Directory.answers (d : Directory) : Environment := fun _ name =>
  { root := d.root
    before := (d.file name).map (·.info)
    openOk := (d.file name).any (·.readable)
    opened := (d.file name).map (·.info)
    reader := ⟨((d.file name).map (·.content)).getD [], false⟩
    after := (d.file name).map (·.info) }

/-- The directory is a real one and holds the artifact as it was signed. -/
def Directory.Holds (d : Directory) (c : Crypto) (a : Artifact) : Prop :=
  (∃ i, d.root = some i ∧ i.isDir = true ∧ i.isSymlink = false) ∧
    ∃ f, d.file a.name = some f ∧ f.readable = true ∧ f.info.isRegular = true ∧
      f.info.isSymlink = false ∧ (f.content.length : Int) = a.sizeBytes ∧
      c.digest f.content = a.sha256

theorem Directory.read_iff (d : Directory) (c : Crypto) (a : Artifact) (i : Nat) :
    ReadExactly c (d.answers i a.name) a ↔ d.Holds c a := by
  constructor
  · intro h
    refine ⟨h.root, ?_⟩
    obtain ⟨before, opened, after, hbefore, hopen, -, -, hreg, hsym, -⟩ := h.file
    have hsize := h.size
    have hdigest := h.digest
    cases hf : d.file a.name with
    | none => simp [Directory.answers, hf] at hbefore
    | some f =>
      simp only [Directory.answers, hf, Option.map_some, Option.some.injEq, Option.any_some,
        Option.getD_some] at hbefore hopen hsize hdigest
      subst hbefore
      exact ⟨f, rfl, hopen, hreg, hsym, hsize, hdigest⟩
  · rintro ⟨hroot, f, hf, hread, hreg, hsym, hsize, hdigest⟩
    have hinfo : f.info.size = a.sizeBytes := f.size_eq.trans hsize
    constructor
    · exact hroot
    · exact ⟨f.info, f.info, f.info, by simp [Directory.answers, hf],
        by simp [Directory.answers, hf, hread], by simp [Directory.answers, hf],
        by simp [Directory.answers, hf], hreg, hsym, hreg, rfl, hinfo, hinfo, hinfo, rfl⟩
    · rfl
    · simpa [Directory.answers, hf] using hsize
    · simpa [Directory.answers, hf] using hdigest

theorem Directory.allRead_iff (d : Directory) (c : Crypto) (m : Manifest) :
    AllRead c d.answers m ↔ ∀ a ∈ m.artifacts.items, d.Holds c a := by
  constructor
  · intro h a ha
    obtain ⟨i, hi, rfl⟩ := List.getElem_of_mem ha
    have hp : (m.artifacts.items[i], i) ∈ m.artifacts.items.zipIdx :=
      List.mk_mem_zipIdx_iff_getElem?.mpr (List.getElem?_eq_getElem hi)
    exact (d.read_iff c _ i).mp (h _ hp)
  · intro h p hp
    exact (d.read_iff c p.1 p.2).mpr (h p.1 (List.fst_mem_of_mem_zipIdx hp))

/-- The release gate: every entry point reports valid exactly on the facts it stands for, with
files that may change under it and with a directory at rest; nothing is touched before the
earlier checks have passed; and a preview lists payloads only for a valid report. -/
theorem release_gate (c : Crypto) (env : Environment) (r : Request)
    (installerVersion currentVersion : Bytes) :
    ((inspectWithPrerequisites c env r installerVersion currentVersion).report.valid = true ↔
      Accepts c env r installerVersion currentVersion) ∧
    ((inspectUpgrade c env r installerVersion currentVersion).report.valid = true ↔
      currentVersion ≠ [] ∧ Accepts c env r installerVersion currentVersion) ∧
    (∀ p, previewInstallation c env r installerVersion currentVersion = .ok p →
      (p.verification.valid = true ↔ Accepts c env r installerVersion currentVersion) ∧
        (p.logicalPayloads ≠ [] → p.verification.valid = true)) ∧
    (installerVersion ≠ [] → Accepts c env r installerVersion currentVersion →
      ∃ p, previewInstallation c env r installerVersion currentVersion = .ok p ∧
        p.verification.valid = true) ∧
    (∀ d : Directory,
      (inspectWithPrerequisites c d.answers r installerVersion currentVersion).report.valid =
          true ↔
        ∃ m, Eligible c r installerVersion currentVersion m ∧
          ∀ a ∈ m.artifacts.items, d.Holds c a) ∧
    ((∀ m, ¬Eligible c r installerVersion currentVersion m) →
      (inspectWithPrerequisites c env r installerVersion currentVersion).touched = [] ∧
        (inspectUpgrade c env r installerVersion currentVersion).touched = []) := by
  obtain ⟨hvalid, htouched⟩ :=
    inspectWithPrerequisites_gate c env r installerVersion currentVersion
  obtain ⟨hupgrade, hutouched⟩ := inspectUpgrade_gate c env r installerVersion currentVersion
  refine ⟨hvalid, hupgrade, fun p hp => previewInstallation_gate hp,
    fun hi ha => previewInstallation_of_accepts hi ha, fun d => ?_, fun hnone => ?_⟩
  · rw [(inspectWithPrerequisites_gate c d.answers r installerVersion currentVersion).1, Accepts]
    simp only [d.allRead_iff]
  · constructor
    · by_contra hne
      obtain ⟨m, hm⟩ := htouched hne
      exact hnone m hm
    · by_contra hne
      obtain ⟨m, hm⟩ := hutouched hne
      exact hnone m hm

def demoCrypto : Crypto := ⟨fun _ => List.replicate 32 0xab, fun _ _ signature => signature ≠ []⟩

def demoManifest : Manifest where
  format := manifestFormat
  schemaVersion := 1
  product := ascii "phantowd"
  releaseVersion := ascii "v1.1.0"
  channel := ascii "stable"
  modelID := ascii "wd-ex4"
  hardwareRevisions := some [ascii "rev1"]
  sourceCommit := List.replicate 40 0x61
  buildrootVersion := ascii "2026.2.1"
  kernelVersion := ascii "6.12.1"
  minimumInstaller := ascii "v1.0.0"
  signingKeyID := demoCrypto.fingerprint []
  artifacts := some [⟨ascii "uImage", ascii "kernel", 3, demoCrypto.digest []⟩]

def demoRequest : Request where
  manifest := ⟨(manifestCodec.write demoManifest).render, false⟩
  signature := ⟨List.replicate 64 1, false⟩
  publicKey := List.replicate 32 2
  modelID := ascii "wd-ex4"
  hardwareRevision := ascii "rev1"
  channel := ascii "stable"

def demoDirectory : Environment := fun _ _ =>
  let file : FileInfo := ⟨false, true, false, 3, 0, 7⟩
  ⟨some ⟨true, false, false, 0, 0, 1⟩, some file, true, some file, ⟨[1, 2, 3], false⟩, some file⟩

theorem demo_release_accepted :
    Accepts demoCrypto demoDirectory demoRequest (ascii "v1.0.0") (ascii "v1.0.9") ∧
      ∃ p, previewInstallation demoCrypto demoDirectory demoRequest (ascii "v1.0.0")
        (ascii "v1.0.9") = .ok p ∧ p.verification.valid = true := by
  obtain ⟨hvalid, -, -, hpreview, -⟩ :=
    release_gate demoCrypto demoDirectory demoRequest (ascii "v1.0.0") (ascii "v1.0.9")
  have haccepts := hvalid.mp (by decide +kernel)
  exact ⟨haccepts, hpreview (by decide) haccepts⟩

end ReleaseGate
