import PhantoWD.JsonStruct
import PhantoWD.ReleaseVersion

/-!
The manifest is read twice: once token by token against its fixed schema, and once into the
struct. Only then are its values checked, and all problems are collected rather than the first.
-/
namespace ReleaseManifest

open GoText GoJson JsonStruct
open ReleaseVersion (parseVersion)

structure Artifact where
  name : Bytes
  role : Bytes
  sizeBytes : Int
  sha256 : Bytes
  deriving DecidableEq

structure Manifest where
  format : Bytes
  schemaVersion : Int
  product : Bytes
  releaseVersion : Bytes
  channel : Bytes
  modelID : Bytes
  hardwareRevisions : Slice Bytes
  sourceCommit : Bytes
  buildrootVersion : Bytes
  kernelVersion : Bytes
  minimumInstaller : Bytes
  signingKeyID : Bytes
  artifacts : Slice Artifact
  deriving DecidableEq

def manifestFormat : Bytes := ascii "phantowd-release-manifest"

def manifestVersion : Int := 1

def maxManifestSize : Nat := 64 * 1024

def maxArtifacts : Nat := 16

def maxHardwareRevisions : Nat := 16

def maxArtifactSize : Int := 1024 * 1024 * 1024

def maxBundleSize : Int := 2 * 1024 * 1024 * 1024

def isLower (b : UInt8) : Bool := 0x61 ≤ b && b ≤ 0x7a

def isUpper (b : UInt8) : Bool := 0x41 ≤ b && b ≤ 0x5a

def isHex (b : UInt8) : Bool := isDigit b || (0x61 ≤ b && b ≤ 0x66)

def runOf (first rest : UInt8 → Bool) (limit : Nat) : Bytes → Bool
  | [] => false
  | b :: s => first b && s.all rest && decide (s.length ≤ limit)

def identifierPattern : Bytes → Bool :=
  runOf (fun b => isLower b || isDigit b)
    (fun b => isLower b || isDigit b || b == 0x2e || b == 0x2d) 63

def filenamePattern : Bytes → Bool :=
  runOf (fun b => isLower b || isUpper b || isDigit b)
    (fun b => isLower b || isUpper b || isDigit b || b == 0x2e || b == 0x5f || b == 0x2b ||
      b == 0x2d) 127

def rolePattern : Bytes → Bool :=
  runOf isLower (fun b => isLower b || isDigit b || b == 0x2d) 31

def componentVersionPattern (s : Bytes) : Bool :=
  let body := if s.head? = some 0x76 then s.tail else s
  let parts := split body 0x2e
  parts.length == 3 && parts.all fun p => p != [] && p.all isDigit

def commitPattern (s : Bytes) : Bool := (s.length == 40 || s.length == 64) && s.all isHex

def digestPattern (s : Bytes) : Bool := s.length == 64 && s.all isHex

def validArtifactName (name : Bytes) : Bool :=
  name != ascii "." && name != ascii ".." && filenamePattern name &&
    !containsAny name (ascii "/\\:") && pathBase name == name

def validHardwareRevision (revision : Bytes) : Bool :=
  identifierPattern revision && revision != ascii "all" && revision != ascii "any" &&
    revision != ascii "unknown"

def validChannel (channel : Bytes) : Bool :=
  channel == ascii "stable" || channel == ascii "beta" || channel == ascii "nightly"

def scanManifestScalar (number : Bool) : Value → Bool
  | .num _ => number
  | .str value => !number && !(runes value).contains runeError
  | _ => false

def scanMember (schema : List (Bytes × (Value → Bool))) (m : Bytes × Value) : Bool :=
  match schema.lookup m.1 with
  | none => false
  | some scan => scan m.2

def scanObject (schema : List (Bytes × (Value → Bool))) : Value → Bool
  | .obj members =>
    decide (members.toList.map Prod.fst).Nodup && members.toList.all (scanMember schema) &&
      members.toList.length == schema.length
  | _ => false

def scanManifestArray (maximum : Nat) (element : Value → Bool) : Value → Bool
  | .arr items =>
    items.toList.length != 0 && decide (items.toList.length ≤ maximum) &&
      items.toList.all element
  | _ => false

def artifactSchema : List (Bytes × (Value → Bool)) :=
  [(ascii "name", scanManifestScalar false), (ascii "role", scanManifestScalar false),
    (ascii "sha256", scanManifestScalar false), (ascii "size_bytes", scanManifestScalar true)]

def manifestSchema : List (Bytes × (Value → Bool)) :=
  [(ascii "format", scanManifestScalar false), (ascii "product", scanManifestScalar false),
    (ascii "release_version", scanManifestScalar false),
    (ascii "channel", scanManifestScalar false), (ascii "model_id", scanManifestScalar false),
    (ascii "source_commit", scanManifestScalar false),
    (ascii "buildroot_version", scanManifestScalar false),
    (ascii "kernel_version", scanManifestScalar false),
    (ascii "minimum_installer", scanManifestScalar false),
    (ascii "signing_key_id", scanManifestScalar false),
    (ascii "schema_version", scanManifestScalar true),
    (ascii "hardware_revisions",
      scanManifestArray maxHardwareRevisions (scanManifestScalar false)),
    (ascii "artifacts", scanManifestArray maxArtifacts (scanObject artifactSchema))]

def artifactCodec : Codec Artifact := .struct ⟨[], [], 0, []⟩
  [.of (ascii "name") .string (·.name) fun v a => { a with name := v },
    .of (ascii "role") .string (·.role) fun v a => { a with role := v },
    .of (ascii "size_bytes") .int (·.sizeBytes) fun v a => { a with sizeBytes := v },
    .of (ascii "sha256") .string (·.sha256) fun v a => { a with sha256 := v }]

def manifestCodec : Codec Manifest := .struct
  ⟨[], 0, [], [], [], [], none, [], [], [], [], [], none⟩
  [.of (ascii "format") .string (·.format) fun v m => { m with format := v },
    .of (ascii "schema_version") .int (·.schemaVersion) fun v m => { m with schemaVersion := v },
    .of (ascii "product") .string (·.product) fun v m => { m with product := v },
    .of (ascii "release_version") .string (·.releaseVersion)
      fun v m => { m with releaseVersion := v },
    .of (ascii "channel") .string (·.channel) fun v m => { m with channel := v },
    .of (ascii "model_id") .string (·.modelID) fun v m => { m with modelID := v },
    .of (ascii "hardware_revisions") (.slice .string) (·.hardwareRevisions)
      fun v m => { m with hardwareRevisions := v },
    .of (ascii "source_commit") .string (·.sourceCommit) fun v m => { m with sourceCommit := v },
    .of (ascii "buildroot_version") .string (·.buildrootVersion)
      fun v m => { m with buildrootVersion := v },
    .of (ascii "kernel_version") .string (·.kernelVersion)
      fun v m => { m with kernelVersion := v },
    .of (ascii "minimum_installer") .string (·.minimumInstaller)
      fun v m => { m with minimumInstaller := v },
    .of (ascii "signing_key_id") .string (·.signingKeyID) fun v m => { m with signingKeyID := v },
    .of (ascii "artifacts") (.slice artifactCodec) (·.artifacts)
      fun v m => { m with artifacts := v }]

/-- The token scan only ever sees a document in which each token is grammatical, so it is
stated over the parsed value; a document that is not grammatical fails in either reading. -/
def checkManifestStructure (data : Bytes) : Option Value := do
  guard (data ≠ [] ∧ data.length ≤ maxManifestSize ∧ validString data = true)
  let v ← parse data
  guard (scanObject manifestSchema v = true)
  return v

def decodeManifest (data : Bytes) : Option Manifest :=
  (checkManifestStructure data).bind fun v => manifestCodec.read v manifestCodec.zero

def problem (bad : Prop) [Decidable bad] (text : String) : List String :=
  if bad then [text] else []

def revisionProblems : List Bytes → List Bytes → List String
  | _, [] => []
  | seen, revision :: rest =>
    if !validHardwareRevision revision ∨ revision ∈ seen then
      ["hardware_revisions contains an invalid or duplicate revision"]
    else revisionProblems (revision :: seen) rest

/-- The artifact loop stops at its first problem. -/
def artifactProblems : List Bytes → Int → List Artifact → List String
  | _, _, [] => []
  | seen, total, a :: rest =>
    if !validArtifactName a.name ∨ a.name ∈ seen then
      ["artifacts contains an invalid or duplicate filename"]
    else if !rolePattern a.role then ["artifacts contains an invalid role"]
    else if a.sizeBytes ≤ 0 ∨ a.sizeBytes > maxArtifactSize ∨ !digestPattern a.sha256 then
      ["artifacts contains an invalid size or SHA-256 digest"]
    else if total > maxBundleSize - a.sizeBytes then ["combined artifact size exceeds 2 GiB"]
    else artifactProblems (a.name :: seen) (total + a.sizeBytes) rest

def problems (m : Manifest) : List String :=
  problem (m.format ≠ manifestFormat ∨ m.schemaVersion ≠ manifestVersion)
      "unsupported release manifest format or schema version" ++
    problem (m.product ≠ ascii "phantowd") "product must be phantowd" ++
    problem (parseVersion m.releaseVersion = none)
      ("release_version must use strict v-prefixed SemVer 2.0 syntax " ++
        "without build metadata") ++
    problem (parseVersion m.minimumInstaller = none)
      ("minimum_installer must use strict v-prefixed SemVer 2.0 syntax " ++
        "without build metadata") ++
    problem (validChannel m.channel = false) "channel must be stable, beta, or nightly" ++
    problem (identifierPattern m.modelID = false) "model_id is invalid" ++
    problem (commitPattern m.sourceCommit = false)
      "source_commit must be a lowercase 40- or 64-character hexadecimal commit" ++
    problem (componentVersionPattern m.buildrootVersion = false ∨
        componentVersionPattern m.kernelVersion = false)
      ("Buildroot and kernel versions must be numeric dotted versions, " ++
        "optionally prefixed by v") ++
    problem (m.hardwareRevisions.items = [] ∨
        m.hardwareRevisions.items.length > maxHardwareRevisions)
      "hardware_revisions must list 1 to 16 exact revisions" ++
    revisionProblems [] m.hardwareRevisions.items ++
    problem (m.artifacts.items = [] ∨ m.artifacts.items.length > maxArtifacts)
      "artifacts must contain 1 to 16 entries" ++
    artifactProblems [] 0 m.artifacts.items ++
    problem (m.signingKeyID.length ≠ 71 ∨ (ascii "sha256:").isPrefixOf m.signingKeyID = false ∨
        digestPattern (m.signingKeyID.drop 7) = false)
      "signing_key_id must be a SHA-256 public-key fingerprint"

def validateManifest (m : Manifest) : Option String :=
  match problems m with
  | [] => none
  | found => some ("; ".intercalate found)

@[simp] theorem problem_eq_nil {bad : Prop} [Decidable bad] {text : String} :
    problem bad text = [] ↔ ¬bad := by
  by_cases h : bad <;> simp [problem, h]

theorem validateManifest_eq_none {m : Manifest} : validateManifest m = none ↔ problems m = [] := by
  unfold validateManifest
  cases problems m <;> simp

structure Artifact.Valid (a : Artifact) : Prop where
  name : validArtifactName a.name = true
  positive : 0 < a.sizeBytes
  bounded : a.sizeBytes ≤ maxArtifactSize
  digest : digestPattern a.sha256 = true

theorem artifacts_valid {seen : List Bytes} {total : Int} {l : List Artifact}
    (h : artifactProblems seen total l = []) : ∀ a ∈ l, a.Valid := by
  induction l generalizing seen total with
  | nil => simp
  | cons a rest ih =>
    rw [artifactProblems] at h
    split_ifs at h with hname hrole hsize
    refine List.forall_mem_cons.mpr ⟨?_, ih h⟩
    simp only [not_or, not_le, not_lt, Bool.not_eq_true', Bool.not_eq_false, gt_iff_lt]
      at hname hsize
    exact ⟨hname.1, hsize.1, hsize.2.1, hsize.2.2⟩

theorem revisions_valid {seen l : List Bytes} (h : revisionProblems seen l = []) :
    ∀ r ∈ l, validHardwareRevision r = true := by
  induction l generalizing seen with
  | nil => simp
  | cons r rest ih =>
    rw [revisionProblems] at h
    split_ifs at h with hr
    simp only [not_or, Bool.not_eq_true', Bool.not_eq_false] at hr
    exact List.forall_mem_cons.mpr ⟨hr.1, ih h⟩

structure Valid (m : Manifest) : Prop where
  release : parseVersion m.releaseVersion ≠ none
  minimum : parseVersion m.minimumInstaller ≠ none
  channel : validChannel m.channel = true
  model : identifierPattern m.modelID = true
  revisions : ∀ r ∈ m.hardwareRevisions.items, validHardwareRevision r = true
  listed : m.artifacts.items ≠ []
  artifacts : ∀ a ∈ m.artifacts.items, a.Valid

theorem valid_of_validate {m : Manifest} (h : validateManifest m = none) : Valid m := by
  have h := validateManifest_eq_none.mp h
  simp only [problems, List.append_eq_nil_iff, problem_eq_nil, not_or, Bool.not_eq_false] at h
  obtain ⟨⟨⟨⟨⟨⟨⟨⟨⟨⟨⟨⟨-, -⟩, hrelease⟩, hminimum⟩, hchannel⟩, hmodel⟩, -⟩, -⟩, -⟩, hrevisions⟩,
    hlisted⟩, hartifacts⟩, -⟩ := h
  exact ⟨hrelease, hminimum, hchannel, hmodel, revisions_valid hrevisions, hlisted.1,
    artifacts_valid hartifacts⟩

end ReleaseManifest
