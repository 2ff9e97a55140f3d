import PhantoWD.ShareDocument

/-!
Backing files on shared volumes, targets with their logical units, and the initiators that may
use them. Identifiers, backings and secret references are unique across the document, so the
checks thread what every earlier target used.
-/
namespace IscsiPolicy

open GoText GoJson ConfigJson JsonStruct KeyedLists
open ShareConfig (lower digit)

def formatName : Bytes := ascii "phantowd-iscsi-policy"
def schemaVersion : Int := 1
def maxInputBytes : Nat := 128 * 1024
def maxTargets : Nat := 16
def maxBackings : Nat := 64
def maxLUNs : Nat := 16
def maxInitiators : Nat := 32

structure Backing where
  id : Bytes
  volumeID : Bytes
  relativePath : Bytes
  capacityBytes : UInt64
  blockSize : UInt16
  allocation : Bytes
  deriving DecidableEq

structure LUN where
  id : Bytes
  number : UInt16
  backingID : Bytes
  access : Bytes
  deriving DecidableEq

structure Authentication where
  mode : Bytes
  initiatorUser : Bytes
  initiatorSecretRef : Bytes
  targetUser : Bytes
  targetSecretRef : Bytes
  deriving DecidableEq

structure Grant where
  lunID : Bytes
  access : Bytes
  deriving DecidableEq

structure Initiator where
  name : Bytes
  authentication : Authentication
  grants : Slice Grant
  deriving DecidableEq

structure Target where
  id : Bytes
  name : Bytes
  state : Bytes
  luns : Slice LUN
  initiators : Slice Initiator
  deriving DecidableEq

structure Policy where
  format : Bytes
  schemaVersion : Int
  revision : UInt64
  volumeRevision : UInt64
  backings : Slice Backing
  targets : Slice Target
  deriving DecidableEq

def keys : List Bytes :=
  [ascii "format", ascii "schema_version", ascii "revision", ascii "volume_revision",
    ascii "backings", ascii "targets", ascii "id", ascii "volume_id", ascii "relative_path",
    ascii "capacity_bytes", ascii "block_size", ascii "allocation", ascii "name", ascii "state",
    ascii "luns", ascii "number", ascii "backing_id", ascii "access", ascii "initiators",
    ascii "authentication", ascii "mode", ascii "initiator_user", ascii "initiator_secret_ref",
    ascii "target_user", ascii "target_secret_ref", ascii "grants", ascii "lun_id"]

def Backing.codec : Codec Backing := .struct ⟨[], [], [], 0, 0, []⟩
  [.of (ascii "id") .string Backing.id fun a s => { s with id := a },
    .of (ascii "volume_id") .string Backing.volumeID fun a s => { s with volumeID := a },
    .of (ascii "relative_path") .string Backing.relativePath
      fun a s => { s with relativePath := a },
    .of (ascii "capacity_bytes") .uint64 Backing.capacityBytes
      fun a s => { s with capacityBytes := a },
    .of (ascii "block_size") .uint16 Backing.blockSize fun a s => { s with blockSize := a },
    .of (ascii "allocation") .string Backing.allocation fun a s => { s with allocation := a }]

def LUN.codec : Codec LUN := .struct ⟨[], 0, [], []⟩
  [.of (ascii "id") .string LUN.id fun a s => { s with id := a },
    .of (ascii "number") .uint16 LUN.number fun a s => { s with number := a },
    .of (ascii "backing_id") .string LUN.backingID fun a s => { s with backingID := a },
    .of (ascii "access") .string LUN.access fun a s => { s with access := a }]

def Authentication.codec : Codec Authentication := .struct ⟨[], [], [], [], []⟩
  [.of (ascii "mode") .string Authentication.mode fun a s => { s with mode := a },
    .of (ascii "initiator_user") .string Authentication.initiatorUser
      fun a s => { s with initiatorUser := a },
    .of (ascii "initiator_secret_ref") .string Authentication.initiatorSecretRef
      fun a s => { s with initiatorSecretRef := a },
    .omitEmpty (ascii "target_user") Authentication.targetUser
      fun a s => { s with targetUser := a },
    .omitEmpty (ascii "target_secret_ref") Authentication.targetSecretRef
      fun a s => { s with targetSecretRef := a }]

def Grant.codec : Codec Grant := .struct ⟨[], []⟩
  [.of (ascii "lun_id") .string Grant.lunID fun a s => { s with lunID := a },
    .of (ascii "access") .string Grant.access fun a s => { s with access := a }]

def Initiator.codec : Codec Initiator := .struct ⟨[], Authentication.codec.zero, none⟩
  [.of (ascii "name") .string Initiator.name fun a s => { s with name := a },
    .of (ascii "authentication") Authentication.codec Initiator.authentication
      fun a s => { s with authentication := a },
    .of (ascii "grants") (.slice Grant.codec) Initiator.grants fun a s => { s with grants := a }]

def Target.codec : Codec Target := .struct ⟨[], [], [], none, none⟩
  [.of (ascii "id") .string Target.id fun a s => { s with id := a },
    .of (ascii "name") .string Target.name fun a s => { s with name := a },
    .of (ascii "state") .string Target.state fun a s => { s with state := a },
    .of (ascii "luns") (.slice LUN.codec) Target.luns fun a s => { s with luns := a },
    .of (ascii "initiators") (.slice Initiator.codec) Target.initiators
      fun a s => { s with initiators := a }]

def Policy.codec : Codec Policy := .struct ⟨[], 0, 0, 0, none, none⟩
  [.of (ascii "format") .string Policy.format fun a s => { s with format := a },
    .of (ascii "schema_version") .int Policy.schemaVersion
      fun a s => { s with schemaVersion := a },
    .of (ascii "revision") .uint64 Policy.revision fun a s => { s with revision := a },
    .of (ascii "volume_revision") .uint64 Policy.volumeRevision
      fun a s => { s with volumeRevision := a },
    .of (ascii "backings") (.slice Backing.codec) Policy.backings
      fun a s => { s with backings := a },
    .of (ascii "targets") (.slice Target.codec) Policy.targets
      fun a s => { s with targets := a }]

def Policy.marshal (p : Policy) : Bytes := (Policy.codec.write p).render

/-- Reading goes through wrappers whose own fields shadow those of the embedded struct: a unit's
number is a pointer, so that a missing one is not taken for zero. -/
structure WireLUN where
  lun : LUN
  number : Option UInt16

structure WireTarget where
  target : Target
  luns : Slice WireLUN

structure WirePolicy where
  policy : Policy
  targets : Slice WireTarget

def WireLUN.codec : Codec WireLUN := .struct ⟨LUN.codec.zero, none⟩
  [.of (ascii "id") .string (fun w => w.lun.id) fun a w => { w with lun.id := a },
    .of (ascii "number") (.pointer .uint16) WireLUN.number fun a w => { w with number := a },
    .of (ascii "backing_id") .string (fun w => w.lun.backingID)
      fun a w => { w with lun.backingID := a },
    .of (ascii "access") .string (fun w => w.lun.access) fun a w => { w with lun.access := a }]

def WireTarget.codec : Codec WireTarget := .struct ⟨Target.codec.zero, none⟩
  [.of (ascii "id") .string (fun w => w.target.id) fun a w => { w with target.id := a },
    .of (ascii "name") .string (fun w => w.target.name) fun a w => { w with target.name := a },
    .of (ascii "state") .string (fun w => w.target.state) fun a w => { w with target.state := a },
    .of (ascii "luns") (.slice WireLUN.codec) WireTarget.luns fun a w => { w with luns := a },
    .of (ascii "initiators") (.slice Initiator.codec) (fun w => w.target.initiators)
      fun a w => { w with target.initiators := a }]

def WirePolicy.codec : Codec WirePolicy := .struct ⟨Policy.codec.zero, none⟩
  [.of (ascii "format") .string (fun w => w.policy.format)
      fun a w => { w with policy.format := a },
    .of (ascii "schema_version") .int (fun w => w.policy.schemaVersion)
      fun a w => { w with policy.schemaVersion := a },
    .of (ascii "revision") .uint64 (fun w => w.policy.revision)
      fun a w => { w with policy.revision := a },
    .of (ascii "volume_revision") .uint64 (fun w => w.policy.volumeRevision)
      fun a w => { w with policy.volumeRevision := a },
    .of (ascii "backings") (.slice Backing.codec) (fun w => w.policy.backings)
      fun a w => { w with policy.backings := a },
    .of (ascii "targets") (.slice WireTarget.codec) WirePolicy.targets
      fun a w => { w with targets := a }]

def WireLUN.toLUN (w : WireLUN) : Option LUN :=
  w.number.map fun n => { w.lun with number := n }

def WireTarget.toTarget (w : WireTarget) : Option Target := do
  let luns ← w.luns
  let luns ← luns.mapM WireLUN.toLUN
  some { w.target with luns := some luns }

def WirePolicy.toPolicy (w : WirePolicy) : Option Policy := do
  let targets ← w.targets
  let targets ← targets.mapM WireTarget.toTarget
  some { w.policy with targets := some targets }

def access (s : Bytes) : Bool := s == ascii "ro" || s == ascii "rw"

def identifier (s : Bytes) : Bool := ShareConfig.identifier s

def upper (r : Rune) : Bool := 0x41 ≤ r && r ≤ 0x5a

def username (s : Bytes) : Bool :=
  s != [] && s.length ≤ 128 && (runes s).all fun c =>
    lower c || upper c || digit c || c == 0x2e || c == 0x5f || c == 0x2d || c == 0x40

def filePath (s : Bytes) : Bool := s != ascii "." && ShareConfig.relativePath s

def pathOverlap (a b : Bytes) : Bool := a == b || below a b || below b a

def labelRune (c : Rune) : Bool := lower c || digit c || c == 0x2d

def label (l : Bytes) : Bool :=
  l != [] && l.length ≤ 63 && l.head? != some 0x2d && l.getLast? != some 0x2d &&
    (runes l).all labelRune

/-- The canonical ASCII profile: `iqn.yyyy-mm.` with a dotted domain and an optional suffix. -/
def iqn (s : Bytes) : Bool :=
  let year := (s.drop 4).take 4
  let month := (s.drop 9).take 2
  let rest := s.drop 12
  let domain := rest.takeWhile fun b => b != 0x3a
  let suffix := (rest.dropWhile fun b => b != 0x3a).drop 1
  14 ≤ s.length && s.length ≤ 223 && s.take 4 == ascii "iqn." && s[8]? == some 0x2d &&
    s[11]? == some 0x2e && (runes year).all digit && year != ascii "0000" &&
    (s[9]? == some 0x30 || s[9]? == some 0x31) && s[10]?.any (fun b => digit b.toNat) &&
    !decide (month < ascii "01") && !decide (ascii "12" < month) &&
    2 ≤ (split domain 0x2e).length && (split domain 0x2e).all label &&
    (!rest.contains 0x3a ||
      suffix != [] && (runes suffix).all fun c => labelRune c || c == 0x2e || c == 0x3a)

def authentication (a : Authentication) (used : List Bytes) : Option (List Bytes) :=
  if (a.mode != ascii "chap" && a.mode != ascii "mutual-chap") || !username a.initiatorUser ||
      !identifier a.initiatorSecretRef || used.contains a.initiatorSecretRef then none
  else if a.mode == ascii "chap" then
    if a.targetUser != [] || a.targetSecretRef != [] then none
    else some (a.initiatorSecretRef :: used)
  else if !username a.targetUser || !identifier a.targetSecretRef ||
      a.targetSecretRef == a.initiatorSecretRef || used.contains a.targetSecretRef then none
  else some (a.targetSecretRef :: a.initiatorSecretRef :: used)

def checkBackings (known : List Bytes) (earlier : List Backing) : List Backing → Bool
  | [] => true
  | b :: rest =>
    identifier b.id && !(earlier.map Backing.id).contains b.id && known.contains b.volumeID &&
      filePath b.relativePath && (b.blockSize == 512 || b.blockSize == 4096) &&
      b.blockSize.toNat ≤ b.capacityBytes.toNat && b.capacityBytes.toNat < 2 ^ 63 &&
      b.capacityBytes.toNat % b.blockSize.toNat == 0 &&
      (b.allocation == ascii "preallocated" || b.allocation == ascii "sparse") &&
      !(earlier.any fun old => old.volumeID == b.volumeID &&
        pathOverlap old.relativePath b.relativePath) &&
      checkBackings known (earlier ++ [b]) rest

structure Used where
  targetIDs : List Bytes := []
  names : List Bytes := []
  lunIDs : List Bytes := []
  backings : List Bytes := []
  secrets : List Bytes := []

def checkLUNs (backings : List Bytes) (used : Used) (numbers : List UInt16)
    (modes : List (Bytes × Bytes)) : List LUN → Option (Used × List (Bytes × Bytes))
  | [] => some (used, modes)
  | l :: rest =>
    if !identifier l.id || used.lunIDs.contains l.id || numbers.contains l.number ||
        !backings.contains l.backingID || used.backings.contains l.backingID ||
        !access l.access then none
    else
      checkLUNs backings
        { used with lunIDs := l.id :: used.lunIDs, backings := l.backingID :: used.backings }
        (l.number :: numbers) ((l.id, l.access) :: modes) rest

def checkGrants (modes : List (Bytes × Bytes)) (granted : List Bytes) : List Grant → Bool
  | [] => true
  | g :: rest =>
    match modes.lookup g.lunID with
    | none => false
    | some mode =>
      !granted.contains g.lunID && access g.access &&
        !(mode == ascii "ro" && g.access != ascii "ro") &&
        checkGrants modes (g.lunID :: granted) rest

def checkInitiators (modes : List (Bytes × Bytes)) (secrets names : List Bytes) :
    List Initiator → Option (List Bytes)
  | [] => some secrets
  | peer :: rest =>
    if !iqn peer.name || names.contains peer.name then none
    else
      match authentication peer.authentication secrets with
      | none => none
      | some secrets =>
        if peer.grants.items.length == 0 || maxLUNs < peer.grants.items.length ||
            !checkGrants modes [] peer.grants.items then none
        else checkInitiators modes secrets (peer.name :: names) rest

def checkTargets (backings : List Bytes) (used : Used) : List Target → Option Used
  | [] => some used
  | t :: rest =>
    if !identifier t.id || used.targetIDs.contains t.id || !iqn t.name ||
        used.names.contains t.name ||
        (t.state != ascii "disabled" && t.state != ascii "enabled") ||
        t.luns.items.length == 0 || maxLUNs < t.luns.items.length ||
        t.initiators.items.length == 0 || maxInitiators < t.initiators.items.length then none
    else
      let used := { used with targetIDs := t.id :: used.targetIDs, names := t.name :: used.names }
      match checkLUNs backings used [] [] t.luns.items with
      | none => none
      | some (used, modes) =>
        match checkInitiators modes used.secrets [] t.initiators.items with
        | none => none
        | some secrets => checkTargets backings { used with secrets := secrets } rest

def Policy.validate (p : Policy) (volumes : ShareConfig.Config) : Bool :=
  volumes.validate == .ok () && p.format == formatName &&
    p.schemaVersion == IscsiPolicy.schemaVersion && p.revision != 0 &&
    p.volumeRevision == volumes.revision && p.backings.isSome && p.targets.isSome &&
    p.backings.items.length ≤ maxBackings && p.targets.items.length ≤ maxTargets &&
    checkBackings (volumes.volumes.items.map ShareConfig.Volume.id) [] p.backings.items &&
    ((checkTargets (p.backings.items.map Backing.id) {} p.targets.items).any fun used =>
      used.backings.length == p.backings.items.length) &&
    p.marshal.length ≤ maxInputBytes

def decode (data : Bytes) (volumes : ShareConfig.Config) : Option Policy := do
  let w ← decodeDocument WirePolicy.codec data maxInputBytes 9 keys
  let p ← w.toPolicy
  guard (p.validate volumes)
  some p

theorem upper_ascii {r : Nat} (h : upper r = true) : r < 0x80 := by
  have hb : 0x41 ≤ r ∧ r ≤ 0x5a := by simpa [upper] using h
  omega

theorem labelRune_ascii {r : Nat} (h : labelRune r = true) : r < 0x80 := by
  have hr : (lower r = true ∨ digit r = true) ∨ r = 0x2d := by simpa [labelRune] using h
  rcases hr with (hl | hd) | rfl
  · exact ShareConfig.lower_ascii hl
  · exact ShareConfig.digit_ascii hd
  · decide

variable {s : Bytes} {known : List Bytes} {a : Authentication} {p : Policy} {t : Target}

theorem username_valid (h : username s = true) : validString s = true := by
  simp only [username, Bool.and_eq_true, List.all_eq_true, Bool.or_eq_true, beq_iff_eq] at h
  apply ShareConfig.valid_of_runes
  intro r hr
  rcases h.2 r hr with (((((hl | hu) | hd) | rfl) | rfl) | rfl) | rfl
  · exact ShareConfig.lower_ascii hl
  · exact upper_ascii hu
  · exact ShareConfig.digit_ascii hd
  all_goals decide

theorem filePath_valid (h : filePath s = true) : validString s = true := by
  rw [filePath, Bool.and_eq_true] at h
  exact ShareConfig.relativePath_valid h.2

theorem access_valid (h : access s = true) : validString s = true := by
  have hs : s = ascii "ro" ∨ s = ascii "rw" := by simpa [access] using h
  exact ShareConfig.access_valid hs

theorem domain_ascii (h : (split s 0x2e).all label = true) : ∀ b ∈ s, b.toNat < 0x80 := by
  intro b hb
  have hjoin : [0x2e].intercalate (split s 0x2e) = s := List.intercalate_splitOn 0x2e
  rw [← hjoin] at hb
  rcases mem_of_intercalate hb with rfl | ⟨l, hl, hb⟩
  · decide
  · have hlabel := List.all_eq_true.mp h l hl
    simp only [label, Bool.and_eq_true, List.all_eq_true] at hlabel
    exact ascii_of_runes (fun r hr => labelRune_ascii (hlabel.2 r hr)) b hb

theorem iqn_rest_ascii {rest : Bytes}
    (hdomain : (split (rest.takeWhile fun b => b != 0x3a) 0x2e).all label = true)
    (hsuffix : ∀ r ∈ runes ((rest.dropWhile fun b => b != 0x3a).drop 1), r < (0x80 : Nat)) :
    ∀ b ∈ rest, b.toNat < 0x80 := by
  intro b hb
  rw [← List.takeWhile_append_dropWhile (p := fun b => b != 0x3a) (l := rest),
    List.mem_append] at hb
  rcases hb with hb | hb
  · exact domain_ascii hdomain b hb
  · cases hdrop : rest.dropWhile fun b => b != 0x3a with
    | nil => simp [hdrop] at hb
    | cons c tail =>
      have hcolon : c = 0x3a := by
        have hhead := List.head?_dropWhile_not (fun b => b != (0x3a : UInt8)) rest
        simpa [hdrop] using hhead
      rw [hdrop] at hb hsuffix
      rcases List.mem_cons.mp hb with rfl | hb
      · rw [hcolon]
        decide
      · exact ascii_of_runes hsuffix b hb

theorem iqn_valid (h : iqn s = true) : validString s = true := by
  simp only [iqn, Bool.and_eq_true, Bool.or_eq_true, Bool.not_eq_true', beq_iff_eq] at h
  obtain ⟨⟨⟨⟨⟨⟨⟨⟨⟨⟨⟨⟨_, hscheme⟩, h8⟩, h11⟩, hyear⟩, _⟩, h9⟩, h10⟩, _⟩, _⟩, _⟩, hdomain⟩,
    hsuffix⟩ := h
  have hrest : ∀ b ∈ s.drop 12, b.toNat < 0x80 := by
    apply iqn_rest_ascii hdomain
    intro r hr
    rcases hsuffix with hnone | ⟨_, hall⟩
    · have hempty : (s.drop 12).dropWhile (fun b => b != 0x3a) = [] := by
        rw [List.dropWhile_eq_nil_iff]
        intro b hb
        have hne : b ≠ 0x3a := by
          rintro rfl
          rw [List.contains_eq_mem, decide_eq_false_iff_not] at hnone
          exact hnone hb
        simpa using hne
      rw [hempty] at hr
      simp [runes, decodeAll] at hr
    · have hr := List.all_eq_true.mp hall r hr
      simp only [Bool.or_eq_true, beq_iff_eq] at hr
      rcases hr with (hl | rfl) | rfl
      · exact labelRune_ascii hl
      · decide
      · decide
  have hdate : ∀ b ∈ (s.drop 4).take 4, b.toNat < 0x80 := by
    apply ascii_of_runes
    exact fun r hr => ShareConfig.digit_ascii (List.all_eq_true.mp hyear r hr)
  have hname : (s.take 4).all (fun b => decide (b.toNat < 0x80)) = true := by
    rw [hscheme]
    decide
  apply validString_ascii
  intro b hb
  obtain ⟨i, hi⟩ := List.mem_iff_getElem?.mp hb
  -- The name is fixed text up to index 4, then date, hyphen, month and dot.
  by_cases h4 : i < 4
  · have hmem : b ∈ s.take 4 :=
      List.mem_iff_getElem?.mpr ⟨i, by rw [List.getElem?_take_of_lt h4, hi]⟩
    exact of_decide_eq_true (List.all_eq_true.mp hname b hmem)
  by_cases hy : i < 8
  · refine hdate b (List.mem_iff_getElem?.mpr ⟨i - 4, ?_⟩)
    rw [List.getElem?_take_of_lt (by omega), List.getElem?_drop, ← hi]
    congr 1
    omega
  by_cases hr : 12 ≤ i
  · refine hrest b (List.mem_iff_getElem?.mpr ⟨i - 12, ?_⟩)
    rw [List.getElem?_drop, ← hi]
    congr 1
    omega
  obtain rfl | rfl | rfl | rfl : i = 8 ∨ i = 9 ∨ i = 10 ∨ i = 11 := by omega
  · rw [Option.some.inj (hi.symm.trans h8)]
    decide
  · rcases h9 with h9 | h9 <;> rw [Option.some.inj (hi.symm.trans h9)] <;> decide
  · rw [hi] at h10
    exact ShareConfig.digit_ascii (by simpa using h10)
  · rw [Option.some.inj (hi.symm.trans h11)]
    decide

structure BackingGood (known : List Bytes) (b : Backing) : Prop where
  id : identifier b.id = true
  volume : b.volumeID ∈ known
  path : filePath b.relativePath = true
  block : b.blockSize = 512 ∨ b.blockSize = 4096
  least : b.blockSize.toNat ≤ b.capacityBytes.toNat
  most : b.capacityBytes.toNat < 2 ^ 63
  whole : b.capacityBytes.toNat % b.blockSize.toNat = 0
  allocation : b.allocation = ascii "preallocated" ∨ b.allocation = ascii "sparse"

def BackingsApart (a b : Backing) : Prop :=
  a.id ≠ b.id ∧ (a.volumeID = b.volumeID →
    pathOverlap a.relativePath b.relativePath = false)

theorem checkBackings_iff {earlier bs : List Backing} :
    checkBackings known earlier bs = true ↔
      (∀ b ∈ bs, BackingGood known b ∧ ∀ o ∈ earlier, BackingsApart o b) ∧
        bs.Pairwise BackingsApart := by
  induction bs generalizing earlier with
  | nil => simp [checkBackings]
  | cons b rest ih =>
    rw [checkBackings]
    refine Iff.trans ?_ (apart_cons (f := id)).symm
    simp only [Bool.and_eq_true, Bool.not_eq_true', List.contains_eq_mem, decide_eq_true_eq,
      decide_eq_false_iff_not, Bool.or_eq_true, beq_iff_eq, List.any_eq_false, not_and,
      Bool.not_eq_true, ih]
    constructor
    · rintro ⟨⟨⟨⟨⟨⟨⟨⟨⟨⟨hid, hnew⟩, hvol⟩, hpath⟩, hblock⟩, hleast⟩, hmost⟩, hwhole⟩, halloc⟩,
        hold⟩, hrest⟩
      exact ⟨⟨⟨hid, hvol, hpath, hblock, hleast, hmost, hwhole, halloc⟩,
        fun o ho => ⟨fun heq => hnew (heq ▸ List.mem_map_of_mem ho), hold o ho⟩⟩, hrest⟩
    · rintro ⟨⟨⟨hid, hvol, hpath, hblock, hleast, hmost, hwhole, halloc⟩, hold⟩, hrest⟩
      have hnew : b.id ∉ earlier.map Backing.id := by
        intro hmem
        obtain ⟨o, ho, heq⟩ := List.mem_map.mp hmem
        exact (hold o ho).1 heq
      exact ⟨⟨⟨⟨⟨⟨⟨⟨⟨⟨hid, hnew⟩, hvol⟩, hpath⟩, hblock⟩, hleast⟩, hmost⟩, hwhole⟩, halloc⟩,
        fun o ho => (hold o ho).2⟩, hrest⟩

theorem checkBackings_start {bs : List Backing} :
    checkBackings known [] bs = true ↔
      (∀ b ∈ bs, BackingGood known b) ∧ bs.Pairwise BackingsApart := by
  simp [checkBackings_iff]

structure LunGood (backings : List Bytes) (l : LUN) : Prop where
  id : identifier l.id = true
  backing : l.backingID ∈ backings
  access : access l.access = true

variable {backings : List Bytes} {modes : List (Bytes × Bytes)}

theorem checkLUNs_iff {used : Used} {numbers : List UInt16} {luns : List LUN}
    {r : Used × List (Bytes × Bytes)} :
    checkLUNs backings used numbers modes luns = some r ↔
      (∀ l ∈ luns, LunGood backings l) ∧ Fresh LUN.id used.lunIDs luns ∧
        Fresh LUN.number numbers luns ∧ Fresh LUN.backingID used.backings luns ∧
        r = ({ used with lunIDs := saw LUN.id used.lunIDs luns,
                         backings := saw LUN.backingID used.backings luns },
          saw (fun l => (l.id, l.access)) modes luns) := by
  induction luns generalizing used numbers modes with
  | nil => simp [checkLUNs, fresh_nil, saw, eq_comm]
  | cons l rest ih =>
    rw [checkLUNs, Option.ite_none_left_eq_some, ih, List.forall_mem_cons, fresh_cons, fresh_cons,
      fresh_cons]
    simp only [Bool.or_eq_true, Bool.not_eq_true', List.contains_eq_mem, decide_eq_true_eq,
      decide_eq_false_iff_not, not_or, Decidable.not_not, Bool.not_eq_false]
    constructor
    · rintro ⟨⟨⟨⟨⟨⟨hid, hnew⟩, hnumber⟩, hknown⟩, hfree⟩, haccess⟩, hall, hids, hnumbers, hused,
        rfl⟩
      exact ⟨⟨⟨hid, hknown, haccess⟩, hall⟩, ⟨hnew, hids⟩, ⟨hnumber, hnumbers⟩, ⟨hfree, hused⟩, rfl⟩
    · rintro ⟨⟨⟨hid, hknown, haccess⟩, hall⟩, ⟨hnew, hids⟩, ⟨hnumber, hnumbers⟩, ⟨hfree, hused⟩,
        rfl⟩
      exact ⟨⟨⟨⟨⟨⟨hid, hnew⟩, hnumber⟩, hknown⟩, hfree⟩, haccess⟩, hall, hids, hnumbers, hused, rfl⟩

theorem checkGrants_iff {granted : List Bytes} {gs : List Grant} :
    checkGrants modes granted gs = true ↔
      (∀ g ∈ gs, access g.access = true ∧ ∃ mode, modes.lookup g.lunID = some mode ∧
        (mode = ascii "ro" → g.access = ascii "ro")) ∧ Fresh Grant.lunID granted gs := by
  induction gs generalizing granted with
  | nil => simp [checkGrants, fresh_nil]
  | cons g rest ih =>
    rw [checkGrants, List.forall_mem_cons, fresh_cons]
    cases modes.lookup g.lunID with
    | none => simp
    | some mode =>
      simp only [Bool.and_eq_true, Bool.not_eq_true', List.contains_eq_mem, Option.some.injEq,
        decide_eq_false_iff_not, Bool.and_eq_false_imp, beq_iff_eq, bne_eq_false_iff_eq, ih,
        exists_eq_left']
      constructor
      · rintro ⟨⟨⟨hnew, haccess⟩, hmode⟩, hall, hfresh⟩
        exact ⟨⟨⟨haccess, hmode⟩, hall⟩, hnew, hfresh⟩
      · rintro ⟨⟨⟨haccess, hmode⟩, hall⟩, hnew, hfresh⟩
        exact ⟨⟨⟨hnew, haccess⟩, hmode⟩, hall, hfresh⟩

def secretRefs (a : Authentication) : List Bytes :=
  if a.mode = ascii "chap" then [a.initiatorSecretRef]
  else [a.initiatorSecretRef, a.targetSecretRef]

structure AuthGood (a : Authentication) : Prop where
  mode : a.mode = ascii "chap" ∨ a.mode = ascii "mutual-chap"
  user : username a.initiatorUser = true
  secret : identifier a.initiatorSecretRef = true
  target : if a.mode = ascii "chap" then a.targetUser = [] ∧ a.targetSecretRef = []
    else username a.targetUser = true ∧ identifier a.targetSecretRef = true

theorem authentication_iff {used out : List Bytes} :
    authentication a used = some out ↔
      AuthGood a ∧ Fresh id used (secretRefs a) ∧ out = saw id used (secretRefs a) := by
  have hgood : AuthGood a ↔ (a.mode = ascii "chap" ∨ a.mode = ascii "mutual-chap") ∧
      username a.initiatorUser = true ∧ identifier a.initiatorSecretRef = true ∧
      if a.mode = ascii "chap" then a.targetUser = [] ∧ a.targetSecretRef = []
      else username a.targetUser = true ∧ identifier a.targetSecretRef = true :=
    ⟨fun h => ⟨h.mode, h.user, h.secret, h.target⟩, fun h => ⟨h.1, h.2.1, h.2.2.1, h.2.2.2⟩⟩
  rw [authentication, Option.ite_none_left_eq_some, hgood, secretRefs]
  by_cases hchap : a.mode = ascii "chap"
  · simp only [hchap, if_true, fresh_cons, saw, List.foldl_cons, List.foldl_nil, id]
    simp [fresh_nil]
    tauto
  · simp only [hchap, if_false, fresh_cons, saw, List.foldl_cons, List.foldl_nil, id]
    simp [hchap, fresh_nil]
    tauto

structure PeerGood (modes : List (Bytes × Bytes)) (peer : Initiator) : Prop where
  name : iqn peer.name = true
  authentication : AuthGood peer.authentication
  granted : 0 < peer.grants.items.length
  counted : peer.grants.items.length ≤ maxLUNs
  grants : ∀ g ∈ peer.grants.items, access g.access = true ∧
    ∃ mode, modes.lookup g.lunID = some mode ∧ (mode = ascii "ro" → g.access = ascii "ro")
  units : (peer.grants.items.map Grant.lunID).Nodup

def peerSecrets (peer : Initiator) : List Bytes := secretRefs peer.authentication

theorem checkInitiators_iff {secrets names out : List Bytes} {peers : List Initiator} :
    checkInitiators modes secrets names peers = some out ↔
      (∀ peer ∈ peers, PeerGood modes peer) ∧ Fresh Initiator.name names peers ∧
        Fresh id secrets (peers.flatMap peerSecrets) ∧
        out = saw id secrets (peers.flatMap peerSecrets) := by
  induction peers generalizing secrets names with
  | nil => simp [checkInitiators, fresh_nil, saw, eq_comm]
  | cons peer rest ih =>
    rw [checkInitiators, Option.ite_none_left_eq_some, List.forall_mem_cons, fresh_cons,
      List.flatMap_cons, fresh_append, saw_append, peerSecrets]
    simp only [Bool.or_eq_true, Bool.not_eq_true', List.contains_eq_mem, decide_eq_true_eq,
      not_or, Bool.not_eq_false]
    cases hauth : authentication peer.authentication secrets with
    | none =>
      simp only [reduceCtorEq, and_false, false_iff]
      rintro ⟨⟨hpeer, -⟩, -, ⟨hfresh, -⟩, -⟩
      have hsome := authentication_iff.mpr ⟨hpeer.authentication, hfresh, rfl⟩
      rw [hauth] at hsome
      cases hsome
    | some used =>
      obtain ⟨hgood, hfresh, rfl⟩ := authentication_iff.mp hauth
      simp only [Option.ite_none_left_eq_some, ih, not_or, beq_iff_eq, Nat.not_lt,
        Bool.not_eq_false, checkGrants_iff, fresh_start]
      constructor
      · rintro ⟨⟨hname, hnew⟩, ⟨⟨hsome, hcounted⟩, hgrants, hunits⟩, hall, hnames, hsecrets, hout⟩
        exact ⟨⟨⟨hname, hgood, Nat.pos_of_ne_zero hsome, hcounted, hgrants, hunits⟩, hall⟩,
          ⟨hnew, hnames⟩, ⟨hfresh, hsecrets⟩, hout⟩
      · rintro ⟨⟨hpeer, hall⟩, ⟨hnew, hnames⟩, ⟨-, hsecrets⟩, hout⟩
        exact ⟨⟨hpeer.name, hnew⟩, ⟨⟨hpeer.granted.ne', hpeer.counted⟩, hpeer.grants, hpeer.units⟩,
          hall, hnames, hsecrets, hout⟩

def targetUnits (t : Target) : List LUN := t.luns.items

def targetSecrets (t : Target) : List Bytes := t.initiators.items.flatMap peerSecrets

def targetModes (t : Target) : List (Bytes × Bytes) :=
  saw (fun l => (l.id, l.access)) [] t.luns.items

structure TargetGood (backings : List Bytes) (t : Target) : Prop where
  id : identifier t.id = true
  name : iqn t.name = true
  state : t.state = ascii "disabled" ∨ t.state = ascii "enabled"
  units : 0 < t.luns.items.length ∧ t.luns.items.length ≤ maxLUNs
  peers : 0 < t.initiators.items.length ∧ t.initiators.items.length ≤ maxInitiators
  luns : ∀ l ∈ t.luns.items, LunGood backings l
  numbers : (t.luns.items.map LUN.number).Nodup
  initiators : ∀ peer ∈ t.initiators.items, PeerGood (targetModes t) peer
  names : (t.initiators.items.map Initiator.name).Nodup

/-- The maps that the loop threads are the keys of all earlier targets. -/
theorem checkTargets_iff {used out : Used} {ts : List Target} :
    checkTargets backings used ts = some out ↔
      (∀ t ∈ ts, TargetGood backings t) ∧ Fresh Target.id used.targetIDs ts ∧
        Fresh Target.name used.names ts ∧ Fresh LUN.id used.lunIDs (ts.flatMap targetUnits) ∧
        Fresh LUN.backingID used.backings (ts.flatMap targetUnits) ∧
        Fresh id used.secrets (ts.flatMap targetSecrets) ∧
        out = { targetIDs := saw Target.id used.targetIDs ts
                names := saw Target.name used.names ts
                lunIDs := saw LUN.id used.lunIDs (ts.flatMap targetUnits)
                backings := saw LUN.backingID used.backings (ts.flatMap targetUnits)
                secrets := saw id used.secrets (ts.flatMap targetSecrets) } := by
  induction ts generalizing used with
  | nil => simp [checkTargets, fresh_nil, saw, eq_comm]
  | cons t rest ih =>
    rw [checkTargets, Option.ite_none_left_eq_some, List.forall_mem_cons, fresh_cons, fresh_cons,
      List.flatMap_cons, List.flatMap_cons, fresh_append, fresh_append, fresh_append, saw_append,
      saw_append, saw_append]
    simp only [Bool.or_eq_true, Bool.not_eq_true', List.contains_eq_mem, decide_eq_true_eq,
      not_or, Bool.not_eq_false, Bool.and_eq_true, bne_iff_ne, ne_eq, not_and_or,
      Decidable.not_not, beq_iff_eq, Nat.not_lt]
    constructor
    · rintro ⟨⟨⟨⟨⟨⟨⟨⟨⟨hid, hnew⟩, hname⟩, hnewName⟩, hstate⟩, hsome⟩, hunits⟩, hpeers⟩, hcounted⟩,
        hloops⟩
      cases hl : checkLUNs backings
          { used with targetIDs := t.id :: used.targetIDs, names := t.name :: used.names } [] []
          t.luns.items with
      | none => simp [hl] at hloops
      | some r =>
        obtain ⟨hluns, hids, hnumbers, hused, rfl⟩ := checkLUNs_iff.mp hl
        rw [hl] at hloops
        dsimp only at hloops
        cases hi : checkInitiators (saw (fun l => (l.id, l.access)) [] t.luns.items) used.secrets []
            t.initiators.items with
        | none => simp [hi] at hloops
        | some secrets =>
          obtain ⟨hall, hnames, hsecrets, rfl⟩ := checkInitiators_iff.mp hi
          rw [hi] at hloops
          obtain ⟨hrest, hids', hnames', hlunIDs, hbackings, hsecrets', rfl⟩ := ih.mp hloops
          exact ⟨⟨⟨hid, hname, hstate, ⟨Nat.pos_of_ne_zero hsome, hunits⟩,
            ⟨Nat.pos_of_ne_zero hpeers, hcounted⟩, hluns, fresh_start.mp hnumbers, hall,
            fresh_start.mp hnames⟩, hrest⟩, ⟨hnew, hids'⟩, ⟨hnewName, hnames'⟩, ⟨hids, hlunIDs⟩,
            ⟨hused, hbackings⟩, ⟨hsecrets, hsecrets'⟩, rfl⟩
    · rintro ⟨⟨ht, hrest⟩, ⟨hnew, hids'⟩, ⟨hnewName, hnames'⟩, ⟨hids, hlunIDs⟩,
        ⟨hused, hbackings⟩, ⟨hsecrets, hsecrets'⟩, rfl⟩
      refine ⟨⟨⟨⟨⟨⟨⟨⟨⟨ht.id, hnew⟩, ht.name⟩, hnewName⟩, ht.state⟩, ht.units.1.ne'⟩, ht.units.2⟩,
        ht.peers.1.ne'⟩, ht.peers.2⟩, ?_⟩
      have hluns := (@checkLUNs_iff backings []
        { used with targetIDs := t.id :: used.targetIDs, names := t.name :: used.names } []
        t.luns.items _).mpr ⟨ht.luns, hids, fresh_start.mpr ht.numbers, hused, rfl⟩
      rw [hluns]
      dsimp only
      rw [← targetModes, checkInitiators_iff.mpr ⟨ht.initiators, fresh_start.mpr ht.names, hsecrets,
        rfl⟩]
      exact ih.mpr ⟨hrest, hids', hnames', hlunIDs, hbackings, hsecrets', rfl⟩

def units (p : Policy) : List LUN := p.targets.items.flatMap targetUnits

def secrets (p : Policy) : List Bytes := p.targets.items.flatMap targetSecrets

structure Sound (p : Policy) (volumes : ShareConfig.Config) : Prop where
  shared : volumes.validate = .ok ()
  format : p.format = formatName
  schema : p.schemaVersion = schemaVersion
  revision : p.revision ≠ 0
  bound : p.volumeRevision = volumes.revision
  present : p.backings.isSome = true ∧ p.targets.isSome = true
  counted : p.backings.items.length ≤ maxBackings ∧ p.targets.items.length ≤ maxTargets
  backings : ∀ b ∈ p.backings.items,
    BackingGood (volumes.volumes.items.map ShareConfig.Volume.id) b
  apart : p.backings.items.Pairwise BackingsApart
  targets : ∀ t ∈ p.targets.items, TargetGood (p.backings.items.map Backing.id) t
  targetIDs : (p.targets.items.map Target.id).Nodup
  names : (p.targets.items.map Target.name).Nodup
  lunIDs : ((units p).map LUN.id).Nodup
  used : ((units p).map LUN.backingID).Nodup
  all : (units p).length = p.backings.items.length
  secrets : (secrets p).Nodup
  size : p.marshal.length ≤ maxInputBytes

theorem length_used {luns : List LUN} : (saw LUN.backingID [] luns).length = luns.length := by
  rw [saw_eq, List.append_nil, List.length_reverse, List.length_map]

variable {volumes : ShareConfig.Config}

/-- Validation decides soundness. -/
theorem validate_iff : p.validate volumes = true ↔ Sound p volumes := by
  simp only [Policy.validate, Bool.and_eq_true, beq_iff_eq, bne_iff_ne, decide_eq_true_eq,
    Option.any_eq_true, checkBackings_start, checkTargets_iff, fresh_start, List.map_id]
  constructor
  · rintro ⟨⟨⟨⟨⟨⟨⟨⟨⟨⟨⟨hv, hformat⟩, hschema⟩, hrev⟩, hbound⟩, hb⟩, ht⟩, hnb⟩, hnt⟩, hgood, hapart⟩,
      out, ⟨htargets, hids, hnames, hluns, hused, hsecrets, rfl⟩, hall⟩, hsize⟩
    rw [length_used] at hall
    exact ⟨hv, hformat, hschema, hrev, hbound, ⟨hb, ht⟩, ⟨hnb, hnt⟩, hgood, hapart, htargets, hids,
      hnames, hluns, hused, hall, hsecrets, hsize⟩
  · intro h
    refine ⟨⟨⟨⟨⟨⟨⟨⟨⟨⟨⟨h.shared, h.format⟩, h.schema⟩, h.revision⟩, h.bound⟩, h.present.1⟩,
      h.present.2⟩, h.counted.1⟩, h.counted.2⟩, h.backings, h.apart⟩, _,
      ⟨h.targets, h.targetIDs, h.names, h.lunIDs, h.used, h.secrets, rfl⟩, ?_⟩, h.size⟩
    rw [length_used]
    exact h.all

structure Backing.Checked (known : List Bytes) (b : Backing) : Prop where
  id : identifier b.id = true
  volume : b.volumeID ∈ known
  path : filePath b.relativePath = true
  allocation : b.allocation = ascii "preallocated" ∨ b.allocation = ascii "sparse"

structure LUN.Checked (backings : List Bytes) (l : LUN) : Prop where
  id : identifier l.id = true
  backing : l.backingID ∈ backings
  access : IscsiPolicy.access l.access = true

structure Grant.Checked (g : Grant) : Prop where
  lun : identifier g.lunID = true
  access : IscsiPolicy.access g.access = true

/-- Target credentials are present exactly for mutual authentication. -/
structure Authentication.Checked (a : Authentication) : Prop where
  mode : a.mode = ascii "chap" ∨ a.mode = ascii "mutual-chap"
  user : username a.initiatorUser = true
  secret : identifier a.initiatorSecretRef = true
  target : a.targetUser = [] ∧ a.targetSecretRef = [] ∨
    username a.targetUser = true ∧ identifier a.targetSecretRef = true

structure Initiator.Checked (peer : Initiator) : Prop where
  name : iqn peer.name = true
  authentication : peer.authentication.Checked
  grants : ∃ gs, peer.grants = some gs ∧ ∀ g ∈ gs, g.Checked

structure Target.Checked (backings : List Bytes) (t : Target) : Prop where
  id : identifier t.id = true
  name : iqn t.name = true
  state : t.state = ascii "disabled" ∨ t.state = ascii "enabled"
  luns : ∃ ls, t.luns = some ls ∧ ∀ l ∈ ls, l.Checked backings
  initiators : ∃ peers, t.initiators = some peers ∧ ∀ peer ∈ peers, peer.Checked

structure Policy.Accepted (p : Policy) (volumes : ShareConfig.Config) : Prop where
  shares : volumes.Accepted
  format : p.format = formatName
  schema : p.schemaVersion = 1
  bound : p.volumeRevision = volumes.revision
  backings : ∃ bs, p.backings = some bs ∧
    ∀ b ∈ bs, b.Checked (volumes.volumes.items.map ShareConfig.Volume.id)
  targets : ∃ ts, p.targets = some ts ∧
    ∀ t ∈ ts, t.Checked (p.backings.items.map Backing.id)
  size : p.marshal.length ≤ maxInputBytes

theorem AuthGood.checked (h : AuthGood a) : a.Checked := by
  refine ⟨h.mode, h.user, h.secret, ?_⟩
  have htarget := h.target
  by_cases hchap : a.mode = ascii "chap"
  · rw [if_pos hchap] at htarget
    exact .inl htarget
  · rw [if_neg hchap] at htarget
    exact .inr htarget

theorem PeerGood.checked {peer : Initiator} (h : PeerGood modes peer)
    (hmodes : ∀ m ∈ modes, identifier m.1 = true) : peer.Checked := by
  cases hs : peer.grants with
  | none => simpa [hs] using h.granted
  | some gs =>
    refine ⟨h.name, h.authentication.checked, gs, hs, fun g hg => ?_⟩
    obtain ⟨haccess, mode, hmode, -⟩ := h.grants g (by rw [hs]; exact hg)
    obtain ⟨before, after, heq, -⟩ := List.lookup_eq_some_iff.mp hmode
    exact ⟨hmodes (g.lunID, mode) (heq ▸ List.mem_append_right _ List.mem_cons_self), haccess⟩

theorem TargetGood.checked (h : TargetGood backings t) : t.Checked backings := by
  have hmodes : ∀ m ∈ targetModes t, identifier m.1 = true := by
    intro m hm
    rw [targetModes, saw_mem_iff] at hm
    obtain ⟨l, hl, rfl⟩ := List.mem_map.mp (hm.resolve_right List.not_mem_nil)
    exact (h.luns l hl).id
  cases hs : t.luns with
  | none => simpa [hs] using h.units.1
  | some ls =>
    cases hp : t.initiators with
    | none => simpa [hp] using h.peers.1
    | some peers =>
      refine ⟨h.id, h.name, h.state, ⟨ls, hs, fun l hl => ?_⟩, ⟨peers, hp, fun peer hpeer => ?_⟩⟩
      · have hgood := h.luns l (by rw [hs]; exact hl)
        exact ⟨hgood.id, hgood.backing, hgood.access⟩
      · exact (h.initiators peer (by rw [hp]; exact hpeer)).checked hmodes

theorem Policy.validate_ok (h : p.validate volumes = true) : p.Accepted volumes := by
  have hsound := validate_iff.mp h
  obtain ⟨bs, hbs⟩ := Option.isSome_iff_exists.mp hsound.present.1
  obtain ⟨ts, hts⟩ := Option.isSome_iff_exists.mp hsound.present.2
  refine ⟨ShareConfig.Config.validate_ok hsound.shared, hsound.format, hsound.schema, hsound.bound,
    ⟨bs, hbs, fun b hb => ?_⟩, ⟨ts, hts, fun t ht => ?_⟩, hsound.size⟩
  · have hgood := hsound.backings b (by rw [hbs]; exact hb)
    exact ⟨hgood.id, hgood.volume, hgood.path, hgood.allocation⟩
  · exact (hsound.targets t (by rw [hts]; exact ht)).checked

/-!
What is read first is the wrapper: the unit's number apart from the unit, the units apart from
the target, the targets apart from the policy.
-/

def LUN.wire (l : LUN) : WireLUN := ⟨{ l with number := 0 }, some l.number⟩

def Target.wire (t : Target) : WireTarget :=
  ⟨{ t with luns := none }, some (t.luns.items.map LUN.wire)⟩

def Policy.wire (p : Policy) : WirePolicy :=
  ⟨{ p with targets := none }, some (p.targets.items.map Target.wire)⟩

theorem mapM_wire {α β : Type} {f : β → Option α} {g : α → β} {l : List α}
    (h : ∀ a ∈ l, f (g a) = some a) : (l.map g).mapM f = some l := by
  rw [TextFields.mapM_some h, List.map_id']

theorem Target.toTarget_wire {ls : List LUN} (h : t.luns = some ls) : t.wire.toTarget = some t := by
  have hunits : (ls.map LUN.wire).mapM WireLUN.toLUN = some ls := mapM_wire fun l _ => rfl
  obtain ⟨id, name, state, luns, initiators⟩ := t
  subst h
  simp [Target.wire, WireTarget.toTarget, hunits]

theorem Policy.toPolicy_wire {ts : List Target} (h : p.targets = some ts)
    (ht : ∀ t ∈ ts, ∃ ls, t.luns = some ls) : p.wire.toPolicy = some p := by
  have htargets : (ts.map Target.wire).mapM WireTarget.toTarget = some ts := by
    apply mapM_wire
    intro t hm
    obtain ⟨ls, hls⟩ := ht t hm
    exact Target.toTarget_wire hls
  obtain ⟨format, schema, revision, volumeRevision, backings, targets⟩ := p
  subst h
  simp [Policy.wire, WirePolicy.toPolicy, htargets]

variable {height : Nat}

theorem carries_backing {b : Backing} (h : b.Checked known)
    (hknown : ∀ id ∈ known, identifier id = true) :
    Carries (some keys) (height + 1) Backing.codec (Backing.codec.write b) b := by
  have hallocation : validString b.allocation = true := by
    rcases h.allocation with heq | heq <;> rw [heq] <;> rfl
  exact carries_struct <| .text (ShareConfig.identifier_valid h.id) <|
    .text (ShareConfig.identifier_valid (hknown _ h.volume)) <| .text (filePath_valid h.path) <|
    .field (carries_uint64 b.capacityBytes) <| .field (carries_uint16 b.blockSize) <|
    .text hallocation .nil

theorem carries_lun {l : LUN} (h : l.Checked backings)
    (hbackings : ∀ id ∈ backings, identifier id = true) :
    Carries (some keys) (height + 1) WireLUN.codec (LUN.codec.write l) l.wire :=
  carries_struct <| .text (ShareConfig.identifier_valid h.id) <|
    .field (carries_pointer (carries_uint16 l.number) nofun) <|
    .text (ShareConfig.identifier_valid (hbackings _ h.backing)) <|
    .text (access_valid h.access) .nil

theorem carries_grant {g : Grant} (h : g.Checked) :
    Carries (some keys) (height + 1) Grant.codec (Grant.codec.write g) g :=
  carries_struct <| .text (ShareConfig.identifier_valid h.lun) <|
    .text (access_valid h.access) .nil

theorem carries_authentication (h : a.Checked) :
    Carries (some keys) (height + 1) Authentication.codec (Authentication.codec.write a) a := by
  have hmode : validString a.mode = true := by
    rcases h.mode with heq | heq <;> rw [heq] <;> rfl
  have huser := username_valid h.user
  have hsecret := ShareConfig.identifier_valid h.secret
  obtain ⟨mode, user, secret, targetUser, targetSecret⟩ := a
  rcases h.target with ⟨hu, hs⟩ | ⟨hu, hs⟩
  · dsimp only at hu hs
    subst hu hs
    exact carries_struct <| .text hmode <| .text huser <| .text hsecret <| .skip <| .skip .nil
  · have hwrite : Authentication.codec.write ⟨mode, user, secret, targetUser, targetSecret⟩ =
        .obj (.ofList [(ascii "mode", .str mode), (ascii "initiator_user", .str user),
          (ascii "initiator_secret_ref", .str secret), (ascii "target_user", .str targetUser),
          (ascii "target_secret_ref", .str targetSecret)]) := by
      have hu' : targetUser ≠ [] := by
        rintro rfl
        simp [username] at hu
      have hs' : targetSecret ≠ [] := by
        rintro rfl
        simp [identifier, ShareConfig.identifier, ShareConfig.startsLower] at hs
      simp [Authentication.codec, Codec.struct, Field.of, Field.omitEmpty, Codec.string, hu', hs']
    rw [hwrite]
    exact carries_struct <| .text hmode <| .text huser <| .text hsecret <|
      .optional (carries_string (username_valid hu)) <|
      .optional (carries_string (ShareConfig.identifier_valid hs)) .nil

theorem carries_initiator {peer : Initiator} (h : peer.Checked) :
    Carries (some keys) (height + 3) Initiator.codec (Initiator.codec.write peer) peer := by
  obtain ⟨gs, hgs, hgrants⟩ := h.grants
  have hname := iqn_valid h.name
  have hauth := @carries_authentication _ (height + 1) h.authentication
  obtain ⟨name, authentication, grants⟩ := peer
  subst hgs
  have hslice : Carries (some keys) (height + 2) (.slice Grant.codec)
      (.arr (.ofList (gs.map Grant.codec.write))) (some gs) :=
    carries_slice fun g hg => carries_grant (hgrants g hg)
  exact carries_struct <| .text hname <| .field hauth <| .field hslice .nil

theorem carries_target (h : t.Checked backings)
    (hbackings : ∀ id ∈ backings, identifier id = true) :
    Carries (some keys) (height + 5) WireTarget.codec (Target.codec.write t) t.wire := by
  obtain ⟨ls, hls, hluns⟩ := h.luns
  obtain ⟨peers, hpeers, hinitiators⟩ := h.initiators
  have hid := ShareConfig.identifier_valid h.id
  have hname := iqn_valid h.name
  have hstate : validString t.state = true := by
    rcases h.state with heq | heq <;> rw [heq] <;> rfl
  obtain ⟨id, name, state, luns, initiators⟩ := t
  subst hls hpeers
  have hunits : Carries (some keys) (height + 4) (.slice WireLUN.codec)
      (.arr (.ofList (ls.map LUN.codec.write))) (some (ls.map LUN.wire)) :=
    carries_slice_map fun l hl => carries_lun (hluns l hl) hbackings
  have hslice : Carries (some keys) (height + 4) (.slice Initiator.codec)
      (.arr (.ofList (peers.map Initiator.codec.write))) (some peers) :=
    carries_slice fun peer hp => carries_initiator (hinitiators peer hp)
  exact carries_struct <| .text hid <| .text hname <| .text hstate <| .field hunits <|
    .field hslice .nil

theorem Policy.Accepted.carries (h : p.Accepted volumes) :
    Carries (some keys) (height + 7) WirePolicy.codec (Policy.codec.write p) p.wire := by
  obtain ⟨vs, hvs, _, hvolumes⟩ := h.shares.volumes
  obtain ⟨bs, hbs, hbackings⟩ := h.backings
  obtain ⟨ts, hts, htargets⟩ := h.targets
  have hknown : ∀ id ∈ volumes.volumes.items.map ShareConfig.Volume.id,
      identifier id = true := by
    intro id hid
    rw [hvs] at hid
    obtain ⟨v, hv, rfl⟩ := List.mem_map.mp hid
    exact (hvolumes v hv).1
  have hids : ∀ id ∈ bs.map Backing.id, identifier id = true := by
    intro id hid
    obtain ⟨b, hb, rfl⟩ := List.mem_map.mp hid
    exact (hbackings b hb).id
  have hformat := h.format
  have hschema := h.schema
  obtain ⟨format, schema, revision, volumeRevision, backings, targets⟩ := p
  subst hformat hschema hbs hts
  have hfiles : Carries (some keys) (height + 6) (.slice Backing.codec)
      (.arr (.ofList (bs.map Backing.codec.write))) (some bs) :=
    carries_slice fun b hb => carries_backing (hbackings b hb) hknown
  have hslice : Carries (some keys) (height + 6) (.slice WireTarget.codec)
      (.arr (.ofList (ts.map Target.codec.write))) (some (ts.map Target.wire)) :=
    carries_slice_map fun t ht => carries_target (htargets t ht) hids
  exact carries_struct <| .text rfl <| .field (carries_schema rfl) <|
    .field (carries_uint64 revision) <| .field (carries_uint64 volumeRevision) <|
    .field hfiles <| .field hslice .nil

theorem decode_marshal (h : p.validate volumes = true) : decode p.marshal volumes = some p := by
  have haccepted := Policy.validate_ok h
  obtain ⟨ts, hts, htargets⟩ := haccepted.targets
  have hread : decodeDocument WirePolicy.codec p.marshal maxInputBytes 9 keys = some p.wire :=
    decodeDocument_render haccepted.carries haccepted.size (show 7 ≤ 9 by decide) (by decide)
  have hwire : p.wire.toPolicy = some p := Policy.toPolicy_wire hts fun t ht => by
    obtain ⟨ls, hls, _⟩ := (htargets t ht).luns
    exact ⟨ls, hls⟩
  simp only [decode, hread, hwire, Option.bind_eq_bind, Option.bind_some, guard_bind]
  exact ⟨h, trivial⟩

end IscsiPolicy
