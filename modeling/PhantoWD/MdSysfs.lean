import PhantoWD.MdStat
import PhantoWD.ServicePreview

/-!
`readMDArraySysfs` takes what the status text said of an array and the attributes the kernel
shows for it. It cross-checks the two field by field, and only agreement leads to a health.
-/
namespace MdSysfs

open GoText GoJson MdStat
open BlockTopology (validBlockName)
open ShareConfig (hyphenAt)
open ServicePreview (Sorter)

def maxSysfsAttributeBytes : Nat := 128
def maxMDArrayDiagnosticCodes : Nat := 16

inductive Attribute where
  | dev
  | uuid
  | level
  | arrayState
  | degraded
  | raidDisks
  | syncAction
  | syncCompleted
  deriving DecidableEq

/-- What the observer reads of the file system: the names under `class/block`, the attributes of
an array and the names of its slaves. A directory holds no name twice. -/
structure Sysfs where
  blocks : Option (List Bytes)
  file : Bytes → Attribute → Option Bytes
  slaves : Bytes → Option (List Bytes)
  blocks_nodup : ∀ names, blocks = some names → names.Nodup
  slaves_nodup : ∀ name names, slaves name = some names → names.Nodup

def readSysfsAttribute (sysfs : Sysfs) (name : Bytes) (a : Attribute) : Option Bytes :=
  (sysfs.file name a).filter fun data => data.length ≤ maxSysfsAttributeBytes

inductive Health where
  | healthy
  | degraded
  | syncing
  | paused
  | inactive
  | unknown
  deriving DecidableEq

inductive IdentityStatus where
  | unavailable
  | present
  | invalid
  | ambiguous
  | unreadable
  deriving DecidableEq

inductive Diagnostic where
  | blockInventoryUnavailable
  | mdArrayLimitExceeded
  | mdstatUnavailable
  | mdstatUnreadable
  | mdstatMalformed
  | sysfsArrayMissingFromMdstat
  | mdArrayObservationLimitExceeded
  | mdBlockNodeMissing
  | mdLevelUnavailable
  | mdArrayStateUnavailable
  | mdDegradedCountUnavailable
  | mdRaidDiskCountUnavailable
  | mdSyncActionUnavailable
  | mdSyncProgressUnavailable
  | mdMembersUnavailable
  | mdMemberLimitExceeded
  | mdLevelInvalid
  | mdArrayStateInvalid
  | mdDegradedCountInvalid
  | mdRaidDiskCountInvalid
  | mdDegradedCountExceedsRaidDisks
  | mdSyncActionInvalid
  | mdSyncProgressInvalid
  | mdSysfsMemberNameInvalid
  | mdstatSysfsDisagreement
  deriving DecidableEq

def appendMDArrayDiagnostic (codes : List Diagnostic) (code : Diagnostic) : List Diagnostic :=
  if maxMDArrayDiagnosticCodes ≤ codes.length ∨ code ∈ codes then codes else codes ++ [code]

def appendMDArrayDiagnostics (codes more : List Diagnostic) : List Diagnostic :=
  more.foldl appendMDArrayDiagnostic codes

def diagnose (checks : List (Bool × Diagnostic)) : List Diagnostic :=
  appendMDArrayDiagnostics [] ((checks.filter Prod.fst).map Prod.snd)

variable (P : Percentages)

structure Observation where
  name : Bytes
  major : Nat := 0
  minor : Nat := 0
  arrayUUID : Bytes := []
  uuidStatus : IdentityStatus := .unavailable
  level : Bytes := []
  state : Bytes := []
  health : Health := .unknown
  expectedDevices : Nat := 0
  activeDevices : Nat := 0
  degradedDevices : Nat := 0
  syncAction : Bytes := []
  syncProgressPercent : Option P.Percent := none
  members : List Member := []
  diagnosticCodes : List Diagnostic := []
  identityComplete : Bool := false

def parseDeviceNumber (value : Bytes) : Option (Nat × Nat) :=
  match split (trimSpace value) 0x3a with
  | [first, second] => do
    let major ← parseUint32 first
    let minor ← parseUint32 second
    some (major, minor)
  | _ => none

def lowerHex (b : UInt8) : UInt8 := if 0x41 ≤ b.toNat ∧ b.toNat ≤ 0x46 then b + 0x20 else b

def canonicalMDArrayUUID (value : Bytes) : Option Bytes :=
  let value := if value.getLast? = some 0x0a then value.dropLast else value
  let canonical := value.mapIdx fun i b => if hyphenAt i then b else lowerHex b
  if value.length = 36 ∧
      (canonical.zipIdx.all fun p => if hyphenAt p.2 then p.1 == 0x2d
        else (0x30 ≤ p.1.toNat && p.1.toNat ≤ 0x39) || (0x61 ≤ p.1.toNat && p.1.toNat ≤ 0x66)) ∧
      (canonical.zipIdx.any fun p => !hyphenAt p.2 && p.1 != 0x30) then some canonical
  else none

def validMDArrayState (state : Bytes) : Bool :=
  [ascii "clear", ascii "inactive", ascii "suspended", ascii "readonly", ascii "read-auto",
    ascii "clean", ascii "active", ascii "write-pending", ascii "active-idle"].contains state

def validMDSyncAction (action : Bytes) : Bool :=
  [ascii "idle", ascii "resync", ascii "recover", ascii "check", ascii "repair", ascii "reshape",
    ascii "frozen"].contains action

def normalizeMDSyncAction (action : Bytes) : Bytes :=
  if action = ascii "recovery" then ascii "recover" else action

def healthyLevels : List Bytes :=
  [ascii "linear", ascii "multipath", ascii "raid0", ascii "raid1", ascii "raid4", ascii "raid5",
    ascii "raid6", ascii "raid10"]

def supportsKernelHealthyState (level : Bytes) : Bool := healthyLevels.contains level

def parseBoundedMDInteger (value : Bytes) (maximum : Nat) : Option Nat :=
  (parseUint32 (trimSpace value)).filter (· ≤ maximum)

def parseMDSyncCompleted (value : Bytes) : Option (Option P.Percent) :=
  match fields value with
  | [word] => if word = ascii "none" ∨ word = ascii "delayed" then some none else none
  | [first, slash, second] =>
    if slash ≠ ascii "/" then none
    else
      match parseUint first, parseUint second with
      | some completed, some total =>
        if total < completed then none
        else if total = 0 then some none
        else (P.ratio completed total).map some
      | _, _ => none
  | _ => none

def sameMDMemberNames (s : Sorter) (first second : List Member) : Bool :=
  first.length == second.length &&
    s.strings (first.map Member.name) == s.strings (second.map Member.name)

def healthyStates : List Bytes :=
  [ascii "clean", ascii "active", ascii "active-idle", ascii "read-auto"]

def classifyMDHealth (state action level : Bytes) (raidDisks degraded : Nat)
    (consistent : Bool) : Health :=
  if consistent = false then .unknown
  else if state = ascii "inactive" then .inactive
  else if raidDisks = 0 then .unknown
  else if 0 < degraded ∨ raidDisks ≤ degraded then .degraded
  else if action = ascii "frozen" then .paused
  else if action ≠ ascii "idle" then .syncing
  else if supportsKernelHealthyState level = false then .unknown
  else if healthyStates.contains state then .healthy
  else .unknown

def fromRecord (record : Record P) : Observation P where
  name := record.name
  level := record.level
  state := record.state
  syncAction := record.syncAction
  members := record.members
  expectedDevices := if record.countsKnown then record.expectedDevices else 0
  activeDevices := if record.countsKnown then record.activeDevices else 0
  degradedDevices :=
    if record.countsKnown ∧ record.activeDevices ≤ record.expectedDevices then
      record.expectedDevices - record.activeDevices
    else 0
  syncProgressPercent := record.syncProgress

def readIdentity (sysfs : Sysfs) (o : Observation P) : Observation P :=
  match readSysfsAttribute sysfs o.name .dev with
  | none => { o with uuidStatus := .unreadable }
  | some deviceText =>
    match parseDeviceNumber deviceText with
    | none => { o with uuidStatus := .invalid }
    | some (major, minor) =>
      if major = 0 ∧ minor = 0 then { o with uuidStatus := .invalid }
      else
        let o := { o with major := major, minor := minor }
        match readSysfsAttribute sysfs o.name .uuid with
        | none => { o with uuidStatus := .unreadable }
        | some uuidText =>
          match canonicalMDArrayUUID uuidText with
          | none => { o with uuidStatus := .invalid }
          | some uuid =>
            { o with arrayUUID := uuid, uuidStatus := .present, identityComplete := true }

structure Values where
  level : Bytes
  state : Bytes
  degraded : Nat
  raidDisks : Nat
  action : Bytes
  slaves : List Bytes
  deriving DecidableEq

def sub32 (a b : Nat) : Nat := (a + 2 ^ 32 - b) % 2 ^ 32

def quietStates : List Bytes := [ascii "inactive", ascii "clear", ascii "suspended"]

def sysfsMembers (s : Sorter) (v : Values) : List Member :=
  (s.strings v.slaves).map fun name => ⟨name, .active⟩

/-- The members that are reported: those of the text, if it names any. -/
def reportedMembers (s : Sorter) (record : Record P) (v : Values) : List Member :=
  if record.members = [] then sysfsMembers s v else record.members

def disagrees (s : Sorter) (record : Record P) (v : Values) : Bool :=
  (record.members != [] && !sameMDMemberNames s record.members (sysfsMembers s v)) ||
    (record.members.any (fun m => m.state == .faulty) && v.degraded == 0) ||
    (record.countsKnown && (record.expectedDevices != v.raidDisks ||
      sub32 record.expectedDevices record.activeDevices != v.degraded)) ||
    (record.level != ascii "unknown" && record.level != v.level) ||
    (record.syncAction != [] && normalizeMDSyncAction record.syncAction != v.action) ||
    (record.state == ascii "inactive" && !quietStates.contains v.state) ||
    (record.state == ascii "active" && quietStates.contains v.state)

def crossCheck (s : Sorter) (record : Record P) (o : Observation P) (v : Values)
    (syncCompleted : Bytes) : Observation P × Bool :=
  let o := { o with
    level := v.level
    state := v.state
    expectedDevices := v.raidDisks
    degradedDevices := v.degraded
    activeDevices := v.raidDisks - v.degraded
    syncAction := v.action }
  match parseMDSyncCompleted P syncCompleted with
  | none => ({ o with diagnosticCodes := diagnose [(true, .mdSyncProgressInvalid)] }, false)
  | some progress =>
    let o := { o with syncProgressPercent := progress.or o.syncProgressPercent }
    if v.slaves.any fun name => !validBlockName name then
      ({ o with diagnosticCodes := diagnose [(true, .mdSysfsMemberNameInvalid)] }, false)
    else
      let complete := !disagrees P s record v
      ({ o with
          diagnosticCodes := diagnose [(!complete, .mdstatSysfsDisagreement)]
          members := reportedMembers P s record v
          health := classifyMDHealth v.state v.action v.level v.raidDisks v.degraded complete },
        complete)

structure Texts where
  level : Option Bytes
  state : Option Bytes
  degraded : Option Bytes
  raidDisks : Option Bytes
  action : Option Bytes
  completed : Option Bytes
  slaves : Option (List Bytes)

def readTexts (sysfs : Sysfs) (name : Bytes) : Texts where
  level := readSysfsAttribute sysfs name .level
  state := readSysfsAttribute sysfs name .arrayState
  degraded := readSysfsAttribute sysfs name .degraded
  raidDisks := readSysfsAttribute sysfs name .raidDisks
  action := readSysfsAttribute sysfs name .syncAction
  completed := readSysfsAttribute sysfs name .syncCompleted
  slaves := sysfs.slaves name

def Texts.unavailable (t : Texts) : List Diagnostic :=
  diagnose [(t.level.isNone, .mdLevelUnavailable), (t.state.isNone, .mdArrayStateUnavailable),
    (t.degraded.isNone, .mdDegradedCountUnavailable),
    (t.raidDisks.isNone, .mdRaidDiskCountUnavailable),
    (t.action.isNone, .mdSyncActionUnavailable),
    (t.completed.isNone, .mdSyncProgressUnavailable), (t.slaves.isNone, .mdMembersUnavailable),
    (t.slaves.any fun l => maxMDMemberEntries < l.length, .mdMemberLimitExceeded)]

def parseTexts (level state degraded raidDisks action : Bytes) (slaves : List Bytes) :
    Values ⊕ List Diagnostic :=
  let degraded := parseBoundedMDInteger degraded maxMDMemberEntries
  let raidDisks := parseBoundedMDInteger raidDisks maxMDMemberEntries
  let v : Values := {
    level := trimSpace level
    state := trimSpace state
    degraded := degraded.getD 0
    raidDisks := raidDisks.getD 0
    action := trimSpace action
    slaves := slaves }
  let codes := diagnose [(!validMDLevel v.level, .mdLevelInvalid),
    (!validMDArrayState v.state, .mdArrayStateInvalid),
    (degraded.isNone, .mdDegradedCountInvalid), (raidDisks.isNone, .mdRaidDiskCountInvalid),
    (degraded.isSome && raidDisks.isSome && v.raidDisks < v.degraded,
      .mdDegradedCountExceedsRaidDisks),
    (!validMDSyncAction v.action, .mdSyncActionInvalid)]
  if codes = [] then .inl v else .inr codes

/-- `readMDArraySysfs`; the flag says whether the two sources were complete and agreed. -/
def readMDArraySysfs (s : Sorter) (sysfs : Sysfs) (record : Record P) (blockNodePresent : Bool) :
    Observation P × Bool :=
  let o := fromRecord P record
  if blockNodePresent = false then
    ({ o with diagnosticCodes := diagnose [(true, .mdBlockNodeMissing)] }, false)
  else
    let o := readIdentity P sysfs o
    let t := readTexts sysfs record.name
    if t.unavailable ≠ [] then ({ o with diagnosticCodes := t.unavailable }, false)
    else
      match parseTexts (t.level.getD []) (t.state.getD []) (t.degraded.getD [])
          (t.raidDisks.getD []) (t.action.getD []) (t.slaves.getD []) with
      | .inr codes => ({ o with diagnosticCodes := codes }, false)
      | .inl v => crossCheck P s record o v (t.completed.getD [])

section Reading

variable {P} {s : Sorter} {sysfs : Sysfs} {record : Record P}

structure IdentityRead (o : Observation P) : Prop where
  complete : o.identityComplete = true → o.uuidStatus = .present ∧ o.arrayUUID ≠ []
  incomplete : o.identityComplete = false →
    o.uuidStatus ≠ .present ∧ o.uuidStatus ≠ .ambiguous ∧ o.arrayUUID = []

structure SameIdentity (o t : Observation P) : Prop where
  status : t.uuidStatus = o.uuidStatus
  uuid : t.arrayUUID = o.arrayUUID
  complete : t.identityComplete = o.identityComplete

variable {o : Observation P}

theorem IdentityRead.same {t : Observation P} (ho : IdentityRead o) (h : SameIdentity o t) :
    IdentityRead t := by
  constructor
  · rw [h.status, h.uuid, h.complete]
    exact ho.complete
  · rw [h.status, h.uuid, h.complete]
    exact ho.incomplete

theorem canonicalMDArrayUUID_ne_nil {value uuid : Bytes}
    (h : canonicalMDArrayUUID value = some uuid) : uuid ≠ [] := by
  rw [canonicalMDArrayUUID] at h
  split_ifs at h with hnewline hvalid hvalid
  all_goals
    rintro rfl
    have hlength := congrArg List.length (Option.some.inj h)
    rw [List.length_mapIdx, hvalid.1] at hlength
    cases hlength

theorem readIdentity_read (hcomplete : o.identityComplete = false) (huuid : o.arrayUUID = []) :
    IdentityRead (readIdentity P sysfs o) := by
  have hother : ∀ {status : IdentityStatus} {major minor : Nat}, status ≠ .present →
      status ≠ .ambiguous →
      IdentityRead { o with uuidStatus := status, major := major, minor := minor } :=
    fun hp ha => ⟨fun h => (by rw [hcomplete] at h; cases h), fun _ => ⟨hp, ha, huuid⟩⟩
  unfold readIdentity
  split
  · exact hother (by decide) (by decide)
  · split
    · exact hother (by decide) (by decide)
    · split_ifs
      · exact hother (by decide) (by decide)
      · dsimp only
        split
        · exact hother (by decide) (by decide)
        · split
          · exact hother (by decide) (by decide)
          · rename_i uuid hcanonical
            exact ⟨fun _ => ⟨rfl, canonicalMDArrayUUID_ne_nil hcanonical⟩, fun h => (nomatch h)⟩

theorem crossCheck_identity {v : Values} {completed : Bytes} :
    SameIdentity o (crossCheck P s record o v completed).1 := by
  unfold crossCheck
  dsimp only
  split
  · exact ⟨rfl, rfl, rfl⟩
  · split_ifs
    · exact ⟨rfl, rfl, rfl⟩
    · exact ⟨rfl, rfl, rfl⟩

theorem readMDArraySysfs_identity {node : Bool} :
    IdentityRead (readMDArraySysfs P s sysfs record node).1 := by
  have hread : IdentityRead (readIdentity P sysfs (fromRecord P record)) :=
    readIdentity_read rfl rfl
  unfold readMDArraySysfs
  dsimp only
  split_ifs
  · exact ⟨fun h => (nomatch h), fun _ => ⟨nofun, nofun, rfl⟩⟩
  · exact hread.same ⟨rfl, rfl, rfl⟩
  · split
    · exact hread.same ⟨rfl, rfl, rfl⟩
    · exact hread.same crossCheck_identity

def values (sysfs : Sysfs) (name : Bytes) : Option Values :=
  let t := readTexts sysfs name
  if t.unavailable ≠ [] then none
  else
    match parseTexts (t.level.getD []) (t.state.getD []) (t.degraded.getD [])
        (t.raidDisks.getD []) (t.action.getD []) (t.slaves.getD []) with
    | .inr _ => none
    | .inl v => some v

theorem readIdentity_eq : ∃ major minor uuid status complete,
    readIdentity P sysfs o = { o with
      major := major, minor := minor, arrayUUID := uuid, uuidStatus := status,
      identityComplete := complete } := by
  unfold readIdentity
  split
  · exact ⟨_, _, _, _, _, rfl⟩
  · split
    · exact ⟨_, _, _, _, _, rfl⟩
    · split_ifs
      · exact ⟨_, _, _, _, _, rfl⟩
      · dsimp only
        split
        · exact ⟨_, _, _, _, _, rfl⟩
        · split <;> exact ⟨_, _, _, _, _, rfl⟩

theorem readIdentity_health : (readIdentity P sysfs o).health = o.health := by
  obtain ⟨_, _, _, _, _, h⟩ := @readIdentity_eq P sysfs o
  rw [h]

theorem readIdentity_name : (readIdentity P sysfs o).name = o.name := by
  obtain ⟨_, _, _, _, _, h⟩ := @readIdentity_eq P sysfs o
  rw [h]

theorem readIdentity_state : (readIdentity P sysfs o).state = o.state := by
  obtain ⟨_, _, _, _, _, h⟩ := @readIdentity_eq P sysfs o
  rw [h]

theorem readMDArraySysfs_none {node : Bool} (h : node = false ∨ values sysfs record.name = none) :
    (readMDArraySysfs P s sysfs record node).1.health = .unknown ∧
      (readMDArraySysfs P s sysfs record node).2 = false := by
  unfold readMDArraySysfs
  dsimp only
  split_ifs with hnode hmissing
  · exact ⟨rfl, rfl⟩
  · exact ⟨readIdentity_health, rfl⟩
  · split
    · exact ⟨readIdentity_health, rfl⟩
    · rename_i v hv
      have hsome : values sysfs record.name = some v := by
        rw [values]
        simp only [hmissing, if_false, hv]
      rw [hsome] at h
      rcases h with h | h
      · exact absurd h hnode
      · cases h

theorem readMDArraySysfs_some {v : Values} (h : values sysfs record.name = some v) :
    readMDArraySysfs P s sysfs record true =
      crossCheck P s record (readIdentity P sysfs (fromRecord P record)) v
        ((readTexts sysfs record.name).completed.getD []) := by
  rw [values] at h
  split_ifs at h with hmissing
  split at h
  · cases h
  · rename_i w hw
    cases h
    unfold readMDArraySysfs
    simp only [Bool.true_eq_false, if_false, hmissing, hw]

theorem crossCheck_state {v : Values} {completed : Bytes} :
    (crossCheck P s record o v completed).1.state = v.state := by
  unfold crossCheck
  dsimp only
  split
  · rfl
  · split_ifs <;> rfl

theorem readMDArraySysfs_state : (readMDArraySysfs P s sysfs record true).1.state =
    ((values sysfs record.name).map Values.state).getD record.state := by
  cases hv : values sysfs record.name with
  | some v =>
    rw [readMDArraySysfs_some hv, crossCheck_state]
    rfl
  | none =>
    rw [values] at hv
    have hstate := @readIdentity_state P sysfs (fromRecord P record)
    unfold readMDArraySysfs
    simp only [Bool.true_eq_false, if_false]
    split_ifs at hv ⊢
    · exact hstate
    · split at hv
      · exact hstate
      · cases hv

theorem crossCheck_name {v : Values} {completed : Bytes} :
    (crossCheck P s record o v completed).1.name = o.name := by
  unfold crossCheck
  dsimp only
  split
  · rfl
  · split_ifs <;> rfl

theorem readMDArraySysfs_name {node : Bool} :
    (readMDArraySysfs P s sysfs record node).1.name = record.name := by
  have hname : (readIdentity P sysfs (fromRecord P record)).name = record.name :=
    readIdentity_name
  unfold readMDArraySysfs
  dsimp only
  split_ifs
  · rfl
  · exact hname
  · split
    · exact hname
    · rw [crossCheck_name]
      exact hname

structure Operational (v : Values) : Prop where
  disks : 0 < v.raidDisks
  degraded : v.degraded = 0
  action : v.action = ascii "idle"
  level : supportsKernelHealthyState v.level = true
  state : v.state ∈ healthyStates

theorem classify_healthy {v : Values} {consistent : Bool}
    (h : classifyMDHealth v.state v.action v.level v.raidDisks v.degraded consistent = .healthy) :
    consistent = true ∧ Operational v := by
  rw [classifyMDHealth] at h
  split_ifs at h with hconsistent hinactive hzero hdegraded hfrozen hidle hlevel hstate
  refine ⟨by simpa using hconsistent, ?_, ?_, ?_, ?_, ?_⟩
  · exact Nat.pos_of_ne_zero hzero
  · omega
  · simpa using hidle
  · simpa using hlevel
  · simpa using hstate

end Reading

end MdSysfs
