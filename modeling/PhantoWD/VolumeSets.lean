import Mathlib.Data.List.Chain
import PhantoWD.StorageEvidence

/-!
A set owns a fixed roster of mounted volumes. Every observation looks at all of them, is
fingerprinted, and carries a generation that moves on when the fingerprint does. Calls follow
one another; what the owners answer is arbitrary in each of them.
-/
namespace VolumeSets

open GoText ShareConfig KeyedLists StorageEvidence ServicePreview PrefixCode Checks

section Counter

variable {α β : Type} [DecidableEq β] {count : α → Nat} {value : α → β} {l : List α}

/-- A counter that moves on with its value never goes back, and stands still only while the
value does. -/
theorem count_iff (h : l.IsChain fun a b =>
      count b = if value b = value a then count a else count a + 1) {i j : Nat} (hij : i ≤ j)
    (hj : j < l.length) :
    count l[i] ≤ count l[j] ∧
      (count l[i] = count l[j] ↔ ∀ k (hk : k ≤ j), i ≤ k → value l[k] = value l[i]) := by
  induction j, hij using Nat.le_induction with
  | base =>
    refine ⟨le_rfl, fun _ k hk hik => ?_, fun _ => rfl⟩
    obtain rfl := Nat.le_antisymm hk hik
    rfl
  | succ j hij ih =>
    obtain ⟨hle, hiff⟩ := ih (by omega)
    have hnext := List.isChain_iff_getElem.mp h j hj
    by_cases hsame : value l[j + 1] = value l[j]
    · rw [if_pos hsame] at hnext
      rw [hnext, hiff]
      refine ⟨hle, fun hall k hk hik => ?_, fun hall k hk => hall k (by omega)⟩
      by_cases hlast : k = j + 1
      · subst hlast
        rw [hsame, hall j le_rfl hij]
      · exact hall k (by omega) hik
    · rw [if_neg hsame] at hnext
      refine ⟨by omega, fun heq => by omega, fun hall => ?_⟩
      exact absurd ((hall (j + 1) le_rfl (by omega)).trans (hall j (by omega) hij).symm) hsame

end Counter

inductive SetError where
  | invalid
  | unavailable
  | busy
  | conflict
  | rejected
  | review
  deriving DecidableEq

/-- An owner is known by its address; its target is set once. -/
structure Owner where
  address : Nat
  target : Bytes
  deriving DecidableEq

structure MountedVolumeMember where
  volumeID : Bytes
  owner : Owner
  deriving DecidableEq

structure MountedVolumeEvidence extends ObservedVolume where
  generation : UInt64
  deriving DecidableEq

structure MountedVolumeSetEvidence where
  complete : Bool
  generation : Nat
  fingerprint : Digest
  volumes : List MountedVolumeEvidence
  deriving DecidableEq

structure MountedVolumeSet where
  members : List MountedVolumeMember
  generation : Nat := 0
  fingerprint : Digest := .zero

def validVolumeID : Bytes → Bool
  | [] => false
  | first :: rest => rest.length < 64 && 0x61 ≤ first && first ≤ 0x7a &&
      rest.all fun c => (0x61 ≤ c && c ≤ 0x7a) || (0x30 ≤ c && c ≤ 0x39) || c == 0x2d

def matchedID (wanted : List Bytes) (target : Bytes) : Option Bytes :=
  match wanted.filter fun id => target = joinRooted volumeMountRoot id with
  | [id] => some id
  | _ => none

def collectMembers (wanted : List Bytes) (seenOwners : List Nat) (seenTargets : List Bytes) :
    List (Option Owner) → Except SetError (List MountedVolumeMember)
  | [] => .ok []
  | none :: _ => .error .invalid
  | some owner :: rest =>
    if owner.address ∈ seenOwners ∨ owner.target ∈ seenTargets then .error .invalid
    else match matchedID wanted owner.target with
      | none => .error .invalid
      | some id => do
        let members ←
          collectMembers wanted (owner.address :: seenOwners) (owner.target :: seenTargets) rest
        .ok (⟨id, owner⟩ :: members)

def newMountedVolumeSet (sort : Sorter) (volumeIDs : Slice Bytes) (owners : Slice (Option Owner)) :
    Except SetError MountedVolumeSet :=
  if volumeIDs = none ∨ owners = none ∨ volumeIDs.items.length = 0 ∨
      volumeIDs.items.length ≠ owners.items.length ∨ maxVolumes < volumeIDs.items.length then
    .error .invalid
  else if volumeIDs.items.all validVolumeID = false ∨ ¬ volumeIDs.items.Nodup then .error .invalid
  else do
    let members ← collectMembers volumeIDs.items [] [] owners.items
    if members.length ≠ volumeIDs.items.length then .error .invalid
    else .ok { members := sort.run MountedVolumeMember.volumeID members }

def encodeEvidence (v : MountedVolumeEvidence) : Bytes :=
  text v.volumeID ++ (text v.filesystemUUID ++ (text v.mountPath ++ (text v.compatibility ++
    (word v.generation ++ (word v.mountID ++ (word v.deviceMajor.toUInt64 ++
      (word v.deviceMinor.toUInt64 ++ flag v.readOnly)))))))

section Code

variable (sha256 : Bytes → Digest)

def fingerprintMountedVolumeSet (volumes : List MountedVolumeEvidence) : Digest :=
  sha256 (volumes.flatMap encodeEvidence)

/-- What `observeMountedVolumeLocked` returns for each member of the roster. -/
abbrev Observer := MountedVolumeMember → Except SetError MountedVolumeEvidence

def observeMembers (observer : Observer) (uuids : List Bytes) (mounts : List UInt64)
    (devices : List (UInt32 × UInt32)) :
    List MountedVolumeMember → Except SetError (List MountedVolumeEvidence)
  | [] => .ok []
  | member :: rest => do
    let observed ← observer member
    if observed.volumeID ≠ member.volumeID ∨
        observed.mountPath ≠ joinRooted volumeMountRoot member.volumeID ∨
        observed.compatibility ≠ compatibilityQualified ∨ observed.generation = 0 ∨
        observed.mountID = 0 ∨ observed.deviceMajor = 0 ∨ observed.filesystemUUID ∈ uuids ∨
        observed.mountID ∈ mounts ∨ observed.device ∈ devices then .error .review
    else do
      let volumes ← observeMembers observer (observed.filesystemUUID :: uuids)
        (observed.mountID :: mounts) (observed.device :: devices) rest
      .ok (observed :: volumes)

def MountedVolumeSet.after (s : MountedVolumeSet) (e : MountedVolumeSetEvidence) :
    MountedVolumeSet :=
  { s with generation := e.generation, fingerprint := e.fingerprint }

def observeLocked (observer : Observer) (s : MountedVolumeSet) :
    Except SetError MountedVolumeSetEvidence × MountedVolumeSet :=
  match observeMembers observer [] [] [] s.members with
  | .error e => (.error e, s)
  | .ok volumes =>
    let fingerprint := fingerprintMountedVolumeSet sha256 volumes
    let publish (generation : Nat) :=
      let evidence := ⟨true, generation, fingerprint, volumes⟩
      (.ok evidence, s.after evidence)
    if s.generation = 0 then publish 1
    else if fingerprint = s.fingerprint then publish s.generation
    else if s.generation = maxUint64 then (.error .review, s)
    else publish (s.generation + 1)

/-- The map and the list of a lease hold the addresses of its child leases. -/
structure MountedVolumeSetLease where
  evidence : MountedVolumeSetEvidence
  leases : List (Bytes × Nat)
  ordered : List Nat
  deriving DecidableEq

inductive Answer where
  | refused (errors : List SetError)
  | done
  | observed (evidence : MountedVolumeSetEvidence)
  | issued (lease : MountedVolumeSetLease)
  deriving DecidableEq

/-- What a call returns, with the observation it made even when it then refuses. -/
structure Outcome where
  observation : Option MountedVolumeSetEvidence
  answer : Answer
  set : MountedVolumeSet

def observing (observer : Observer) (s : MountedVolumeSet)
    (inspect : MountedVolumeSetEvidence → Answer) : Outcome :=
  match observeLocked sha256 observer s with
  | (.error e, s') => ⟨none, .refused [e], s'⟩
  | (.ok evidence, s') => ⟨some evidence, inspect evidence, s'⟩

/-- What the owners and the context answer while child leases are taken and given back. -/
structure Children where
  cancelled : Bool
  cancelledAt : MountedVolumeMember → Bool
  acquire : MountedVolumeMember → Except SetError Nat
  closes : Nat → Bool

/-- The children taken so far stand beside an error. -/
def acquireMembers (c : Children) (taken : List (Bytes × Nat)) :
    List MountedVolumeMember → Except (SetError × List (Bytes × Nat)) (List (Bytes × Nat))
  | [] => .ok taken
  | member :: rest =>
    match if c.cancelledAt member then .error .unavailable else c.acquire member with
    | .error e => .error (e, taken)
    | .ok child => acquireMembers c (taken ++ [(member.volumeID, child)]) rest

def rollbackLocked (closes : Nat → Bool) (ordered : List Nat) : List SetError :=
  ordered.reverse.filterMap fun child => if closes child then none else some .review

def acquire (observer : Observer) (c : Children) (s : MountedVolumeSet) : Outcome :=
  if c.cancelled then ⟨none, .refused [.unavailable], s⟩
  else observing sha256 observer s fun evidence =>
    match acquireMembers c [] s.members with
    | .error (e, taken) => .refused (e :: rollbackLocked c.closes (taken.map Prod.snd))
    | .ok children => .issued ⟨evidence, children, children.map Prod.snd⟩

/-- Whether a lease and its children are closed by now, and which children the owners hold. -/
structure Holding where
  closed : Bool
  childClosed : Nat → Bool
  active : Owner → Nat → Bool

def childActive (a : Holding) (l : MountedVolumeSetLease) (member : MountedVolumeMember) : Bool :=
  match lookup Prod.fst l.leases member.volumeID with
  | none => false
  | some child => !a.childClosed child.2 && a.active member.owner child.2

def verify (observer : Observer) (a : Holding) (l : MountedVolumeSetLease)
    (s : MountedVolumeSet) : Outcome :=
  if a.closed then ⟨none, .refused [.unavailable], s⟩
  else observing sha256 observer s fun evidence =>
    if evidence.generation ≠ l.evidence.generation ∨
        evidence.fingerprint ≠ l.evidence.fingerprint ∨ l.ordered.length ≠ s.members.length then
      .refused [.review]
    else if s.members.all (childActive a l) then .observed evidence
    else .refused [.unavailable]

/-- Closing a lease leaves the set alone: it shows in what a later verification finds. -/
inductive Call where
  | observe (observer : Observer)
  | withEvidence (observer : Observer) (inspect : MountedVolumeSetEvidence → Option SetError)
  | acquire (observer : Observer) (children : Children)
  | verify (lease : MountedVolumeSetLease) (observer : Observer) (holding : Holding)

def MountedVolumeSet.step (s : MountedVolumeSet) : Call → Outcome
  | .observe observer => observing sha256 observer s .observed
  | .withEvidence observer inspect => observing sha256 observer s fun evidence =>
      match inspect evidence with
      | none => .done
      | some e => .refused [e]
  | .acquire observer children => VolumeSets.acquire sha256 observer children s
  | .verify lease observer holding => VolumeSets.verify sha256 observer holding lease s

def MountedVolumeSet.run (s : MountedVolumeSet) : List Call → List (Call × Outcome)
  | [] => []
  | c :: rest => (c, s.step sha256 c) :: (s.step sha256 c).set.run rest

end Code

def observations (events : List (Call × Outcome)) : List MountedVolumeSetEvidence :=
  events.filterMap fun event => event.2.observation

def CollisionFree (sha256 : Bytes → Digest) (es : List MountedVolumeSetEvidence) : Prop :=
  ∀ a ∈ es, ∀ b ∈ es,
    sha256 (a.volumes.flatMap encodeEvidence) = sha256 (b.volumes.flatMap encodeEvidence) →
      a.volumes.flatMap encodeEvidence = b.volumes.flatMap encodeEvidence

/-- What generations and leases are meant to be worth in a run over a roster. -/
structure Faithful (members : List MountedVolumeMember) (events : List (Call × Outcome)) :
    Prop where
  nondecreasing : (observations events).Pairwise fun a b => a.generation ≤ b.generation
  same_iff : ∀ {i j : Nat} (hij : i ≤ j) (hj : j < (observations events).length),
    (observations events)[i].generation = (observations events)[j].generation ↔
      ∀ k (hk : k ≤ j), i ≤ k → (observations events)[k].volumes = (observations events)[i].volumes
  verified : ∀ {c acquired l observer holding verified e}, (c, acquired) ∈ events →
    acquired.answer = .issued l → (.verify l observer holding, verified) ∈ events →
    verified.answer = .observed e →
    acquired.observation = some l.evidence ∧ e.volumes = l.evidence.volumes ∧
      members.map observer = l.evidence.volumes.map .ok ∧
      ∀ m ∈ members, ∃ child, (m.volumeID, child) ∈ l.leases ∧
        holding.childClosed child = false ∧ holding.active m.owner child = true
  distinct : ∀ e ∈ observations events,
    (e.volumes.map (·.volumeID)).Nodup ∧ (e.volumes.map (·.filesystemUUID)).Nodup ∧
      (e.volumes.map (·.mountID)).Nodup ∧ (e.volumes.map (·.device)).Nodup

theorem encodeEvidence_delimits :
    Delimits (fun v : MountedVolumeEvidence => Addressable v.toObservedVolume) encodeEvidence := by
  intro v w s t hv hw h
  simp only [encodeEvidence, List.append_assoc] at h
  obtain ⟨htexts, h⟩ := texts_delimit hv hw h
  obtain ⟨hgeneration, h⟩ := word_delimits _ _ _ _ trivial trivial h
  obtain ⟨hnumbers, h⟩ := numbers_delimit h
  have hvolume := ObservedVolume.eq_of_parts htexts hnumbers
  refine ⟨?_, h⟩
  cases v
  cases w
  simp_all

theorem collectMembers_ok {wanted : List Bytes} {seenOwners : List Nat} {seenTargets : List Bytes}
    {owners : List (Option Owner)} {members : List MountedVolumeMember}
    (h : collectMembers wanted seenOwners seenTargets owners = .ok members) :
    Fresh (fun m : MountedVolumeMember => m.owner.target) seenTargets members ∧
      ∀ m ∈ members, m.owner.target = joinRooted volumeMountRoot m.volumeID := by
  induction owners generalizing seenOwners seenTargets members with
  | nil =>
    cases h
    exact ⟨fresh_nil, by simp⟩
  | cons o rest ih =>
    cases o with
    | none => cases h
    | some owner =>
      rw [collectMembers, ite_error_ok, not_or] at h
      obtain ⟨⟨-, hnew⟩, h⟩ := h
      cases hid : matchedID wanted owner.target with
      | none => simp [hid] at h
      | some id =>
        simp only [hid] at h
        obtain ⟨members', hrest, hcons⟩ := bind_ok.mp h
        cases hcons
        obtain ⟨hfresh, htargets⟩ := ih hrest
        rw [fresh_cons, List.forall_mem_cons]
        refine ⟨⟨hnew, hfresh⟩, ?_, htargets⟩
        rw [matchedID] at hid
        split at hid
        next id' hfilter =>
          cases hid
          have hmem : id ∈ wanted.filter fun id => owner.target = joinRooted volumeMountRoot id :=
            hfilter ▸ List.mem_singleton_self id
          simpa using (List.mem_filter.mp hmem).2
        · cases hid

theorem members_nodup {sort : Sorter} {ids : Slice Bytes} {owners : Slice (Option Owner)}
    {s : MountedVolumeSet} (h : newMountedVolumeSet sort ids owners = .ok s) :
    (s.members.map MountedVolumeMember.volumeID).Nodup := by
  rw [newMountedVolumeSet, ite_error_ok, ite_error_ok] at h
  obtain ⟨members, hmembers, h⟩ := bind_ok.mp h.2.2
  rw [ite_error_ok] at h
  obtain ⟨hfresh, htargets⟩ := collectMembers_ok hmembers
  cases h.2
  have htarget : members.map (fun m => m.owner.target) =
      (members.map MountedVolumeMember.volumeID).map (joinRooted volumeMountRoot) := by
    rw [List.map_map]
    exact List.map_congr_left htargets
  have hnodup := fresh_start.mp hfresh
  rw [htarget] at hnodup
  exact (((sort.perm _ _).map _).nodup_iff).mpr (hnodup.of_map _)

theorem observeMembers_ok {observer : Observer} {uuids : List Bytes} {mounts : List UInt64}
    {devices : List (UInt32 × UInt32)} {members : List MountedVolumeMember}
    {volumes : List MountedVolumeEvidence}
    (h : observeMembers observer uuids mounts devices members = .ok volumes) :
    members.map observer = volumes.map .ok ∧
      volumes.map (·.volumeID) = members.map MountedVolumeMember.volumeID ∧
      Fresh (·.filesystemUUID) uuids volumes ∧ Fresh (·.mountID) mounts volumes ∧
      Fresh (·.device) devices volumes := by
  induction members generalizing uuids mounts devices volumes with
  | nil =>
    cases h
    exact ⟨rfl, rfl, fresh_nil, fresh_nil, fresh_nil⟩
  | cons member rest ih =>
    rw [observeMembers] at h
    obtain ⟨observed, hobserved, h⟩ := bind_ok.mp h
    rw [ite_error_ok] at h
    obtain ⟨hgood, h⟩ := h
    obtain ⟨later, hrest, hcons⟩ := bind_ok.mp h
    cases hcons
    push Not at hgood
    obtain ⟨hid, -, -, -, -, -, huuid, hmount, hdevice⟩ := hgood
    obtain ⟨hanswers, hids, huuids, hmounts, hdevices⟩ := ih hrest
    simp only [List.map_cons, hobserved, hanswers, hid, hids, fresh_cons]
    exact ⟨trivial, trivial, ⟨huuid, huuids⟩, ⟨hmount, hmounts⟩, ⟨hdevice, hdevices⟩⟩

structure Taken (sha256 : Bytes → Digest) (s : MountedVolumeSet) (e : MountedVolumeSetEvidence) :
    Prop where
  ids : e.volumes.map (·.volumeID) = s.members.map MountedVolumeMember.volumeID
  uuids : (e.volumes.map (·.filesystemUUID)).Nodup
  mounts : (e.volumes.map (·.mountID)).Nodup
  devices : (e.volumes.map (·.device)).Nodup
  fingerprint : e.fingerprint = sha256 (e.volumes.flatMap encodeEvidence)
  first : s.generation = 0 → e.generation = 1
  later : s.generation ≠ 0 →
    e.generation = if e.fingerprint = s.fingerprint then s.generation else s.generation + 1

variable {sha256 : Bytes → Digest} {observer : Observer} {s : MountedVolumeSet}
  {a b e : MountedVolumeSetEvidence} {es : List MountedVolumeSetEvidence}
  {l : MountedVolumeSetLease} {holding : Holding}

/-- A failed observation leaves the set as it was. -/
theorem observeLocked_cases (sha256 : Bytes → Digest) (observer : Observer)
    (s : MountedVolumeSet) :
    (∃ err, observeLocked sha256 observer s = (.error err, s)) ∨
      ∃ e, observeLocked sha256 observer s = (.ok e, s.after e) ∧ Taken sha256 s e ∧
        s.members.map observer = e.volumes.map .ok := by
  rw [observeLocked]
  cases hvolumes : observeMembers observer [] [] [] s.members with
  | error err => exact .inl ⟨err, rfl⟩
  | ok volumes =>
    obtain ⟨hanswers, hids, huuids, hmounts, hdevices⟩ := observeMembers_ok hvolumes
    rw [fresh_start] at huuids hmounts hdevices
    dsimp only
    split_ifs with hfirst hsame hmax
    · exact .inr ⟨_, rfl, ⟨hids, huuids, hmounts, hdevices, rfl, fun _ => rfl,
        fun h => absurd hfirst h⟩, hanswers⟩
    · exact .inr ⟨_, rfl, ⟨hids, huuids, hmounts, hdevices, rfl, fun h => absurd h hfirst,
        fun _ => (if_pos hsame).symm⟩, hanswers⟩
    · exact .inl ⟨_, rfl⟩
    · exact .inr ⟨_, rfl, ⟨hids, huuids, hmounts, hdevices, rfl, fun h => absurd h hfirst,
        fun _ => (if_neg hsame).symm⟩, hanswers⟩

/-- Everything a call does to its set. -/
def Moves (sha256 : Bytes → Digest) (s : MountedVolumeSet)
    (observation : Option MountedVolumeSetEvidence) (s' : MountedVolumeSet) : Prop :=
  (observation = none ∧ s' = s) ∨ ∃ e, observation = some e ∧ Taken sha256 s e ∧ s' = s.after e

theorem observing_moves (inspect : MountedVolumeSetEvidence → Answer) :
    Moves sha256 s (observing sha256 observer s inspect).observation
      (observing sha256 observer s inspect).set := by
  rw [observing]
  obtain ⟨err, h⟩ | ⟨e, h, htaken, -⟩ := observeLocked_cases sha256 observer s
  · rw [h]
    exact .inl ⟨rfl, rfl⟩
  · rw [h]
    exact .inr ⟨e, rfl, htaken, rfl⟩

theorem step_moves (c : Call) :
    Moves sha256 s (s.step sha256 c).observation (s.step sha256 c).set := by
  cases c with
  | observe | withEvidence => exact observing_moves _
  | acquire observer children =>
    simp only [MountedVolumeSet.step, acquire]
    split
    · exact .inl ⟨rfl, rfl⟩
    · exact observing_moves _
  | verify lease observer holding =>
    simp only [MountedVolumeSet.step, verify]
    split
    · exact .inl ⟨rfl, rfl⟩
    · exact observing_moves _

/-- Each observation is taken from the set the one before it left. -/
def Counted (sha256 : Bytes → Digest) (s : MountedVolumeSet) :
    List MountedVolumeSetEvidence → Prop
  | [] => True
  | e :: rest => Taken sha256 s e ∧ Counted sha256 (s.after e) rest

theorem run_counted (calls : List Call) :
    Counted sha256 s (observations (s.run sha256 calls)) := by
  induction calls generalizing s with
  | nil => trivial
  | cons c rest ih =>
    rw [MountedVolumeSet.run, observations, List.filterMap_cons]
    obtain ⟨hnone, hset⟩ | ⟨e, hsome, htaken, hset⟩ := @step_moves sha256 s c
    · rw [hset, hnone]
      exact ih
    · rw [hset, hsome]
      exact ⟨htaken, ih⟩

theorem run_mem {calls : List Call} {c : Call} {o : Outcome} (h : (c, o) ∈ s.run sha256 calls) :
    ∃ s' : MountedVolumeSet, s'.members = s.members ∧ o = s'.step sha256 c := by
  induction calls generalizing s with
  | nil => cases h
  | cons first rest ih =>
    rcases List.mem_cons.mp h with heq | h
    · cases heq
      exact ⟨s, rfl, rfl⟩
    · obtain ⟨s', hmembers, heq⟩ := ih h
      refine ⟨s', hmembers.trans ?_, heq⟩
      obtain ⟨-, hset⟩ | ⟨e, -, -, hset⟩ := @step_moves sha256 s first <;> rw [hset]
      rfl

theorem Counted.mem (h : Counted sha256 s es) (he : e ∈ es) :
    ∃ s', s'.members = s.members ∧ Taken sha256 s' e := by
  induction es generalizing s with
  | nil => cases he
  | cons d rest ih =>
    rcases List.mem_cons.mp he with rfl | he
    · exact ⟨s, rfl, h.1⟩
    · exact ih (s := s.after d) h.2 he

theorem Taken.generation_ne_zero (h : Taken sha256 s e) : e.generation ≠ 0 := by
  by_cases hfirst : s.generation = 0
  · rw [h.first hfirst]
    decide
  · rw [h.later hfirst]
    split <;> omega

theorem Counted.chain (h : Counted sha256 s es) :
    es.IsChain fun a b =>
      b.generation = if b.fingerprint = a.fingerprint then a.generation else a.generation + 1 := by
  induction es generalizing s with
  | nil => exact .nil
  | cons a rest ih =>
    cases rest with
    | nil => exact .singleton a
    | cons b rest =>
      exact List.isChain_cons_cons.mpr ⟨h.2.1.later h.1.generation_ne_zero, ih h.2⟩

/-- As long as digests tell lists apart, so do fingerprints. -/
theorem Counted.fingerprint_iff (h : Counted sha256 s es) (hfree : CollisionFree sha256 es)
    (haddr : ∀ e ∈ es, ∀ v ∈ e.volumes, Addressable v.toObservedVolume) (ha : a ∈ es)
    (hb : b ∈ es) :
    a.fingerprint = b.fingerprint ↔ a.volumes = b.volumes := by
  obtain ⟨s₁, hs₁, ht₁⟩ := h.mem ha
  obtain ⟨s₂, hs₂, ht₂⟩ := h.mem hb
  rw [ht₁.fingerprint, ht₂.fingerprint]
  refine ⟨fun heq => ?_, fun heq => by rw [heq]⟩
  have hlen : a.volumes.length = b.volumes.length := by
    have hids := congrArg List.length (ht₁.ids.trans (hs₁ ▸ hs₂ ▸ ht₂.ids.symm))
    simpa using hids
  refine (flatMap_delimits (s := []) (t := []) encodeEvidence_delimits hlen (haddr a ha)
    (haddr b hb) ?_).1
  rw [List.append_nil, List.append_nil]
  exact hfree a ha b hb heq

theorem observing_answer {inspect : MountedVolumeSetEvidence → Answer} {answer : Answer}
    (h : (observing sha256 observer s inspect).answer = answer) :
    (∃ err, answer = .refused [err]) ∨
      ∃ e, (observing sha256 observer s inspect).observation = some e ∧ inspect e = answer ∧
        s.members.map observer = e.volumes.map .ok := by
  rw [observing] at h ⊢
  obtain ⟨err, hobs⟩ | ⟨e, hobs, -, hanswers⟩ := observeLocked_cases sha256 observer s
  · rw [hobs] at h
    exact .inl ⟨err, h.symm⟩
  · rw [hobs] at h ⊢
    exact .inr ⟨e, rfl, h, hanswers⟩

theorem step_issued {c : Call} (h : (s.step sha256 c).answer = .issued l) :
    (s.step sha256 c).observation = some l.evidence := by
  cases c with
  | observe observer =>
    obtain ⟨err, h⟩ | ⟨e, -, h, -⟩ := observing_answer h <;> cases h
  | withEvidence observer inspect =>
    obtain ⟨err, h⟩ | ⟨e, -, h, -⟩ := observing_answer h
    · cases h
    · split at h <;> cases h
  | acquire observer children =>
    simp only [MountedVolumeSet.step, acquire] at h ⊢
    split_ifs at h ⊢
    obtain ⟨err, h⟩ | ⟨e, hobs, h, -⟩ := observing_answer h
    · cases h
    rw [hobs]
    cases htaken : acquireMembers children [] s.members with
    | error r =>
      rw [htaken] at h
      cases h
    | ok taken =>
      rw [htaken] at h
      cases h
      rfl
  | verify lease observer holding =>
    simp only [MountedVolumeSet.step, verify] at h
    by_cases hclosed : holding.closed = true
    · rw [if_pos hclosed] at h
      cases h
    rw [if_neg hclosed] at h
    obtain ⟨err, h⟩ | ⟨e, -, h, -⟩ := observing_answer h
    · cases h
    · split_ifs at h

/-- A verification that succeeds. -/
theorem verify_observed (h : (verify sha256 observer holding l s).answer = .observed e) :
    (verify sha256 observer holding l s).observation = some e ∧
      e.fingerprint = l.evidence.fingerprint ∧ s.members.map observer = e.volumes.map .ok ∧
      ∀ m ∈ s.members, childActive holding l m = true := by
  rw [verify] at h ⊢
  by_cases hclosed : holding.closed = true
  · rw [if_pos hclosed] at h
    cases h
  rw [if_neg hclosed] at h ⊢
  obtain ⟨err, h⟩ | ⟨e', hobs, h, hanswers⟩ := observing_answer h
  · cases h
  · split_ifs at h with hdiffers hactive
    cases h
    push Not at hdiffers
    exact ⟨hobs, hdiffers.2.1, hanswers, List.all_eq_true.mp hactive⟩

theorem childActive_some {m : MountedVolumeMember} (h : childActive holding l m = true) :
    ∃ child, (m.volumeID, child) ∈ l.leases ∧ holding.childClosed child = false ∧
      holding.active m.owner child = true := by
  rw [childActive] at h
  cases hchild : lookup Prod.fst l.leases m.volumeID with
  | none => simp [hchild] at h
  | some child =>
    obtain ⟨hmem, hkey⟩ := lookup_some hchild
    simp only [hchild, Bool.and_eq_true, Bool.not_eq_true'] at h
    exact ⟨child.2, hkey ▸ hmem, h⟩

/-- Generations stand for what was observed, and a verified lease for what it was issued on. -/
theorem generations_faithful (sha256 : Bytes → Digest) (sort : Sorter) (ids : Slice Bytes)
    (owners : Slice (Option Owner)) (s : MountedVolumeSet) (calls : List Call)
    (hset : newMountedVolumeSet sort ids owners = .ok s)
    (hfree : CollisionFree sha256 (observations (s.run sha256 calls)))
    (haddr : ∀ e ∈ observations (s.run sha256 calls), ∀ v ∈ e.volumes,
      Addressable v.toObservedVolume) :
    Faithful s.members (s.run sha256 calls) := by
  have hcounted := @run_counted sha256 s calls
  constructor
  · rw [List.pairwise_iff_getElem]
    intro i j hi hj hij
    exact (count_iff hcounted.chain hij.le hj).1
  · intro i j hij hj
    rw [(count_iff hcounted.chain hij hj).2]
    have hsame := fun k (hk : k ≤ j) => hcounted.fingerprint_iff hfree haddr
      (List.getElem_mem (hk.trans_lt hj)) (List.getElem_mem (hij.trans_lt hj))
    exact ⟨fun h k hk hik => (hsame k hk).mp (h k hk hik),
      fun h k hk hik => (hsame k hk).mpr (h k hk hik)⟩
  · intro c acquired l observer holding verified e hacquired hissued hverified hanswer
    obtain ⟨s₁, -, rfl⟩ := run_mem hacquired
    obtain ⟨s₂, hmembers, rfl⟩ := run_mem hverified
    have hcaptured := step_issued hissued
    obtain ⟨hobs, hfingerprint, hanswers, hactive⟩ := verify_observed hanswer
    have hvolumes : e.volumes = l.evidence.volumes := by
      refine (hcounted.fingerprint_iff hfree haddr ?_ ?_).mp hfingerprint
      · exact List.mem_filterMap.mpr ⟨_, hverified, hobs⟩
      · exact List.mem_filterMap.mpr ⟨_, hacquired, hcaptured⟩
    rw [hmembers, hvolumes] at hanswers
    exact ⟨hcaptured, hvolumes, hanswers,
      fun m hm => childActive_some (hactive m (hmembers ▸ hm))⟩
  · intro e he
    obtain ⟨s', hs', htaken⟩ := hcounted.mem he
    refine ⟨?_, htaken.uuids, htaken.mounts, htaken.devices⟩
    rw [htaken.ids, hs']
    exact members_nodup hset

def dataMember : MountedVolumeMember := ⟨ascii "data", ⟨1, ascii "/srv/phantowd/volumes/data"⟩⟩

def mediaMember : MountedVolumeMember := ⟨ascii "media", ⟨2, ascii "/srv/phantowd/volumes/media"⟩⟩

def mediaEvidence : MountedVolumeEvidence :=
  ⟨⟨ascii "media", ascii "0f0e0d0c-0000-4000-8000-000000000002", mediaMember.owner.target,
    compatibilityQualified, 42, 9, 1, false⟩, 1⟩

def sampleVolumes (generation : UInt64) : List MountedVolumeEvidence :=
  [⟨⟨ascii "data", ascii "0f0e0d0c-0000-4000-8000-000000000001", dataMember.owner.target,
    compatibilityQualified, 41, 9, 0, false⟩, generation⟩, mediaEvidence]

def sampleDigest (data : Bytes) : Digest :=
  if data = (sampleVolumes 1).flatMap encodeEvidence then
    ⟨[0x57, 0xad, 0x35, 0x79, 0x7e, 0xa3, 0x41, 0x12, 0x65, 0xf9, 0x2c, 0xf4, 0x0f, 0x25, 0xef,
      0x7d, 0x8a, 0xf4, 0x0f, 0x90, 0xa6, 0x10, 0x77, 0x7c, 0x10, 0x64, 0xd6, 0x11, 0xbc, 0xf9,
      0x3c, 0x15], by decide⟩
  else
    ⟨[0xe7, 0x17, 0x19, 0xf6, 0x66, 0xdf, 0xb3, 0xb5, 0xad, 0x42, 0xae, 0xdf, 0x0c, 0x82, 0x04,
      0xa8, 0xe7, 0xe6, 0xc3, 0xef, 0xeb, 0x20, 0x10, 0x1d, 0xa1, 0x23, 0x3d, 0x96, 0xea, 0x3a,
      0x00, 0xf9], by decide⟩

def sampleObservation (number : Nat) (generation : UInt64) : MountedVolumeSetEvidence :=
  ⟨true, number, sampleDigest ((sampleVolumes generation).flatMap encodeEvidence),
    sampleVolumes generation⟩

def sampleObserver (generation : UInt64) : Observer := fun m =>
  .ok (((sampleVolumes generation).find? fun v => v.volumeID = m.volumeID).getD mediaEvidence)

def sampleCalls : List Call :=
  [.observe (sampleObserver 1),
    .acquire (sampleObserver 1)
      ⟨false, fun _ => false, fun m => .ok m.owner.address, fun _ => true⟩,
    .verify ⟨sampleObservation 1 1, [(ascii "data", 1), (ascii "media", 2)], [1, 2]⟩
      (sampleObserver 1) ⟨false, fun _ => false, fun owner child => child == owner.address⟩,
    .withEvidence (sampleObserver 2) fun _ => some .busy,
    .observe (sampleObserver 1)]

def sampleSet : MountedVolumeSet := { members := [dataMember, mediaMember] }

def sampleSeen : List MountedVolumeSetEvidence :=
  [sampleObservation 1 1, sampleObservation 1 1, sampleObservation 1 1, sampleObservation 2 2,
    sampleObservation 3 1]

theorem sample_set_faithful :
    newMountedVolumeSet .simple (some [ascii "media", ascii "data"])
        (some [some mediaMember.owner, some dataMember.owner]) = .ok sampleSet ∧
      observations (sampleSet.run sampleDigest sampleCalls) = sampleSeen ∧
      Faithful sampleSet.members (sampleSet.run sampleDigest sampleCalls) := by
  have hset : newMountedVolumeSet .simple (some [ascii "media", ascii "data"])
      (some [some mediaMember.owner, some dataMember.owner]) = .ok sampleSet := by rfl
  have hseen : observations (sampleSet.run sampleDigest sampleCalls) = sampleSeen := by
    decide +kernel
  refine ⟨hset, hseen, generations_faithful _ _ _ _ _ _ hset ?_ ?_⟩
  · rw [hseen, CollisionFree]
    decide +kernel
  · rw [hseen]
    intro e he v hv
    have hshort : ∀ e ∈ sampleSeen, ∀ v ∈ e.volumes, v.volumeID.length < 2 ^ 63 ∧
        v.filesystemUUID.length < 2 ^ 63 ∧ v.mountPath.length < 2 ^ 63 ∧
        v.compatibility.length < 2 ^ 63 := by decide +kernel
    obtain ⟨hid, huuid, hpath, hcompatibility⟩ := hshort e he v hv
    exact ⟨hid, huuid, hpath, hcompatibility⟩

end VolumeSets
