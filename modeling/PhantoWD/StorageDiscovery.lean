import Mathlib.Data.List.Nodup
import PhantoWD.BlockTopology

/-!
`planTrustedStorageDiscovery` decides from one storage and one mount snapshot which whole disks
may be opened for reading. A disk that anything still depends on stays out: a stacked node above
it, or a mount of any node that leads to it.
-/
namespace StorageDiscovery

open GoText Checks DepthFirst BlockTopology

structure MountObservation where
  mountPoint : Bytes
  filesystem : Bytes
  deviceMajor : UInt32
  deviceMinor : UInt32
  deriving DecidableEq

/-- `observedAt` counts from the zero time, so that `IsZero` is zero. -/
structure MountSnapshot where
  schemaVersion : Int
  observedAt : Int
  scope : Bytes
  readOnly : Bool
  filesystemContentsRead : Bool
  mountOperationsPerformed : Bool
  mountCount : Int
  mounts : Slice MountObservation
  collectionComplete : Bool

structure Candidate where
  name : Bytes
  generation : BlockDeviceGeneration
  serialStatus : IdentityStatus
  wwnStatus : IdentityStatus
  deriving DecidableEq

structure Exclusion where
  name : Bytes
  reason : String
  deriving DecidableEq

structure Plan where
  candidates : List Candidate
  excluded : List Exclusion
  hasAmbiguousIdentity : Bool
  identityEvidenceIncomplete : Bool
  deriving DecidableEq

def maxMountEntries : Nat := 128

def maxFilesystemBytes : Nat := 64

def sameBlockTopologyIdentity (a b : BlockObservation) : Bool :=
  a.name == b.name && a.kind == b.kind && a.major == b.major && a.minor == b.minor &&
    a.diskSequence == b.diskSequence

def parentEdge (inventory : List BlockObservation) (current : BlockObservation) :
    Except String BlockObservation :=
  if current.parentName = [] ∨ current.parentMajor = none ∨ current.parentMinor = none ∨
      current.parentDiskSeq = 0 then
    .error "partition has incomplete observed parent topology"
  else
    match byName inventory current.parentName with
    | none => .error "partition parent no longer matches the observed topology"
    | some parent =>
      if isParent current parent then .ok parent
      else .error "partition parent no longer matches the observed topology"

def lowerEdge (inventory : List BlockObservation) (seen : List Bytes) (r : TopologyRef) :
    Except String BlockObservation :=
  if r.name = [] ∨ r.name ∈ seen then
    .error "block dependency has an invalid or duplicate slave"
  else
    match byName inventory r.name with
    | none => .error "block slave no longer matches the observed topology"
    | some lower =>
      if sameTopologyReference lower r then .ok lower
      else .error "block slave no longer matches the observed topology"

def lowerEdges (inventory : List BlockObservation) :
    List Bytes → List TopologyRef → List (Except String BlockObservation)
  | _, [] => []
  | seen, r :: rest => lowerEdge inventory seen r :: lowerEdges inventory (r.name :: seen) rest

def ownEdges (inventory : List BlockObservation) (current : BlockObservation) :
    List (Except String BlockObservation) :=
  match current.kind with
  | .partition => [parentEdge inventory current]
  | .block =>
    if current.diskSequence = 0 then
      [.error "block dependency has an invalid node type or generation"]
    else []
  | .other _ => [.error "block dependency has an invalid node type or generation"]

def dependsGraph (disk : BlockObservation) (inventory : List BlockObservation) :
    Graph BlockObservation Bytes String where
  key := BlockObservation.name
  target := fun current =>
    if current.name = disk.name then
      if sameBlockTopologyIdentity current disk then .ok true
      else .error "selected disk generation changed in observed topology"
    else .ok false
  edges := fun current => ownEdges inventory current ++ lowerEdges inventory [] current.lowerBlocks
  cycle := "block dependency topology contains a cycle"

def nameTurn (seen : List Bytes) (o : BlockObservation) : Except Failure (List Bytes) := do
  refuseIf (o.name = []) (.refused "block topology contains an unnamed node")
  refuseIf (o.name ∈ seen) (.refused "block topology contains a duplicate node name")
  return o.name :: seen

/-- Whether `byName[o.Name]` is the object `o` claims to be. -/
def isObserved (inventory : List BlockObservation) (o : BlockObservation) : Bool :=
  (byName inventory o.name).any fun observed => sameBlockTopologyIdentity observed o

def observedBlockNodeDependsOnWholeDisk (node disk : BlockObservation)
    (inventory : List BlockObservation) : Except Failure Bool := do
  let _ ← thread nameTurn [] inventory
  refuseIf (!isObserved inventory node)
    (.refused "mounted block node is not the observed inventory object")
  refuseIf (!isObserved inventory disk ∨ !(byName inventory disk.name).any (·.kind == .block))
    (.refused "selected whole disk is not the observed inventory object")
  answer ((dependsGraph disk inventory).visit (maxDepth inventory) [] node [])

def wholeDiskHasStackedDependent (disk : BlockObservation) (inventory : List BlockObservation) :
    Except Failure Bool :=
  anyOf (fun o =>
    if o.kind ≠ .block ∨ o.name = disk.name ∨ o.lowerBlocks = [] then .ok false
    else observedBlockNodeDependsOnWholeDisk o disk inventory) inventory

def onDevice (mount : MountObservation) (o : BlockObservation) : Bool :=
  o.major == mount.deviceMajor && o.minor == mount.deviceMinor

def mountDepends (disk : BlockObservation) (inventory : List BlockObservation)
    (mount : MountObservation) : Except Failure Bool :=
  match inventory.filter (onDevice mount) with
  | [] =>
    if mount.deviceMajor ≠ 0 then
      .error (.refused "nonzero mount device number is absent from the complete block inventory")
    else .ok false
  | [matched] => observedBlockNodeDependsOnWholeDisk matched disk inventory
  | _ => .error (.refused "mount device maps to multiple block observations")

def observedWholeDiskHasVisibleDependentMount (disk : BlockObservation)
    (inventory : Slice BlockObservation) (mounts : Slice MountObservation) :
    Except Failure Bool := do
  refuseIf (disk.kind ≠ .block ∨ disk.diskSequence = 0 ∨ (disk.major = 0 ∧ disk.minor = 0) ∨
      inventory = none ∨ mounts = none)
    (.refused "invalid whole-disk mount assessment input")
  refuseIf ((inventory.items.filter fun o => o.name == disk.name && o.kind == .block &&
      o.major == disk.major && o.minor == disk.minor &&
      o.diskSequence == disk.diskSequence).length ≠ 1)
    (.refused "whole-disk observation is not unique in the inventory")
  anyOf (mountDepends disk inventory.items) mounts.items

def isVirtualBlockTarget (target : Bytes) : Bool :=
  (ascii "devices/virtual/block/").isPrefixOf target

def topologyReason (o : BlockObservation) (inventory : List BlockObservation) :
    Except Failure String :=
  if isVirtualBlockTarget o.sysfsTarget then .ok "virtual-block-node"
  else if o.lowerBlocks ≠ [] then .ok "stacked-block-node"
  else do
    let stacked ← wholeDiskHasStackedDependent o inventory
    return if stacked then "member-of-stacked-block-node" else ""

def mountReason (o : BlockObservation) (inventory : Slice BlockObservation)
    (mounts : Slice MountObservation) (reason : String) : Except Failure String :=
  if reason = "" then do
    let mounted ← observedWholeDiskHasVisibleDependentMount o inventory mounts
    return if mounted then "visible-dependent-mount" else ""
  else .ok reason

def exclusionReason (o : BlockObservation) (inventory : Slice BlockObservation)
    (mounts : Slice MountObservation) : Except Failure String := do
  let reason ← topologyReason o inventory.items
  let reason ← mountReason o inventory mounts reason
  return if reason = "" ∧ o.removable then "removable-device" else reason

def validMountFilesystem (value : Bytes) : Bool :=
  value != [] && decide (value.length ≤ maxFilesystemBytes) &&
    (runes value).all fun c =>
      (0x61 ≤ c && c ≤ 0x7a) || (0x41 ≤ c && c ≤ 0x5a) || (0x30 ≤ c && c ≤ 0x39) ||
        c == 0x2e || c == 0x5f || c == 0x2b || c == 0x2d

def validMountSnapshot (snapshot : MountSnapshot) : Bool :=
  snapshot.schemaVersion == 1 && snapshot.scope == ascii "current-process-mount-namespace" &&
    snapshot.readOnly && !snapshot.filesystemContentsRead &&
    !snapshot.mountOperationsPerformed && snapshot.collectionComplete &&
    snapshot.observedAt != 0 && snapshot.mounts.isSome &&
    decide (snapshot.mounts.items.length ≤ maxMountEntries) &&
    snapshot.mountCount == snapshot.mounts.items.length &&
    snapshot.mounts.items.all fun m =>
      m.mountPoint.head? == some 0x2f && validMountFilesystem m.filesystem

def hasUnsupportedMultiDeviceFilesystem (mounts : List MountObservation) : Bool :=
  mounts.any fun m =>
    [ascii "btrfs", ascii "bcachefs", ascii "zfs"].contains (lowerAscii m.filesystem)

def identityEvidenceMissing : IdentityStatus → Bool
  | .unavailable | .invalid | .unreadable => true
  | _ => false

def incomplete : String := "trusted storage discovery is incomplete"

/-- What a Go map returns for a name it does not hold. -/
def noObservation : BlockObservation :=
  ⟨[], .other [], 0, 0, false, 0, [], none, none, .other [], .other [], 0, 0, [], []⟩

def observationOf (inventory : Slice BlockObservation) (device : ObservedBlockDevice) :
    BlockObservation :=
  (byName inventory.items device.name).getD noObservation

def candidateOf (device : ObservedBlockDevice) (o : BlockObservation) : Candidate :=
  ⟨device.name, device.generation, o.serialStatus, o.wwnStatus⟩

def Plan.flag (plan : Plan) (o : BlockObservation) : Plan :=
  { plan with
    hasAmbiguousIdentity := plan.hasAmbiguousIdentity ||
      (o.serialStatus == .ambiguous || o.wwnStatus == .ambiguous)
    identityEvidenceIncomplete := plan.identityEvidenceIncomplete ||
      (identityEvidenceMissing o.serialStatus || identityEvidenceMissing o.wwnStatus) }

def Plan.place (plan : Plan) (device : ObservedBlockDevice) (o : BlockObservation)
    (reason : String) : Plan :=
  if reason = "" then { plan with candidates := plan.candidates ++ [candidateOf device o] }
  else { plan with excluded := plan.excluded ++ [⟨device.name, reason⟩] }

def planDevice (inventory : Slice BlockObservation) (mounts : Slice MountObservation)
    (plan : Plan) (device : ObservedBlockDevice) : Except Failure Plan := do
  let o := observationOf inventory device
  let reason ← refusedAs incomplete (exclusionReason o inventory mounts)
  return (plan.flag o).place device o reason

def planTrustedStorageDiscovery (storage : StorageSnapshot) (mounts : MountSnapshot) :
    Except Failure Plan := do
  let allDevices ← refusedAs incomplete (completeObservedBlockDeviceSet storage)
  refuseIf (!validMountSnapshot mounts) (.refused incomplete)
  refuseIf (hasUnsupportedMultiDeviceFilesystem mounts.mounts.items) (.refused incomplete)
  thread (planDevice storage.observations mounts.mounts) ⟨[], [], false, false⟩ allDevices

variable {inventory : List BlockObservation} {x y : BlockObservation}

theorem parentEdge_ok (h : parentEdge inventory x = .ok y) :
    byName inventory x.parentName = some y := by
  unfold parentEdge at h
  split at h
  · cases h
  · cases hb : byName inventory x.parentName with
    | none => simp [hb] at h
    | some p =>
      simp only [hb] at h
      by_cases hp : isParent x p = true
      · rw [if_pos hp] at h
        cases h
        rfl
      · simp [hp] at h

variable {seen : List Bytes} {o : BlockObservation} {b : Bool} {reason : String}

theorem lowerEdge_ok {r : TopologyRef} (h : lowerEdge inventory seen r = .ok y) :
    byName inventory r.name = some y := by
  unfold lowerEdge at h
  split at h
  · cases h
  · cases hb : byName inventory r.name with
    | none => simp [hb] at h
    | some lower =>
      simp only [hb] at h
      by_cases hs : sameTopologyReference lower r = true
      · rw [if_pos hs] at h
        cases h
        rfl
      · simp [hs] at h

theorem mem_lowerEdges {refs : List TopologyRef} (h : .ok y ∈ lowerEdges inventory seen refs) :
    ∃ r ∈ refs, byName inventory r.name = some y := by
  induction refs generalizing seen with
  | nil => simp [lowerEdges] at h
  | cons r rest ih =>
    rcases List.mem_cons.mp h with h | h
    · exact ⟨r, List.mem_cons_self, lowerEdge_ok h.symm⟩
    · obtain ⟨r', hr', hb⟩ := ih h
      exact ⟨r', List.mem_cons_of_mem r hr', hb⟩

theorem mem_ownEdges (h : .ok y ∈ ownEdges inventory x) :
    x.kind = .partition ∧ byName inventory x.parentName = some y := by
  unfold ownEdges at h
  cases hk : x.kind with
  | partition =>
    simp only [hk, List.mem_singleton] at h
    exact ⟨rfl, parentEdge_ok h.symm⟩
  | block =>
    simp only [hk] at h
    split at h <;> simp at h
  | other text => simp [hk] at h

theorem edge_of_depends {disk : BlockObservation} (h : (dependsGraph disk inventory).Edge x y) :
    Edge inventory x y := by
  rcases List.mem_append.mp h with h | h
  · obtain ⟨hk, hb⟩ := mem_ownEdges h
    obtain ⟨hmem, hn⟩ := byName_some hb
    exact ⟨hmem, .inl ⟨hk, hn⟩⟩
  · obtain ⟨r, hr, hb⟩ := mem_lowerEdges h
    obtain ⟨hmem, hn⟩ := byName_some hb
    exact ⟨hmem, .inr ⟨r, hr, hn⟩⟩

theorem reach_mem (hx : x ∈ inventory) (hr : Reach inventory x y) : y ∈ inventory := by
  induction hr with
  | refl => exact hx
  | tail _ he _ => exact he.1

section OnAccepted

variable {inventory : List BlockObservation} (h : Accepted inventory)
include h

variable {x : BlockObservation}

theorem ownEdges_accepted (hx : x ∈ inventory) :
    ownEdges inventory x = [] ∧ x.kind = .block ∨
    ∃ p, byName inventory x.parentName = some p ∧ ownEdges inventory x = [.ok p] ∧
      x.kind = .partition := by
  rcases (h.nodes x hx).kind with ⟨hk, hseq⟩ | ⟨hk, hp, hmajor, hminor, hseq⟩
  · exact .inl ⟨by simp [ownEdges, hk, hseq], hk⟩
  · obtain ⟨p, hb, hparent⟩ := (h.relations x hx).parent hk
    refine .inr ⟨p, hb, ?_, hk⟩
    simp [ownEdges, parentEdge, hk, hp, hmajor, hminor, hseq, hb, hparent]

theorem lowerEdges_accepted {refs : List TopologyRef}
    (hrefs : ∀ r ∈ refs, ∃ lower, byName inventory r.name = some lower ∧
      sameTopologyReference lower r = true)
    (hseen : ∀ r ∈ refs, r.name ∉ seen) (hnodup : (refs.map (·.name)).Nodup) :
    lowerEdges inventory seen refs =
      refs.filterMap fun r => (byName inventory r.name).map .ok := by
  induction refs generalizing seen with
  | nil => rfl
  | cons r rest ih =>
    obtain ⟨lower, hb, hsame⟩ := hrefs r List.mem_cons_self
    obtain ⟨hmem, hname⟩ := byName_some hb
    have hne : r.name ≠ [] := hname ▸ (h.nodes lower hmem).name
    have hedge : lowerEdge inventory seen r = .ok lower := by
      simp [lowerEdge, hne, hseen r List.mem_cons_self, hb, hsame]
    rw [List.map_cons, List.nodup_cons] at hnodup
    rw [lowerEdges, hedge, List.filterMap_cons, hb, Option.map_some,
      ih (fun r' hr' => hrefs r' (List.mem_cons_of_mem r hr')) ?_ hnodup.2]
    intro r' hr' hin
    rcases List.mem_cons.mp hin with heq | hin
    · exact hnodup.1 (List.mem_map.mpr ⟨r', hr', heq⟩)
    · exact hseen r' (List.mem_cons_of_mem r hr') hin

theorem lowers_of_accepted (hx : x ∈ inventory) :
    lowerEdges inventory [] x.lowerBlocks =
      x.lowerBlocks.filterMap fun r => (byName inventory r.name).map .ok :=
  lowerEdges_accepted h (h.relations x hx).lowers (by simp) (h.relations x hx).distinct

variable {disk : BlockObservation}

theorem depends_of_edge {y : BlockObservation} (hx : x ∈ inventory) (he : Edge inventory x y) :
    (dependsGraph disk inventory).Edge x y := by
  obtain ⟨hy, ⟨hk, hn⟩ | ⟨r, hr, hn⟩⟩ := he
  · refine List.mem_append.mpr (.inl ?_)
    rcases ownEdges_accepted h hx with ⟨-, hblock⟩ | ⟨p, hb, hown, -⟩
    · rw [hk] at hblock
      cases hblock
    · rw [← hn, h.byName_mem hy, Option.some.injEq] at hb
      rw [hown, hb]
      exact List.mem_singleton_self _
  · refine List.mem_append.mpr (.inr ?_)
    rw [lowers_of_accepted h hx]
    refine List.mem_filterMap.mpr ⟨r, hr, ?_⟩
    rw [← hn, h.byName_mem hy]
    rfl

/-- In an accepted inventory the search meets no cycle and no failing edge. -/
theorem dependsGraph_wellFormed (hd : disk ∈ inventory) :
    WellFormed (dependsGraph disk inventory) (· ∈ inventory) where
  key_inj := h.eq_of_name
  closed := fun _ he => (edge_of_depends he).1
  target_ok := by
    intro x hx
    by_cases hn : x.name = disk.name
    · have hself : sameBlockTopologyIdentity disk disk = true := by
        simp [sameBlockTopologyIdentity]
      exact ⟨true, by simp [dependsGraph, h.eq_of_name hx hd hn, hself]⟩
    · exact ⟨false, by simp [dependsGraph, hn]⟩
  edges_ok := by
    intro x hx _ e he
    rcases List.mem_append.mp he with he | he
    · rcases ownEdges_accepted h hx with ⟨hown, -⟩ | ⟨p, -, hown, -⟩
      · simp [hown] at he
      · exact ⟨p, by simpa [hown] using he⟩
    · rw [lowers_of_accepted h hx] at he
      obtain ⟨r, -, hr⟩ := List.mem_filterMap.mp he
      obtain ⟨y, -, hy⟩ := Option.map_eq_some_iff.mp hr
      exact ⟨y, hy.symm⟩
  acc := fun hx => Subrelation.accessible (fun he => edge_of_depends he) (h.edge_acc hx)

theorem reach_iff {y : BlockObservation} (hx : x ∈ inventory) :
    (dependsGraph disk inventory).Reach x y ↔ Reach inventory x y := by
  constructor
  · exact fun hr => Relation.ReflTransGen.mono (fun _ _ => edge_of_depends) x y hr
  · intro hr
    induction hr using Relation.ReflTransGen.head_induction_on with
    | refl => exact Relation.ReflTransGen.refl
    | head he _ ih => exact Relation.ReflTransGen.head (depends_of_edge h hx he) (ih he.1)

theorem names_accepted : ∃ seen, thread nameTurn [] inventory = .ok seen := by
  have hgen : ∀ (l : List BlockObservation) (seen : List Bytes), (∀ o ∈ l, o ∈ inventory) →
      l.Pairwise (fun a b => a.name < b.name) → (∀ o ∈ l, o.name ∉ seen) →
      ∃ seen', thread nameTurn seen l = .ok seen' := by
    intro l
    induction l with
    | nil => exact fun seen _ _ _ => ⟨seen, rfl⟩
    | cons o rest ih =>
      intro seen hmem hord hout
      obtain ⟨hlt, hord⟩ := List.pairwise_cons.mp hord
      have hturn : nameTurn seen o = .ok (o.name :: seen) := by
        have hne := (h.nodes o (hmem o List.mem_cons_self)).name
        simp [nameTurn, refuseIf, hne, hout o List.mem_cons_self, bind, Except.bind, pure,
          Except.pure]
      obtain ⟨seen', hrest⟩ := ih (o.name :: seen)
        (fun o' ho' => hmem o' (List.mem_cons_of_mem o ho')) hord (by
          intro o' ho' hin
          rcases List.mem_cons.mp hin with heq | hin
          · exact List.lt_irrefl _ (heq ▸ hlt o' ho')
          · exact hout o' (List.mem_cons_of_mem o ho') hin)
      exact ⟨seen', thread_cons_ok.mpr ⟨_, hturn, hrest⟩⟩
  exact hgen inventory [] (fun _ ho => ho) h.ordered (by simp)

theorem isObserved_accepted (ho : o ∈ inventory) : isObserved inventory o = true := by
  simp [isObserved, h.byName_mem ho, sameBlockTopologyIdentity]

/-- The memoised search answers, and answers reachability. -/
theorem depends_answers {node : BlockObservation} (hn : node ∈ inventory) (hd : disk ∈ inventory)
    (hk : disk.kind = .block) :
    (observedBlockNodeDependsOnWholeDisk node disk inventory = .ok true ∧
      Reach inventory node disk) ∨
    (observedBlockNodeDependsOnWholeDisk node disk inventory = .ok false ∧
      ¬Reach inventory node disk) := by
  obtain ⟨seen, hseen⟩ := names_accepted h
  have hdisk : (byName inventory disk.name).any (·.kind == .block) = true := by
    simp [h.byName_mem hd, hk]
  have heq : observedBlockNodeDependsOnWholeDisk node disk inventory =
      answer ((dependsGraph disk inventory).visit (maxDepth inventory) [] node []) := by
    simp [observedBlockNodeDependsOnWholeDisk, hseen, isObserved_accepted h hn,
      isObserved_accepted h hd, hdisk, refuseIf, bind, Except.bind]
  have hkeys : ∀ {x y : BlockObservation}, x ∈ inventory →
      (dependsGraph disk inventory).Edge x y → x.name ∈ inventory.map (·.name) :=
    fun hx _ => List.mem_map.mpr ⟨_, hx, rfl⟩
  have hdepth : (inventory.map (·.name)).length < maxDepth inventory := by
    rw [List.length_map]
    exact Nat.lt_succ_self _
  have htarget : ∀ {t}, t ∈ inventory →
      ((dependsGraph disk inventory).target t = .ok true ↔ t = disk) := by
    intro t ht
    by_cases hname : t.name = disk.name
    · have hself : sameBlockTopologyIdentity disk disk = true := by
        simp [sameBlockTopologyIdentity]
      simp [dependsGraph, h.eq_of_name ht hd hname, hself]
    · simp only [dependsGraph, hname, if_false, Except.ok.injEq, Bool.false_eq_true, false_iff]
      rintro rfl
      exact hname rfl
  rw [heq]
  rcases search_answers (dependsGraph_wellFormed h hd) hkeys hdepth hn with
    ⟨hv, t, hr, ht⟩ | ⟨⟨done, hv⟩, hnone⟩
  · have hr := (reach_iff h hn).mp hr
    rw [(htarget (reach_mem hn hr)).mp ht] at hr
    exact .inl ⟨by rw [hv]; rfl, hr⟩
  · refine .inr ⟨by rw [hv]; rfl, fun hr => ?_⟩
    have hfalse := hnone disk ((reach_iff h hn).mpr hr)
    rw [(htarget hd).mpr rfl] at hfalse
    cases hfalse

end OnAccepted

def Stacked (inventory : List BlockObservation) (disk : BlockObservation) : Prop :=
  ∃ x ∈ inventory, x.kind = .block ∧ x.name ≠ disk.name ∧ x.lowerBlocks ≠ [] ∧
    Reach inventory x disk

def Mounted (inventory : List BlockObservation) (mounts : List MountObservation)
    (disk : BlockObservation) : Prop :=
  ∃ m ∈ mounts, ∃ x ∈ inventory, onDevice m x = true ∧ Reach inventory x disk

def MountsResolve (inventory : List BlockObservation) (mounts : List MountObservation) : Prop :=
  ∀ m ∈ mounts, m.deviceMajor ≠ 0 → ∃! x, x ∈ inventory ∧ onDevice m x = true

structure Unused (inventory : List BlockObservation) (mounts : List MountObservation)
    (disk : BlockObservation) : Prop where
  physical : isVirtualBlockTarget disk.sysfsTarget = false
  fixed : disk.removable = false
  lowest : disk.lowerBlocks = []
  not_stacked : ¬Stacked inventory disk
  not_mounted : ¬Mounted inventory mounts disk

section Assessment

variable {inventory : List BlockObservation} (h : Accepted inventory)
include h

variable {disk : BlockObservation}

theorem depends_ok_iff {node : BlockObservation} (hn : node ∈ inventory) (hd : disk ∈ inventory)
    (hk : disk.kind = .block)
    (hb : observedBlockNodeDependsOnWholeDisk node disk inventory = .ok b) :
    b = true ↔ Reach inventory node disk := by
  rcases depends_answers h hn hd hk with ⟨hv, hr⟩ | ⟨hv, hr⟩
  · rw [hv] at hb
    cases hb
    simp [hr]
  · rw [hv] at hb
    cases hb
    simp [hr]

theorem stacked_iff (hd : disk ∈ inventory) (hk : disk.kind = .block)
    (hb : wholeDiskHasStackedDependent disk inventory = .ok b) :
    b = true ↔ Stacked inventory disk := by
  constructor
  · rintro rfl
    obtain ⟨x, hx, hcheck⟩ := anyOf_true hb
    by_cases hskip : x.kind ≠ .block ∨ x.name = disk.name ∨ x.lowerBlocks = []
    · simp [hskip] at hcheck
    · rw [if_neg hskip] at hcheck
      simp only [not_or, not_not] at hskip
      exact ⟨x, hx, hskip.1, hskip.2.1, hskip.2.2, (depends_ok_iff h hx hd hk hcheck).mp rfl⟩
  · rintro ⟨x, hx, hblock, hname, hlower, hr⟩
    cases b with
    | true => rfl
    | false =>
      have hcheck := anyOf_false.mp hb x hx
      rw [if_neg (by simp [hblock, hname, hlower])] at hcheck
      exact (depends_ok_iff h hx hd hk hcheck).mpr hr

/-- One mount: either it is of no observed node, and then of no block device, or it is of
exactly one, and that node is searched. -/
theorem mountDepends_ok (hd : disk ∈ inventory) (hk : disk.kind = .block) {m : MountObservation}
    (hb : mountDepends disk inventory m = .ok b) :
    (b = true ↔ ∃ x ∈ inventory, onDevice m x = true ∧ Reach inventory x disk) ∧
      (m.deviceMajor ≠ 0 → ∃! x, x ∈ inventory ∧ onDevice m x = true) := by
  have hmem : ∀ x, x ∈ inventory.filter (onDevice m) ↔ x ∈ inventory ∧ onDevice m x = true :=
    fun x => List.mem_filter
  unfold mountDepends at hb
  match hf : inventory.filter (onDevice m) with
  | [] =>
    simp only [hf] at hb
    by_cases hmajor : m.deviceMajor ≠ 0
    · simp [hmajor] at hb
    · rw [if_neg hmajor] at hb
      cases hb
      refine ⟨?_, fun hne => absurd hne hmajor⟩
      simp only [Bool.false_eq_true, false_iff, not_exists, not_and]
      intro x hx hon
      have := (hmem x).mpr ⟨hx, hon⟩
      simp [hf] at this
  | [x] =>
    simp only [hf] at hb
    obtain ⟨hx, hon⟩ := (hmem x).mp (by simp [hf])
    have honly : ∀ y, y ∈ inventory ∧ onDevice m y = true → y = x := by
      intro y hy
      simpa [hf] using (hmem y).mpr hy
    refine ⟨?_, fun _ => ⟨x, ⟨hx, hon⟩, honly⟩⟩
    rw [depends_ok_iff h hx hd hk hb]
    constructor
    · exact fun hr => ⟨x, hx, hon, hr⟩
    · rintro ⟨y, hy, hony, hr⟩
      exact honly y ⟨hy, hony⟩ ▸ hr
  | x :: y :: rest => simp [hf] at hb

variable {mounts : Slice MountObservation}

/-- The mount test answers reachability from the mounted nodes. -/
theorem mounted_iff (hd : disk ∈ inventory) (hk : disk.kind = .block)
    (hb : observedWholeDiskHasVisibleDependentMount disk (some inventory) mounts = .ok b) :
    (b = true ↔ Mounted inventory mounts.items disk) ∧
      (b = false → MountsResolve inventory mounts.items) := by
  simp only [observedWholeDiskHasVisibleDependentMount, bind_unit_ok, Slice.items_some] at hb
  replace hb := hb.2.2
  constructor
  · constructor
    · rintro rfl
      obtain ⟨m, hm, hcheck⟩ := anyOf_true hb
      obtain ⟨x, hx, hon, hr⟩ := (mountDepends_ok h hd hk hcheck).1.mp rfl
      exact ⟨m, hm, x, hx, hon, hr⟩
    · rintro ⟨m, hm, x, hx, hon, hr⟩
      cases b with
      | true => rfl
      | false =>
        exact (mountDepends_ok h hd hk (anyOf_false.mp hb m hm)).1.mpr ⟨x, hx, hon, hr⟩
  · rintro rfl m hm hmajor
    exact (mountDepends_ok h hd hk (anyOf_false.mp hb m hm)).2 hmajor

theorem topologyReason_iff (hd : disk ∈ inventory) (hk : disk.kind = .block)
    (hr : topologyReason disk inventory = .ok reason) :
    reason = "" ↔ isVirtualBlockTarget disk.sysfsTarget = false ∧ disk.lowerBlocks = [] ∧
      ¬Stacked inventory disk := by
  unfold topologyReason at hr
  by_cases hv : isVirtualBlockTarget disk.sysfsTarget = true
  · rw [if_pos hv] at hr
    cases hr
    simp [hv]
  rw [if_neg hv] at hr
  by_cases hl : disk.lowerBlocks = []
  · rw [if_neg (not_not.mpr hl), bind_ok] at hr
    obtain ⟨stacked, hs, hreason⟩ := hr
    have hiff := stacked_iff h hd hk hs
    cases stacked with
    | true =>
      cases hreason
      simp [hiff.mp rfl]
    | false =>
      cases hreason
      have hnot : ¬Stacked inventory disk := fun hst => by simpa using hiff.mpr hst
      simp [hv, hl, hnot]
  · rw [if_pos hl] at hr
    cases hr
    simp [hl]

theorem mountReason_iff (hd : disk ∈ inventory) (hk : disk.kind = .block) {before : String}
    (hr : mountReason disk (some inventory) mounts before = .ok reason) :
    (reason = "" ↔ before = "" ∧ ¬Mounted inventory mounts.items disk) ∧
      (reason = "" → MountsResolve inventory mounts.items) := by
  unfold mountReason at hr
  by_cases hb : before = ""
  · rw [if_pos hb, bind_ok] at hr
    obtain ⟨mounted, hm, hreason⟩ := hr
    obtain ⟨hiff, hresolve⟩ := mounted_iff h hd hk hm
    cases mounted with
    | true =>
      cases hreason
      simp [hiff.mp rfl]
    | false =>
      cases hreason
      have hnot : ¬Mounted inventory mounts.items disk := fun hmt => by simpa using hiff.mpr hmt
      exact ⟨by simp [hb, hnot], fun _ => hresolve rfl⟩
  · rw [if_neg hb] at hr
    cases hr
    simp [hb]

/-- No reason is given exactly against the unused disks. -/
theorem exclusionReason_iff (hd : disk ∈ inventory) (hk : disk.kind = .block)
    (hr : exclusionReason disk (some inventory) mounts = .ok reason) :
    (reason = "" ↔ Unused inventory mounts.items disk) ∧
      (reason = "" → MountsResolve inventory mounts.items) := by
  simp only [exclusionReason, bind_ok, Slice.items_some] at hr
  obtain ⟨first, hfirst, second, hsecond, hreason⟩ := hr
  have htop := topologyReason_iff h hd hk hfirst
  obtain ⟨hmount, hresolve⟩ := mountReason_iff h hd hk hsecond
  have hempty : reason = "" ↔ second = "" ∧ disk.removable = false := by
    cases hreason
    by_cases hs : second = "" <;> cases hrem : disk.removable <;> simp [hs]
  constructor
  · rw [hempty, hmount, htop]
    constructor
    · rintro ⟨⟨⟨hv, hl, hst⟩, hm⟩, hrem⟩
      exact ⟨hv, hrem, hl, hst, hm⟩
    · intro hu
      exact ⟨⟨⟨hu.physical, hu.lowest, hu.not_stacked⟩, hu.not_mounted⟩, hu.fixed⟩
  · intro he
    exact hresolve (hempty.mp he).1

end Assessment

/-- Whether the assessment of a disk ends without a reason against it. -/
def clear (inventory : Slice BlockObservation) (mounts : Slice MountObservation)
    (device : ObservedBlockDevice) : Bool :=
  match exclusionReason (observationOf inventory device) inventory mounts with
  | .ok reason => reason = ""
  | .error _ => false

structure Planned (inventory : Slice BlockObservation) (mounts : Slice MountObservation)
    (plan plan' : Plan) (devices : List ObservedBlockDevice) : Prop where
  assessed : ∀ d ∈ devices,
    ∃ reason, exclusionReason (observationOf inventory d) inventory mounts = .ok reason
  candidates : plan'.candidates.map (·.name) = plan.candidates.map (·.name) ++
    (devices.filter (clear inventory mounts)).map (·.name)
  excluded : plan'.excluded.map (·.name) = plan.excluded.map (·.name) ++
    (devices.filter fun d => !clear inventory mounts d).map (·.name)

variable {mounts : Slice MountObservation}

theorem planDevice_ok {inventory : Slice BlockObservation} {plan plan' : Plan}
    {device : ObservedBlockDevice} (h : planDevice inventory mounts plan device = .ok plan') :
    Planned inventory mounts plan plan' [device] := by
  simp only [planDevice, bind_ok, refusedAs_ok] at h
  obtain ⟨reason, hr, hplan⟩ := h
  cases hplan
  have hclear : clear inventory mounts device = decide (reason = "") := by simp [clear, hr]
  by_cases hreason : reason = ""
  · constructor
    · simpa using ⟨reason, hr⟩
    · simp [Plan.place, Plan.flag, candidateOf, hclear, hreason]
    · simp [Plan.place, Plan.flag, hclear, hreason]
  · constructor
    · simpa using ⟨reason, hr⟩
    · simp [Plan.place, Plan.flag, hclear, hreason]
    · simp [Plan.place, Plan.flag, hclear, hreason]

theorem Planned.trans {inventory : Slice BlockObservation} {first mid last : Plan}
    {ds ds' : List ObservedBlockDevice} (h : Planned inventory mounts first mid ds)
    (h' : Planned inventory mounts mid last ds') :
    Planned inventory mounts first last (ds ++ ds') where
  assessed := List.forall_mem_append.mpr ⟨h.assessed, h'.assessed⟩
  candidates := by
    rw [h'.candidates, h.candidates, List.filter_append, List.map_append, List.append_assoc]
  excluded := by
    rw [h'.excluded, h.excluded, List.filter_append, List.map_append, List.append_assoc]

theorem plan_ok {inventory : Slice BlockObservation} {plan plan' : Plan}
    {devices : List ObservedBlockDevice}
    (h : thread (planDevice inventory mounts) plan devices = .ok plan') :
    Planned inventory mounts plan plan' devices := by
  induction devices generalizing plan with
  | nil =>
    simp only [thread, Except.ok.injEq] at h
    subst h
    constructor <;> simp
  | cons d rest ih =>
    obtain ⟨mid, hone, hrest⟩ := thread_cons_ok.mp h
    exact (planDevice_ok hone).trans (ih hrest)

theorem depends_bounded (node disk : BlockObservation) (inventory : List BlockObservation) :
    observedBlockNodeDependsOnWholeDisk node disk inventory ≠ .error .unbounded := by
  unfold observedBlockNodeDependsOnWholeDisk
  refine bind_avoids (thread_avoids (fun seen o => ?_) [] inventory) fun _ => ?_
  · refine check_avoids nofun ?_
    exact check_avoids nofun nofun
  by_cases hobs : isObserved inventory node = true
  · refine check_avoids nofun ?_
    refine check_avoids nofun ?_
    -- the search starts at an observed name and only goes on to observed names
    have hstart : node.name ∈ inventory.map (·.name) :=
      byName_mem fun hb => by simp [isObserved, hb] at hobs
    exact answer_bounded (visit_bounded (N := fun x => x.name ∈ inventory.map (·.name))
      (fun _ he => List.mem_map.mpr ⟨_, (edge_of_depends he).1, rfl⟩) (fun hx _ => hx)
      (fresh_nil_lt (by rw [List.length_map]; exact Nat.lt_succ_self _)) hstart [])
  · simp [refuseIf, hobs, bind, Except.bind]

theorem refusedAs_bounded {α : Type} {text : String} {x : Except Failure α}
    (h : x ≠ .error .unbounded) : refusedAs text x ≠ .error .unbounded := by
  match x with
  | .ok a => simp [refusedAs]
  | .error (.refused e) => simp [refusedAs]
  | .error .unbounded => exact absurd rfl h

theorem completeSet_bounded (storage : StorageSnapshot) :
    completeObservedBlockDeviceSet storage ≠ .error .unbounded := by
  unfold completeObservedBlockDeviceSet
  refine check_avoids nofun ?_
  refine bind_avoids (thread_avoids (fun acc o => ?_) _ _) fun _ => ?_
  · refine check_avoids nofun ?_
    refine check_avoids nofun ?_
    cases o.kind with
    | block | partition => exact check_avoids nofun nofun
    | other text => simp
  refine bind_avoids (forEach_avoids (fun o => ?_) _) fun _ => ?_
  · exact check_avoids nofun (refuseIf_avoids nofun)
  exact bind_avoids (refusedAs_bounded (topology_bounded _)) fun _ => nofun

theorem exclusionReason_bounded (o : BlockObservation) (inventory : Slice BlockObservation)
    (mounts : Slice MountObservation) :
    exclusionReason o inventory mounts ≠ .error .unbounded := by
  have hstack : wholeDiskHasStackedDependent o inventory.items ≠ .error .unbounded := by
    refine anyOf_avoids (fun x => ?_) _
    split
    · simp
    · exact depends_bounded x o inventory.items
  have hmount : observedWholeDiskHasVisibleDependentMount o inventory mounts ≠
      .error .unbounded := by
    refine check_avoids nofun ?_
    refine check_avoids nofun (anyOf_avoids (fun m => ?_) _)
    unfold mountDepends
    split
    · split <;> simp
    · exact depends_bounded _ o inventory.items
    · simp
  refine bind_avoids ?_ fun reason => bind_avoids ?_ fun _ => nofun
  · unfold topologyReason
    split
    · simp
    split
    · simp
    · exact bind_avoids hstack fun _ => nofun
  · unfold mountReason
    split
    · exact bind_avoids hmount fun _ => nofun
    · simp

/-- Every call of the plan returns: a plan or a refusal. -/
theorem plan_bounded (storage : StorageSnapshot) (mounts : MountSnapshot) :
    planTrustedStorageDiscovery storage mounts ≠ .error .unbounded := by
  refine bind_avoids (refusedAs_bounded (completeSet_bounded storage)) fun devices => ?_
  refine check_avoids nofun ?_
  refine check_avoids nofun (thread_avoids (fun plan d => ?_) _ _)
  exact bind_avoids (refusedAs_bounded (exclusionReason_bounded _ _ _)) fun _ => nofun

def Plan.names (plan : Plan) : List Bytes :=
  plan.candidates.map (·.name) ++ plan.excluded.map (·.name)

structure Discovered (inventory : List BlockObservation) (mounts : List MountObservation)
    (plan : Plan) : Prop where
  closed : ∀ o ∈ inventory, ∀ name ∈ dependencies o,
    ∃ y ∈ inventory, y.name = name ∧ Edge inventory o y
  acyclic : ∀ o ∈ inventory, ¬Relation.TransGen (Edge inventory) o o
  disks_once : ∀ o ∈ inventory, o.kind = .block → plan.names.count o.name = 1
  only_disks : ∀ name ∈ plan.names, ∃ o ∈ inventory, o.name = name ∧ o.kind = .block
  no_partitions : ∀ o ∈ inventory, o.kind = .partition → o.name ∉ plan.names
  candidate_iff : ∀ o ∈ inventory, o.kind = .block →
    (o.name ∈ plan.candidates.map (·.name) ↔ Unused inventory mounts o)
  mounts_resolve : plan.candidates ≠ [] → MountsResolve inventory mounts
  depends_iff : ∀ node ∈ inventory, ∀ disk ∈ inventory, disk.kind = .block →
    ∃ b, observedBlockNodeDependsOnWholeDisk node disk inventory = .ok b ∧
      (b = true ↔ Reach inventory node disk)

theorem disks_nodup (h : Accepted inventory) :
    ((inventory.filter fun o => o.kind = .block).map (·.name)).Nodup := by
  refine List.pairwise_map.mpr ((h.ordered.filter _).imp fun hlt heq => ?_)
  exact List.lt_irrefl _ (heq ▸ hlt)

theorem mem_disks :
    o ∈ (inventory.filter fun o => decide (o.kind = .block)) ↔ o ∈ inventory ∧ o.kind = .block := by
  simp

section Listing

variable {inventory : List BlockObservation} {mounts : Slice MountObservation} {plan : Plan}
  (h : Accepted inventory)
  (hp : Planned (some inventory) mounts ⟨[], [], false, false⟩ plan
    ((inventory.filter fun o => o.kind = .block).map observedDevice))
include hp

theorem names_perm :
    plan.names.Perm ((inventory.filter fun o => o.kind = .block).map (·.name)) := by
  have hall := (List.filter_append_perm (clear (some inventory) mounts)
    ((inventory.filter fun o => o.kind = .block).map observedDevice)).map (·.name)
  rw [List.map_append, List.map_map] at hall
  rw [Plan.names, hp.candidates, hp.excluded]
  exact hall

theorem mem_names {name : Bytes} :
    name ∈ plan.names ↔ ∃ o ∈ inventory, o.name = name ∧ o.kind = .block := by
  rw [(names_perm hp).mem_iff, List.mem_map]
  constructor
  · rintro ⟨o, ho, hn⟩
    exact ⟨o, (mem_disks.mp ho).1, hn, (mem_disks.mp ho).2⟩
  · rintro ⟨o, ho, hn, hk⟩
    exact ⟨o, mem_disks.mpr ⟨ho, hk⟩, hn⟩

include h

theorem clear_iff (ho : o ∈ inventory) (hk : o.kind = .block) :
    (clear (some inventory) mounts (observedDevice o) = true ↔
        Unused inventory mounts.items o) ∧
      (clear (some inventory) mounts (observedDevice o) = true →
        MountsResolve inventory mounts.items) := by
  have hobs : observationOf (some inventory) (observedDevice o) = o := by
    simp [observationOf, observedDevice, h.byName_mem ho]
  obtain ⟨reason, hr⟩ := hp.assessed _ (List.mem_map.mpr ⟨o, mem_disks.mpr ⟨ho, hk⟩, rfl⟩)
  rw [hobs] at hr
  have hclear : clear (some inventory) mounts (observedDevice o) = true ↔ reason = "" := by
    simp [clear, hobs, hr]
  rw [hclear]
  exact exclusionReason_iff h ho hk hr

theorem mem_candidates (ho : o ∈ inventory) (hk : o.kind = .block) :
    o.name ∈ plan.candidates.map (·.name) ↔ Unused inventory mounts.items o := by
  rw [← (clear_iff h hp ho hk).1, hp.candidates]
  simp only [List.map_nil, List.nil_append, List.mem_map, List.mem_filter]
  constructor
  · rintro ⟨d, ⟨⟨o', ho', rfl⟩, hd⟩, hn⟩
    rwa [← h.eq_of_name ho'.1 ho hn]
  · intro hc
    exact ⟨observedDevice o, ⟨⟨o, ⟨ho, by simpa using hk⟩, rfl⟩, hc⟩, rfl⟩

theorem resolve_of_candidate (hne : plan.candidates ≠ []) :
    MountsResolve inventory mounts.items := by
  obtain ⟨c, hc⟩ := List.exists_mem_of_ne_nil _ hne
  have hname : c.name ∈ plan.candidates.map (·.name) := List.mem_map.mpr ⟨c, hc, rfl⟩
  obtain ⟨o, ho, hn, hk⟩ := (mem_names hp).mp (List.mem_append.mpr (.inl hname))
  obtain ⟨hiff, hresolve⟩ := clear_iff h hp ho hk
  exact hresolve (hiff.mpr ((mem_candidates h hp ho hk).mp (hn ▸ hname)))

theorem listing_discovered : Discovered inventory mounts.items plan where
  closed := fun _ ho _ hname => h.closed ho hname
  acyclic := fun _ ho => h.acyclic ho
  disks_once := by
    intro o ho hk
    rw [(names_perm hp).count_eq]
    exact List.count_eq_one_of_mem (disks_nodup h)
      (List.mem_map.mpr ⟨o, mem_disks.mpr ⟨ho, hk⟩, rfl⟩)
  only_disks := fun _ hn => (mem_names hp).mp hn
  no_partitions := by
    intro o ho hk hn
    obtain ⟨o', ho', hname, hblock⟩ := (mem_names hp).mp hn
    rw [h.eq_of_name ho' ho hname, hk] at hblock
    cases hblock
  candidate_iff := fun _ ho hk => mem_candidates h hp ho hk
  mounts_resolve := resolve_of_candidate h hp
  depends_iff := by
    intro node hn disk hd hk
    rcases depends_answers h hn hd hk with ⟨hv, hr⟩ | ⟨hv, hr⟩
    · exact ⟨true, hv, by simp [hr]⟩
    · exact ⟨false, hv, by simp [hr]⟩

end Listing

/-- Candidate disks are unused, and every other answer of a plan is the block graph's. -/
theorem plan_discovers {storage : StorageSnapshot} {mounts : MountSnapshot} {plan : Plan}
    (h : planTrustedStorageDiscovery storage mounts = .ok plan) :
    Discovered storage.observations.items mounts.mounts.items plan := by
  simp only [planTrustedStorageDiscovery, bind_ok, refusedAs_ok] at h
  obtain ⟨devices, hdevices, _, -, _, -, hplan⟩ := h
  obtain ⟨inventory, hinv, haccepted, rfl⟩ := completeObservedBlockDeviceSet_ok hdevices
  rw [hinv] at hplan ⊢
  exact listing_discovered haccepted (plan_ok hplan)

def sampleDisk (name target : String) (minor : UInt32) (sequence : UInt64)
    (lowers : List TopologyRef) : BlockObservation :=
  ⟨ascii name, .block, 8, minor, false, 0, [], none, none, .present, .unavailable, sequence, 0,
    ascii target, lowers⟩

def sampleInventory : List BlockObservation :=
  [sampleDisk "md0" "devices/virtual/block/md0" 9 4 [⟨ascii "sdb", .block, 8, 16, 2⟩],
    sampleDisk "sda" "devices/ata1/sda" 1 1 [],
    ⟨ascii "sda1", .partition, 8, 2, false, 1, ascii "sda", some 8, some 1, .unavailable,
      .unavailable, 0, 1, ascii "devices/ata1/sda/sda1", []⟩,
    sampleDisk "sdb" "devices/ata2/sdb" 16 2 [],
    sampleDisk "sdc" "devices/ata3/sdc" 32 3 []]

def sampleStorage : StorageSnapshot :=
  ⟨2, ascii "kernel-sysfs-only", true, false, false, false, false, 5, some sampleInventory, true⟩

def sampleMounts : MountSnapshot :=
  ⟨1, 1, ascii "current-process-mount-namespace", true, false, false, 1,
    some [⟨ascii "/", ascii "ext4", 8, 2⟩], true⟩

def samplePlan : Plan :=
  ⟨[⟨ascii "sdc", ⟨8, 32, 3⟩, .present, .unavailable⟩],
    [⟨ascii "md0", "virtual-block-node"⟩, ⟨ascii "sda", "visible-dependent-mount"⟩,
      ⟨ascii "sdb", "member-of-stacked-block-node"⟩], false, true⟩

theorem samplePlan_discovers :
    planTrustedStorageDiscovery sampleStorage sampleMounts = .ok samplePlan ∧
      Discovered sampleInventory sampleMounts.mounts.items samplePlan :=
  ⟨by rfl, plan_discovers (by rfl : planTrustedStorageDiscovery sampleStorage sampleMounts = _)⟩

end StorageDiscovery
