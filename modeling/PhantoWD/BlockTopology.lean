import PhantoWD.Checks
import PhantoWD.DepthFirst
import PhantoWD.GoText

/-!
A storage snapshot lists every node under `class/block` with its device number, its sysfs
target, a partition's parent and a stacked node's lower blocks. What
`completeObservedBlockDeviceSet` accepts is a closed graph without cycles, in which names and
device numbers tell the nodes apart.
-/
namespace BlockTopology

open GoText Checks DepthFirst

/-- `unbounded` stands for a recursion deeper than the model follows; it is never returned. -/
inductive Failure where
  | unbounded
  | refused (text : String)
  deriving DecidableEq

inductive Kind where
  | block
  | partition
  | other (text : Bytes)
  deriving DecidableEq

inductive IdentityStatus where
  | unavailable
  | present
  | invalid
  | ambiguous
  | unreadable
  | other (text : Bytes)
  deriving DecidableEq

structure TopologyRef where
  name : Bytes
  kind : Kind
  major : UInt32
  minor : UInt32
  diskSequence : UInt64
  deriving DecidableEq

structure BlockObservation where
  name : Bytes
  kind : Kind
  major : UInt32
  minor : UInt32
  removable : Bool
  partitionNumber : UInt32
  parentName : Bytes
  parentMajor : Option UInt32
  parentMinor : Option UInt32
  serialStatus : IdentityStatus
  wwnStatus : IdentityStatus
  diskSequence : UInt64
  parentDiskSeq : UInt64
  sysfsTarget : Bytes
  lowerBlocks : List TopologyRef
  deriving DecidableEq

structure StorageSnapshot where
  schemaVersion : Int
  scope : Bytes
  inventoryReadOnly : Bool
  blockDevicesOpened : Bool
  contentRead : Bool
  mutationsPerformed : Bool
  stableIdentityAvailable : Bool
  deviceCount : Int
  observations : Slice BlockObservation
  collectionComplete : Bool

structure BlockDeviceGeneration where
  major : UInt32
  minor : UInt32
  diskSequence : UInt64
  deriving DecidableEq

structure ObservedBlockDevice where
  name : Bytes
  generation : BlockDeviceGeneration
  deriving DecidableEq

def maxBlockEntries : Nat := 32

def maxSysfsBlockLinkBytes : Nat := 4096

def validBlockName (name : Bytes) : Bool :=
  name != [] && name != ascii "." && name != ascii ".." && decide (name.length ≤ 64) &&
    (runes name).all fun c =>
      (0x61 ≤ c && c ≤ 0x7a) || (0x41 ≤ c && c ≤ 0x5a) || (0x30 ≤ c && c ≤ 0x39) ||
        c == 0x2e || c == 0x5f || c == 0x2d

def validObservedSysfsTarget (target name : Bytes) : Bool :=
  target != [] && decide (target.length ≤ maxSysfsBlockLinkBytes) && validPath target &&
    !(ascii "/").isPrefixOf target && (ascii "devices/").isPrefixOf target &&
    pathBase target == name

def validIdentityStatus : IdentityStatus → Bool
  | .other _ => false
  | _ => true

def sameTopologyReference (o : BlockObservation) (r : TopologyRef) : Bool :=
  o.name == r.name && o.kind == r.kind && o.major == r.major && o.minor == r.minor &&
    o.diskSequence == r.diskSequence

def byName (inventory : List BlockObservation) (name : Bytes) : Option BlockObservation :=
  inventory.reverse.find? fun o => o.name = name

structure Collected where
  previousName : Bytes
  targets : List Bytes
  deviceNumbers : List (UInt32 × UInt32)
  diskSequences : List UInt64
  devices : List ObservedBlockDevice

def Collected.empty : Collected := ⟨[], [], [], [], []⟩

def observedDevice (o : BlockObservation) : ObservedBlockDevice :=
  ⟨o.name, ⟨o.major, o.minor, o.diskSequence⟩⟩

def collectOne (acc : Collected) (o : BlockObservation) : Except Failure Collected := do
  refuseIf (!validBlockName o.name ∨ (acc.previousName ≠ [] ∧ o.name ≤ acc.previousName) ∨
      (o.major = 0 ∧ o.minor = 0) ∨ !validObservedSysfsTarget o.sysfsTarget o.name ∨
      o.sysfsTarget ∈ acc.targets)
    (.refused "storage snapshot contains invalid or unordered block metadata")
  refuseIf ((o.major, o.minor) ∈ acc.deviceNumbers)
    (.refused "storage snapshot contains duplicate block device numbers")
  let seen := { acc with
    previousName := o.name
    targets := o.sysfsTarget :: acc.targets
    deviceNumbers := (o.major, o.minor) :: acc.deviceNumbers }
  match o.kind with
  | .block =>
    refuseIf (o.partitionNumber ≠ 0 ∨ o.parentName ≠ [] ∨ o.parentMajor ≠ none ∨
        o.parentMinor ≠ none ∨ o.parentDiskSeq ≠ 0 ∨ o.diskSequence = 0 ∨
        o.diskSequence ∈ acc.diskSequences ∨ !validIdentityStatus o.serialStatus ∨
        !validIdentityStatus o.wwnStatus)
      (.refused "storage snapshot contains invalid whole-disk generation metadata")
    return { seen with
      diskSequences := o.diskSequence :: acc.diskSequences
      devices := acc.devices ++ [observedDevice o] }
  | .partition =>
    refuseIf (o.partitionNumber = 0 ∨ o.parentName = [] ∨ o.parentMajor = none ∨
        o.parentMinor = none ∨ o.parentDiskSeq = 0 ∨ o.diskSequence ≠ 0)
      (.refused "storage snapshot contains invalid partition-parent metadata")
    return seen
  | .other _ => .error (.refused "storage snapshot contains an unknown block node kind")

def isParent (o parent : BlockObservation) : Bool :=
  parent.kind == .block && some parent.major == o.parentMajor &&
    some parent.minor == o.parentMinor && parent.diskSequence == o.parentDiskSeq

def lowersOk (inventory : List BlockObservation) (o : BlockObservation) :
    List Bytes → List TopologyRef → Bool
  | _, [] => true
  | seen, r :: rest =>
    match byName inventory r.name with
    | none => false
    | some lower =>
      r.name != o.name && decide (r.name ∉ seen) && sameTopologyReference lower r &&
        lowersOk inventory o (r.name :: seen) rest

def parentOk (inventory : List BlockObservation) (o : BlockObservation) : Bool :=
  match byName inventory o.parentName with
  | none => false
  | some parent => isParent o parent && pathDir o.sysfsTarget == parent.sysfsTarget

def checkRelations (inventory : List BlockObservation) (o : BlockObservation) :
    Except Failure Unit := do
  refuseIf (o.kind = .partition ∧ !parentOk inventory o)
    (.refused "storage snapshot contains an incomplete partition-parent relation")
  refuseIf (!lowersOk inventory o [] o.lowerBlocks)
    (.refused "storage snapshot contains an incomplete block dependency relation")

def dependencies (o : BlockObservation) : List Bytes :=
  (if o.kind = .partition then [o.parentName] else []) ++ o.lowerBlocks.map (·.name)

/-- The search of `validateObservedStorageTopology`: colour 1 of its `state` map is the path,
colour 2 the finished set. -/
def topologyGraph (inventory : List BlockObservation) : Graph Bytes Bytes String where
  key := id
  target := fun _ => .ok false
  edges := fun name =>
    match byName inventory name with
    | none => [.error "missing block dependency"]
    | some o => (dependencies o).map .ok
  cycle := "cyclic block dependency"

def answer {κ : Type} : Result κ String → Except Failure Bool
  | .unbounded => .error .unbounded
  | .refused text => .error (.refused text)
  | .found => .ok true
  | .exhausted _ => .ok false

/-- A path repeats no name, so one level more than there are nodes is never used up. -/
def maxDepth (inventory : List BlockObservation) : Nat := inventory.length + 1

def validateObservedStorageTopology (inventory : List BlockObservation) : Except Failure Unit := do
  let _ ← answer (each ((topologyGraph inventory).visit (maxDepth inventory) [])
    (inventory.map fun o => .ok o.name) [])

def refusedAs {α : Type} (text : String) : Except Failure α → Except Failure α
  | .error (.refused _) => .error (.refused text)
  | r => r

def completeObservedBlockDeviceSet (snapshot : StorageSnapshot) :
    Except Failure (List ObservedBlockDevice) := do
  refuseIf (snapshot.schemaVersion ≠ 2 ∨ snapshot.scope ≠ ascii "kernel-sysfs-only" ∨
      !snapshot.inventoryReadOnly ∨ snapshot.blockDevicesOpened ∨ snapshot.contentRead ∨
      snapshot.mutationsPerformed ∨ snapshot.stableIdentityAvailable ∨
      !snapshot.collectionComplete ∨ snapshot.observations = none ∨
      snapshot.observations.items.length > maxBlockEntries ∨
      snapshot.deviceCount ≠ snapshot.observations.items.length)
    (.refused "storage snapshot is not a complete in-memory collection")
  let inventory := snapshot.observations.items
  let acc ← thread collectOne Collected.empty inventory
  forEach (checkRelations inventory) inventory
  refusedAs "storage snapshot contains invalid or cyclic block topology"
    (validateObservedStorageTopology inventory)
  return acc.devices

structure NodeOk (o : BlockObservation) : Prop where
  name : o.name ≠ []
  number : ¬(o.major = 0 ∧ o.minor = 0)
  kind : o.kind = .block ∧ o.diskSequence ≠ 0 ∨
    o.kind = .partition ∧ o.parentName ≠ [] ∧ o.parentMajor ≠ none ∧ o.parentMinor ≠ none ∧
      o.parentDiskSeq ≠ 0

structure Admitted (acc : Collected) (o : BlockObservation) : Prop extends NodeOk o where
  ordered : acc.previousName ≠ [] → acc.previousName < o.name
  fresh : (o.major, o.minor) ∉ acc.deviceNumbers

theorem validBlockName_ne_nil {name : Bytes} (h : validBlockName name = true) : name ≠ [] := by
  rintro rfl
  simp [validBlockName] at h

variable {o : BlockObservation}

theorem collectOne_ok {acc acc' : Collected} (h : collectOne acc o = .ok acc') :
    Admitted acc o ∧ acc'.previousName = o.name ∧
      acc'.deviceNumbers = (o.major, o.minor) :: acc.deviceNumbers ∧
      acc'.devices = acc.devices ++ if o.kind = .block then [observedDevice o] else [] := by
  simp only [collectOne, bind_unit_ok, refuseIf_ok, not_or, not_and] at h
  obtain ⟨⟨hname, hordered, hnumber, -, -⟩, hfresh, h⟩ := h
  have hne : o.name ≠ [] := validBlockName_ne_nil (by simpa using hname)
  have hlt : acc.previousName ≠ [] → acc.previousName < o.name := by
    intro hp
    exact List.not_le.mp (hordered hp)
  cases hk : o.kind with
  | block =>
    simp only [hk, bind_unit_ok, refuseIf_ok, not_or, pure, Except.pure, Except.ok.injEq] at h
    obtain ⟨⟨-, -, -, -, -, hseq, -⟩, rfl⟩ := h
    exact ⟨⟨⟨hne, by simpa using hnumber, .inl ⟨hk, hseq⟩⟩, hlt, hfresh⟩, rfl, rfl, by simp⟩
  | partition =>
    simp only [hk, bind_unit_ok, refuseIf_ok, not_or, pure, Except.pure, Except.ok.injEq] at h
    obtain ⟨⟨-, hp, hmajor, hminor, hseq, -⟩, rfl⟩ := h
    exact ⟨⟨⟨hne, by simpa using hnumber, .inr ⟨hk, hp, hmajor, hminor, hseq⟩⟩, hlt, hfresh⟩,
      rfl, rfl, by simp⟩
  | other text => simp [hk] at h

structure CollectedOk (acc acc' : Collected) (inventory : List BlockObservation) : Prop where
  nodes : ∀ o ∈ inventory, NodeOk o
  above : ∀ o ∈ inventory, acc.previousName ≠ [] → acc.previousName < o.name
  ordered : inventory.Pairwise fun a b => a.name < b.name
  outside : ∀ o ∈ inventory, (o.major, o.minor) ∉ acc.deviceNumbers
  numbers : inventory.Pairwise fun a b => (a.major, a.minor) ≠ (b.major, b.minor)
  devices : acc'.devices =
    acc.devices ++ (inventory.filter fun o => o.kind = .block).map observedDevice

variable {inventory : List BlockObservation}

theorem collect_ok {acc acc' : Collected} (h : thread collectOne acc inventory = .ok acc') :
    CollectedOk acc acc' inventory := by
  induction inventory generalizing acc with
  | nil =>
    simp only [thread, Except.ok.injEq] at h
    subst h
    constructor <;> simp
  | cons o rest ih =>
    obtain ⟨mid, hone, hrest⟩ := thread_cons_ok.mp h
    obtain ⟨hadm, hprev, hnums, hdevs⟩ := collectOne_ok hone
    have ih := ih hrest
    have hbelow : ∀ o' ∈ rest, o.name < o'.name := by
      intro o' ho'
      exact hprev ▸ ih.above o' ho' (by rw [hprev]; exact hadm.name)
    constructor
    · exact List.forall_mem_cons.mpr ⟨hadm.toNodeOk, ih.nodes⟩
    · refine List.forall_mem_cons.mpr ⟨hadm.ordered, fun o' ho' hp => ?_⟩
      exact List.lt_trans (hadm.ordered hp) (hbelow o' ho')
    · exact List.pairwise_cons.mpr ⟨hbelow, ih.ordered⟩
    · refine List.forall_mem_cons.mpr ⟨hadm.fresh, fun o' ho' hin => ih.outside o' ho' ?_⟩
      rw [hnums]
      exact List.mem_cons_of_mem _ hin
    · refine List.pairwise_cons.mpr ⟨fun o' ho' heq => ih.outside o' ho' ?_, ih.numbers⟩
      rw [hnums, ← heq]
      exact List.mem_cons_self
    · rw [ih.devices, hdevs, List.filter_cons]
      by_cases hk : o.kind = .block <;> simp [hk]

theorem byName_some {name : Bytes} (h : byName inventory name = some o) :
    o ∈ inventory ∧ o.name = name :=
  ⟨by simpa using List.mem_of_find?_eq_some h, by simpa using List.find?_some h⟩

theorem eq_of_pairwise {R : BlockObservation → BlockObservation → Prop}
    (hp : inventory.Pairwise R) {a b : BlockObservation} (ha : a ∈ inventory) (hb : b ∈ inventory)
    (hab : ¬R a b) (hba : ¬R b a) : a = b := by
  by_contra hne
  obtain ⟨i, hi, rfl⟩ := List.getElem_of_mem ha
  obtain ⟨j, hj, rfl⟩ := List.getElem_of_mem hb
  rcases Nat.lt_trichotomy i j with hij | rfl | hij
  · exact hab (List.pairwise_iff_getElem.mp hp i j hi hj hij)
  · exact hne rfl
  · exact hba (List.pairwise_iff_getElem.mp hp j i hj hi hij)

theorem lowersOk_mem {seen : List Bytes} {refs : List TopologyRef}
    (h : lowersOk inventory o seen refs = true) :
    ∀ r ∈ refs, ∃ lower, byName inventory r.name = some lower ∧
      sameTopologyReference lower r = true := by
  induction refs generalizing seen with
  | nil => simp
  | cons r rest ih =>
    rw [lowersOk] at h
    cases hb : byName inventory r.name with
    | none => simp [hb] at h
    | some lower =>
      simp only [hb, Bool.and_eq_true] at h
      obtain ⟨⟨-, hsame⟩, hrest⟩ := h
      exact List.forall_mem_cons.mpr ⟨⟨lower, hb, hsame⟩, ih hrest⟩

theorem lowersOk_distinct {seen : List Bytes} {refs : List TopologyRef}
    (h : lowersOk inventory o seen refs = true) :
    (∀ r ∈ refs, r.name ∉ seen) ∧ (refs.map (·.name)).Nodup := by
  induction refs generalizing seen with
  | nil => simp
  | cons r rest ih =>
    rw [lowersOk] at h
    cases hb : byName inventory r.name with
    | none => simp [hb] at h
    | some lower =>
      simp only [hb, Bool.and_eq_true, decide_eq_true_eq] at h
      obtain ⟨⟨⟨-, hseen⟩, -⟩, hrest⟩ := h
      obtain ⟨hout, hnodup⟩ := ih hrest
      constructor
      · refine List.forall_mem_cons.mpr ⟨hseen, fun r' hr' hin => ?_⟩
        exact hout r' hr' (List.mem_cons_of_mem _ hin)
      · rw [List.map_cons, List.nodup_cons]
        refine ⟨fun hin => ?_, hnodup⟩
        obtain ⟨r', hr', heq⟩ := List.mem_map.mp hin
        exact hout r' hr' (heq ▸ List.mem_cons_self)

structure RelationsOk (inventory : List BlockObservation) (o : BlockObservation) : Prop where
  parent : o.kind = .partition →
    ∃ p, byName inventory o.parentName = some p ∧ isParent o p = true
  lowers : ∀ r ∈ o.lowerBlocks, ∃ lower, byName inventory r.name = some lower ∧
    sameTopologyReference lower r = true
  distinct : (o.lowerBlocks.map (·.name)).Nodup

theorem checkRelations_ok (h : checkRelations inventory o = .ok ()) : RelationsOk inventory o := by
  simp only [checkRelations, bind_unit_ok, refuseIf_ok, not_and, Bool.not_eq_true',
    Bool.not_eq_false] at h
  obtain ⟨hparent, hlowers⟩ := h
  constructor
  · intro hk
    have hp := hparent hk
    unfold parentOk at hp
    cases hb : byName inventory o.parentName with
    | none => simp [hb] at hp
    | some p =>
      simp only [hb, Bool.and_eq_true] at hp
      exact ⟨p, rfl, hp.1⟩
  · exact lowersOk_mem hlowers
  · exact (lowersOk_distinct hlowers).2

/-- The block graph: from a partition to its parent, from a node to each lower block. -/
def Edge (inventory : List BlockObservation) (x y : BlockObservation) : Prop :=
  y ∈ inventory ∧ (x.kind = .partition ∧ y.name = x.parentName ∨
    ∃ r ∈ x.lowerBlocks, y.name = r.name)

def Reach (inventory : List BlockObservation) : BlockObservation → BlockObservation → Prop :=
  Relation.ReflTransGen (Edge inventory)

theorem mem_dependencies {name : Bytes} :
    name ∈ dependencies o ↔
      o.kind = .partition ∧ name = o.parentName ∨ ∃ r ∈ o.lowerBlocks, name = r.name := by
  unfold dependencies
  by_cases hk : o.kind = .partition <;> simp [hk, eq_comm]

theorem topology_region (inventory : List BlockObservation) :
    Region (topologyGraph inventory) fun _ => True where
  key_inj := fun _ _ h => h
  closed := fun _ _ => trivial

theorem topology_edge {name : Bytes} (h : byName inventory name = some o) {dep : Bytes} :
    (topologyGraph inventory).Edge name dep ↔ dep ∈ dependencies o := by
  simp [Graph.Edge, topologyGraph, h]

theorem byName_mem {name : Bytes} (h : byName inventory name ≠ none) :
    name ∈ inventory.map (·.name) := by
  obtain ⟨o, hb⟩ := Option.ne_none_iff_exists'.mp h
  obtain ⟨ho, hn⟩ := byName_some hb
  exact List.mem_map.mpr ⟨o, ho, hn⟩

theorem answer_bounded {κ : Type} {x : Result κ String} (h : x ≠ .unbounded) :
    answer x ≠ .error .unbounded := by
  cases x with
  | unbounded => exact absurd rfl h
  | refused | found | exhausted => simp [answer]

/-- The recursion bound is enough for every inventory. -/
theorem topology_bounded (inventory : List BlockObservation) :
    validateObservedStorageTopology inventory ≠ .error .unbounded := by
  have hmem : ∀ {x y}, (topologyGraph inventory).Edge x y → x ∈ inventory.map (·.name) := by
    intro x y he
    refine byName_mem fun hb => ?_
    simp [Graph.Edge, topologyGraph, hb] at he
  refine bind_avoids (answer_bounded (each_bounded (fun x _ done => ?_) [])) fun _ => nofun
  exact visit_bounded (topology_region inventory).closed (fun _ => hmem)
    (fresh_nil_lt (by rw [List.length_map]; exact Nat.lt_succ_self _)) trivial done

theorem topology_acc (h : validateObservedStorageTopology inventory = .ok ()) (ho : o ∈ inventory) :
    Acc (Function.swap (topologyGraph inventory).Edge) o.name := by
  unfold validateObservedStorageTopology at h
  cases he : each ((topologyGraph inventory).visit (maxDepth inventory) [])
      (inventory.map fun o => .ok o.name) [] with
  | exhausted done =>
    obtain ⟨hf, -, hall⟩ := each_exhausted
      (fun x _ d d' hd hv => visit_exhausted (topology_region inventory) trivial hd hv)
      finished_nil he
    obtain ⟨name, hname, hdone⟩ := hall (.ok o.name) (List.mem_map.mpr ⟨o, ho, rfl⟩)
    cases hname
    exact (hf o.name trivial hdone).acc
  | found =>
    obtain ⟨x, d, -, hv⟩ := each_found he
    obtain ⟨t, -, ht⟩ := visit_found hv
    simp [topologyGraph] at ht
  | unbounded | refused => simp [he, answer, bind, Except.bind] at h

structure Accepted (inventory : List BlockObservation) : Prop where
  nodes : ∀ o ∈ inventory, NodeOk o
  ordered : inventory.Pairwise fun a b => a.name < b.name
  numbers : inventory.Pairwise fun a b => (a.major, a.minor) ≠ (b.major, b.minor)
  relations : ∀ o ∈ inventory, RelationsOk inventory o
  acc : ∀ o ∈ inventory, Acc (Function.swap (topologyGraph inventory).Edge) o.name

theorem refusedAs_ok {α : Type} {text : String} {x : Except Failure α} {a : α} :
    refusedAs text x = .ok a ↔ x = .ok a := by
  cases x with
  | error e => cases e <;> simp [refusedAs]
  | ok b => simp [refusedAs]

/-- An accepted snapshot gives the whole disks of an accepted inventory. -/
theorem completeObservedBlockDeviceSet_ok {snapshot : StorageSnapshot}
    {devices : List ObservedBlockDevice}
    (h : completeObservedBlockDeviceSet snapshot = .ok devices) :
    ∃ inventory, snapshot.observations = some inventory ∧ Accepted inventory ∧
      devices = (inventory.filter fun o => o.kind = .block).map observedDevice := by
  simp only [completeObservedBlockDeviceSet, bind_ok, refuseIf_ok, not_or, pure, Except.pure,
    Except.ok.injEq] at h
  obtain ⟨_, ⟨-, -, -, -, -, -, -, -, hnil, -, -⟩, acc, hcollect, _, hrel, _, htop, rfl⟩ := h
  obtain ⟨inventory, hinv⟩ := Option.ne_none_iff_exists'.mp hnil
  simp only [hinv, Slice.items_some] at hcollect hrel htop
  have hc := collect_ok hcollect
  refine ⟨inventory, hinv, ⟨hc.nodes, hc.ordered, hc.numbers, ?_, ?_⟩, hc.devices⟩
  · intro o ho
    exact checkRelations_ok (forEach_ok.mp hrel o ho)
  · intro o ho
    exact topology_acc (refusedAs_ok.mp htop) ho

namespace Accepted

variable {inventory : List BlockObservation} (h : Accepted inventory)
include h

theorem eq_of_name {a b : BlockObservation} (ha : a ∈ inventory) (hb : b ∈ inventory)
    (hn : a.name = b.name) : a = b :=
  eq_of_pairwise h.ordered ha hb (by rw [hn]; exact List.lt_irrefl _)
    (by rw [hn]; exact List.lt_irrefl _)

variable {o : BlockObservation}

theorem byName_mem (ho : o ∈ inventory) :
    byName inventory o.name = some o := by
  cases hb : byName inventory o.name with
  | none =>
    have hnone := List.find?_eq_none.mp hb o (List.mem_reverse.mpr ho)
    simp at hnone
  | some o' =>
    obtain ⟨ho', hn⟩ := byName_some hb
    rw [h.eq_of_name ho' ho hn]

theorem closed (ho : o ∈ inventory) {name : Bytes} (hname : name ∈ dependencies o) :
    ∃ y ∈ inventory, y.name = name ∧ Edge inventory o y := by
  rcases mem_dependencies.mp hname with ⟨hk, rfl⟩ | ⟨r, hr, rfl⟩
  · obtain ⟨p, hp, -⟩ := (h.relations o ho).parent hk
    obtain ⟨hmem, hn⟩ := byName_some hp
    exact ⟨p, hmem, hn, hmem, .inl ⟨hk, hn⟩⟩
  · obtain ⟨lower, hl, -⟩ := (h.relations o ho).lowers r hr
    obtain ⟨hmem, hn⟩ := byName_some hl
    exact ⟨lower, hmem, hn, hmem, .inr ⟨r, hr, hn⟩⟩

theorem edge_acc (ho : o ∈ inventory) :
    Acc (Function.swap (Edge inventory)) o := by
  have hacc := InvImage.accessible BlockObservation.name (h.acc o ho)
  -- along a chain of accessible names, every observation met is a node of the inventory
  generalize hx : o = x at hacc ho
  clear hx
  induction hacc with
  | intro x _ ih =>
    constructor
    intro y hxy
    refine ih y ?_ hxy.1
    exact (topology_edge (h.byName_mem ho)).mpr (mem_dependencies.mpr hxy.2)

theorem acyclic (ho : o ∈ inventory) :
    ¬Relation.TransGen (Edge inventory) o o :=
  no_cycle_of_acc (h.edge_acc ho)

end Accepted

end BlockTopology
