import PhantoWD.MdSuperblock
import PhantoWD.ServicePreview

/-!
The superblocks found on a set of disks are grouped by the identity of their array, and every
group is compared with its first member. The order of the disks shows in the verdict when
members disagree on the number of RAID disks, since the first member's number also bounds the
roles that are looked at.
-/
namespace MdArrays

open GoText KeyedLists MdSuperblock
open ServicePreview (Sorter)

def maxComponentEvidence : Nat := 512
def maxComponentDiskIndex : Nat := 4
def maxComponentPartition : Nat := 128
def arrayFingerprintByteCount : Nat := 32

inductive ArrayComparisonStatus where
  | metadataConsistent
  | incomplete
  | divergentEvents
  | conflicting
  | ambiguous
  deriving DecidableEq

structure ComponentEvidence where
  diskIndex : Nat
  partitionNumber : Nat
  observation : Observation
  deriving DecidableEq

structure ArrayComparison where
  arrayIdentityFingerprint : Bytes
  status : ArrayComparisonStatus
  arrayLevel : Int
  arrayLayout : Nat
  arraySizeSectors : Nat
  chunkSizeSectors : Nat
  componentDataSectors : Nat
  raidDisks : Nat
  maxDevices : Nat
  observedActiveRoles : Nat
  memberCount : Nat
  missingActiveRoles : List Nat
  deriving DecidableEq

structure SetComparison where
  candidateComponents : Nat
  unqualifiedComponents : Nat
  unidentifiedCandidateComponents : Nat
  arrays : List ArrayComparison
  deriving DecidableEq

def hexValue (b : UInt8) : Option Nat :=
  if 0x30 ≤ b.toNat ∧ b.toNat ≤ 0x39 then some (b.toNat - 0x30)
  else if 0x61 ≤ b.toNat ∧ b.toNat ≤ 0x66 then some (b.toNat - 0x57)
  else if 0x41 ≤ b.toNat ∧ b.toNat ≤ 0x46 then some (b.toNat - 0x37)
  else none

def hexDecode : Bytes → Option Bytes
  | [] => some []
  | [_] => none
  | a :: b :: rest => do
    let high ← hexValue a
    let low ← hexValue b
    let decoded ← hexDecode rest
    some ((16 * high + low).toUInt8 :: decoded)

def validFingerprint (value : Bytes) : Bool :=
  value.length == arrayFingerprintByteCount * 2 &&
    match hexDecode value with
    | none => false
    | some decoded => decoded.length == arrayFingerprintByteCount && hexEncode decoded == value

def validComponentObservation (o : Observation) : Bool :=
  if o.status ≠ .candidate ∨ o.metadataVersion ≠ "1.0" ∨ o.metadataRead = false ∨
      o.superblockChecksumStatus ≠ .valid ∨ o.featureMap ≠ 0 ∨
      (o.arrayIdentityFingerprint ≠ [] ∧ validFingerprint o.arrayIdentityFingerprint = false) ∨
      o.maxDevices = 0 ∨ mdV1MaxDevices < o.maxDevices ∨ o.raidDisks = 0 ∨
      o.maxDevices < o.raidDisks ∨ o.maxDevices ≤ o.memberNumber ∨ o.arraySizeSectors = 0 ∨
      o.componentDataSectors = 0 ∨ validFingerprint o.memberIdentityFingerprint = false then false
  else if o.memberRole < o.raidDisks % 2 ^ 16 then o.memberRoleDescription == some .activeSlot
  else if o.memberRole = mdV1RoleSpare then o.memberRoleDescription == some .spare
  else if o.memberRole = mdV1RoleFaulty then o.memberRoleDescription == some .faulty
  else if o.memberRole = mdV1RoleJournal then o.memberRoleDescription == some .journal
  else false

structure Tally where
  activeRoles : List Nat := []
  memberNumbers : List Nat := []
  memberIdentities : List Bytes := []
  duplicate : Bool := false
  conflicting : Bool := false
  divergent : Bool := false

def conflicts (first current : Observation) : Prop :=
  current.arrayLevel ≠ first.arrayLevel ∨ current.arrayLayout ≠ first.arrayLayout ∨
    current.arraySizeSectors ≠ first.arraySizeSectors ∨
    current.chunkSizeSectors ≠ first.chunkSizeSectors ∨
    current.componentDataSectors ≠ first.componentDataSectors ∨
    current.raidDisks ≠ first.raidDisks ∨ current.maxDevices ≠ first.maxDevices ∨
    current.featureMap ≠ first.featureMap

instance (first current : Observation) : Decidable (conflicts first current) := by
  unfold conflicts
  infer_instance

def activeBelow (bound : Nat) (o : Observation) : Bool :=
  o.memberRoleDescription == some .activeSlot && o.memberRole < bound

def compareMember (first : Observation) (t : Tally) (current : Observation) : Tally where
  conflicting := t.conflicting || conflicts first current
  divergent := t.divergent || current.events != first.events
  duplicate := t.duplicate || t.memberNumbers.contains current.memberNumber ||
    (current.memberIdentityFingerprint != [] &&
      t.memberIdentities.contains current.memberIdentityFingerprint) ||
    (activeBelow first.raidDisks current && t.activeRoles.contains current.memberRole)
  memberNumbers := t.memberNumbers ++ [current.memberNumber]
  memberIdentities := t.memberIdentities ++
    if current.memberIdentityFingerprint != [] then [current.memberIdentityFingerprint] else []
  activeRoles := t.activeRoles ++
    if activeBelow first.raidDisks current then [current.memberRole] else []

def tally (first : Observation) (members : List Observation) : Tally :=
  members.foldl (compareMember first) {}

def missingRoles (t : Tally) (raidDisks : Nat) : List Nat :=
  (List.range raidDisks).filter fun role => !t.activeRoles.contains role

def verdict (t : Tally) (missing : List Nat) : ArrayComparisonStatus :=
  if t.duplicate then .ambiguous
  else if t.conflicting then .conflicting
  else if t.divergent then .divergentEvents
  else if missing.length ≠ 0 then .incomplete
  else .metadataConsistent

def compareArray (identity : Bytes) (first : Observation) (members : List Observation) :
    ArrayComparison :=
  let t := tally first members
  { arrayIdentityFingerprint := identity
    status := verdict t (missingRoles t first.raidDisks)
    arrayLevel := first.arrayLevel
    arrayLayout := first.arrayLayout
    arraySizeSectors := first.arraySizeSectors
    chunkSizeSectors := first.chunkSizeSectors
    componentDataSectors := first.componentDataSectors
    raidDisks := first.raidDisks
    maxDevices := first.maxDevices
    observedActiveRoles :=
      ((List.range first.raidDisks).filter fun role => t.activeRoles.contains role).length
    memberCount := members.length
    missingActiveRoles := missingRoles t first.raidDisks }

/-- The loop over the evidence. The groups are kept as one list: a group is what has its
identity. -/
structure Scan where
  locations : List (Nat × Nat) := []
  candidates : Nat := 0
  unqualified : Nat := 0
  unidentified : Nat := 0
  grouped : List Observation := []

def located (c : ComponentEvidence) : Bool :=
  c.diskIndex != 0 && c.diskIndex ≤ maxComponentDiskIndex && c.partitionNumber != 0 &&
    c.partitionNumber ≤ maxComponentPartition

def ComponentEvidence.location (c : ComponentEvidence) : Nat × Nat :=
  (c.diskIndex, c.partitionNumber)

def qualified (c : ComponentEvidence) : Bool :=
  c.observation.partitionNumber == c.partitionNumber && validComponentObservation c.observation

def identified (o : Observation) : Bool := validFingerprint o.arrayIdentityFingerprint

def scan (s : Scan) : List ComponentEvidence → Option Scan
  | [] => some s
  | c :: rest =>
    if located c = false then none
    else if s.locations.contains c.location then none
    else
      let s := { s with locations := c.location :: s.locations }
      if qualified c = false then scan { s with unqualified := s.unqualified + 1 } rest
      else if identified c.observation = false then
        scan { s with candidates := s.candidates + 1, unidentified := s.unidentified + 1 } rest
      else
        scan { s with candidates := s.candidates + 1, grouped := s.grouped ++ [c.observation] } rest

def group (grouped : List Observation) (identity : Bytes) : List Observation :=
  grouped.filter fun o => o.arrayIdentityFingerprint = identity

/-- `CompareComponents`; `none` is `ErrInvalidComponentSet`. -/
def compareComponents (s : Sorter) (components : List ComponentEvidence) : Option SetComparison :=
  if maxComponentEvidence < components.length then none
  else
    match scan {} components with
    | none => none
    | some found =>
      let identities := (found.grouped.map fun o => o.arrayIdentityFingerprint).dedup
      some {
        candidateComponents := found.candidates
        unqualifiedComponents := found.unqualified
        unidentifiedCandidateComponents := found.unidentified
        arrays := (s.strings identities).filterMap fun identity =>
          (group found.grouped identity).head?.map fun first =>
            compareArray identity first (group found.grouped identity) }

def rolesBelow (bound : Nat) (members : List Observation) : List Nat :=
  (members.filter (activeBelow bound)).map fun o => o.memberRole

def namedIdentities (members : List Observation) : List Bytes :=
  (members.map fun o => o.memberIdentityFingerprint).filter (· ≠ [])

structure Tallied (first : Observation) (members : List Observation) (t : Tally) : Prop where
  numbers : t.memberNumbers = members.map fun o => o.memberNumber
  identities : t.memberIdentities = namedIdentities members
  roles : t.activeRoles = rolesBelow first.raidDisks members
  conflicting : t.conflicting = true ↔ ∃ m ∈ members, conflicts first m
  divergent : t.divergent = true ↔ ∃ m ∈ members, m.events ≠ first.events
  duplicate : t.duplicate = true ↔ ¬ (t.memberNumbers.Nodup ∧ t.memberIdentities.Nodup ∧
    t.activeRoles.Nodup)

theorem nodup_snoc {α : Type} {l : List α} {a : α} : (l ++ [a]).Nodup ↔ l.Nodup ∧ a ∉ l := by
  rw [List.nodup_append_comm, List.singleton_append, List.nodup_cons, and_comm]

theorem exists_mem_snoc {α : Type} {P : α → Prop} {l : List α} {a : α} :
    (∃ x ∈ l ++ [a], P x) ↔ (∃ x ∈ l, P x) ∨ P a := by
  simp [or_and_right, exists_or]

theorem Tallied.step {first : Observation} {members : List Observation} {t : Tally}
    (h : Tallied first members t) (m : Observation) :
    Tallied first (members ++ [m]) (compareMember first t m) := by
  constructor
  · simp [compareMember, h.numbers]
  · rw [compareMember, h.identities, namedIdentities, namedIdentities]
    by_cases hname : m.memberIdentityFingerprint = []
    · simp [hname]
    · simp [hname]
  · rw [compareMember, h.roles, rolesBelow, rolesBelow]
    by_cases hactive : activeBelow first.raidDisks m = true
    · simp [hactive]
    · simp [hactive]
  · simp only [compareMember, Bool.or_eq_true, decide_eq_true_eq, exists_mem_snoc, h.conflicting]
  · simp only [compareMember, Bool.or_eq_true, bne_iff_ne, exists_mem_snoc, h.divergent]
  · have hduplicate := h.duplicate
    simp only [compareMember, nodup_snoc, Bool.or_eq_true, Bool.and_eq_true, bne_iff_ne,
      List.contains_eq_mem, decide_eq_true_eq, hduplicate]
    by_cases hname : m.memberIdentityFingerprint = [] <;>
      by_cases hactive : activeBelow first.raidDisks m = true <;>
      simp [hname, hactive, nodup_snoc] <;> tauto

theorem tallied (first : Observation) (members : List Observation) :
    Tallied first members (tally first members) := by
  induction members using List.reverseRecOn with
  | nil => exact ⟨rfl, rfl, rfl, by simp [tally], by simp [tally], by simp [tally]⟩
  | append_singleton members m ih =>
    have hstep : tally first (members ++ [m]) = compareMember first (tally first members) m := by
      rw [tally, List.foldl_append]
      rfl
    rw [hstep]
    exact ih.step m

def Repeats (members : List Observation) : Prop :=
  ¬ ((members.map fun o => o.memberNumber).Nodup ∧
    (members.map fun o => o.memberIdentityFingerprint).Nodup)

def SharedBelow (bound : Nat) (members : List Observation) : Prop :=
  ¬ (rolesBelow bound members).Nodup

structure Valid (o : Observation) : Prop where
  featureMap : o.featureMap = 0
  named : o.memberIdentityFingerprint ≠ []
  active : o.memberRoleDescription = some .activeSlot → o.memberRole < o.raidDisks

theorem valid_of_observation {o : Observation} (h : validComponentObservation o = true) :
    Valid o := by
  rw [validComponentObservation] at h
  split_ifs at h with hfields hactive hspare hfaulty hjournal
  all_goals
    simp only [not_or, not_and, Decidable.not_not, Bool.not_eq_false] at hfields
    obtain ⟨-, -, -, -, hfeature, -, -, -, -, -, -, -, -, hidentity⟩ := hfields
    refine ⟨hfeature, ?_, fun hrole => ?_⟩
    · intro hnil
      rw [hnil] at hidentity
      exact absurd hidentity (by decide)
  · exact Nat.lt_of_lt_of_le hactive (Nat.mod_le _ _)
  all_goals
    rw [hrole] at h
    exact absurd h (by decide)

theorem not_conflicts {x y : Observation} (h : ¬ conflicts x y) :
    y.arrayLevel = x.arrayLevel ∧ y.arrayLayout = x.arrayLayout ∧
      y.arraySizeSectors = x.arraySizeSectors ∧ y.chunkSizeSectors = x.chunkSizeSectors ∧
      y.componentDataSectors = x.componentDataSectors ∧ y.raidDisks = x.raidDisks ∧
      y.maxDevices = x.maxDevices ∧ y.featureMap = x.featureMap := by
  simpa only [conflicts, not_or, ne_eq, Decidable.not_not] using h

theorem not_conflicts_trans {x y z : Observation} (hy : ¬ conflicts x y) (hz : ¬ conflicts x z) :
    ¬ conflicts y z := by
  obtain ⟨h1, h2, h3, h4, h5, h6, h7, h8⟩ := not_conflicts hy
  obtain ⟨k1, k2, k3, k4, k5, k6, k7, k8⟩ := not_conflicts hz
  simp only [conflicts, not_or, ne_eq, Decidable.not_not]
  exact ⟨k1.trans h1.symm, k2.trans h2.symm, k3.trans h3.symm, k4.trans h4.symm,
    k5.trans h5.symm, k6.trans h6.symm, k7.trans h7.symm, k8.trans h8.symm⟩

section Group

variable {first first' : Observation} {members members' : List Observation}

theorem namedIdentities_eq (h : ∀ m ∈ members, Valid m) :
    namedIdentities members = members.map fun o => o.memberIdentityFingerprint := by
  rw [namedIdentities, List.filter_eq_self, List.forall_mem_map]
  intro m hm
  simpa using (h m hm).named

theorem duplicate_iff (h : ∀ m ∈ members, Valid m) :
    (tally first members).duplicate = true ↔
      Repeats members ∨ SharedBelow first.raidDisks members := by
  have ht := tallied first members
  rw [ht.duplicate, ht.numbers, ht.identities, ht.roles, namedIdentities_eq h, Repeats,
    SharedBelow]
  tauto

theorem Repeats.perm (hp : members.Perm members') : Repeats members ↔ Repeats members' := by
  rw [Repeats, Repeats, (hp.map _).nodup_iff, (hp.map _).nodup_iff]

theorem rolesBelow_perm (bound : Nat) (hp : members.Perm members') :
    (rolesBelow bound members).Perm (rolesBelow bound members') :=
  (hp.filter _).map _

theorem SharedBelow.perm {bound : Nat} (hp : members.Perm members') :
    SharedBelow bound members ↔ SharedBelow bound members' := by
  rw [SharedBelow, SharedBelow, (rolesBelow_perm bound hp).nodup_iff]

theorem conflicts_perm (hp : members.Perm members') (hf : first' ∈ members)
    (h : ∃ m ∈ members', conflicts first' m) : ∃ m ∈ members, conflicts first m := by
  by_contra hnone
  push Not at hnone
  obtain ⟨m, hm, hconflict⟩ := h
  exact not_conflicts_trans (hnone first' hf) (hnone m (hp.mem_iff.mpr hm)) hconflict

theorem divergent_perm (hp : members.Perm members') (hf : first' ∈ members)
    (h : ∃ m ∈ members', m.events ≠ first'.events) : ∃ m ∈ members, m.events ≠ first.events := by
  by_contra hnone
  push Not at hnone
  obtain ⟨m, hm, hdiffers⟩ := h
  exact hdiffers ((hnone m (hp.mem_iff.mpr hm)).trans (hnone first' hf).symm)

theorem missingRoles_congr (hp : members.Perm members')
    (hdisks : first.raidDisks = first'.raidDisks) :
    missingRoles (tally first members) first.raidDisks =
      missingRoles (tally first' members') first'.raidDisks := by
  rw [missingRoles, missingRoles, (tallied first members).roles, (tallied first' members').roles,
    hdisks]
  refine List.filter_congr fun role _ => ?_
  simp only [List.contains_eq_mem, (rolesBelow_perm _ hp).mem_iff]

theorem status_congr (hp : members.Perm members') (hf : first ∈ members) (hf' : first' ∈ members)
    (hvalid : ∀ m ∈ members, Valid m)
    (hroles : Repeats members ∨
      (SharedBelow first.raidDisks members ↔ SharedBelow first'.raidDisks members)) :
    verdict (tally first members) (missingRoles (tally first members) first.raidDisks) =
      verdict (tally first' members') (missingRoles (tally first' members') first'.raidDisks) := by
  have hvalid' : ∀ m ∈ members', Valid m := fun m hm => hvalid m (hp.mem_iff.mpr hm)
  have hduplicate : (tally first members).duplicate = (tally first' members').duplicate := by
    rw [Bool.eq_iff_iff, duplicate_iff hvalid, duplicate_iff hvalid', ← Repeats.perm hp,
      ← SharedBelow.perm hp]
    rcases hroles with hrepeats | hshared
    · simp [hrepeats]
    · rw [hshared]
  have ht := tallied first members
  have ht' := tallied first' members'
  have hconflicting : (tally first members).conflicting = (tally first' members').conflicting := by
    rw [Bool.eq_iff_iff, ht.conflicting, ht'.conflicting]
    exact ⟨conflicts_perm hp.symm (hp.mem_iff.mp hf), conflicts_perm hp hf'⟩
  have hdivergent : (tally first members).divergent = (tally first' members').divergent := by
    rw [Bool.eq_iff_iff, ht.divergent, ht'.divergent]
    exact ⟨divergent_perm hp.symm (hp.mem_iff.mp hf), divergent_perm hp hf'⟩
  simp only [verdict, hduplicate, hconflicting, hdivergent]
  by_cases hconflict : (tally first' members').conflicting = true
  · simp [hconflict]
  · -- only members that agree get to the missing roles
    have hagree : ¬ conflicts first first' := by
      intro hbad
      rw [← hconflicting] at hconflict
      exact hconflict (ht.conflicting.mpr ⟨first', hf', hbad⟩)
    obtain ⟨-, -, -, -, -, hdisks, -⟩ := not_conflicts hagree
    rw [missingRoles_congr hp hdisks.symm]

structure Agreeing (members : List Observation) : Prop where
  geometry : ∀ x ∈ members, ∀ y ∈ members, x.arrayLevel = y.arrayLevel ∧
    x.arrayLayout = y.arrayLayout ∧ x.arraySizeSectors = y.arraySizeSectors ∧
    x.chunkSizeSectors = y.chunkSizeSectors ∧ x.componentDataSectors = y.componentDataSectors ∧
    x.raidDisks = y.raidDisks ∧ x.maxDevices = y.maxDevices ∧ x.events = y.events
  numbers : (members.map fun o => o.memberNumber).Nodup
  identities : (members.map fun o => o.memberIdentityFingerprint).Nodup
  roles : ((members.filter fun o => o.memberRoleDescription = some .activeSlot).map
    fun o => o.memberRole).Nodup
  present : ∀ m ∈ members, ∀ role < m.raidDisks,
    ∃ x ∈ members, x.memberRoleDescription = some .activeSlot ∧ x.memberRole = role

theorem rolesBelow_all {bound : Nat} (hvalid : ∀ m ∈ members, Valid m)
    (hbound : ∀ m ∈ members, m.raidDisks = bound) :
    rolesBelow bound members = (members.filter fun o =>
      o.memberRoleDescription = some .activeSlot).map fun o => o.memberRole := by
  rw [rolesBelow, List.filter_congr]
  intro m hm
  rw [activeBelow, Bool.eq_iff_iff, Bool.and_eq_true, beq_iff_eq, decide_eq_true_eq,
    decide_eq_true_eq, and_iff_left_iff_imp]
  exact fun hactive => hbound m hm ▸ (hvalid m hm).active hactive

/-- The verdict of consistency is agreement of all pairs of members. -/
theorem status_consistent_iff (hf : first ∈ members) (hvalid : ∀ m ∈ members, Valid m) :
    verdict (tally first members) (missingRoles (tally first members) first.raidDisks) =
      .metadataConsistent ↔ Agreeing members := by
  have ht := tallied first members
  have hverdict : verdict (tally first members)
      (missingRoles (tally first members) first.raidDisks) = .metadataConsistent ↔
      ¬ (tally first members).duplicate = true ∧ ¬ (tally first members).conflicting = true ∧
        ¬ (tally first members).divergent = true ∧
        missingRoles (tally first members) first.raidDisks = [] := by
    rw [verdict]
    split_ifs with hd hc he hm
    · simp [hd]
    · simp [hc]
    · simp [he]
    · simp [List.length_eq_zero_iff.not.mp hm]
    · simpa [hd, hc, he] using hm
  rw [hverdict, duplicate_iff hvalid, ht.conflicting, ht.divergent]
  constructor
  · rintro ⟨hduplicate, hconflict, hdiverge, hmissing⟩
    push Not at hconflict hdiverge
    have hdisks : ∀ m ∈ members, m.raidDisks = first.raidDisks :=
      fun m hm => (not_conflicts (hconflict m hm)).2.2.2.2.2.1
    rw [Repeats, SharedBelow, not_or, Decidable.not_not, Decidable.not_not,
      rolesBelow_all hvalid hdisks] at hduplicate
    refine ⟨fun x hx y hy => ?_, hduplicate.1.1, hduplicate.1.2, hduplicate.2,
      fun m hm role hrole => ?_⟩
    · obtain ⟨h1, h2, h3, h4, h5, h6, h7, -⟩ := not_conflicts (hconflict x hx)
      obtain ⟨k1, k2, k3, k4, k5, k6, k7, -⟩ := not_conflicts (hconflict y hy)
      exact ⟨h1.trans k1.symm, h2.trans k2.symm, h3.trans k3.symm, h4.trans k4.symm,
        h5.trans k5.symm, h6.trans k6.symm, h7.trans k7.symm,
        (hdiverge x hx).trans (hdiverge y hy).symm⟩
    · rw [missingRoles, List.filter_eq_nil_iff] at hmissing
      have hseen := hmissing role (List.mem_range.mpr (hdisks m hm ▸ hrole))
      simp only [ht.roles, rolesBelow_all hvalid hdisks, List.contains_eq_mem, Bool.not_eq_true',
        decide_eq_false_iff_not, Decidable.not_not] at hseen
      obtain ⟨x, hx, hxrole⟩ := List.mem_map.mp hseen
      obtain ⟨hx, hactive⟩ := List.mem_filter.mp hx
      exact ⟨x, hx, by simpa using hactive, hxrole⟩
  · intro h
    have hdisks : ∀ m ∈ members, m.raidDisks = first.raidDisks :=
      fun m hm => (h.geometry m hm first hf).2.2.2.2.2.1
    refine ⟨?_, ?_, ?_, ?_⟩
    · rw [Repeats, SharedBelow, not_or, Decidable.not_not, Decidable.not_not,
        rolesBelow_all hvalid hdisks]
      exact ⟨⟨h.numbers, h.identities⟩, h.roles⟩
    · rintro ⟨m, hm, hconflict⟩
      obtain ⟨h1, h2, h3, h4, h5, h6, h7, -⟩ := h.geometry m hm first hf
      have hfeature := (hvalid m hm).featureMap.trans (hvalid first hf).featureMap.symm
      simp [conflicts, h1, h2, h3, h4, h5, h6, h7, hfeature] at hconflict
    · rintro ⟨m, hm, hdiffers⟩
      exact hdiffers (h.geometry m hm first hf).2.2.2.2.2.2.2
    · rw [missingRoles, List.filter_eq_nil_iff]
      intro role hrole
      obtain ⟨x, hx, hactive, hxrole⟩ := h.present first hf role (List.mem_range.mp hrole)
      simp only [ht.roles, rolesBelow_all hvalid hdisks, List.contains_eq_mem, Bool.not_eq_true',
        decide_eq_false_iff_not, Decidable.not_not]
      exact List.mem_map.mpr ⟨x, List.mem_filter.mpr ⟨hx, by simpa using hactive⟩, hxrole⟩

end Group

structure Placed (components : List ComponentEvidence) : Prop where
  few : components.length ≤ maxComponentEvidence
  located : ∀ c ∈ components, located c = true
  apart : (components.map ComponentEvidence.location).Nodup

def candidatesOf (components : List ComponentEvidence) : List Observation :=
  (components.filter qualified).map fun c => c.observation

def groupedOf (components : List ComponentEvidence) : List Observation :=
  (candidatesOf components).filter identified

def members (components : List ComponentEvidence) (identity : Bytes) : List Observation :=
  group (groupedOf components) identity

variable {components : List ComponentEvidence}

theorem scan_located {s t : Scan} (h : scan s components = some t) :
    (∀ c ∈ components, located c = true) ∧
      Fresh ComponentEvidence.location s.locations components := by
  induction components generalizing s with
  | nil => exact ⟨by simp, fresh_nil⟩
  | cons c rest ih =>
    rw [scan] at h
    rw [List.forall_mem_cons, fresh_cons]
    split_ifs at h with hlocated hseen
    all_goals
      have hnew : c.location ∉ s.locations := by simpa using hseen
      obtain ⟨hall, hfresh⟩ := ih h
      exact ⟨⟨by simpa using hlocated, hall⟩, hnew, hfresh⟩

/-- The counts and groups that the loop leaves. -/
theorem scan_some {s : Scan} (hlocated : ∀ c ∈ components, located c = true)
    (hfresh : Fresh ComponentEvidence.location s.locations components) :
    ∃ t, scan s components = some t ∧
      t.candidates = s.candidates + (candidatesOf components).length ∧
      t.unqualified = s.unqualified + (components.filter fun c => !qualified c).length ∧
      t.unidentified = s.unidentified +
        ((candidatesOf components).filter fun o => !identified o).length ∧
      t.grouped = s.grouped ++ groupedOf components := by
  induction components generalizing s with
  | nil => exact ⟨s, rfl, rfl, rfl, rfl, (List.append_nil _).symm⟩
  | cons c rest ih =>
    rw [List.forall_mem_cons] at hlocated
    rw [fresh_cons] at hfresh
    rw [scan, if_neg (by simp [hlocated.1]), if_neg (by simpa using hfresh.1)]
    by_cases hqualified : qualified c = true
    · rw [if_neg (by simp [hqualified])]
      by_cases hidentified : identified c.observation = true
      · rw [if_neg (by simp [hidentified])]
        obtain ⟨t, ht, h1, h2, h3, h4⟩ := ih (s := { s with
          locations := c.location :: s.locations
          candidates := s.candidates + 1
          grouped := s.grouped ++ [c.observation] }) hlocated.2 hfresh.2
        refine ⟨t, ht, ?_, ?_, ?_, ?_⟩
        · simp [h1, candidatesOf, hqualified]
          omega
        · simp [h2, hqualified]
        · simp [h3, candidatesOf, hqualified, hidentified]
        · simp [h4, groupedOf, candidatesOf, hqualified, hidentified]
      · rw [if_pos (by simpa using hidentified)]
        obtain ⟨t, ht, h1, h2, h3, h4⟩ := ih (s := { s with
          locations := c.location :: s.locations
          candidates := s.candidates + 1
          unidentified := s.unidentified + 1 }) hlocated.2 hfresh.2
        refine ⟨t, ht, ?_, ?_, ?_, ?_⟩
        · simp [h1, candidatesOf, hqualified]
          omega
        · simp [h2, hqualified]
        · simp [h3, candidatesOf, hqualified, hidentified]
          omega
        · simp [h4, groupedOf, candidatesOf, hqualified, hidentified]
    · rw [if_pos (by simpa using hqualified)]
      obtain ⟨t, ht, h1, h2, h3, h4⟩ := ih (s := { s with
        locations := c.location :: s.locations
        unqualified := s.unqualified + 1 }) hlocated.2 hfresh.2
      refine ⟨t, ht, ?_, ?_, ?_, ?_⟩
      · simp [h1, candidatesOf, hqualified]
      · simp [h2, hqualified]
        omega
      · simp [h3, candidatesOf, hqualified]
      · simp [h4, groupedOf, candidatesOf, hqualified]

def summary (s : Sorter) (components : List ComponentEvidence) : SetComparison where
  candidateComponents := (candidatesOf components).length
  unqualifiedComponents := (components.filter fun c => !qualified c).length
  unidentifiedCandidateComponents :=
    ((candidatesOf components).filter fun o => !identified o).length
  arrays := (s.strings ((groupedOf components).map fun o =>
    o.arrayIdentityFingerprint).dedup).filterMap fun identity =>
      (members components identity).head?.map fun first =>
        compareArray identity first (members components identity)

theorem compareComponents_placed {s : Sorter} (h : Placed components) :
    compareComponents s components = some (summary s components) := by
  obtain ⟨t, ht, h1, h2, h3, h4⟩ :=
    @scan_some components {} h.located (fresh_start.mpr h.apart)
  rw [compareComponents, if_neg (Nat.not_lt.mpr h.few), ht]
  simp only [h1, h2, h3, h4, Nat.zero_add, List.nil_append]
  rfl

theorem placed_of_compare {s : Sorter} {c : SetComparison}
    (h : compareComponents s components = some c) : Placed components := by
  rw [compareComponents] at h
  split_ifs at h with hmany
  cases hscan : scan {} components with
  | none => simp [hscan] at h
  | some t =>
    obtain ⟨hlocated, hfresh⟩ := scan_located hscan
    exact ⟨Nat.not_lt.mp hmany, hlocated, fresh_start.mp hfresh⟩

section Order

variable {s s' : Sorter} {components order : List ComponentEvidence} {identity : Bytes}

theorem Placed.perm (hp : order.Perm components) (h : Placed components) : Placed order :=
  ⟨hp.length_eq ▸ h.few, fun c hc => h.located c (hp.mem_iff.mp hc),
    (hp.map _).nodup_iff.mpr h.apart⟩

theorem members_perm (identity : Bytes) (hp : order.Perm components) :
    (members order identity).Perm (members components identity) :=
  (((hp.filter _).map _).filter _).filter _

theorem members_valid : ∀ m ∈ members components identity, Valid m := by
  intro m hm
  have hcandidate := List.mem_of_mem_filter (List.mem_of_mem_filter hm)
  obtain ⟨c, hc, rfl⟩ := List.mem_map.mp hcandidate
  have hqualified := (List.mem_filter.mp hc).2
  rw [qualified, Bool.and_eq_true] at hqualified
  exact valid_of_observation hqualified.2

def Shows (c : SetComparison) (identity : Bytes) (status : ArrayComparisonStatus) : Prop :=
  ∃ a ∈ c.arrays, a.arrayIdentityFingerprint = identity ∧ a.status = status

theorem mem_arrays {a : ArrayComparison} : a ∈ (summary s components).arrays ↔
    ∃ first, (members components a.arrayIdentityFingerprint).head? = some first ∧
      compareArray a.arrayIdentityFingerprint first
        (members components a.arrayIdentityFingerprint) = a := by
  simp only [summary, List.mem_filterMap, Option.map_eq_some_iff]
  constructor
  · rintro ⟨identity, -, first, hfirst, rfl⟩
    exact ⟨first, hfirst, rfl⟩
  · rintro ⟨first, hfirst, ha⟩
    refine ⟨a.arrayIdentityFingerprint, ?_, first, hfirst, ha⟩
    have hmem := List.mem_filter.mp (List.mem_of_mem_head? hfirst)
    rw [Sorter.strings, s.mem_run, List.mem_dedup, List.mem_map]
    exact ⟨first, hmem.1, by simpa using hmem.2⟩

theorem shows_iff {status : ArrayComparisonStatus} :
    Shows (summary s components) identity status ↔
      ∃ first, (members components identity).head? = some first ∧
        (compareArray identity first (members components identity)).status = status := by
  constructor
  · rintro ⟨a, ha, rfl, rfl⟩
    obtain ⟨first, hfirst, heq⟩ := mem_arrays.mp ha
    exact ⟨first, hfirst, by rw [heq]⟩
  · rintro ⟨first, hfirst, hstatus⟩
    exact ⟨_, mem_arrays.mpr ⟨first, hfirst, rfl⟩, rfl, hstatus⟩

/-- Both are refused, or the counts and the status of every array are the same. -/
def Same : Option SetComparison → Option SetComparison → Prop
  | none, none => True
  | some c, some d => c.candidateComponents = d.candidateComponents ∧
      c.unqualifiedComponents = d.unqualifiedComponents ∧
      c.unidentifiedCandidateComponents = d.unidentifiedCandidateComponents ∧
      ∀ identity status, Shows c identity status ↔ Shows d identity status
  | _, _ => False

def OrderFree (components : List ComponentEvidence) : Prop :=
  ∀ s s' order, order.Perm components →
    Same (compareComponents s components) (compareComponents s' order)

def ConsistentExactly (components : List ComponentEvidence) : Prop :=
  ∀ s c, compareComponents s components = some c → ∀ a ∈ c.arrays,
    (a.status = .metadataConsistent ↔ Agreeing (members components a.arrayIdentityFingerprint))

/-- In no array do two members share a role below one member's number of disks and none below
another's. -/
def Uniform (components : List ComponentEvidence) : Prop :=
  ∀ identity, Repeats (members components identity) ∨
    ∀ m ∈ members components identity, ∀ m' ∈ members components identity,
      SharedBelow m.raidDisks (members components identity) →
        SharedBelow m'.raidDisks (members components identity)

theorem same_of_placed (h : Placed components) (hp : order.Perm components) :
    Same (compareComponents s components) (compareComponents s' order) ↔
      ∀ identity status, Shows (summary s components) identity status ↔
        Shows (summary s' order) identity status := by
  have hcandidates : (candidatesOf components).Perm (candidatesOf order) :=
    (hp.symm.filter _).map _
  rw [compareComponents_placed h, compareComponents_placed (h.perm hp)]
  constructor
  · exact fun hsame => hsame.2.2.2
  · exact fun hshows => ⟨hcandidates.length_eq, (hp.symm.filter _).length_eq,
      (hcandidates.filter _).length_eq, hshows⟩

theorem same_of_unplaced (h : ¬ Placed components) (hp : order.Perm components) :
    Same (compareComponents s components) (compareComponents s' order) := by
  have hnone : ∀ {s : Sorter} {l : List ComponentEvidence}, ¬ Placed l →
      compareComponents s l = none := by
    intro s l hl
    by_contra hsome
    obtain ⟨c, hc⟩ := Option.ne_none_iff_exists'.mp hsome
    exact hl (placed_of_compare hc)
  rw [hnone h, hnone fun horder => h (horder.perm hp.symm)]
  trivial

theorem shows_reorder (hp : order.Perm components) (hu : Uniform components)
    {status : ArrayComparisonStatus} (h : Shows (summary s components) identity status) :
    Shows (summary s' order) identity status := by
  obtain ⟨first, hfirst, hstatus⟩ := shows_iff.mp h
  have hmembers := members_perm identity hp
  have hmem := List.mem_of_mem_head? hfirst
  cases hfirst' : (members order identity).head? with
  | none =>
    rw [List.head?_eq_none_iff] at hfirst'
    rw [hfirst', List.nil_perm] at hmembers
    rw [hmembers] at hmem
    cases hmem
  | some first' =>
    have hmem' := hmembers.mem_iff.mp (List.mem_of_mem_head? hfirst')
    refine shows_iff.mpr ⟨first', hfirst', ?_⟩
    rw [← hstatus]
    refine (status_congr hmembers.symm hmem hmem' members_valid ?_).symm
    rcases hu identity with hrepeats | hshared
    · exact .inl hrepeats
    · exact .inr ⟨hshared first hmem first' hmem', hshared first' hmem' first hmem⟩

theorem Uniform.perm (hp : order.Perm components) (hu : Uniform components) : Uniform order := by
  intro identity
  have hmembers := members_perm identity hp
  rcases hu identity with hrepeats | hshared
  · exact .inl ((Repeats.perm hmembers).mpr hrepeats)
  · refine .inr fun m hm m' hm' h => ?_
    rw [SharedBelow.perm hmembers] at h ⊢
    exact hshared m (hmembers.mem_iff.mp hm) m' (hmembers.mem_iff.mp hm') h

theorem exists_order_first {m : Observation} (hm : m ∈ members components identity) :
    ∃ order, order.Perm components ∧ (members order identity).head? = some m := by
  have hgroup := List.mem_filter.mp hm
  have hidentified := List.mem_filter.mp hgroup.1
  obtain ⟨c, hc, rfl⟩ := List.mem_map.mp hidentified.1
  have hqualified := List.mem_filter.mp hc
  refine ⟨c :: components.erase c, (List.perm_cons_erase hqualified.1).symm, ?_⟩
  simp [members, group, groupedOf, candidatesOf, hqualified.2, hidentified.2,
    of_decide_eq_true hgroup.2]

theorem verdict_ambiguous {t : Tally} {missing : List Nat} :
    verdict t missing = .ambiguous ↔ t.duplicate = true := by
  rw [verdict]
  split_ifs with hd hc he hm
  all_goals simp [hd]

theorem uniform_of_orderFree (h : Placed components) (hfree : OrderFree components) :
    Uniform components := by
  intro identity
  by_cases hrepeats : Repeats (members components identity)
  · exact .inl hrepeats
  · refine .inr fun m hm m' hm' hshared => ?_
    obtain ⟨order, hp, hfirst⟩ := exists_order_first hm
    obtain ⟨order', hp', hfirst'⟩ := exists_order_first hm'
    have hmembers := members_perm identity hp
    have hmembers' := members_perm identity hp'
    have hambiguous : Shows (summary .simple order) identity .ambiguous := by
      refine shows_iff.mpr ⟨m, hfirst, verdict_ambiguous.mpr ?_⟩
      exact (duplicate_iff members_valid).mpr (.inr ((SharedBelow.perm hmembers).mpr hshared))
    have hall : Shows (summary .simple order') identity .ambiguous := by
      have hone := (same_of_placed h hp).mp (hfree .simple .simple order hp)
      have htwo := (same_of_placed h hp').mp (hfree .simple .simple order' hp')
      exact (htwo _ _).mp ((hone _ _).mpr hambiguous)
    obtain ⟨first, hhead, hstatus⟩ := shows_iff.mp hall
    rw [hfirst'] at hhead
    obtain rfl := Option.some.inj hhead
    rcases (duplicate_iff members_valid).mp (verdict_ambiguous.mp hstatus) with hbad | hbad
    · exact absurd ((Repeats.perm hmembers').mp hbad) hrepeats
    · exact (SharedBelow.perm hmembers').mp hbad

theorem consistentExactly (components : List ComponentEvidence) :
    ConsistentExactly components := by
  intro s c hc a ha
  rw [compareComponents_placed (placed_of_compare hc)] at hc
  rw [← Option.some.inj hc] at ha
  obtain ⟨first, hfirst, heq⟩ := mem_arrays.mp ha
  have hstatus := status_consistent_iff (List.mem_of_mem_head? hfirst) members_valid
  rw [← hstatus, ← heq]
  rfl

/-- The verdicts do not depend on the order exactly where the shared roles of an array show
under the number of disks of each of its members. -/
theorem comparison_order_free_iff (components : List ComponentEvidence) :
    OrderFree components ∧ ConsistentExactly components ↔
      (Placed components → Uniform components) := by
  constructor
  · exact fun h hplaced => uniform_of_orderFree hplaced h.1
  · refine fun h => ⟨fun s s' order hp => ?_, consistentExactly components⟩
    by_cases hplaced : Placed components
    · rw [same_of_placed hplaced hp]
      intro identity status
      exact ⟨shows_reorder hp (h hplaced), shows_reorder hp.symm ((h hplaced).perm hp)⟩
    · exact same_of_unplaced hplaced hp

end Order

def sampleMember (raidDisks number role : Nat) (name : UInt8) : ComponentEvidence where
  diskIndex := number + 1
  partitionNumber := 1
  observation :=
    { partitionNumber := 1
      status := .candidate
      metadataVersion := "1.0"
      partitionFirstLBA := 2048
      partitionLastLBA := 4095
      arrayLevel := 1
      arraySizeSectors := 1024
      raidDisks := raidDisks
      maxDevices := 128
      memberNumber := number
      memberRole := role
      memberRoleDescription := some .activeSlot
      events := 7
      componentDataSectors := 1024
      superblockChecksumStatus := .valid
      arrayIdentityFingerprint := List.replicate 64 0x61
      memberIdentityFingerprint := List.replicate 64 name
      metadataRead := true }

def sampleComponents : List ComponentEvidence :=
  [sampleMember 2 0 0 0x62, sampleMember 3 1 2 0x63, sampleMember 3 2 2 0x64]

def sampleRotated : List ComponentEvidence :=
  [sampleMember 3 1 2 0x63, sampleMember 3 2 2 0x64, sampleMember 2 0 0 0x62]

def statuses (c : Option SetComparison) : List ArrayComparisonStatus :=
  c.toList.flatMap fun c => c.arrays.map fun a => a.status

theorem mem_statuses {c d : Option SetComparison} (h : Same c d) {status : ArrayComparisonStatus}
    (hs : status ∈ statuses d) : status ∈ statuses c := by
  rcases c with _ | c <;> rcases d with _ | d
  · exact hs
  · exact h.elim
  · exact h.elim
  · have hmem : ∀ {e : SetComparison},
        status ∈ statuses (some e) ↔ ∃ identity, Shows e identity status := by
      simp [statuses, Shows]
    obtain ⟨identity, hshows⟩ := hmem.mp hs
    exact hmem.mpr ⟨identity, (h.2.2.2 identity status).mpr hshows⟩

/-- The shared role shows only when a member that knows of it comes first. -/
theorem rotation_changes_status : sampleRotated.Perm sampleComponents ∧
    statuses (compareComponents .simple sampleComponents) = [.conflicting] ∧
    statuses (compareComponents .simple sampleRotated) = [.ambiguous] ∧
    ¬ OrderFree sampleComponents := by
  have hperm : sampleRotated.Perm sampleComponents := by decide +kernel
  have hlisted : statuses (compareComponents .simple sampleComponents) = [.conflicting] := by
    decide +kernel
  have hrotated : statuses (compareComponents .simple sampleRotated) = [.ambiguous] := by
    decide +kernel
  refine ⟨hperm, hlisted, hrotated, fun hfree => ?_⟩
  have hsame := hfree .simple .simple sampleRotated hperm
  have hmem : ArrayComparisonStatus.ambiguous ∈
      statuses (compareComponents .simple sampleComponents) :=
    mem_statuses hsame (by rw [hrotated]; simp)
  rw [hlisted] at hmem
  exact absurd hmem (by decide)

end MdArrays
