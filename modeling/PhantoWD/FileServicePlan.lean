import PhantoWD.IdentityEvidence

/-!
A combined policy is compiled against one identity snapshot and one storage snapshot. Go visits
a map in any order and sorts without a promise for equal keys; the plan is shown not to depend
on either.
-/
namespace FileServicePlan

open GoText ShareConfig KeyedLists PolicyOrder ServicePreview SambaLookup StorageEvidence
open IdentityEvidence Checks
open ServiceAccounts (Account AccountState Registry)
open NfsConfig (Netip Client Export Policy ExportGood PolicySound policy_validate_iff)

structure Runtime where
  sort : Sorter
  visit : List Bytes → List Bytes
  visit_perm : ∀ l, (visit l).Perm l

def Runtime.simple : Runtime := ⟨.simple, id, fun _ => .refl _⟩

structure Freshness where
  policyRevision : UInt64
  activeRevision : UInt64
  identityGeneration : UInt64
  identityFingerprint : Digest
  storageGeneration : UInt64
  storageFingerprint : Digest
  deriving DecidableEq

structure VolumeBinding where
  volumeID : Bytes
  filesystemUUID : Bytes
  mountPath : Bytes
  mountID : UInt64
  deviceMajor : UInt32
  deviceMinor : UInt32
  readOnly : Bool
  deriving DecidableEq

structure NFSExportRoot where
  id : Bytes
  volume : VolumeBinding
  relativePath : Bytes
  readOnly : Bool
  clients : List Client
  deriving DecidableEq

structure Plan where
  schemaVersion : Int
  freshness : Freshness
  scope : Bytes
  activationAvailable : Bool
  applied : Bool
  runtimeValidated : Bool
  volumes : List VolumeBinding
  sambaConfig : Bytes
  sambaPolicy : Config
  sambaLookup : LookupDocuments
  sambaManagementNSS : LookupDocuments
  nfsConfig : Bytes
  nfsRoots : List NFSExportRoot
  requirements : List Bytes
  deriving DecidableEq

def rw : Bytes := ascii "rw"

def used (config : FileService.Config) : List Bytes :=
  (config.shares.shares.items.map Share.volumeID ++
    config.nfs.exports.items.map Export.volumeID).dedup

def writes (config : FileService.Config) (id : Bytes) : Bool :=
  (config.shares.shares.items.any fun s => s.volumeID == id &&
    s.grants.items.any fun g => g.access == rw) ||
  config.nfs.exports.items.any fun e => e.volumeID == id &&
    e.clients.items.any fun c => c.access == rw

def desiredVolume (policy : Config) (id : Bytes) : Option Volume :=
  policy.volumes.items.find? fun v => v.id = id

def binding (v : ObservedVolume) : VolumeBinding :=
  ⟨v.volumeID, v.filesystemUUID, v.mountPath, v.mountID, v.deviceMajor, v.deviceMinor, v.readOnly⟩

def bindVolume (config : FileService.Config) (storage : StorageSnapshot) (id : Bytes) :
    Except PlanError VolumeBinding :=
  match lookup ObservedVolume.volumeID storage.volumes.items id with
  | none => .error .notReady
  | some v => do
    refuseIf (v.compatibility ≠ compatibilityQualified) .notReady
    match desiredVolume config.shares id with
    | none => .error .invalidEvidence
    | some expected =>
      refuseIf (v.filesystemUUID ≠ expected.filesystemUUID) .invalidEvidence
      refuseIf (writes config id = true ∧ v.readOnly = true) .notReady
      .ok (binding v)

structure Fit (config : FileService.Config) (storage : StorageSnapshot) (id : Bytes)
    (v : ObservedVolume) : Prop where
  found : lookup ObservedVolume.volumeID storage.volumes.items id = some v
  qualified : v.compatibility = compatibilityQualified
  desired : ∃ d, desiredVolume config.shares id = some d ∧ v.filesystemUUID = d.filesystemUUID
  writable : writes config id = true → v.readOnly = false

theorem bindVolume_iff {config : FileService.Config} {storage : StorageSnapshot} {id : Bytes}
    {b : VolumeBinding} :
    bindVolume config storage id = .ok b ↔ ∃ v, Fit config storage id v ∧ b = binding v := by
  constructor
  · intro h
    rw [bindVolume] at h
    cases hv : lookup ObservedVolume.volumeID storage.volumes.items id with
    | none => simp [hv] at h
    | some v =>
      simp only [hv, bind_unit_ok, refuseIf_ok, not_not] at h
      cases hd : desiredVolume config.shares id with
      | none => simp [hd] at h
      | some d =>
        simp only [hd, bind_unit_ok, refuseIf_ok, not_not, Except.ok.injEq] at h
        obtain ⟨hq, huuid, hw, hb⟩ := h
        exact ⟨v, ⟨hv, hq, ⟨d, hd, huuid⟩, fun hwrites => by simpa [hwrites] using hw⟩, hb.symm⟩
  · rintro ⟨v, ⟨hv, hq, ⟨d, hd, huuid⟩, hw⟩, rfl⟩
    have hwritable : ¬(writes config id = true ∧ v.readOnly = true) := by
      rintro ⟨hwrites, hro⟩
      rw [hw hwrites] at hro
      cases hro
    simp only [bindVolume, hv, bind_unit_ok, refuseIf_ok, not_not, hd, and_true]
    exact ⟨hq, huuid, hwritable⟩

theorem Fit.volumeID {config : FileService.Config} {storage : StorageSnapshot} {id : Bytes}
    {v : ObservedVolume} (h : Fit config storage id v) : v.volumeID = id :=
  (lookup_some h.found).2

def exportRoot (sort : Sorter) (volumes : List VolumeBinding) (e : Export) :
    Except PlanError NFSExportRoot :=
  match volumes.find? fun v => v.volumeID = e.volumeID with
  | none => .error .invalidEvidence
  | some v => .ok ⟨e.id, v, e.relativePath, e.clients.items.all fun c => c.access != rw,
      sortClients sort e⟩

def nfsCandidateRoots (sort : Sorter) (policy : Policy) (volumes : List VolumeBinding) :
    Except PlanError (List NFSExportRoot) := do
  let roots ← collect (exportRoot sort volumes) policy.exports.items
  .ok (sort.run NFSExportRoot.id roots)

def candidateOnly : Bytes := ascii "candidate-only"

def orNotReady {α : Type} : Option α → Except PlanError α
  | none => .error .notReady
  | some a => .ok a

theorem orNotReady_ok {α : Type} {o : Option α} {a : α} : orNotReady o = .ok a ↔ o = some a := by
  cases o <;> simp [orNotReady]

def compiled (sort : Sorter) (sha256 : Bytes → Digest) (config : FileService.Config)
    (activeRevision : UInt64) (identities : IdentitySnapshot) (storage : StorageSnapshot)
    (lookups : LookupDocuments) (volumes : List VolumeBinding) (roots : List NFSExportRoot) :
    Plan where
  schemaVersion := 1
  freshness := ⟨config.revision, activeRevision, identities.generation, identities.fingerprint,
    storage.generation, fingerprintStorageSnapshot sha256 sort storage⟩
  scope := candidateOnly
  activationAvailable := false
  applied := false
  runtimeValidated := false
  volumes := volumes
  sambaConfig := sections sort config.shares
  sambaPolicy := config.shares
  sambaLookup := lookups
  sambaManagementNSS := sambaManagementLookup sort identities.registry identities.unixUIDs.items
    identities.unixGIDs.items
  nfsConfig := table sort config.nfs config.shares
  nfsRoots := roots
  requirements := requirements config.shares config.nfs

def build (r : Runtime) (netip : Netip) (sha256 : Bytes → Digest) (config : FileService.Config)
    (activeRevision : UInt64) (identities : IdentitySnapshot) (storage : StorageSnapshot) :
    Except PlanError Plan := do
  refuseIf (config.validate netip = false) .invalidPolicy
  refuseIf (FileService.build netip config.shares config.nfs ≠ .ok ()) .invalidPolicy
  validateIdentitySnapshot identities
  validateStorageSnapshot storage config.shares
  validateSMBAccounts r.sort config.shares identities
  let lookups ← orNotReady (renderSambaNSS r.sort config.shares identities.registry)
  validateNFSIdentities config.nfs identities
  refuseIf (requiresKerberos config.nfs = true ∧ identities.kerberosReady = false) .notReady
  let bindings ← collect (bindVolume config storage) (r.visit (used config))
  let volumes := r.sort.run VolumeBinding.volumeID bindings
  let roots ← nfsCandidateRoots r.sort config.nfs volumes
  .ok (compiled r.sort sha256 config activeRevision identities storage lookups volumes roots)

def Plan.freshAgainst (p : Plan) (current : Freshness) : Bool :=
  p.scope == candidateOnly && p.freshness == current

structure NFSv3Candidate where
  table : Bytes
  roots : List NFSExportRoot
  freshness : Freshness
  valid : Bool
  deriving DecidableEq

def Plan.nfsv3TCPCandidate (p : Plan) : Except PlanError NFSv3Candidate :=
  if p.scope ≠ candidateOnly then .error .notReady
  else if p.nfsRoots.any fun root => root.clients.any fun c => c.security != ascii "sys" then
    .error .notReady
  else .ok ⟨p.nfsConfig, p.nfsRoots, p.freshness, true⟩

def NFSv3Candidate.freshAgainstStorage (sha256 : Bytes → Digest) (sort : Sorter)
    (c : NFSv3Candidate) (s : StorageSnapshot) : Bool :=
  c.valid && s.complete && 0 < s.generation && s.volumes.isSome &&
    s.volumes.items.length ≤ maxObservedVolumes &&
    c.freshness.storageGeneration == s.generation &&
    c.freshness.storageFingerprint == fingerprintStorageSnapshot sha256 sort s

structure Ready (netip : Netip) (sort : Sorter) (config : FileService.Config)
    (identities : IdentitySnapshot) (storage : StorageSnapshot) (lookups : LookupDocuments) :
    Prop where
  policy : config.validate netip = true
  identified : Identified identities
  observed : Observed storage config.shares
  accounts : ∃ bound, bindShares sort identities.registry config.shares = .ok bound ∧
    ∀ a ∈ bound.accounts, serviceable identities a = true
  lookups : renderSambaNSS sort config.shares identities.registry = some lookups
  anonymous : ∀ e ∈ config.nfs.exports.items, ∀ c ∈ e.clients.items,
    c.anonymousUID.toNat ∈ identities.unixUIDs.items ∧
      c.anonymousGID.toNat ∈ identities.unixGIDs.items
  kerberos : requiresKerberos config.nfs = true → identities.kerberosReady = true
  fit : ∀ id ∈ used config, ∃ v, Fit config storage id v

def bindings (sort : Sorter) (config : FileService.Config) (storage : StorageSnapshot) :
    List VolumeBinding :=
  sort.run VolumeBinding.volumeID
    ((used config).filterMap fun id => (bindVolume config storage id).toOption)

def roots (sort : Sorter) (config : FileService.Config) (storage : StorageSnapshot) :
    List NFSExportRoot :=
  sort.run NFSExportRoot.id (config.nfs.exports.items.filterMap fun e =>
    (exportRoot sort (bindings sort config storage) e).toOption)

section Built

variable {r : Runtime} {netip : Netip} {sha256 : Bytes → Digest} {sort : Sorter}
variable {config : FileService.Config} {active : UInt64} {identities : IdentitySnapshot}
variable {storage : StorageSnapshot} {plan : Plan} {lookups : LookupDocuments}

theorem policy_sound (h : config.validate netip = true) :
    FileService.build netip config.shares config.nfs = .ok () ∧ Sound config.shares ∧
      PolicySound netip config.nfs config.shares := by
  simp only [FileService.Config.validate, Bool.and_eq_true, beq_iff_eq] at h
  obtain ⟨hshares, hnfs⟩ := build_iff.mp h.2
  exact ⟨h.2, (smbBuild_iff.mp hshares).1, hnfs⟩

theorem mem_bindings {b : VolumeBinding} :
    b ∈ bindings sort config storage ↔
      ∃ id ∈ used config, ∃ v, Fit config storage id v ∧ b = binding v := by
  simp only [bindings, sort.mem_run, List.mem_filterMap, toOption_some,
    bindVolume_iff]

theorem bound_ids (hfit : ∀ id ∈ used config, ∃ v, Fit config storage id v) :
    ((used config).filterMap fun id => (bindVolume config storage id).toOption).map
      VolumeBinding.volumeID = used config := by
  generalize used config = ids at hfit
  induction ids with
  | nil => rfl
  | cons id rest ih =>
    rw [List.forall_mem_cons] at hfit
    obtain ⟨⟨v, hv⟩, hrest⟩ := hfit
    rw [List.filterMap_cons, bindVolume_iff.mpr ⟨v, hv, rfl⟩, Except.toOption, List.map_cons,
      ih hrest]
    exact congrArg (· :: rest) hv.volumeID

theorem bindings_ids (hfit : ∀ id ∈ used config, ∃ v, Fit config storage id v) :
    ((bindings sort config storage).map VolumeBinding.volumeID).Perm (used config) := by
  have hperm := (sort.perm VolumeBinding.volumeID
    ((used config).filterMap fun id => (bindVolume config storage id).toOption)).map
      VolumeBinding.volumeID
  rwa [bound_ids hfit] at hperm

theorem used_nodup : (used config).Nodup := List.nodup_dedup _

theorem bindings_nodup (hfit : ∀ id ∈ used config, ∃ v, Fit config storage id v) :
    ((bindings sort config storage).map VolumeBinding.volumeID).Nodup :=
  (bindings_ids hfit).nodup_iff.mpr used_nodup

theorem export_used {e : Export} (he : e ∈ config.nfs.exports.items) : e.volumeID ∈ used config :=
  List.mem_dedup.mpr (List.mem_append_right _ (List.mem_map_of_mem he))

theorem exportRoot_exists (hfit : ∀ id ∈ used config, ∃ v, Fit config storage id v)
    {e : Export} (he : e ∈ config.nfs.exports.items) :
    ∃ root, exportRoot sort (bindings sort config storage) e = .ok root := by
  have hid : e.volumeID ∈ (bindings sort config storage).map VolumeBinding.volumeID :=
    (bindings_ids hfit).mem_iff.mpr (export_used he)
  obtain ⟨b, hb, hbe⟩ := List.mem_map.mp hid
  rw [exportRoot]
  cases hfind : (bindings sort config storage).find? fun v => v.volumeID = e.volumeID with
  | none => simpa [hbe] using List.find?_eq_none.mp hfind b hb
  | some v => exact ⟨_, rfl⟩

/-- A plan is built exactly from inputs that are ready, and is what they say. -/
theorem build_ready_iff :
    build r netip sha256 config active identities storage = .ok plan ↔
      ∃ lookups, Ready netip r.sort config identities storage lookups ∧
        plan = compiled r.sort sha256 config active identities storage lookups
          (bindings r.sort config storage) (roots r.sort config storage) := by
  have hvisit : ∀ id, id ∈ r.visit (used config) ↔ id ∈ used config := fun id =>
    (r.visit_perm _).mem_iff
  -- the order of the visit is undone by the sort
  have hsorted : (∀ id ∈ used config, ∃ v, Fit config storage id v) →
      r.sort.run VolumeBinding.volumeID ((r.visit (used config)).filterMap fun id =>
        (bindVolume config storage id).toOption) = bindings r.sort config storage := by
    intro hfit
    refine (sort_keyed r.sort r.sort ((r.visit_perm _).symm.filterMap _) ?_).symm
    rw [bound_ids hfit]
    exact List.nodup_dedup _
  simp only [build, bind_unit_ok, refuseIf_ok, validateIdentitySnapshot_iff,
    validateStorageSnapshot_iff, validateSMBAccounts_iff, validateNFSIdentities_iff, collect_ok,
    nfsCandidateRoots, bindVolume_iff, hvisit, @bind_ok _ LookupDocuments,
    @bind_ok _ (List VolumeBinding), @bind_ok _ (List NFSExportRoot), Except.ok.injEq,
    Bool.not_eq_false, not_not, orNotReady_ok]
  constructor
  · rintro ⟨hvalid, -, hident, hobs, hacc, lookups, hlookups, hanon, hkrb, _, ⟨hfit, rfl⟩, _,
      ⟨_, ⟨-, rfl⟩, rfl⟩, rfl⟩
    replace hfit : ∀ id ∈ used config, ∃ v, Fit config storage id v := by
      intro id hid
      obtain ⟨b, v, hv, -⟩ := hfit id hid
      exact ⟨v, hv⟩
    refine ⟨lookups, ⟨hvalid, hident, hobs, hacc, hlookups, hanon, fun hk => ?_, hfit⟩, ?_⟩
    · simpa [hk] using hkrb
    · rw [hsorted hfit, roots]
  · rintro ⟨lookups, h, rfl⟩
    refine ⟨h.policy, (policy_sound h.policy).1, h.identified, h.observed, h.accounts, lookups,
      h.lookups, h.anonymous, ?_, _, ⟨fun id hid => ?_, rfl⟩, _, ⟨_, ⟨?_, rfl⟩, rfl⟩, ?_⟩
    · rintro ⟨hk, hnot⟩
      rw [h.kerberos hk] at hnot
      cases hnot
    · obtain ⟨v, hv⟩ := h.fit id hid
      exact ⟨_, v, hv, rfl⟩
    · rw [hsorted h.fit]
      exact fun e he => exportRoot_exists h.fit he
    · rw [hsorted h.fit, roots]

end Built

def Referenced (config : FileService.Config) (id : Bytes) : Prop :=
  (∃ s ∈ config.shares.shares.items, s.volumeID = id) ∨
    ∃ e ∈ config.nfs.exports.items, e.volumeID = id

def Written (config : FileService.Config) (id : Bytes) : Prop :=
  (∃ s ∈ config.shares.shares.items, s.volumeID = id ∧ ∃ g ∈ s.grants.items, g.access = rw) ∨
    ∃ e ∈ config.nfs.exports.items, e.volumeID = id ∧ ∃ c ∈ e.clients.items, c.access = rw

structure BoundVolume (config : FileService.Config) (storage : StorageSnapshot)
    (b : VolumeBinding) (v : ObservedVolume) : Prop where
  listed : v ∈ storage.volumes.items
  copied : b = binding v
  qualified : v.compatibility = compatibilityQualified
  desired : ∃ d ∈ config.shares.volumes.items,
    d.id = v.volumeID ∧ d.filesystemUUID = v.filesystemUUID
  mounted : v.mountPath = joinRooted volumeMountRoot v.volumeID
  alone : ∀ w ∈ storage.volumes.items, w ≠ v → w.volumeID ≠ v.volumeID ∧
    w.filesystemUUID ≠ v.filesystemUUID ∧ w.mountID ≠ v.mountID ∧ w.device ≠ v.device
  writable : Written config v.volumeID → v.readOnly = false

structure Grounded (config : FileService.Config) (identities : IdentitySnapshot)
    (storage : StorageSnapshot) (plan : Plan) : Prop where
  once : (plan.volumes.map VolumeBinding.volumeID).Nodup
  referenced : ∀ id, id ∈ plan.volumes.map VolumeBinding.volumeID ↔ Referenced config id
  bound : ∀ b ∈ plan.volumes, ∃ v, BoundVolume config storage b v
  granted : ∀ g ∈ grants config.shares, ∃ u ∈ config.shares.users.items, u.id = g.userID ∧
    ∃ a ∈ identities.registry.accounts.items, a.id = u.id ∧ a.name = u.name ∧
      a.state = .enabled ∧ ∃ i, Serves identities a i
  anonymous : ∀ e ∈ config.nfs.exports.items, ∀ c ∈ e.clients.items,
    c.anonymousUID.toNat ∈ identities.unixUIDs.items ∧
      c.anonymousGID.toNat ∈ identities.unixGIDs.items

section Grounding

variable {netip : Netip} {sort : Sorter} {config : FileService.Config}
variable {identities : IdentitySnapshot} {storage : StorageSnapshot} {lookups : LookupDocuments}

theorem mem_used {id : Bytes} : id ∈ used config ↔ Referenced config id := by
  simp [used, Referenced]

theorem writes_iff {id : Bytes} : writes config id = true ↔ Written config id := by
  simp [writes, Written]

theorem Fit.bound (hobs : Observed storage config.shares) {id : Bytes} {v : ObservedVolume}
    (h : Fit config storage id v) : BoundVolume config storage (binding v) v := by
  obtain ⟨hmem, rfl⟩ := lookup_some h.found
  obtain ⟨d, hd, huuid⟩ := h.desired
  have haccept := hobs.volumes v hmem
  simp only [acceptable, Bool.and_eq_true, beq_iff_eq] at haccept
  constructor
  · exact hmem
  · rfl
  · exact h.qualified
  · have hid : d.id = v.volumeID := by simpa using List.find?_some hd
    exact ⟨d, List.mem_of_find?_eq_some hd, hid, huuid.symm⟩
  · exact haccept.1.1.2
  · intro w hw hne
    refine ⟨fun heq => hne ?_, fun heq => hne ?_, fun heq => hne ?_, fun heq => hne ?_⟩
    · exact List.inj_on_of_nodup_map hobs.ids hw hmem heq
    · exact List.inj_on_of_nodup_map hobs.uuids hw hmem heq
    · exact List.inj_on_of_nodup_map hobs.mounts hw hmem heq
    · exact List.inj_on_of_nodup_map hobs.devices hw hmem heq
  · exact fun hwritten => h.writable (writes_iff.mpr hwritten)

theorem granted_user {policy : Config} (hsound : Sound policy) {g : Grant}
    (hg : g ∈ grants policy) :
    ∃ u ∈ policy.users.items, u.id = g.userID ∧ userName policy g.userID = u.name := by
  obtain ⟨s, hs, hg⟩ := List.mem_flatMap.mp hg
  obtain ⟨u, hu, hid⟩ := List.mem_map.mp ((hsound.shares s hs).grants g hg).1
  refine ⟨u, hu, hid, ?_⟩
  rw [userName, (lookup_iff hsound.userIDs).mpr ⟨hu, hid⟩]
  rfl

theorem Ready.grounded (h : Ready netip sort config identities storage lookups) {plan : Plan}
    (hvolumes : plan.volumes = bindings sort config storage) :
    Grounded config identities storage plan := by
  obtain ⟨-, hsound, -⟩ := policy_sound h.policy
  obtain ⟨bound, hbound, hserve⟩ := h.accounts
  constructor
  · rw [hvolumes]
    exact bindings_nodup h.fit
  · intro id
    rw [hvolumes, (bindings_ids h.fit).mem_iff, mem_used]
  · intro b hb
    rw [hvolumes, mem_bindings] at hb
    obtain ⟨id, -, v, hv, rfl⟩ := hb
    exact ⟨v, hv.bound h.observed⟩
  · intro g hg
    obtain ⟨u, hu, hid, hname⟩ := granted_user hsound hg
    obtain ⟨hr, -, accounts, haccounts, rfl⟩ := bindShares_ok hbound
    obtain ⟨-, hmem, hall⟩ := bindGrants_some hr bound_nil haccounts
    obtain ⟨a, ha⟩ := hall g hg
    obtain ⟨hreg, haid, haname, hstate⟩ := resolve_some ha
    have hin : a ∈ accounts := (hmem a).mpr (.inr ⟨g, hg, ha⟩)
    exact ⟨u, hu, hid, a, hreg, haid.trans hid.symm, haname.trans hname, hstate,
      serviceable_serves (hserve a (sort.mem_run.mpr hin))⟩
  · exact h.anonymous

end Grounding

section Order

variable {netip : Netip} {sort sort' : Sorter} {config config' : FileService.Config}
variable {identities identities' : IdentitySnapshot} {storage storage' : StorageSnapshot}
variable {lookups : LookupDocuments}

theorem referenced_congr (h : Reordered config config') {id : Bytes}
    (hid : Referenced config id) : Referenced config' id := by
  rcases hid with ⟨x, hx, rfl⟩ | ⟨e, he, rfl⟩
  · obtain ⟨y, hy, hyx⟩ := h.symm.shares.shares.items.exists_left hx
    exact .inl ⟨y, hy, hyx.volumeID⟩
  · obtain ⟨f, hf, hfe⟩ := h.symm.nfs.exports.items.exists_left he
    exact .inr ⟨f, hf, hfe.volumeID⟩

theorem written_congr (h : Reordered config config') {id : Bytes}
    (hid : Written config id) : Written config' id := by
  rcases hid with ⟨x, hx, rfl, g, hg, hrw⟩ | ⟨e, he, rfl, c, hc, hrw⟩
  · obtain ⟨y, hy, hyx⟩ := h.symm.shares.shares.items.exists_left hx
    exact .inl ⟨y, hy, hyx.volumeID, g, hyx.grants.items.mem_iff.mpr hg, hrw⟩
  · obtain ⟨f, hf, hfe⟩ := h.symm.nfs.exports.items.exists_left he
    exact .inr ⟨f, hf, hfe.volumeID, c, hfe.clients.items.mem_iff.mpr hc, hrw⟩

theorem used_perm (h : Reordered config config') : (used config).Perm (used config') := by
  refine (List.perm_ext_iff_of_nodup used_nodup used_nodup).mpr fun id => ?_
  rw [mem_used, mem_used]
  exact ⟨referenced_congr h, referenced_congr h.symm⟩

theorem writes_congr (h : Reordered config config') (id : Bytes) :
    writes config id = writes config' id := by
  rw [Bool.eq_iff_iff, writes_iff, writes_iff]
  exact ⟨written_congr h, written_congr h.symm⟩

theorem desiredVolume_congr {c d : Config} (h : SharesReordered c d) (hc : Sound c) (id : Bytes) :
    desiredVolume c id = desiredVolume d id := by
  have hlookup : ∀ p : Config, desiredVolume p id = lookup Volume.id p.volumes.items.reverse id :=
    fun p => by rw [desiredVolume, lookup, List.reverse_reverse]
  rw [hlookup, hlookup]
  apply lookup_perm
  · exact (List.reverse_perm _).trans (h.volumes.items.trans (List.reverse_perm _).symm)
  · rw [List.map_reverse, List.nodup_reverse]
    exact hc.volumeIDs

theorem bindVolume_congr (h : Reordered config config') (hs : SnapshotReordered storage storage')
    (hc : Sound config.shares) (hobs : Observed storage config.shares) (id : Bytes) :
    bindVolume config storage id = bindVolume config' storage' id := by
  unfold bindVolume
  rw [lookup_perm hs.volumes.items hobs.ids, desiredVolume_congr h.shares hc, writes_congr h]

theorem bindings_congr (sort sort' : Sorter) (h : Reordered config config')
    (hs : SnapshotReordered storage storage') (hc : Sound config.shares)
    (hobs : Observed storage config.shares)
    (hfit : ∀ id ∈ used config, ∃ v, Fit config storage id v) :
    bindings sort config storage = bindings sort' config' storage' := by
  have hfun : bindVolume config storage = bindVolume config' storage' :=
    funext (bindVolume_congr h hs hc hobs)
  unfold bindings
  rw [← hfun]
  apply sort_keyed sort sort' ((used_perm h).filterMap _)
  rw [bound_ids hfit]
  exact used_nodup

theorem exportRoot_congr (hnet : NetworksOverlap netip) {known : List Bytes} {e f : Export}
    (he : ExportGood netip known e) (h : SameExport e f) (volumes : List VolumeBinding) :
    exportRoot sort volumes e = exportRoot sort' volumes f := by
  unfold exportRoot
  rw [h.id, h.volumeID, h.relativePath, h.clients.items.all_eq, sortClients_congr hnet he h]

theorem roots_congr (hnet : NetworksOverlap netip) (h : Reordered config config')
    (hs : SnapshotReordered storage storage')
    (hready : Ready netip sort config identities storage lookups) :
    roots sort config storage = roots sort' config' storage' := by
  obtain ⟨-, hc, hp⟩ := policy_sound hready.policy
  unfold roots
  rw [← bindings_congr sort sort' h hs hc hready.observed hready.fit]
  apply sort_keyed
  · apply h.nfs.exports.items.filterMap_perm
    intro e he f hef
    rw [exportRoot_congr hnet (hp.exports e he) hef]
  · refine nodup_filterMap (fun e root hroot => ?_) (export_ids hp)
    rw [toOption_some, exportRoot] at hroot
    cases hfind : (bindings sort config storage).find? fun v => v.volumeID = e.volumeID with
    | none => simp [hfind] at hroot
    | some v =>
      simp only [hfind, Except.ok.injEq] at hroot
      rw [← hroot]

/-- Readiness does not depend on the order of any list. -/
theorem Ready.reorder (hnet : NetworksOverlap netip) (h : Reordered config config')
    (hi : IdentitiesReordered identities identities') (hs : SnapshotReordered storage storage')
    (hready : Ready netip sort config identities storage lookups) :
    Ready netip sort' config' identities' storage' lookups := by
  obtain ⟨-, hc, -⟩ := policy_sound hready.policy
  obtain ⟨bound, hbound, hserve⟩ := hready.accounts
  constructor
  · exact h.validate hnet hready.policy
  · exact hi.identified hready.identified
  · exact hs.observed h.shares hready.observed
  · refine ⟨bound, ?_, fun a ha => ?_⟩
    · rw [← hi.registry]
      exact bindShares_congr h.shares hbound
    · rw [← hi.serviceable hready.identified]
      exact hserve a ha
  · rw [← hi.registry]
    exact renderSambaNSS_congr h.shares hready.lookups
  · intro f hf c hcl
    obtain ⟨e, he, hef⟩ := h.nfs.exports.items.exists_left hf
    obtain ⟨huid, hgid⟩ := hready.anonymous e he c (hef.clients.items.mem_iff.mpr hcl)
    exact ⟨hi.uids.items.mem_iff.mp huid, hi.gids.items.mem_iff.mp hgid⟩
  · intro hk
    rw [← hi.kerberos]
    apply hready.kerberos
    rw [requiresKerberos, any_client_congr h.nfs]
    exact hk
  · intro id hid
    obtain ⟨v, hv⟩ := hready.fit id ((used_perm h).mem_iff.mpr hid)
    have hbind := bindVolume_iff.mpr ⟨v, hv, rfl⟩
    rw [bindVolume_congr h hs hc hready.observed] at hbind
    obtain ⟨w, hw, -⟩ := bindVolume_iff.mp hbind
    exact ⟨w, hw⟩

theorem compiled_congr {sha256 : Bytes → Digest} {active : UInt64} (hnet : NetworksOverlap netip)
    (h : Reordered config config') (hi : IdentitiesReordered identities identities')
    (hs : SnapshotReordered storage storage')
    (hready : Ready netip sort config identities storage lookups)
    (volumes : List VolumeBinding) (rs : List NFSExportRoot) :
    compiled sort' sha256 config' active identities' storage' lookups volumes rs =
      { compiled sort sha256 config active identities storage lookups volumes rs with
        sambaPolicy := config'.shares } := by
  obtain ⟨-, hc, hp⟩ := policy_sound hready.policy
  unfold compiled
  rw [← h.revision, ← hi.generation, ← hi.fingerprint, ← hi.registry, ← hs.generation,
    ← hs.fingerprint hready.observed (s := sort), ← sections_congr h.shares hc (s := sort),
    ← table_congr hnet h.shares h.nfs hc hp (s := sort), ← requirements_congr h.shares h.nfs,
    ← sambaManagementLookup_congr hi.uids.items hi.gids.items (s := sort)]

theorem build_reorder {r r' : Runtime} {sha256 : Bytes → Digest} {active : UInt64}
    (hnet : NetworksOverlap netip) (h : Reordered config config')
    (hi : IdentitiesReordered identities identities') (hs : SnapshotReordered storage storage')
    {plan : Plan} (hplan : build r netip sha256 config active identities storage = .ok plan) :
    build r' netip sha256 config' active identities' storage' =
      .ok { plan with sambaPolicy := config'.shares } := by
  obtain ⟨lookups, hready, rfl⟩ := build_ready_iff.mp hplan
  obtain ⟨-, hc, -⟩ := policy_sound hready.policy
  refine build_ready_iff.mpr ⟨lookups, hready.reorder hnet h hi hs, ?_⟩
  rw [← bindings_congr r.sort r'.sort h hs hc hready.observed hready.fit,
    ← roots_congr hnet h hs hready, compiled_congr hnet h hi hs hready]

theorem build_toOption {r r' : Runtime} {sha256 : Bytes → Digest} {active : UInt64}
    (hnet : NetworksOverlap netip) (h : Reordered config config')
    (hi : IdentitiesReordered identities identities') (hs : SnapshotReordered storage storage') :
    (build r' netip sha256 config' active identities' storage').toOption =
      (build r netip sha256 config active identities storage).toOption.map fun plan =>
        { plan with sambaPolicy := config'.shares } := by
  cases hplan : build r netip sha256 config active identities storage with
  | ok plan =>
    rw [build_reorder hnet h hi hs hplan]
    rfl
  | error e =>
    cases hplan' : build r' netip sha256 config' active identities' storage' with
    | error e' => rfl
    | ok plan' =>
      have hback := @build_reorder netip _ _ _ _ _ _ r' r _ _ hnet h.symm hi.symm hs.symm _ hplan'
      rw [hback] at hplan
      cases hplan

end Order

section Fresh

variable {r : Runtime} {netip : Netip} {sha256 : Bytes → Digest} {sort : Sorter}
variable {config : FileService.Config} {active : UInt64} {identities : IdentitySnapshot}
variable {storage s : StorageSnapshot} {plan : Plan} {candidate : NFSv3Candidate}

/-- A plan is fresh against what a second build says of the same inputs in another order. -/
theorem freshAgainst_reordered {r r' : Runtime} {sha256 : Bytes → Digest} {active : UInt64}
    {plan' : Plan} (hnet : NetworksOverlap netip) (h : Reordered config config')
    (hi : IdentitiesReordered identities identities') (hs : SnapshotReordered storage storage')
    (hplan : build r netip sha256 config active identities storage = .ok plan)
    (hplan' : build r' netip sha256 config' active identities' storage' = .ok plan') :
    plan.freshAgainst plan'.freshness = true := by
  rw [build_reorder hnet h hi hs hplan, Except.ok.injEq] at hplan'
  obtain ⟨lookups, -, rfl⟩ := build_ready_iff.mp hplan
  subst hplan'
  simp [Plan.freshAgainst, compiled]

theorem candidate_ok (h : plan.nfsv3TCPCandidate = .ok candidate) :
    candidate.valid = true ∧ candidate.freshness = plan.freshness := by
  rw [Plan.nfsv3TCPCandidate] at h
  split_ifs at h
  rw [← Except.ok.inj h]
  exact ⟨rfl, rfl⟩

/-- A candidate is fresh against the observations it was built from, and against no others. -/
theorem fresh_iff (hplan : build r netip sha256 config active identities storage = .ok plan)
    (hcandidate : plan.nfsv3TCPCandidate = .ok candidate)
    (hheld : ∀ v ∈ storage.volumes.items, Addressable v)
    (hheld' : ∀ v ∈ s.volumes.items, Addressable v)
    (hsha : sha256 (encodeSnapshot r.sort storage) = sha256 (encodeSnapshot sort s) →
      encodeSnapshot r.sort storage = encodeSnapshot sort s) :
    candidate.freshAgainstStorage sha256 sort s = true ↔ SnapshotReordered storage s := by
  obtain ⟨lookups, hready, rfl⟩ := build_ready_iff.mp hplan
  obtain ⟨hvalid, hfreshness⟩ := candidate_ok hcandidate
  have hobs := hready.observed
  have hsmall : maxObservedVolumes < 2 ^ 63 := by decide
  simp only [NFSv3Candidate.freshAgainstStorage, hvalid, hfreshness, compiled, Bool.and_eq_true,
    decide_eq_true_eq, beq_iff_eq, true_and]
  constructor
  · rintro ⟨⟨⟨⟨⟨-, -⟩, hpresent⟩, hcounted⟩, -⟩, hfingerprint⟩
    obtain ⟨hgeneration, howner, hcomplete, hperm⟩ := encodeSnapshot_eq
      ⟨hobs.counted.trans_lt hsmall, hheld⟩ ⟨hcounted.trans_lt hsmall, hheld'⟩
      (hsha hfingerprint)
    exact ⟨hcomplete, hgeneration, howner, hobs.present.trans hpresent.symm, hperm⟩
  · intro h
    have hs := h.observed (d := config.shares) ?_ hobs
    · refine ⟨⟨⟨⟨⟨hs.complete, ?_⟩, hs.present⟩, hs.counted⟩, h.generation⟩, h.fingerprint hobs⟩
      exact UInt64.pos_iff_ne_zero.mpr hs.generation
    · exact .refl _

end Fresh

/-- Plans are sound, do not depend on any order, and are fresh exactly as long as the
observations stay the same. -/
theorem candidate_plans_exact (netip : Netip) (hnet : NetworksOverlap netip)
    (sha256 : Bytes → Digest) (r : Runtime) (config : FileService.Config) (active : UInt64)
    (identities : IdentitySnapshot) (storage : StorageSnapshot) :
    (∀ plan, build r netip sha256 config active identities storage = .ok plan →
      Grounded config identities storage plan) ∧
    (∀ r' config' identities' storage', Reordered config config' →
      IdentitiesReordered identities identities' → SnapshotReordered storage storage' →
      (build r' netip sha256 config' active identities' storage').toOption =
        (build r netip sha256 config active identities storage).toOption.map fun plan =>
          { plan with sambaPolicy := config'.shares }) ∧
    ∀ plan candidate s sort, build r netip sha256 config active identities storage = .ok plan →
      plan.nfsv3TCPCandidate = .ok candidate →
      (∀ v ∈ storage.volumes.items, Addressable v) → (∀ v ∈ s.volumes.items, Addressable v) →
      (sha256 (encodeSnapshot r.sort storage) = sha256 (encodeSnapshot sort s) →
        encodeSnapshot r.sort storage = encodeSnapshot sort s) →
      (candidate.freshAgainstStorage sha256 sort s = true ↔ SnapshotReordered storage s) := by
  refine ⟨fun plan hplan => ?_, ?_, ?_⟩
  · obtain ⟨lookups, hready, rfl⟩ := build_ready_iff.mp hplan
    exact hready.grounded rfl
  · intro r' config' identities' storage' h hi hs
    exact build_toOption hnet h hi hs
  · intro plan candidate s sort hplan hcandidate hheld hheld' hsha
    exact fresh_iff hplan hcandidate hheld hheld' hsha

def sampleVolumes : List Volume :=
  [⟨ascii "data", ascii "0f0e0d0c-0000-4000-8000-000000000001"⟩,
    ⟨ascii "spare", ascii "0f0e0d0c-0000-4000-8000-000000000002"⟩]

def samplePolicy (volumes : List Volume) : FileService.Config :=
  ⟨FileService.formatName, 1, 7,
    ⟨ascii "phantowd-share-config", 1, 7, some volumes, some [⟨ascii "u1", ascii "alice"⟩],
      some [⟨ascii "s1", ascii "Media", ascii "data", ascii "media",
        some [⟨ascii "u1", ascii "rw"⟩]⟩]⟩,
    ⟨ascii "phantowd-nfs-policy", 1, 7, 7,
      some [⟨ascii "11111111-2222-4333-8444-555555555555", ascii "data", ascii "export",
        some [⟨ascii "192.0.2.0/24", ascii "ro", ascii "root", 65534, 65534, ascii "sys"⟩]⟩]⟩⟩

def sampleSID : Bytes := ascii "S-1-5-21-1-2-3-1000"

def sampleIdentities : IdentitySnapshot :=
  ⟨true, 3, ⟨List.replicate 32 7, by decide⟩,
    ⟨ServiceAccounts.formatName, 1, 3, 1000, 1999,
      some [⟨ascii "u1", ascii "alice", 1000, 1000, .enabled⟩]⟩,
    some [0, 1000, 65534], some [0, 1000, 65534],
    some [⟨⟨SmbProvision.formatName, 1, 7, 5, ⟨ascii "u1", ascii "alice", 1000, 1000, .disabled⟩,
      sampleSID, .enabled⟩, ⟨true, ascii "alice", 1000, 1000, sampleSID, false⟩⟩], false⟩

def sampleObserved : List ObservedVolume :=
  [⟨ascii "data", ascii "0f0e0d0c-0000-4000-8000-000000000001",
      ascii "/srv/phantowd/volumes/data", compatibilityQualified, 41, 9, 0, false⟩,
    ⟨ascii "spare", ascii "0f0e0d0c-0000-4000-8000-000000000002",
      ascii "/srv/phantowd/volumes/spare", compatibilityUnqualified, 42, 9, 1, true⟩]

def sampleStorage (volumes : List ObservedVolume) : StorageSnapshot :=
  ⟨true, 11, ⟨List.replicate 32 3, by decide⟩, some volumes⟩

def sampleDigest (_ : Bytes) : Digest :=
  ⟨[0x36, 0x69, 0x32, 0x41, 0xf4, 0x43, 0xbe, 0xa7, 0x5d, 0xa8, 0xbc, 0x57, 0x64, 0xac, 0x6b, 0x00,
    0x5e, 0xbc, 0x90, 0x0b, 0x24, 0xa9, 0x07, 0x58, 0x5d, 0xe9, 0xd7, 0x46, 0xb5, 0xd3, 0xef, 0x80],
    by decide⟩

theorem sample_addressable : ∀ v ∈ sampleObserved, Addressable v := by
  intro v hv
  simp only [sampleObserved, List.mem_cons, List.not_mem_nil, or_false] at hv
  rcases hv with rfl | rfl <;> exact ⟨by decide, by decide, by decide, by decide⟩

theorem samplePolicy_reordered :
    Reordered (samplePolicy sampleVolumes) (samplePolicy sampleVolumes.reverse) := by
  have hshares := SharesReordered.refl (samplePolicy sampleVolumes).shares
  refine ⟨rfl, rfl, rfl, ⟨rfl, rfl, rfl, ⟨rfl, (List.reverse_perm _).symm⟩, hshares.users,
    hshares.shares⟩, rfl, rfl, rfl, rfl, rfl, ?_⟩
  exact .of_perm (fun e => ⟨rfl, rfl, rfl, .refl e.clients⟩) (.refl _)

theorem sampleStorage_reordered :
    SnapshotReordered (sampleStorage sampleObserved) (sampleStorage sampleObserved.reverse) :=
  ⟨rfl, rfl, rfl, rfl, (List.reverse_perm _).symm⟩

/-- The sample gives one plan in both orders, and its candidate stays fresh. -/
theorem sample_plans_exact :
    (build .simple .ipv4 sampleDigest (samplePolicy sampleVolumes) 0 sampleIdentities
      (sampleStorage sampleObserved)).toOption.isSome = true ∧
    ∃ plan candidate,
      build .simple .ipv4 sampleDigest (samplePolicy sampleVolumes) 0 sampleIdentities
        (sampleStorage sampleObserved) = .ok plan ∧
      Grounded (samplePolicy sampleVolumes) sampleIdentities (sampleStorage sampleObserved) plan ∧
      (build .simple .ipv4 sampleDigest (samplePolicy sampleVolumes.reverse) 0 sampleIdentities
        (sampleStorage sampleObserved.reverse)).toOption =
          some { plan with sambaPolicy := (samplePolicy sampleVolumes.reverse).shares } ∧
      plan.nfsv3TCPCandidate = .ok candidate ∧
      candidate.freshAgainstStorage sampleDigest .simple
        (sampleStorage sampleObserved.reverse) = true := by
  have hsome : (build .simple .ipv4 sampleDigest (samplePolicy sampleVolumes) 0 sampleIdentities
      (sampleStorage sampleObserved) >>= Plan.nfsv3TCPCandidate).toOption.isSome = true := by
    decide +kernel
  obtain ⟨candidate, hcandidate⟩ := Option.isSome_iff_exists.mp hsome
  obtain ⟨plan, hplan, hcandidate⟩ := bind_ok.mp (toOption_some.mp hcandidate)
  obtain ⟨hsound, horder, hfresh⟩ := candidate_plans_exact .ipv4 ipv4_overlap sampleDigest .simple
    (samplePolicy sampleVolumes) 0 sampleIdentities (sampleStorage sampleObserved)
  refine ⟨by rw [hplan]; rfl, plan, candidate, hplan, hsound plan hplan, ?_, hcandidate, ?_⟩
  · rw [horder .simple _ _ _ samplePolicy_reordered ⟨rfl, rfl, rfl, rfl, .refl _, .refl _, .refl _,
      rfl⟩ sampleStorage_reordered, hplan]
    rfl
  · refine (hfresh plan candidate _ .simple hplan hcandidate sample_addressable ?_ ?_).mpr
      sampleStorage_reordered
    · exact fun v hv => sample_addressable v (List.mem_reverse.mp hv)
    · intro _
      decide +kernel

end FileServicePlan
