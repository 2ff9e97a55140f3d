import PhantoWD.NasEvidence
import PhantoWD.NasPolicy

/-!
Either half may be replaced by a caller's document of the next revision. The other half keeps
its content and only advances its revision bindings.
-/
namespace NasPolicy

open GoText
open NfsConfig (Netip)
open FileService (KeepsExports validateRetainedNFSBindings retained_iff)

def detachedValues (c : Config) : Config := c

def composeFiles (base : Config) (next : FileService.Config) : Config :=
  { base with
    revision := next.revision
    fileServices := next
    iscsi := { base.iscsi with revision := next.revision, volumeRevision := next.revision } }

def indexVolumes (index : AList fun _ : Bytes => ShareConfig.Volume) :
    List ShareConfig.Volume → AList fun _ : Bytes => ShareConfig.Volume
  | [] => index
  | v :: rest => indexVolumes (index.insert v.id v) rest

def volumeAt (next : FileService.Config) (id : Bytes) : ShareConfig.Volume :=
  ((indexVolumes ∅ next.shares.volumes.items).lookup id).getD ⟨[], []⟩

def volumesRetained (base : Config) (next : FileService.Config) : Bool :=
  base.iscsi.backings.items.all fun backing =>
    base.fileServices.shares.volumes.items.all fun volume =>
      !(backing.volumeID == volume.id && volumeAt next volume.id != volume)

def replaceFileServices (netip : Netip) (base : Config) (next : FileService.Config) :
    Option Config :=
  if !validateRetainedNFSBindings netip base.fileServices next ||
      !base.validateFileServicesChecked || base.revision == 0xffffffffffffffff ||
      next.revision != base.revision + 1 then none
  else if !(composeFiles base next).validateFileServicesChecked then none
  else if !volumesRetained base next then none
  else some (detachedValues (composeFiles base next))

def composeIscsi (base : Config) (next : IscsiPolicy.Policy) : Config :=
  { base with
    revision := next.revision
    fileServices :=
      { base.fileServices with
        revision := next.revision
        shares := { base.fileServices.shares with revision := next.revision }
        nfs := { base.fileServices.nfs with
          revision := next.revision, volumeRevision := next.revision } }
    iscsi := next }

def replaceISCSI (netip : Netip) (base : Config) (next : IscsiPolicy.Policy) : Option Config :=
  if !base.validate netip || base.revision == 0xffffffffffffffff ||
      next.revision != base.revision + 1 then none
  else if !(composeIscsi base next).validate netip then none
  else some (detachedValues (composeIscsi base next))

/-- Every volume a backing names has one filesystem in both documents. -/
def KeepsVolumes (base : Config) (next : FileService.Config) : Prop :=
  ∀ backing ∈ base.iscsi.backings.items, ∀ v ∈ base.fileServices.shares.volumes.items,
    backing.volumeID = v.id → ∀ v' ∈ next.shares.volumes.items, v'.id = v.id →
      v'.filesystemUUID = v.filesystemUUID

variable {netip : Netip} {base : Config} {next : FileService.Config}

theorem lookup_indexVolumes {index : AList fun _ : Bytes => ShareConfig.Volume}
    {vs : List ShareConfig.Volume} (hn : (vs.map ShareConfig.Volume.id).Nodup) (id : Bytes) :
    (indexVolumes index vs).lookup id =
      ((vs.find? fun v => v.id = id).orElse fun _ => index.lookup id) := by
  induction vs generalizing index with
  | nil => rfl
  | cons v rest ih =>
    rw [List.map_cons, List.nodup_cons] at hn
    rw [indexVolumes, ih hn.2]
    by_cases hid : v.id = id
    · subst hid
      have hnone : rest.find? (fun w => w.id = v.id) = none := by
        rw [List.find?_eq_none]
        intro w hw heq
        exact hn.1 (List.mem_map.mpr ⟨w, hw, by simpa using heq⟩)
      simp [hnone]
    · rw [AList.lookup_insert_ne (Ne.symm hid), List.find?_cons_of_neg (by simpa using hid)]

theorem volumeAt_of_mem (hn : (next.shares.volumes.items.map ShareConfig.Volume.id).Nodup)
    {v : ShareConfig.Volume} (hv : v ∈ next.shares.volumes.items) : volumeAt next v.id = v := by
  have hfind : next.shares.volumes.items.find? (fun w => w.id = v.id) = some v := by
    cases hfind : next.shares.volumes.items.find? (fun w => w.id = v.id) with
    | none =>
      have hnot := List.find?_eq_none.mp hfind v hv
      simp at hnot
    | some w =>
      have hid : w.id = v.id := by simpa using List.find?_some hfind
      rw [List.inj_on_of_nodup_map hn (List.mem_of_find?_eq_some hfind) hv hid]
  rw [volumeAt, lookup_indexVolumes hn, hfind]
  rfl

theorem volumeAt_mem {id : Bytes} (hn : (next.shares.volumes.items.map ShareConfig.Volume.id).Nodup)
    (h : (volumeAt next id).id ≠ []) : volumeAt next id ∈ next.shares.volumes.items := by
  rw [volumeAt, lookup_indexVolumes hn] at h ⊢
  cases hfind : next.shares.volumes.items.find? (fun w => w.id = id) with
  | none => simp [hfind] at h
  | some w => simpa [hfind] using List.mem_of_find?_eq_some hfind

theorem identifier_ne_nil {s : Bytes} (h : ShareConfig.identifier s = true) : s ≠ [] := by
  rintro rfl
  simp [ShareConfig.identifier, ShareConfig.startsLower] at h

theorem volume_id_ne_nil (h : base.validate netip = true) {v : ShareConfig.Volume}
    (hv : v ∈ base.fileServices.shares.volumes.items) : v.id ≠ [] := by
  have hfiles := FileService.Config.validate_ok (Config.validate_ok h).fileServices
  obtain ⟨vs, hvs, _, hgood⟩ := (ShareConfig.Config.validate_ok hfiles.shares).volumes
  rw [hvs] at hv
  exact identifier_ne_nil (hgood v hv).1

theorem retained_mem (hbase : base.validate netip = true) (hnext : next.validate netip = true)
    (h : volumesRetained base next = true) {backing : IscsiPolicy.Backing}
    (hb : backing ∈ base.iscsi.backings.items) {v : ShareConfig.Volume}
    (hv : v ∈ base.fileServices.shares.volumes.items) (hid : backing.volumeID = v.id) :
    v ∈ next.shares.volumes.items := by
  have hnodup := (FileService.Config.validate_ok hnext).volumesNodup
  have hsame : volumeAt next v.id = v := by
    rw [volumesRetained, List.all_eq_true] at h
    have hv' := List.all_eq_true.mp (h backing hb) v hv
    simpa [hid] using hv'
  have hmem := @volumeAt_mem next v.id hnodup (by rw [hsame]; exact volume_id_ne_nil hbase hv)
  rwa [hsame] at hmem

theorem volumesRetained_iff (hbase : base.validate netip = true)
    (hnext : next.validate netip = true) (hc : (composeFiles base next).validate netip = true) :
    volumesRetained base next = true ↔ KeepsVolumes base next := by
  have hnodup := (FileService.Config.validate_ok hnext).volumesNodup
  constructor
  · intro h backing hb v hv hid v' hv' hid'
    have hmem := retained_mem hbase hnext h hb hv hid
    rw [List.inj_on_of_nodup_map hnodup hv' hmem hid']
  · intro h
    obtain ⟨bs, hbs, hchecked⟩ :=
      (IscsiPolicy.Policy.validate_ok (Config.validate_ok hc).iscsi).backings
    rw [volumesRetained, List.all_eq_true]
    intro backing hb
    rw [List.all_eq_true]
    intro v hv
    by_cases hid : backing.volumeID = v.id
    · -- The composed document was validated, so the backing's volume is still declared.
      have hbacking : backing ∈ bs := by
        have hsome : base.iscsi.backings = some bs := hbs
        rwa [hsome] at hb
      have hknown : backing.volumeID ∈ next.shares.volumes.items.map ShareConfig.Volume.id :=
        (hchecked backing hbacking).volume
      obtain ⟨v', hv', hid'⟩ := List.mem_map.mp hknown
      have huuid := h backing hb v hv hid v' hv' (hid'.trans hid)
      have hsame : v' = v := by
        obtain ⟨id', uuid'⟩ := v'
        obtain ⟨id, uuid⟩ := v
        simp_all
      have hat := volumeAt_of_mem hnodup hv'
      rw [hsame] at hat
      simp [hat]
    · simp [hid]

theorem composed_valid_iff (hnext : next.validate netip = true) :
    (composeFiles base next).validate netip = true ↔
      (composeFiles base next).validateFileServicesChecked = true := by
  have hfiles : (composeFiles base next).fileServices.validate netip = true := hnext
  rw [Config.validate, hfiles, Bool.true_and]

/-- The reused validation asks for as much as the full one. -/
theorem replaceFileServices_some {c : Config} :
    replaceFileServices netip base next = some c ↔
      c = composeFiles base next ∧ base.validate netip = true ∧ next.validate netip = true ∧
        base.revision ≠ 0xffffffffffffffff ∧ next.revision = base.revision + 1 ∧
        KeepsExports base.fileServices next ∧ KeepsVolumes base next ∧
        (composeFiles base next).validate netip = true := by
  rw [replaceFileServices]
  constructor
  · intro h
    split_ifs at h with hhead hcomposed hvolumes
    simp only [Bool.or_eq_true, Bool.not_eq_true', beq_iff_eq, bne_iff_ne, ne_eq, not_or,
      Bool.not_eq_false, Decidable.not_not] at hhead hcomposed hvolumes
    obtain ⟨⟨⟨hretained, hchecked⟩, hmax⟩, hstep⟩ := hhead
    obtain ⟨hbaseFiles, hnext, hkeeps⟩ := retained_iff.mp hretained
    have hbase : base.validate netip = true := by
      rw [Config.validate, hbaseFiles, hchecked]
      rfl
    have hvalid := (composed_valid_iff hnext).mpr hcomposed
    exact ⟨(Option.some.inj h).symm, hbase, hnext, hmax, hstep, hkeeps,
      (volumesRetained_iff hbase hnext hvalid).mp hvolumes, hvalid⟩
  · rintro ⟨rfl, hbase, hnext, hmax, hstep, hkeeps, hvolumes, hvalid⟩
    have hparts := hbase
    rw [Config.validate, Bool.and_eq_true] at hparts
    have hretained := retained_iff.mpr ⟨hparts.1, hnext, hkeeps⟩
    have hcomposed := (composed_valid_iff hnext).mp hvalid
    have hkept := (volumesRetained_iff hbase hnext hvalid).mpr hvolumes
    simp [hretained, hparts.2, hmax, hstep, hcomposed, hkept, detachedValues]

theorem replaceISCSI_some {next : IscsiPolicy.Policy} {c : Config}
    (h : replaceISCSI netip base next = some c) :
    c = composeIscsi base next ∧ base.validate netip = true ∧ c.validate netip = true := by
  rw [replaceISCSI] at h
  split_ifs at h with hhead hcomposed
  simp only [Bool.or_eq_true, Bool.not_eq_true', not_or, Bool.not_eq_false] at hhead hcomposed
  have hc : c = composeIscsi base next := (Option.some.inj h).symm
  exact ⟨hc, hhead.1.1, hc ▸ hcomposed⟩

def Bound (c : Config) (revision : Nat) : Prop :=
  c.revision.toNat = revision ∧ c.fileServices.revision.toNat = revision ∧
    c.fileServices.shares.revision.toNat = revision ∧ c.fileServices.nfs.revision.toNat = revision ∧
    c.fileServices.nfs.volumeRevision.toNat = revision ∧ c.iscsi.revision.toNat = revision ∧
    c.iscsi.volumeRevision.toNat = revision

theorem bound_of_valid {c : Config} (h : c.validate netip = true) : Bound c c.revision.toNat := by
  have haccepted := Config.validate_ok h
  have hfiles := FileService.Config.validate_ok haccepted.fileServices
  have hiscsi := IscsiPolicy.Policy.validate_ok haccepted.iscsi
  refine ⟨rfl, ?_, ?_, ?_, ?_, ?_, ?_⟩
  · rw [haccepted.filesRevision]
  · rw [hfiles.sharesRevision, haccepted.filesRevision]
  · rw [hfiles.nfsRevision, haccepted.filesRevision]
  · rw [hfiles.volumeRevision, haccepted.filesRevision]
  · rw [haccepted.iscsiRevision]
  · rw [hiscsi.bound, hfiles.sharesRevision, haccepted.filesRevision]

theorem succ_toNat {n : UInt64} (h : n ≠ 0xffffffffffffffff) : (n + 1).toNat = n.toNat + 1 := by
  have hlt : n.toNat ≠ 2 ^ 64 - 1 := fun heq => h (UInt64.toNat_inj.mp heq)
  have hbound := n.toNat_lt
  rw [UInt64.toNat_add]
  change (n.toNat + 1) % 2 ^ 64 = n.toNat + 1
  omega

/-- Edits preserve the other half, and the reused validation never changes the outcome. -/
theorem edits_preserve_other_half (netip : Netip) (base : Config) :
    (∀ next c, replaceFileServices netip base next = some c →
      c.validate netip = true ∧ Bound c (base.revision.toNat + 1) ∧ c.fileServices = next ∧
        { c.iscsi with
          revision := base.iscsi.revision
          volumeRevision := base.iscsi.volumeRevision } = base.iscsi ∧
        (∀ backing ∈ base.iscsi.backings.items,
          ∀ v ∈ base.fileServices.shares.volumes.items, backing.volumeID = v.id →
            v ∈ c.fileServices.shares.volumes.items ∧
              ∀ v' ∈ c.fileServices.shares.volumes.items, v'.id = v.id →
                v'.filesystemUUID = v.filesystemUUID) ∧
        KeepsExports base.fileServices c.fileServices) ∧
      (∀ next c, replaceISCSI netip base next = some c →
        c.validate netip = true ∧ c.iscsi = next ∧
          { c.fileServices with
            revision := base.fileServices.revision
            shares := { c.fileServices.shares with
              revision := base.fileServices.shares.revision }
            nfs := { c.fileServices.nfs with
              revision := base.fileServices.nfs.revision
              volumeRevision := base.fileServices.nfs.volumeRevision } } =
            base.fileServices) ∧
      ∀ next, (replaceFileServices netip base next).isSome = true ↔
        base.validate netip = true ∧ next.validate netip = true ∧
          (base.revision ≠ 0xffffffffffffffff ∧ next.revision = base.revision + 1) ∧
          KeepsExports base.fileServices next ∧ KeepsVolumes base next ∧
          (composeFiles base next).validate netip = true := by
  refine ⟨?_, ?_, ?_⟩
  · intro next c h
    obtain ⟨rfl, hbase, hnext, hmax, hstep, hexports, hvolumes, hvalid⟩ :=
      replaceFileServices_some.mp h
    have hbound := bound_of_valid hvalid
    have hrevision : (composeFiles base next).revision.toNat = base.revision.toNat + 1 := by
      rw [← succ_toNat hmax, ← hstep]
      rfl
    rw [hrevision] at hbound
    refine ⟨hvalid, hbound, rfl, rfl, ?_, hexports⟩
    intro backing hb v hv hid
    have hretained := (volumesRetained_iff hbase hnext hvalid).mpr hvolumes
    exact ⟨retained_mem hbase hnext hretained hb hv hid, hvolumes backing hb v hv hid⟩
  · intro next c h
    obtain ⟨rfl, _, hvalid⟩ := replaceISCSI_some h
    exact ⟨hvalid, rfl, rfl⟩
  · intro next
    rw [Option.isSome_iff_exists]
    constructor
    · rintro ⟨c, h⟩
      obtain ⟨_, hbase, hnext, hmax, hstep, hexports, hvolumes, hvalid⟩ :=
        replaceFileServices_some.mp h
      exact ⟨hbase, hnext, ⟨hmax, hstep⟩, hexports, hvolumes, hvalid⟩
    · rintro ⟨hbase, hnext, ⟨hmax, hstep⟩, hexports, hvolumes, hvalid⟩
      exact ⟨_, replaceFileServices_some.mpr
        ⟨rfl, hbase, hnext, hmax, hstep, hexports, hvolumes, hvalid⟩⟩

/-- Both edits of the sample succeed. -/
theorem sample_edits_preserve :
    replaceFileServices .ipv4 (sampleConfig 7) (sampleFiles 8) = some (sampleConfig 8) ∧
      Bound (sampleConfig 8) 8 ∧
      replaceISCSI .ipv4 (sampleConfig 7) (sampleIscsi 8) = some (sampleConfig 8) ∧
      (sampleConfig 8).iscsi = sampleIscsi 8 := by
  have hfiles : replaceFileServices .ipv4 (sampleConfig 7) (sampleFiles 8) =
      some (sampleConfig 8) := by decide +kernel
  have hiscsi : replaceISCSI .ipv4 (sampleConfig 7) (sampleIscsi 8) = some (sampleConfig 8) := by
    decide +kernel
  have hedits := edits_preserve_other_half .ipv4 (sampleConfig 7)
  exact ⟨hfiles, (hedits.1 _ _ hfiles).2.1, hiscsi, (hedits.2.1 _ _ hiscsi).2.1⟩

section Records

open NasEvidence (PolicyCode canonicalHex encodeOperation marshalRecord)

def policyCode (netip : Netip) (sha256 : Bytes → Bytes) : PolicyCode Config where
  decode := decode netip
  revision c := c.revision.toNat
  revision_lt c := c.revision.toNat_lt
  retainsBindings base next :=
    validateRetainedNFSBindings netip base.fileServices next.fileServices
  sha256 := sha256

/-- Every accepted edit can be recorded, from the bytes of the two documents alone. -/
theorem edit_recorded {sha256 : Bytes → Bytes} {installationID operationID : Bytes} {c : Config}
    (hsha : ∀ data, (sha256 data).length = 32) (hi : canonicalHex installationID 32 true = true)
    (ho : canonicalHex operationID 32 true = true)
    (h : replaceFileServices netip base next = some c) :
    ∃ i, encodeOperation (policyCode netip sha256) installationID operationID base.marshal
      c.marshal = some (marshalRecord i, marshalRecord i.confirmed) := by
  obtain ⟨rfl, hbase, hnext, hmax, hstep, hkeeps, -, hvalid⟩ := replaceFileServices_some.mp h
  have haccepted := Config.validate_ok hbase
  have hrevision : next.revision.toNat = base.revision.toNat + 1 := by
    rw [hstep, succ_toNat hmax]
  have hpos : base.revision.toNat ≠ 0 := fun hzero =>
    haccepted.revision (UInt64.toNat_inj.mp hzero)
  exact NasEvidence.encodeOperation_some (policyCode netip sha256) hi ho
    (decode_marshal hbase) (decode_marshal hvalid)
    (retained_iff.mpr ⟨haccepted.fileServices, hnext, hkeeps⟩) hpos hrevision hsha

end Records

end NasPolicy
