import PhantoWD.FileService
import PhantoWD.KeyedLists

/-!
The lists of a share or export policy are sets written down. Acceptance is a condition on the
entries and on pairs of them; neither it nor the length of the encoded document depends on the
order they are written in.
-/
namespace PolicyOrder

open GoText GoJson JsonStruct ShareConfig KeyedLists
open Checks (ite_error_ok)

/-- Two slices with the same entries; nil stays apart from empty. -/
structure SlicePerm {α : Type} (s t : Slice α) : Prop where
  present : s.isSome = t.isSome
  items : s.items.Perm t.items

structure SliceReorders {α : Type} (R : α → α → Prop) (s t : Slice α) : Prop where
  present : s.isSome = t.isSome
  items : Reorders R s.items t.items

variable {α : Type} {s t : Share} {c d : Config} {f e : Export} {p q : Policy}

theorem SlicePerm.refl (s : Slice α) : SlicePerm s s := ⟨rfl, .refl _⟩

theorem SlicePerm.symm {s t : Slice α} (h : SlicePerm s t) : SlicePerm t s :=
  ⟨h.present.symm, h.items.symm⟩

theorem SliceReorders.symm {R : α → α → Prop} {s t : Slice α} (hsymm : ∀ a b, R a b → R b a)
    (h : SliceReorders R s t) : SliceReorders R t s :=
  ⟨h.present.symm, h.items.symm hsymm⟩

structure SameShare (s t : Share) : Prop where
  id : s.id = t.id
  name : s.name = t.name
  volumeID : s.volumeID = t.volumeID
  relativePath : s.relativePath = t.relativePath
  grants : SlicePerm s.grants t.grants

theorem SameShare.symm (h : SameShare s t) : SameShare t s :=
  ⟨h.id.symm, h.name.symm, h.volumeID.symm, h.relativePath.symm, h.grants.symm⟩

structure SharesReordered (c d : Config) : Prop where
  format : c.format = d.format
  schema : c.schemaVersion = d.schemaVersion
  revision : c.revision = d.revision
  volumes : SlicePerm c.volumes d.volumes
  users : SlicePerm c.users d.users
  shares : SliceReorders SameShare c.shares d.shares

theorem SharesReordered.refl (c : Config) : SharesReordered c c :=
  ⟨rfl, rfl, rfl, .refl _, .refl _,
    rfl, .of_perm (fun s => ⟨rfl, rfl, rfl, rfl, .refl s.grants⟩) (.refl _)⟩

theorem SharesReordered.symm (h : SharesReordered c d) : SharesReordered d c :=
  ⟨h.format.symm, h.schema.symm, h.revision.symm, h.volumes.symm, h.users.symm,
    h.shares.symm fun _ _ => SameShare.symm⟩

theorem SameShare.good {volumes users volumes' users' : List Bytes} (hv : volumes.Perm volumes')
    (hu : users.Perm users') (h : SameShare s t) (hs : ShareGood volumes users s) :
    ShareGood volumes' users' t := by
  have hmono := hs.mono (fun id hid => hv.mem_iff.mp hid) fun id hid => hu.mem_iff.mp hid
  have hgrants := h.grants.items
  constructor
  · exact h.id ▸ hmono.id
  · exact h.name ▸ hmono.name
  · exact h.volumeID ▸ hmono.volume
  · exact h.relativePath ▸ hmono.path
  · exact hgrants.length_eq ▸ hmono.granted
  · exact hgrants.length_eq ▸ hmono.counted
  · exact fun g hg => hmono.grants g (hgrants.mem_iff.mpr hg)
  · exact (hgrants.map _).nodup_iff.mp hmono.grantees

/-- A sound policy is sound in every order. -/
theorem SharesReordered.sound (h : SharesReordered c d) (hc : Sound c) : Sound d := by
  have hv := h.volumes.items
  have hu := h.users.items
  have hs := h.shares.items
  constructor
  · exact h.format ▸ hc.format
  · exact h.schema ▸ hc.schema
  · exact h.revision ▸ hc.revision
  · rw [← h.volumes.present, ← h.users.present, ← h.shares.present]
    exact hc.present
  · rw [← hv.length_eq, ← hu.length_eq, ← hs.length_eq]
    exact hc.counted
  · exact fun v hmem => hc.volumes v (hv.mem_iff.mpr hmem)
  · exact (hv.map _).nodup_iff.mp hc.volumeIDs
  · exact (hv.map _).nodup_iff.mp hc.volumeUUIDs
  · exact fun u hmem => hc.users u (hu.mem_iff.mpr hmem)
  · exact (hu.map _).nodup_iff.mp hc.userIDs
  · exact (hu.map _).nodup_iff.mp hc.userNames
  · exact hs.forall (fun s t hst => hst.good (hv.map _) (hu.map _)) hc.shares
  · exact (hs.map_perm fun s t hst => hst.id).nodup_iff.mp hc.shareIDs
  · exact (hs.map_perm fun s t hst => congrArg toLower hst.name).nodup_iff.mp hc.shareNames

theorem length_slice (codec : Codec α) {s t : Slice α} (hsome : s.isSome = t.isSome)
    (h : (s.items.map fun a => (codec.write a).render.length).Perm (t.items.map fun a =>
      (codec.write a).render.length)) :
    ((Codec.slice codec).write s).render.length = ((Codec.slice codec).write t).render.length := by
  cases s with
  | none =>
    cases t with
    | none => rfl
    | some l' => cases hsome
  | some l =>
    cases t with
    | none => cases hsome
    | some l' =>
      have hlen : l.length = l'.length := by simpa using h.length_eq
      have hnil : l.map codec.write = [] ↔ l'.map codec.write = [] := by
        rw [List.map_eq_nil_iff, List.map_eq_nil_iff, ← List.length_eq_zero_iff, hlen,
          List.length_eq_zero_iff]
      have hsum := (h.map (· + 1)).sum_eq
      simp only [Slice.items_some, List.map_map, Function.comp_def] at hsum
      simp only [Codec.slice, length_arr, List.map_map, Function.comp_def, hsum, hnil]

theorem length_share (h : SameShare s t) :
    (Share.codec.write s).render.length = (Share.codec.write t).render.length := by
  have hgrants := length_slice Grant.codec h.grants.present (h.grants.items.map _)
  apply length_struct
  simp [Field.of, h.id, h.name, h.volumeID, h.relativePath, hgrants]

theorem SharesReordered.length_marshal (h : SharesReordered c d) :
    c.marshal.length = d.marshal.length := by
  have hvolumes := length_slice Volume.codec h.volumes.present (h.volumes.items.map _)
  have husers := length_slice User.codec h.users.present (h.users.items.map _)
  have hshares := length_slice Share.codec h.shares.present
    (h.shares.items.map_perm fun s t hst => length_share hst)
  apply length_struct
  simp [Field.of, h.format, h.schema, h.revision, hvolumes, husers, hshares]

def SafeShare (s : Share) : Prop :=
  SmbConfig.unsafeValue s.name = false ∧ SmbConfig.unsafeValue s.relativePath = false ∧
    ∀ part ∈ split s.relativePath 0x2f, trimmed part = true

def resolved (s : Share) : Bytes := joinRooted (SmbConfig.mountPath s.volumeID) s.relativePath

def SharesApart (s t : Share) : Prop :=
  s.volumeID = t.volumeID → SmbConfig.overlaps (resolved s) (resolved t) = false

theorem overlaps_comm (a b : Bytes) : SmbConfig.overlaps a b = SmbConfig.overlaps b a := by
  unfold SmbConfig.overlaps
  rw [Bool.or_assoc, Bool.or_assoc, Bool.or_comm (below a b), BEq.comm]

theorem SharesApart.symm (h : SharesApart s t) : SharesApart t s := by
  intro heq
  rw [overlaps_comm]
  exact h heq.symm

theorem placeShares_iff {i : Nat} {placed : List (Bytes × Bytes)} {ss : List Share} :
    (∃ out, SmbConfig.placeShares false i placed ss = .ok out) ↔
      (∀ s ∈ ss, SafeShare s ∧ ∀ p ∈ placed, p.1 = s.volumeID →
        SmbConfig.overlaps p.2 (resolved s) = false) ∧ ss.Pairwise SharesApart := by
  induction ss generalizing i placed with
  | nil => simp [SmbConfig.placeShares]
  | cons s rest ih =>
    refine Iff.trans ?_ (apart_cons (f := fun s => (s.volumeID, resolved s))).symm
    rw [SmbConfig.placeShares]
    simp only [ite_error_ok, exists_and_left, ih, Bool.false_and, Bool.false_eq_true,
      not_false_eq_true, true_and, Bool.or_eq_true, not_or, Bool.not_eq_true, List.any_eq_false,
      Bool.not_eq_true', Bool.not_eq_false, Bool.and_eq_true, beq_iff_eq, not_and, SafeShare]
    constructor
    · rintro ⟨⟨hname, hpath⟩, hparts, hclear, hrest⟩
      exact ⟨⟨⟨hname, hpath, hparts⟩, hclear⟩, hrest⟩
    · rintro ⟨⟨⟨hname, hpath, hparts⟩, hclear⟩, hrest⟩
      exact ⟨⟨hname, hpath⟩, hparts, hclear, hrest⟩

theorem smbBuild_iff : (∃ placed, SmbConfig.build c false = .ok placed) ↔
    Sound c ∧ c.marshal.length ≤ maxInputBytes ∧ (∀ s ∈ c.shares.items, SafeShare s) ∧
      c.shares.items.Pairwise SharesApart := by
  rw [SmbConfig.build]
  by_cases hsound : Sound c
  · rw [validate_iff.mpr hsound]
    by_cases hlen : c.marshal.length ≤ maxInputBytes
    · simp only [Nat.not_lt.mpr hlen, if_false, placeShares_iff, List.not_mem_nil, false_implies,
        implies_true, and_true, hsound, hlen, true_and]
    · simp only [Nat.not_le.mp hlen, if_true, reduceCtorEq, exists_false, hlen, false_and,
        and_false]
  · cases hv : c.validate with
    | error e => simp only [reduceCtorEq, exists_false, hsound, false_and]
    | ok u => exact absurd (validate_iff.mp hv) hsound

theorem SharesReordered.smbBuild (h : SharesReordered c d)
    (hc : ∃ placed, SmbConfig.build c false = .ok placed) :
    ∃ placed, SmbConfig.build d false = .ok placed := by
  obtain ⟨hsound, hlen, hsafe, hpairs⟩ := smbBuild_iff.mp hc
  refine smbBuild_iff.mpr ⟨h.sound hsound, h.length_marshal ▸ hlen, ?_, ?_⟩
  · refine h.shares.items.forall (fun s t hst hs => ?_) hsafe
    rw [SafeShare, ← hst.name, ← hst.relativePath]
    exact hs
  · refine h.shares.items.pairwise (fun s t => SharesApart.symm) (fun s s' t t' hs ht hap => ?_)
      hpairs
    rw [SharesApart, resolved, resolved, ← hs.volumeID, ← hs.relativePath, ← ht.volumeID,
      ← ht.relativePath]
    exact hap

open NfsConfig (Netip Client Export Policy checkClient ClientsApart ExportsApart ExportGood
  PolicySound policy_validate_iff)

/-- What the standard library says of overlapping prefixes: they have an address in common. -/
structure NetworksOverlap (netip : Netip) : Prop where
  comm : ∀ p q, netip.overlaps p q = netip.overlaps q p
  self : ∀ p, netip.isValid p = true → netip.overlaps p p = true

theorem ipv4_overlap : NetworksOverlap .ipv4 := by
  constructor
  · intro p q
    simp only [Netip.ipv4, Nat.min_comm, BEq.comm]
  · intro p _
    simp [Netip.ipv4]

structure SameExport (e f : Export) : Prop where
  id : e.id = f.id
  volumeID : e.volumeID = f.volumeID
  relativePath : e.relativePath = f.relativePath
  clients : SlicePerm e.clients f.clients

theorem SameExport.symm (h : SameExport e f) : SameExport f e :=
  ⟨h.id.symm, h.volumeID.symm, h.relativePath.symm, h.clients.symm⟩

structure PolicyReordered (p q : Policy) : Prop where
  format : p.format = q.format
  schema : p.schemaVersion = q.schemaVersion
  revision : p.revision = q.revision
  volumeRevision : p.volumeRevision = q.volumeRevision
  exports : SliceReorders SameExport p.exports q.exports

theorem PolicyReordered.symm (h : PolicyReordered p q) : PolicyReordered q p :=
  ⟨h.format.symm, h.schema.symm, h.revision.symm, h.volumeRevision.symm,
    h.exports.symm fun _ _ => SameExport.symm⟩

section Exports

variable {netip : Netip}

theorem nfsOverlaps_comm (a b : Bytes) : NfsConfig.overlaps a b = NfsConfig.overlaps b a := by
  unfold NfsConfig.overlaps
  rw [Bool.or_assoc, Bool.or_assoc, Bool.or_assoc, Bool.or_assoc, Bool.or_comm (below a b),
    @BEq.comm Bytes _ _ a b, Bool.or_left_comm (a == ascii "/")]
  simp only [Bool.or_assoc]

theorem ExportsApart.symm (h : ExportsApart e f) : ExportsApart f e := by
  refine ⟨h.1.symm, fun heq => ?_⟩
  rw [nfsOverlaps_comm]
  exact h.2 heq.symm

theorem ClientsApart.symm (hnet : NetworksOverlap netip) {c d : Client}
    (h : ClientsApart netip c d) : ClientsApart netip d c := by
  intro p q hp hq
  rw [hnet.comm]
  exact h q p hq hp

theorem SameExport.good (hnet : NetworksOverlap netip) {known known' : List Bytes}
    (hk : known.Perm known') (h : SameExport e f) (he : ExportGood netip known e) :
    ExportGood netip known' f := by
  have hclients := h.clients.items
  constructor
  · exact h.id ▸ he.id
  · exact hk.mem_iff.mp (h.volumeID ▸ he.volume)
  · exact h.relativePath ▸ he.path
  · exact hclients.length_eq ▸ he.served
  · exact hclients.length_eq ▸ he.counted
  · exact fun c hc => he.clients c (hclients.mem_iff.mpr hc)
  · exact (hclients.pairwise_iff fun {c d} hcd => ClientsApart.symm hnet hcd).mp he.networks

theorem length_export (h : SameExport e f) :
    (Export.codec.write e).render.length = (Export.codec.write f).render.length := by
  have hclients := length_slice Client.codec h.clients.present (h.clients.items.map _)
  apply length_struct
  simp [Field.of, h.id, h.volumeID, h.relativePath, hclients]

theorem PolicyReordered.length_marshal (h : PolicyReordered p q) :
    p.marshal.length = q.marshal.length := by
  have hexports := length_slice Export.codec h.exports.present
    (h.exports.items.map_perm fun e f hef => length_export hef)
  apply length_struct
  simp [Field.of, h.format, h.schema, h.revision, h.volumeRevision, hexports]

theorem PolicyReordered.sound (hnet : NetworksOverlap netip) (h : PolicyReordered p q)
    (hcd : SharesReordered c d) (hp : PolicySound netip p c) : PolicySound netip q d := by
  have hexports := h.exports.items
  constructor
  · exact h.format ▸ hp.format
  · exact h.schema ▸ hp.schema
  · exact h.revision ▸ hp.revision
  · rw [← h.volumeRevision, ← hcd.revision]
    exact hp.bound
  · exact h.exports.present ▸ hp.present
  · exact hexports.length_eq ▸ hp.counted
  · exact hexports.forall (fun e f hef => hef.good hnet (hcd.volumes.items.map _)) hp.exports
  · refine hexports.pairwise (fun e f => ExportsApart.symm) (fun e e' f f' he hf hap => ?_) hp.apart
    rw [ExportsApart, ← he.id, ← hf.id, ← he.volumeID, ← hf.volumeID, ← he.relativePath,
      ← hf.relativePath]
    exact hap
  · exact h.length_marshal ▸ hp.size

end Exports

structure Reordered (c d : FileService.Config) : Prop where
  format : c.format = d.format
  schema : c.schemaVersion = d.schemaVersion
  revision : c.revision = d.revision
  shares : SharesReordered c.shares d.shares
  nfs : PolicyReordered c.nfs d.nfs

theorem Reordered.symm {c d : FileService.Config} (h : Reordered c d) : Reordered d c :=
  ⟨h.format.symm, h.schema.symm, h.revision.symm, h.shares.symm, h.nfs.symm⟩

theorem build_iff {netip : Netip} {shares : Config} {nfs : Policy} :
    FileService.build netip shares nfs = .ok () ↔
      (∃ placed, SmbConfig.build shares false = .ok placed) ∧ PolicySound netip nfs shares := by
  rw [FileService.build]
  cases hs : SmbConfig.build shares false with
  | error e => simp
  | ok placed =>
    have hsound := (smbBuild_iff.mp ⟨placed, hs⟩).1
    cases hn : nfs.validate netip shares with
    | error e =>
      simp only [reduceCtorEq, Except.ok.injEq, exists_eq', true_and, false_iff]
      intro h
      rw [policy_validate_iff.mpr ⟨hsound, h⟩] at hn
      cases hn
    | ok u => simp [(policy_validate_iff.mp hn).2]

/-- Acceptance does not depend on the order. -/
theorem Reordered.validate {netip : Netip} (hnet : NetworksOverlap netip)
    {c d : FileService.Config} (h : Reordered c d) (hc : c.validate netip = true) :
    d.validate netip = true := by
  simp only [FileService.Config.validate, Bool.and_eq_true, beq_iff_eq, bne_iff_ne, ne_eq,
    build_iff] at hc ⊢
  rw [← h.format, ← h.schema, ← h.revision, ← h.shares.revision, ← h.nfs.revision,
    ← h.nfs.volumeRevision]
  exact ⟨hc.1, h.shares.smbBuild hc.2.1, h.nfs.sound hnet h.shares hc.2.2⟩

end PolicyOrder
