import PhantoWD.NasPolicy
import PhantoWD.PathOverlap

/-!
Validation walks the entries with maps of different scope. What it asks of the whole document is
a condition on the entries and on the keys they use, which does not depend on the order the
entries are written in.
-/
namespace IscsiOrder

open GoText GoJson JsonStruct KeyedLists PolicyOrder PathOverlap IscsiPolicy

structure SamePeer (a b : Initiator) : Prop where
  name : a.name = b.name
  authentication : a.authentication = b.authentication
  grants : SlicePerm a.grants b.grants

structure SameTarget (t u : Target) : Prop where
  id : t.id = u.id
  name : t.name = u.name
  state : t.state = u.state
  luns : SlicePerm t.luns u.luns
  initiators : SliceReorders SamePeer t.initiators u.initiators

/-- The same policy with backings, targets, units, initiators and grants in another order. -/
structure Reordered (p q : Policy) : Prop where
  format : p.format = q.format
  schema : p.schemaVersion = q.schemaVersion
  revision : p.revision = q.revision
  bound : p.volumeRevision = q.volumeRevision
  backings : SlicePerm p.backings q.backings
  targets : SliceReorders SameTarget p.targets q.targets

variable {b a : Initiator} {t u : Target} {p q : Policy}

theorem SamePeer.symm (h : SamePeer a b) : SamePeer b a :=
  ⟨h.name.symm, h.authentication.symm, h.grants.symm⟩

theorem SameTarget.symm (h : SameTarget t u) : SameTarget u t :=
  ⟨h.id.symm, h.name.symm, h.state.symm, h.luns.symm, h.initiators.symm fun _ _ => SamePeer.symm⟩

theorem Reordered.symm (h : Reordered p q) : Reordered q p :=
  ⟨h.format.symm, h.schema.symm, h.revision.symm, h.bound.symm, h.backings.symm,
    h.targets.symm fun _ _ => SameTarget.symm⟩

theorem targetModes_lookup (hn : (t.luns.items.map LUN.id).Nodup) {k v : Bytes} :
    (targetModes t).lookup k = some v ↔ ∃ l ∈ t.luns.items, l.id = k ∧ l.access = v := by
  have hkeys : ((targetModes t).map Prod.fst).Nodup := by
    simpa [targetModes, saw_eq, Function.comp_def] using hn
  rw [lookup_iff_mem hkeys]
  simp [targetModes, saw_eq]

theorem SamePeer.good (ht : SameTarget t u) (hn : (t.luns.items.map LUN.id).Nodup)
    (h : SamePeer a b) (ha : PeerGood (targetModes t) a) : PeerGood (targetModes u) b := by
  have hmodes : ∀ k v, (targetModes t).lookup k = some v → (targetModes u).lookup k = some v := by
    intro k v hlook
    rw [targetModes_lookup hn] at hlook
    rw [targetModes_lookup ((ht.luns.items.map _).nodup_iff.mp hn)]
    obtain ⟨l, hl, hkey⟩ := hlook
    exact ⟨l, ht.luns.items.mem_iff.mp hl, hkey⟩
  have hlen := h.grants.items.length_eq
  refine ⟨h.name ▸ ha.name, h.authentication ▸ ha.authentication, hlen ▸ ha.granted,
    hlen ▸ ha.counted, fun g hg => ?_, (h.grants.items.map _).nodup_iff.mp ha.units⟩
  obtain ⟨haccess, mode, hmode, hro⟩ := ha.grants g (h.grants.items.mem_iff.mpr hg)
  exact ⟨haccess, mode, hmodes _ _ hmode, hro⟩

theorem SameTarget.good {ids ids' : List Bytes} (hids : ∀ id ∈ ids, id ∈ ids')
    (h : SameTarget t u) (hn : (t.luns.items.map LUN.id).Nodup) (ht : TargetGood ids t) :
    TargetGood ids' u := by
  have hluns := h.luns.items.length_eq
  have hpeers := h.initiators.items.length_eq
  refine ⟨h.id ▸ ht.id, h.name ▸ ht.name, h.state ▸ ht.state, hluns ▸ ht.units,
    hpeers ▸ ht.peers, fun l hl => ?_, (h.luns.items.map _).nodup_iff.mp ht.numbers, ?_, ?_⟩
  · have hgood := ht.luns l (h.luns.items.mem_iff.mpr hl)
    exact ⟨hgood.id, hids _ hgood.backing, hgood.access⟩
  · exact h.initiators.items.forall (fun a b hab ha => hab.good h hn ha) ht.initiators
  · exact (h.initiators.items.map_perm fun a b hab => hab.name).nodup_iff.mp ht.names

theorem length_peer (h : SamePeer a b) :
    (Initiator.codec.write a).render.length = (Initiator.codec.write b).render.length := by
  have hgrants := length_slice Grant.codec h.grants.present (h.grants.items.map _)
  apply length_struct
  simp [Field.of, h.name, h.authentication, hgrants]

theorem length_target (h : SameTarget t u) :
    (Target.codec.write t).render.length = (Target.codec.write u).render.length := by
  have hluns := length_slice LUN.codec h.luns.present (h.luns.items.map _)
  have hpeers := length_slice Initiator.codec h.initiators.present
    (h.initiators.items.map_perm fun a b hab => length_peer hab)
  apply length_struct
  simp [Field.of, h.id, h.name, h.state, hluns, hpeers]

theorem Reordered.length_marshal (h : Reordered p q) : p.marshal.length = q.marshal.length := by
  have hbackings := length_slice Backing.codec h.backings.present (h.backings.items.map _)
  have htargets := length_slice Target.codec h.targets.present
    (h.targets.items.map_perm fun t u htu => length_target htu)
  apply length_struct
  simp [Field.of, h.format, h.schema, h.revision, h.bound, hbackings, htargets]

theorem BackingsApart.symm {a b : Backing} (h : BackingsApart a b) : BackingsApart b a := by
  refine ⟨h.1.symm, fun heq => ?_⟩
  have hfree := h.2 heq.symm
  rw [pathOverlap, Bool.or_assoc, Bool.or_comm (below _ _), ← Bool.or_assoc, BEq.comm]
  exact hfree

variable {volumes : ShareConfig.Config}

theorem targetUnits_nodup (h : Sound p volumes) (ht : t ∈ p.targets.items) :
    (t.luns.items.map LUN.id).Nodup := by
  have hall := h.lunIDs
  rw [units, List.map_flatMap, List.nodup_flatMap] at hall
  exact hall.1 t ht

/-- Soundness is a condition on entries and keys, so no order matters. -/
theorem Reordered.sound (h : Reordered p q) (hp : Sound p volumes) : Sound q volumes := by
  have hids : ∀ id ∈ p.backings.items.map Backing.id, id ∈ q.backings.items.map Backing.id :=
    fun id => (h.backings.items.map Backing.id).mem_iff.mp
  have hunits : (units p).Perm (units q) :=
    h.targets.items.flatMap_perm fun t u htu => htu.luns.items
  have hsecrets : (secrets p).Perm (secrets q) := by
    refine h.targets.items.flatMap_perm fun t u htu => ?_
    refine htu.initiators.items.flatMap_perm fun a b hab => ?_
    rw [peerSecrets, peerSecrets, hab.authentication]
  refine ⟨hp.shared, h.format ▸ hp.format, h.schema ▸ hp.schema, h.revision ▸ hp.revision,
    h.bound ▸ hp.bound, ?_, ?_, ?_, ?_, ?_, ?_, ?_, (hunits.map _).nodup_iff.mp hp.lunIDs,
    (hunits.map _).nodup_iff.mp hp.used, ?_, hsecrets.nodup_iff.mp hp.secrets,
    h.length_marshal ▸ hp.size⟩
  · rw [← h.backings.present, ← h.targets.present]
    exact hp.present
  · rw [← h.backings.items.length_eq, ← h.targets.items.length_eq]
    exact hp.counted
  · exact fun b hb => hp.backings b (h.backings.items.mem_iff.mpr hb)
  · exact (h.backings.items.pairwise_iff fun {a b} => BackingsApart.symm).mp hp.apart
  · intro u hu
    obtain ⟨t, ht, htu⟩ := h.targets.items.exists_left hu
    exact htu.good hids (targetUnits_nodup hp ht) (hp.targets t ht)
  · exact (h.targets.items.map_perm fun t u htu => htu.id).nodup_iff.mp hp.targetIDs
  · exact (h.targets.items.map_perm fun t u htu => htu.name).nodup_iff.mp hp.names
  · rw [← hunits.length_eq, ← h.backings.items.length_eq]
    exact hp.all

structure Exclusive (p : Policy) : Prop where
  backed : ∀ b ∈ p.backings.items, ((units p).map LUN.backingID).count b.id = 1
  known : ∀ l ∈ units p, l.backingID ∈ p.backings.items.map Backing.id
  separate : Separate Backing.volumeID Backing.relativePath p.backings.items
  unitIDs : ((units p).map LUN.id).Nodup
  numbers : ∀ t ∈ p.targets.items, (t.luns.items.map LUN.number).Nodup
  secrets : (secrets p).Nodup
  grants : ∀ t ∈ p.targets.items, ∀ peer ∈ t.initiators.items, ∀ g ∈ peer.grants.items,
    ∃ l ∈ t.luns.items, l.id = g.lunID ∧
      (g.access = l.access ∨ g.access = ascii "ro" ∧ l.access = ascii "rw")
  capacity : ∀ b ∈ p.backings.items, 0 < b.capacityBytes.toNat ∧
    b.blockSize.toNat ∣ b.capacityBytes.toNat ∧ b.capacityBytes.toNat ≤ 2 ^ 63 - 1

theorem access_cases {s : Bytes} (h : access s = true) : s = ascii "ro" ∨ s = ascii "rw" := by
  simpa [access] using h

/-- As many units as backings, no backing used twice: every backing is used once. -/
theorem used_perm (h : Sound p volumes) :
    ((units p).map LUN.backingID).Perm (p.backings.items.map Backing.id) := by
  have hsub : (units p).map LUN.backingID ⊆ p.backings.items.map Backing.id := by
    intro id hid
    obtain ⟨l, hl, rfl⟩ := List.mem_map.mp hid
    obtain ⟨t, ht, hlt⟩ := List.mem_flatMap.mp hl
    exact ((h.targets t ht).luns l hlt).backing
  refine (h.used.subperm hsub).perm_of_length_le ?_
  rw [List.length_map, List.length_map, h.all]

theorem exclusive_of_sound (h : Sound p volumes) :
    Exclusive p where
  backed b hb :=
    List.count_eq_one_of_mem h.used ((used_perm h).mem_iff.mpr (List.mem_map_of_mem hb))
  known l hl := (used_perm h).mem_iff.mp (List.mem_map_of_mem hl)
  separate := backings_separate (validate_iff.mpr h)
  unitIDs := h.lunIDs
  numbers t ht := (h.targets t ht).numbers
  secrets := h.secrets
  grants t ht peer hpeer g hg := by
    obtain ⟨haccess, mode, hmode, hro⟩ := ((h.targets t ht).initiators peer hpeer).grants g hg
    obtain ⟨l, hl, hid, rfl⟩ := (targetModes_lookup (targetUnits_nodup h ht)).mp hmode
    refine ⟨l, hl, hid, ?_⟩
    rcases access_cases ((h.targets t ht).luns l hl).access with hl | hl
    · exact .inl ((hro hl).trans hl.symm)
    · rcases access_cases haccess with hg | hg
      · exact .inr ⟨hg, hl⟩
      · exact .inl (hg.trans hl.symm)
  capacity b hb := by
    have hgood := h.backings b hb
    have hblock : 0 < b.blockSize.toNat := by
      rcases hgood.block with heq | heq <;> rw [heq] <;> decide
    exact ⟨hblock.trans_le hgood.least, Nat.dvd_of_mod_eq_zero hgood.whole,
      Nat.le_pred_of_lt hgood.most⟩

/-- An accepted policy shares no backing, unit or secret and grants no more than its units
allow, and the order of its entries does not decide whether it is accepted. -/
theorem accepted_policy_exclusive (volumes : ShareConfig.Config) :
    (∀ p : Policy, p.validate volumes = true → Exclusive p) ∧
      ∀ p q : Policy, Reordered p q → p.validate volumes = q.validate volumes := by
  refine ⟨fun p hp => exclusive_of_sound (validate_iff.mp hp), fun p q h => ?_⟩
  rw [Bool.eq_iff_iff, validate_iff, validate_iff]
  exact ⟨h.sound, h.symm.sound⟩

theorem sample_policy_exclusive :
    (NasPolicy.sampleIscsi 7).validate (NasPolicy.sampleShares 7) = true ∧
      Exclusive (NasPolicy.sampleIscsi 7) := by
  have hvalid : (NasPolicy.sampleIscsi 7).validate (NasPolicy.sampleShares 7) = true := by
    decide +kernel
  exact ⟨hvalid, (accepted_policy_exclusive _).1 _ hvalid⟩

end IscsiOrder
