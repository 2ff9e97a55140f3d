import PhantoWD.Checks
import PhantoWD.PrefixCode
import PhantoWD.ServicePreview

/-!
The storage owner hands over what it observed of every mounted volume. The snapshot is checked
against the policy's volumes and is fingerprinted through an encoding that sorts the volumes
first.
-/
namespace StorageEvidence

open GoText ShareConfig KeyedLists PolicyOrder ServicePreview PrefixCode

structure Digest where
  bytes : Bytes
  size : bytes.length = 32
  deriving DecidableEq

def Digest.zero : Digest := ⟨List.replicate 32 0, by decide⟩

inductive PlanError where
  | invalidPolicy
  | notReady
  | invalidEvidence
  deriving DecidableEq

def compatibilityQualified : Bytes := ascii "qualified"
def compatibilityUnqualified : Bytes := ascii "unqualified"
def maxObservedVolumes : Nat := maxVolumes

structure ObservedVolume where
  volumeID : Bytes
  filesystemUUID : Bytes
  mountPath : Bytes
  compatibility : Bytes
  mountID : UInt64
  deviceMajor : UInt32
  deviceMinor : UInt32
  readOnly : Bool
  deriving DecidableEq

def ObservedVolume.device (v : ObservedVolume) : UInt32 × UInt32 := (v.deviceMajor, v.deviceMinor)

structure StorageSnapshot where
  complete : Bool
  generation : UInt64
  ownerFingerprint : Digest
  volumes : Slice ObservedVolume
  deriving DecidableEq

def encodeVolume (v : ObservedVolume) : Bytes :=
  text v.volumeID ++ (text v.filesystemUUID ++ (text v.mountPath ++ (text v.compatibility ++
    (word v.mountID ++ (word v.deviceMajor.toUInt64 ++ (word v.deviceMinor.toUInt64 ++
      flag v.readOnly))))))

def sortedVolumes (s : Sorter) (snapshot : StorageSnapshot) : List ObservedVolume :=
  s.run ObservedVolume.volumeID snapshot.volumes.items

def encodeSnapshot (s : Sorter) (snapshot : StorageSnapshot) : Bytes :=
  word snapshot.generation ++ (snapshot.ownerFingerprint.bytes ++ (flag snapshot.complete ++
    (word (UInt64.ofNat snapshot.volumes.items.length) ++
      (sortedVolumes s snapshot).flatMap encodeVolume)))

def fingerprintStorageSnapshot (sha256 : Bytes → Digest) (s : Sorter)
    (snapshot : StorageSnapshot) : Digest :=
  sha256 (encodeSnapshot s snapshot)

structure Addressable (v : ObservedVolume) : Prop where
  volumeID : v.volumeID.length < 2 ^ 63
  filesystemUUID : v.filesystemUUID.length < 2 ^ 63
  mountPath : v.mountPath.length < 2 ^ 63
  compatibility : v.compatibility.length < 2 ^ 63

theorem texts_delimit {v w : ObservedVolume} {s t : Bytes} (hv : Addressable v)
    (hw : Addressable w)
    (h : text v.volumeID ++ (text v.filesystemUUID ++ (text v.mountPath ++
        (text v.compatibility ++ s))) =
      text w.volumeID ++ (text w.filesystemUUID ++ (text w.mountPath ++
        (text w.compatibility ++ t)))) :
    (v.volumeID = w.volumeID ∧ v.filesystemUUID = w.filesystemUUID ∧
      v.mountPath = w.mountPath ∧ v.compatibility = w.compatibility) ∧ s = t := by
  have hlt : ∀ {n : Nat}, n < 2 ^ 63 → n < 2 ^ 64 := fun h => h.trans (by decide)
  obtain ⟨h1, h⟩ := text_delimits _ _ _ _ (hlt hv.volumeID) (hlt hw.volumeID) h
  obtain ⟨h2, h⟩ := text_delimits _ _ _ _ (hlt hv.filesystemUUID) (hlt hw.filesystemUUID) h
  obtain ⟨h3, h⟩ := text_delimits _ _ _ _ (hlt hv.mountPath) (hlt hw.mountPath) h
  obtain ⟨h4, h⟩ := text_delimits _ _ _ _ (hlt hv.compatibility) (hlt hw.compatibility) h
  exact ⟨⟨h1, h2, h3, h4⟩, h⟩

theorem numbers_delimit {v w : ObservedVolume} {s t : Bytes}
    (h : word v.mountID ++ (word v.deviceMajor.toUInt64 ++ (word v.deviceMinor.toUInt64 ++
        (flag v.readOnly ++ s))) =
      word w.mountID ++ (word w.deviceMajor.toUInt64 ++ (word w.deviceMinor.toUInt64 ++
        (flag w.readOnly ++ t)))) :
    (v.mountID = w.mountID ∧ v.deviceMajor = w.deviceMajor ∧ v.deviceMinor = w.deviceMinor ∧
      v.readOnly = w.readOnly) ∧ s = t := by
  have hwiden : ∀ {a b : UInt32}, a.toUInt64 = b.toUInt64 → a = b := by
    intro a b hab
    have := congrArg UInt64.toNat hab
    rwa [UInt32.toNat_toUInt64, UInt32.toNat_toUInt64, UInt32.toNat_inj] at this
  obtain ⟨h1, h⟩ := word_delimits _ _ _ _ trivial trivial h
  obtain ⟨h2, h⟩ := word_delimits _ _ _ _ trivial trivial h
  obtain ⟨h3, h⟩ := word_delimits _ _ _ _ trivial trivial h
  obtain ⟨h4, h⟩ := flag_delimits _ _ _ _ trivial trivial h
  exact ⟨⟨h1, hwiden h2, hwiden h3, h4⟩, h⟩

theorem ObservedVolume.eq_of_parts {v w : ObservedVolume}
    (htexts : v.volumeID = w.volumeID ∧ v.filesystemUUID = w.filesystemUUID ∧
      v.mountPath = w.mountPath ∧ v.compatibility = w.compatibility)
    (hnumbers : v.mountID = w.mountID ∧ v.deviceMajor = w.deviceMajor ∧
      v.deviceMinor = w.deviceMinor ∧ v.readOnly = w.readOnly) : v = w := by
  cases v
  cases w
  simp_all

theorem encodeVolume_delimits : Delimits Addressable encodeVolume := by
  intro v w s t hv hw h
  simp only [encodeVolume, List.append_assoc] at h
  obtain ⟨htexts, h⟩ := texts_delimit hv hw h
  obtain ⟨hnumbers, h⟩ := numbers_delimit h
  exact ⟨ObservedVolume.eq_of_parts htexts hnumbers, h⟩

def Holdable (snapshot : StorageSnapshot) : Prop :=
  snapshot.volumes.items.length < 2 ^ 63 ∧ ∀ v ∈ snapshot.volumes.items, Addressable v

variable {a b : StorageSnapshot}

/-- The encoding determines the snapshot up to the order of its volumes. -/
theorem encodeSnapshot_eq {s s' : Sorter} (ha : Holdable a) (hb : Holdable b)
    (h : encodeSnapshot s a = encodeSnapshot s' b) :
    a.generation = b.generation ∧ a.ownerFingerprint = b.ownerFingerprint ∧
      a.complete = b.complete ∧ a.volumes.items.Perm b.volumes.items := by
  obtain ⟨hgeneration, h⟩ := word_delimits _ _ _ _ trivial trivial h
  obtain ⟨howner, h⟩ := List.append_inj h
    (a.ownerFingerprint.size.trans b.ownerFingerprint.size.symm)
  obtain ⟨hcomplete, h⟩ := flag_delimits _ _ _ _ trivial trivial h
  obtain ⟨hcount, h⟩ := word_delimits _ _ _ _ trivial trivial h
  have hlen : a.volumes.items.length = b.volumes.items.length := by
    have := congrArg UInt64.toNat hcount
    rwa [UInt64.toNat_ofNat_of_lt' (ha.1.trans (by decide)),
      UInt64.toNat_ofNat_of_lt' (hb.1.trans (by decide))] at this
  have hlist : sortedVolumes s a = sortedVolumes s' b := by
    refine (flatMap_delimits (s := []) (t := []) encodeVolume_delimits ?_ ?_ ?_ ?_).1
    · rw [sortedVolumes, sortedVolumes, (s.perm _ _).length_eq, (s'.perm _ _).length_eq, hlen]
    · exact fun v hv => ha.2 v (s.mem_run.mp hv)
    · exact fun v hv => hb.2 v (s'.mem_run.mp hv)
    · rw [List.append_nil, List.append_nil]
      exact h
  refine ⟨hgeneration, ?_, hcomplete, ?_⟩
  · cases ha' : a.ownerFingerprint
    cases hb' : b.ownerFingerprint
    rw [ha', hb'] at howner
    simpa using howner
  · have hsorted : (sortedVolumes s a).Perm b.volumes.items := hlist ▸ s'.perm _ _
    exact (s.perm _ _).symm.trans hsorted

/-- A one-volume policy, and an ID that is a path element. -/
def validateLogicalVolume (id uuid : Bytes) : Bool :=
  Config.validate ⟨formatName, 1, 1, some [⟨id, uuid⟩], some [], some []⟩ == .ok () &&
    pathClean id == id && !id.contains 0x2f

def acceptable (known : List Bytes) (v : ObservedVolume) : Bool :=
  known.contains v.volumeID && v.mountID != 0 && v.deviceMajor != 0 &&
    v.mountPath == joinRooted volumeMountRoot v.volumeID &&
    (v.compatibility == compatibilityQualified || v.compatibility == compatibilityUnqualified) &&
    validateLogicalVolume v.volumeID v.filesystemUUID

def scanVolumes (known : List Bytes) (ids uuids : List Bytes) (mounts : List UInt64)
    (devices : List (UInt32 × UInt32)) : List ObservedVolume → Except PlanError Unit
  | [] => .ok ()
  | v :: rest =>
    if acceptable known v = false ∨ v.volumeID ∈ ids ∨ v.filesystemUUID ∈ uuids ∨
        v.mountID ∈ mounts ∨ v.device ∈ devices then .error .invalidEvidence
    else scanVolumes known (v.volumeID :: ids) (v.filesystemUUID :: uuids) (v.mountID :: mounts)
      (v.device :: devices) rest

def validateStorageSnapshot (snapshot : StorageSnapshot) (policy : Config) :
    Except PlanError Unit :=
  if snapshot.complete = false ∨ snapshot.generation = 0 ∨ snapshot.volumes = none ∨
      maxObservedVolumes < snapshot.volumes.items.length then .error .notReady
  else scanVolumes (policy.volumes.items.map Volume.id) [] [] [] [] snapshot.volumes.items

theorem scanVolumes_iff {known ids uuids : List Bytes} {mounts : List UInt64}
    {devices : List (UInt32 × UInt32)} {vs : List ObservedVolume} :
    scanVolumes known ids uuids mounts devices vs = .ok () ↔
      (∀ v ∈ vs, acceptable known v = true) ∧ Fresh ObservedVolume.volumeID ids vs ∧
        Fresh ObservedVolume.filesystemUUID uuids vs ∧ Fresh ObservedVolume.mountID mounts vs ∧
        Fresh ObservedVolume.device devices vs := by
  induction vs generalizing ids uuids mounts devices with
  | nil => simp [scanVolumes, fresh_nil]
  | cons v rest ih =>
    rw [scanVolumes, List.forall_mem_cons, fresh_cons, fresh_cons, fresh_cons, fresh_cons]
    by_cases hbad : acceptable known v = false ∨ v.volumeID ∈ ids ∨ v.filesystemUUID ∈ uuids ∨
        v.mountID ∈ mounts ∨ v.device ∈ devices
    · rw [if_pos hbad]
      simp only [reduceCtorEq, false_iff]
      rintro ⟨⟨hgood, -⟩, ⟨hid, -⟩, ⟨huuid, -⟩, ⟨hmount, -⟩, hdevice, -⟩
      rcases hbad with hbad | hbad | hbad | hbad | hbad
      · rw [hgood] at hbad
        cases hbad
      · exact hid hbad
      · exact huuid hbad
      · exact hmount hbad
      · exact hdevice hbad
    · rw [if_neg hbad, ih]
      push Not at hbad
      obtain ⟨hgood, hid, huuid, hmount, hdevice⟩ := hbad
      rw [ne_eq, Bool.not_eq_false] at hgood
      simp only [hgood, hid, huuid, hmount, hdevice, not_false_eq_true, true_and]

structure Observed (snapshot : StorageSnapshot) (policy : Config) : Prop where
  complete : snapshot.complete = true
  generation : snapshot.generation ≠ 0
  present : snapshot.volumes.isSome = true
  counted : snapshot.volumes.items.length ≤ maxObservedVolumes
  volumes : ∀ v ∈ snapshot.volumes.items,
    acceptable (policy.volumes.items.map Volume.id) v = true
  ids : (snapshot.volumes.items.map ObservedVolume.volumeID).Nodup
  uuids : (snapshot.volumes.items.map ObservedVolume.filesystemUUID).Nodup
  mounts : (snapshot.volumes.items.map ObservedVolume.mountID).Nodup
  devices : (snapshot.volumes.items.map ObservedVolume.device).Nodup

/-- Evidence is accepted exactly when every volume was observed as listed. -/
theorem validateStorageSnapshot_iff {snapshot : StorageSnapshot} {policy : Config} :
    validateStorageSnapshot snapshot policy = .ok () ↔ Observed snapshot policy := by
  rw [validateStorageSnapshot]
  by_cases hbad : snapshot.complete = false ∨ snapshot.generation = 0 ∨
      snapshot.volumes = none ∨ maxObservedVolumes < snapshot.volumes.items.length
  · rw [if_pos hbad]
    simp only [reduceCtorEq, false_iff]
    intro h
    rcases hbad with hbad | hbad | hbad | hbad
    · rw [h.complete] at hbad
      cases hbad
    · exact h.generation hbad
    · exact Option.isSome_iff_ne_none.mp h.present hbad
    · exact Nat.not_lt.mpr h.counted hbad
  · rw [if_neg hbad, scanVolumes_iff]
    simp only [fresh_start]
    push Not at hbad
    constructor
    · rintro ⟨hall, hids, huuids, hmounts, hdevices⟩
      exact ⟨Bool.eq_true_of_not_eq_false hbad.1, hbad.2.1,
        Option.isSome_iff_ne_none.mpr hbad.2.2.1, hbad.2.2.2, hall, hids, huuids, hmounts,
        hdevices⟩
    · exact fun h => ⟨h.volumes, h.ids, h.uuids, h.mounts, h.devices⟩

structure SnapshotReordered (a b : StorageSnapshot) : Prop where
  complete : a.complete = b.complete
  generation : a.generation = b.generation
  owner : a.ownerFingerprint = b.ownerFingerprint
  volumes : SlicePerm a.volumes b.volumes

theorem SnapshotReordered.symm (h : SnapshotReordered a b) :
    SnapshotReordered b a :=
  ⟨h.complete.symm, h.generation.symm, h.owner.symm, h.volumes.symm⟩

theorem acceptable_congr {known known' : List Bytes} (hk : known.Perm known')
    (v : ObservedVolume) : acceptable known v = acceptable known' v := by
  unfold acceptable
  simp only [List.contains_eq_mem, hk.mem_iff]

theorem SnapshotReordered.observed {c d : Config} (h : SnapshotReordered a b)
    (hcd : SharesReordered c d) (ha : Observed a c) :
    Observed b d := by
  have hv := h.volumes.items
  constructor
  · exact h.complete ▸ ha.complete
  · exact h.generation ▸ ha.generation
  · exact h.volumes.present ▸ ha.present
  · exact hv.length_eq ▸ ha.counted
  · intro v hmem
    rw [← acceptable_congr (hcd.volumes.items.map _)]
    exact ha.volumes v (hv.mem_iff.mpr hmem)
  · exact (hv.map _).nodup_iff.mp ha.ids
  · exact (hv.map _).nodup_iff.mp ha.uuids
  · exact (hv.map _).nodup_iff.mp ha.mounts
  · exact (hv.map _).nodup_iff.mp ha.devices

theorem SnapshotReordered.fingerprint {s s' : Sorter} {c : Config} {sha256 : Bytes → Digest}
    (h : SnapshotReordered a b) (ha : Observed a c) :
    fingerprintStorageSnapshot sha256 s a = fingerprintStorageSnapshot sha256 s' b := by
  unfold fingerprintStorageSnapshot encodeSnapshot sortedVolumes
  rw [h.generation, h.owner, h.complete, h.volumes.items.length_eq,
    sort_keyed s s' h.volumes.items ha.ids]

end StorageEvidence
