import Mathlib.Data.List.AList
import PhantoWD.NfsConfig
import PhantoWD.SmbConfig

/-!
One revision of share and export policy. Validation is the acceptance of both previews plus
the equality of the four revision bindings; the decoder splits the document and hands each
part to its own strict decoder.
-/
namespace FileService

open GoText GoJson ConfigJson JsonStruct
open NfsConfig (Netip)

def formatName : Bytes := ascii "phantowd-file-service-config"
def maxInputBytes : Nat := ShareConfig.maxInputBytes + NfsConfig.maxInputBytes + 256
def maxConfigBytes : Nat := maxInputBytes + 256

structure Config where
  format : Bytes
  schemaVersion : Int
  revision : UInt64
  shares : ShareConfig.Config
  nfs : NfsConfig.Policy
  deriving DecidableEq

def Config.codec : Codec Config :=
  .struct ⟨[], 0, 0, ShareConfig.Config.codec.zero, NfsConfig.Policy.codec.zero⟩
    [.of (ascii "format") .string Config.format fun a s => { s with format := a },
      .of (ascii "schema_version") .int Config.schemaVersion
        fun a s => { s with schemaVersion := a },
      .of (ascii "revision") .uint64 Config.revision fun a s => { s with revision := a },
      .of (ascii "shares") ShareConfig.Config.codec Config.shares
        fun a s => { s with shares := a },
      .of (ascii "nfs") NfsConfig.Policy.codec Config.nfs fun a s => { s with nfs := a }]

def Config.marshal (c : Config) : Bytes := (Config.codec.write c).render

inductive BuildError where
  | samba
  | nfs
  deriving DecidableEq

section Validation

variable (netip : Netip)

def build (shares : ShareConfig.Config) (nfs : NfsConfig.Policy) : Except BuildError Unit :=
  match SmbConfig.build shares false with
  | .error _ => .error .samba
  | .ok _ =>
    match nfs.validate netip shares with
    | .error _ => .error .nfs
    | .ok () => .ok ()

def Config.validate (c : Config) : Bool :=
  c.format == formatName && c.schemaVersion == 1 && c.revision != 0 &&
    c.shares.revision == c.revision && c.nfs.revision == c.revision &&
    c.nfs.volumeRevision == c.revision && build netip c.shares c.nfs == .ok ()

def decodeEnvelope (data : Bytes) (maxBytes : Nat) (required : List Bytes) :
    Option (List (Bytes × Bytes)) := do
  guard (data.length ≤ maxBytes)
  let fields ← rawObject data
  guard ((fields.map Prod.fst).all fun key => required.contains key)
  guard ((fields.map Prod.fst).Nodup)
  guard (fields.all fun m => m.2 != ascii "null")
  guard (fields.length = required.length)
  some fields

def decodePolicies (fields : List (Bytes × Bytes)) :
    Option (ShareConfig.Config × NfsConfig.Policy) := do
  let sharesData ← rawField fields (ascii "shares")
  let shares ← (ShareConfig.decode sharesData).toOption
  let nfsData ← rawField fields (ascii "nfs")
  let nfs ← (NfsConfig.decode netip nfsData shares).toOption
  some (shares, nfs)

def fieldNames : List Bytes :=
  [ascii "format", ascii "schema_version", ascii "revision", ascii "shares", ascii "nfs"]

def decodeConfig (data : Bytes) : Option Config := do
  let fields ← decodeEnvelope data maxConfigBytes fieldNames
  let format ← unmarshal .string (← rawField fields (ascii "format"))
  let schemaVersion ← unmarshal .int (← rawField fields (ascii "schema_version"))
  let revision ← unmarshal .uint64 (← rawField fields (ascii "revision"))
  let (shares, nfs) ← decodePolicies netip fields
  let c : Config := ⟨format, schemaVersion, revision, shares, nfs⟩
  guard (c.validate netip)
  some c

end Validation

variable {netip : Netip}

structure Config.Accepted (netip : Netip) (c : Config) : Prop where
  format : c.format = formatName
  schema : c.schemaVersion = 1
  revision : c.revision ≠ 0
  sharesRevision : c.shares.revision = c.revision
  nfsRevision : c.nfs.revision = c.revision
  volumeRevision : c.nfs.volumeRevision = c.revision
  shares : c.shares.validate = .ok ()
  sharesSize : c.shares.marshal.length ≤ ShareConfig.maxInputBytes
  nfs : c.nfs.validate netip c.shares = .ok ()

theorem build_ok {shares : ShareConfig.Config} {nfs : NfsConfig.Policy}
    (h : build netip shares nfs = .ok ()) :
    shares.validate = .ok () ∧ shares.marshal.length ≤ ShareConfig.maxInputBytes ∧
      nfs.validate netip shares = .ok () := by
  rw [build] at h
  cases hs : SmbConfig.build shares false with
  | error e => simp [hs] at h
  | ok placed =>
    simp only [hs] at h
    cases hn : nfs.validate netip shares with
    | error e => simp [hn] at h
    | ok u =>
      obtain ⟨hvalid, hsize⟩ := SmbConfig.build_ok hs
      exact ⟨hvalid, hsize, rfl⟩

theorem Config.validate_ok {c : Config} (h : c.validate netip = true) : c.Accepted netip := by
  simp only [Config.validate, Bool.and_eq_true, beq_iff_eq, bne_iff_ne, ne_eq] at h
  obtain ⟨⟨⟨⟨⟨⟨hformat, hschema⟩, hrevision⟩, hshares⟩, hnfs⟩, hvolume⟩, hbuild⟩ := h
  obtain ⟨hvalid, hsize, hpolicy⟩ := build_ok hbuild
  exact ⟨hformat, hschema, hrevision, hshares, hnfs, hvolume, hvalid, hsize, hpolicy⟩

section ReadBack

variable {c : Config} {height : Nat}

theorem Config.Accepted.sharesCarried (h : c.Accepted netip) :
    Carries (some ShareConfig.keys) (height + 5) ShareConfig.Config.codec
      (ShareConfig.Config.codec.write c.shares) c.shares :=
  (ShareConfig.Config.validate_ok h.shares).carries

theorem Config.Accepted.nfsCarried (h : c.Accepted netip) :
    Carries (some NfsConfig.keys) (height + 5) NfsConfig.Policy.codec
      (NfsConfig.Policy.codec.write c.nfs) c.nfs :=
  (NfsConfig.Policy.validate_ok h.nfs).carries

def Config.members (c : Config) : List (Bytes × Value) :=
  [(ascii "format", .str c.format), (ascii "schema_version", .num (formatInt c.schemaVersion)),
    (ascii "revision", .num (formatUint c.revision.toNat)),
    (ascii "shares", ShareConfig.Config.codec.write c.shares),
    (ascii "nfs", NfsConfig.Policy.codec.write c.nfs)]

theorem Config.write_eq (c : Config) : Config.codec.write c = .obj (.ofList c.members) := rfl

theorem Config.names (c : Config) : c.members.map Prod.fst = fieldNames := rfl

theorem Config.Accepted.values (h : c.Accepted netip) :
    ∀ m ∈ c.members, Fits none (height + 5) m.2 := by
  intro m hm
  simp only [Config.members, List.mem_cons, List.not_mem_nil, or_false] at hm
  rcases hm with rfl | rfl | rfl | rfl | rfl
  · exact (carries_string (by rw [h.format]; decide)).fits
  · exact (carries_schema h.schema).fits
  · exact (carries_uint64 c.revision).fits
  · exact h.sharesCarried.fits.open
  · exact h.nfsCarried.fits.open

/-- Seen from an enclosing envelope, the document nests six deep. -/
theorem Config.Accepted.fits (h : c.Accepted netip) :
    Fits none (height + 6) (Value.obj (.ofList c.members)) :=
  fits_obj (by rw [c.names]; decide) (by rw [c.names]; decide) h.values

/-- Beside its two parts an envelope takes little more than their names. -/
theorem length_envelope (format first second : Bytes) (revision : UInt64) (one two : Value) :
    (Value.obj (.ofList [(ascii "format", .str format),
        (ascii "schema_version", .num (formatInt 1)),
        (ascii "revision", .num (formatUint revision.toNat)), (first, one),
        (second, two)])).render.length ≤
      (quoted format).length + (quoted first).length + (quoted second).length + 66 +
        one.render.length + two.render.length := by
  have hkeys : (quoted (ascii "format")).length = 8 ∧
      (quoted (ascii "schema_version")).length = 16 ∧ (quoted (ascii "revision")).length = 10 ∧
      (formatInt 1).length = 1 := by decide
  have hrevision : (formatUint revision.toNat).length ≤ 20 :=
    length_formatUint_le revision.toNat_lt
  rw [length_obj (List.cons_ne_nil _ _)]
  simp only [List.map_cons, List.map_nil, List.sum_cons, List.sum_nil, Value.render, hkeys]
  omega

theorem Config.Accepted.size (h : c.Accepted netip) : c.marshal.length ≤ maxConfigBytes := by
  have hshares : (ShareConfig.Config.codec.write c.shares).render.length ≤
      ShareConfig.maxInputBytes := h.sharesSize
  have hnfs : (NfsConfig.Policy.codec.write c.nfs).render.length ≤ NfsConfig.maxInputBytes :=
    (NfsConfig.Policy.validate_ok h.nfs).size
  have hnames : (quoted formatName).length + (quoted (ascii "shares")).length +
      (quoted (ascii "nfs")).length = 43 := by decide
  rw [Config.marshal, c.write_eq, Config.members, h.format, h.schema]
  refine (length_envelope _ _ _ _ _ _).trans ?_
  rw [hnames]
  unfold maxConfigBytes maxInputBytes
  omega

theorem decodeEnvelope_render {members : List (Bytes × Value)} {maxBytes height : Nat}
    {required : List Bytes} (hlen : (Value.obj (.ofList members)).render.length ≤ maxBytes)
    (hnames : members.map Prod.fst = required)
    (hplain : required.all (goodKey none) = true) (hn : required.Nodup)
    (hfits : ∀ m ∈ members, Fits none height m.2) :
    decodeEnvelope (Value.obj (.ofList members)).render maxBytes required =
      some (rendered members) := by
  have hkeys : ∀ m ∈ members, validString m.1 = true := by
    intro m hm
    have hgood := List.all_eq_true.mp hplain m.1 (hnames ▸ List.mem_map_of_mem hm)
    simp only [goodKey, Bool.and_eq_true] at hgood
    exact validString_plain hgood.1
  have hraw := rawObject_render hkeys fun m hm => (hfits m hm).encodable
  have hknown : ((rendered members).map Prod.fst).all (fun key => required.contains key) =
      true := by
    rw [names_rendered, hnames]
    simp
  have hdistinct : ((rendered members).map Prod.fst).Nodup := by rwa [names_rendered, hnames]
  have hnull : (rendered members).all (fun m => m.2 != ascii "null") = true := by
    rw [List.all_eq_true]
    intro r hr
    obtain ⟨m, hm, rfl⟩ := List.mem_map.mp hr
    simpa using (hfits m hm).not_null
  have hcount : (rendered members).length = required.length := by
    simp [rendered, ← hnames]
  simp only [decodeEnvelope, Option.bind_eq_bind, hraw, Option.bind_some, guard_bind]
  exact ⟨hlen, hknown, hdistinct, hnull, hcount, trivial⟩

/-- Whatever validation accepts is read back as it was. -/
theorem decodeConfig_marshal (h : c.validate netip = true) :
    decodeConfig netip c.marshal = some c := by
  have haccepted := Config.validate_ok h
  have henvelope : decodeEnvelope c.marshal maxConfigBytes fieldNames =
      some (rendered c.members) :=
    decodeEnvelope_render haccepted.size c.names (by decide) (by decide)
      (@Config.Accepted.values netip c 0 haccepted)
  have hshares : ShareConfig.decode c.shares.marshal = .ok c.shares :=
    ShareConfig.decode_marshal haccepted.shares haccepted.sharesSize
  have hnfs : NfsConfig.decode netip c.nfs.marshal c.shares = .ok c.nfs :=
    NfsConfig.decode_marshal haccepted.nfs
  have hpolicies : decodePolicies netip (rendered c.members) = some (c.shares, c.nfs) := by
    have hraw₁ : rawField (rendered c.members) (ascii "shares") = some c.shares.marshal := rfl
    have hraw₂ : rawField (rendered c.members) (ascii "nfs") = some c.nfs.marshal := rfl
    simp only [decodePolicies, hraw₁, hraw₂, hshares, hnfs, Except.toOption, Option.bind_eq_bind,
      Option.bind_some]
  have hformat : rawField (rendered c.members) (ascii "format") =
      some (Value.str c.format).render := rfl
  have hschema : rawField (rendered c.members) (ascii "schema_version") =
      some (Value.num (formatInt c.schemaVersion)).render := rfl
  have hrevision : rawField (rendered c.members) (ascii "revision") =
      some (Value.num (formatUint c.revision.toNat)).render := rfl
  have hread₁ := unmarshal_render (@carries_string none 0 c.format (by
    rw [haccepted.format]
    decide))
  have hread₂ := unmarshal_render (@carries_schema none 0 c.schemaVersion haccepted.schema)
  have hread₃ := unmarshal_render (@carries_uint64 none 0 c.revision)
  simp only [decodeConfig, henvelope, hformat, hschema, hrevision, hread₁, hread₂, hread₃,
    hpolicies, Option.bind_eq_bind, Option.bind_some, guard_bind]
  exact ⟨h, trivial⟩

end ReadBack

/-!
An export identifier is the file-handle identity clients hold. An edit may add and remove
identifiers; one that stays keeps its volume, filesystem and directory.
-/

abbrev Source := Bytes × Bytes × Bytes

def bindVolumes (e : NfsConfig.Export) (bound : AList fun _ : Bytes => Source) :
    List ShareConfig.Volume → AList fun _ : Bytes => Source
  | [] => bound
  | v :: rest =>
    if v.id = e.volumeID then
      bindVolumes e (bound.insert e.id (v.id, v.filesystemUUID, e.relativePath)) rest
    else bindVolumes e bound rest

def bindExports (volumes : List ShareConfig.Volume) (bound : AList fun _ : Bytes => Source) :
    List NfsConfig.Export → AList fun _ : Bytes => Source
  | [] => bound
  | e :: rest => bindExports volumes (bindVolumes e bound volumes) rest

def bindings (c : Config) : AList fun _ : Bytes => Source :=
  bindExports c.shares.volumes.items ∅ c.nfs.exports.items

def validateRetainedNFSBindings (netip : Netip) (current next : Config) : Bool :=
  current.validate netip && next.validate netip &&
    (bindings next).entries.all fun entry =>
      ((bindings current).lookup entry.1).all fun old => old == entry.2

def Binds (exports : List NfsConfig.Export) (volumes : List ShareConfig.Volume) (id : Bytes)
    (s : Source) : Prop :=
  ∃ e ∈ exports, ∃ v ∈ volumes, e.id = id ∧ v.id = e.volumeID ∧
    s = (v.id, v.filesystemUUID, e.relativePath)

variable {bound : AList fun _ : Bytes => Source}

theorem bindVolumes_skip {e : NfsConfig.Export} {vs : List ShareConfig.Volume}
    (h : ∀ v ∈ vs, v.id ≠ e.volumeID) :
    bindVolumes e bound vs = bound := by
  induction vs with
  | nil => rfl
  | cons v rest ih =>
    rw [bindVolumes, if_neg (h v (by simp))]
    exact ih fun w hw => h w (by simp [hw])

theorem bindVolumes_unique {e : NfsConfig.Export} {vs : List ShareConfig.Volume}
    (hn : (vs.map ShareConfig.Volume.id).Nodup) {v : ShareConfig.Volume} (hv : v ∈ vs)
    (hid : v.id = e.volumeID) :
    bindVolumes e bound vs = bound.insert e.id (v.id, v.filesystemUUID, e.relativePath) := by
  induction vs with
  | nil => simp at hv
  | cons w rest ih =>
    rw [List.map_cons, List.nodup_cons] at hn
    rcases List.mem_cons.mp hv with rfl | hv
    · rw [bindVolumes, if_pos hid]
      apply bindVolumes_skip
      intro u hu heq
      exact hn.1 (List.mem_map.mpr ⟨u, hu, heq.trans hid.symm⟩)
    · have hne : w.id ≠ e.volumeID := fun heq =>
        hn.1 (List.mem_map.mpr ⟨v, hv, hid.trans heq.symm⟩)
      rw [bindVolumes, if_neg hne]
      exact ih hn.2 hv

/-- The map built by the loop binds each identifier to its source. -/
theorem lookup_bindExports {volumes : List ShareConfig.Volume} {es : List NfsConfig.Export}
    (hv : (volumes.map ShareConfig.Volume.id).Nodup) (he : (es.map NfsConfig.Export.id).Nodup)
    (hknown : ∀ e ∈ es, e.volumeID ∈ volumes.map ShareConfig.Volume.id) (id : Bytes) (s : Source) :
    (bindExports volumes bound es).lookup id = some s ↔
      Binds es volumes id s ∨ id ∉ es.map NfsConfig.Export.id ∧ bound.lookup id = some s := by
  induction es generalizing bound with
  | nil => simp [bindExports, Binds]
  | cons e rest ih =>
    rw [List.map_cons, List.nodup_cons] at he
    obtain ⟨v, hmem, hid⟩ := List.mem_map.mp (hknown e (by simp))
    rw [bindExports, bindVolumes_unique hv hmem hid,
      ih he.2 fun d hd => hknown d (by simp [hd])]
    have hsource : ∀ w ∈ volumes, w.id = e.volumeID → w = v := fun w hw heq =>
      List.inj_on_of_nodup_map hv hw hmem (heq.trans hid.symm)
    by_cases hhead : id = e.id
    · subst hhead
      rw [AList.lookup_insert, Option.some.injEq]
      constructor
      · rintro (⟨d, hd, w, hw, hdid, hrest⟩ | ⟨_, rfl⟩)
        · exact absurd (List.mem_map.mpr ⟨d, hd, hdid⟩) he.1
        · exact .inl ⟨e, by simp, v, hmem, rfl, hid, rfl⟩
      · rintro (⟨d, hd, w, hw, hdid, hwid, rfl⟩ | ⟨hnot, _⟩)
        · rcases List.mem_cons.mp hd with rfl | hd
          · rw [hsource w hw hwid]
            exact .inr ⟨he.1, rfl⟩
          · exact absurd (List.mem_map.mpr ⟨d, hd, hdid⟩) he.1
        · simp at hnot
    · rw [AList.lookup_insert_ne hhead]
      constructor
      · rintro (⟨d, hd, hrest⟩ | ⟨hnot, hbound⟩)
        · exact .inl ⟨d, by simp [hd], hrest⟩
        · exact .inr ⟨by simp [hhead] at hnot ⊢; exact hnot, hbound⟩
      · rintro (⟨d, hd, w, hw, hdid, hrest⟩ | ⟨hnot, hbound⟩)
        · rcases List.mem_cons.mp hd with rfl | hd
          · exact absurd hdid.symm hhead
          · exact .inl ⟨d, hd, w, hw, hdid, hrest⟩
        · exact .inr ⟨by simp at hnot ⊢; exact hnot.2, hbound⟩

def KeepsExports (current next : Config) : Prop :=
  ∀ e ∈ current.nfs.exports.items, ∀ e' ∈ next.nfs.exports.items, e.id = e'.id →
    e'.volumeID = e.volumeID ∧ e'.relativePath = e.relativePath ∧
      ∀ v ∈ current.shares.volumes.items, ∀ v' ∈ next.shares.volumes.items,
        v.id = e.volumeID → v'.id = e'.volumeID → v'.filesystemUUID = v.filesystemUUID

section Retained

variable {current next : Config}

theorem Config.Accepted.volumesNodup {c : Config} (h : c.Accepted netip) :
    (c.shares.volumes.items.map ShareConfig.Volume.id).Nodup := by
  obtain ⟨vs, hvs, hnodup, _⟩ := (ShareConfig.Config.validate_ok h.shares).volumes
  rw [hvs]
  exact hnodup

theorem Config.Accepted.exportsNodup {c : Config} (h : c.Accepted netip) :
    (c.nfs.exports.items.map NfsConfig.Export.id).Nodup := by
  obtain ⟨es, hes, hnodup, _⟩ := (NfsConfig.Policy.validate_ok h.nfs).exports
  rw [hes]
  exact hnodup

theorem Config.Accepted.exportVolume {c : Config} (h : c.Accepted netip) :
    ∀ e ∈ c.nfs.exports.items, e.volumeID ∈ c.shares.volumes.items.map ShareConfig.Volume.id := by
  obtain ⟨es, hes, _, hchecked⟩ := (NfsConfig.Policy.validate_ok h.nfs).exports
  rw [hes]
  exact fun e he => (hchecked e he).volume

theorem lookup_bindings {c : Config} (h : c.Accepted netip) (id : Bytes) (s : Source) :
    (bindings c).lookup id = some s ↔
      Binds c.nfs.exports.items c.shares.volumes.items id s := by
  rw [bindings, lookup_bindExports h.volumesNodup h.exportsNodup h.exportVolume]
  simp

/-- The map comparison decides agreement on every shared identifier. -/
theorem retained_iff : validateRetainedNFSBindings netip current next = true ↔
    current.validate netip = true ∧ next.validate netip = true ∧ KeepsExports current next := by
  rw [validateRetainedNFSBindings, Bool.and_eq_true, Bool.and_eq_true, and_assoc]
  refine and_congr_right fun hc => and_congr_right fun hn => ?_
  have hcurrent := Config.validate_ok hc
  have hnext := Config.validate_ok hn
  rw [List.all_eq_true]
  constructor
  · intro h e he e' he' heq
    obtain ⟨v, hv, hid⟩ := List.mem_map.mp (hcurrent.exportVolume e he)
    obtain ⟨v', hv', hid'⟩ := List.mem_map.mp (hnext.exportVolume e' he')
    have hold : (bindings current).lookup e'.id = some (v.id, v.filesystemUUID, e.relativePath) :=
      (lookup_bindings hcurrent _ _).mpr ⟨e, he, v, hv, heq, hid, rfl⟩
    have hnew : (bindings next).lookup e'.id =
        some (v'.id, v'.filesystemUUID, e'.relativePath) :=
      (lookup_bindings hnext _ _).mpr ⟨e', he', v', hv', rfl, hid', rfl⟩
    have hsame := h ⟨e'.id, _⟩ (AList.mem_lookup_iff.mp hnew)
    simp only [hold, Option.all_some, beq_iff_eq, Prod.mk.injEq] at hsame
    obtain ⟨hvid, huuid, hpath⟩ := hsame
    refine ⟨by rw [← hid, ← hid', hvid], hpath.symm, ?_⟩
    intro w hw w' hw' hwid hwid'
    rw [List.inj_on_of_nodup_map hcurrent.volumesNodup hw hv (hwid.trans hid.symm),
      List.inj_on_of_nodup_map hnext.volumesNodup hw' hv' (hwid'.trans hid'.symm), huuid]
  · intro h entry hentry
    obtain ⟨e', he', v', hv', hid', hvid', hs'⟩ :=
      (lookup_bindings hnext _ _).mp (AList.mem_lookup_iff.mpr hentry)
    cases hold : (bindings current).lookup entry.1 with
    | none => rfl
    | some old =>
      obtain ⟨e, he, v, hv, hid, hvid, hs⟩ := (lookup_bindings hcurrent _ _).mp hold
      obtain ⟨hvolume, hpath, huuid⟩ := h e he e' he' (hid.trans hid'.symm)
      have hsame := huuid v hv v' hv' hvid hvid'
      simp only [Option.all_some, beq_iff_eq]
      rw [hs, hs', hpath, hsame, hvid, hvid', hvolume]

end Retained

end FileService
