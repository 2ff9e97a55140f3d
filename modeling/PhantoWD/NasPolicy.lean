import PhantoWD.FileService
import PhantoWD.IscsiPolicy

/-!
One desired revision of file services and iSCSI. Whatever validation accepts, the decoder reads
back unchanged, so a committed policy can always be reopened.
-/
namespace NasPolicy

open GoText GoJson ConfigJson JsonStruct
open NfsConfig (Netip)

def formatName : Bytes := ascii "phantowd-nas-service-config"
def schemaVersion : Int := 1
def maxInputBytes : Nat := FileService.maxConfigBytes + IscsiPolicy.maxInputBytes + 256

structure Config where
  format : Bytes
  schemaVersion : Int
  revision : UInt64
  fileServices : FileService.Config
  iscsi : IscsiPolicy.Policy
  deriving DecidableEq

def Config.codec : Codec Config :=
  .struct ⟨[], 0, 0, FileService.Config.codec.zero, IscsiPolicy.Policy.codec.zero⟩
    [.of (ascii "format") .string Config.format fun a s => { s with format := a },
      .of (ascii "schema_version") .int Config.schemaVersion
        fun a s => { s with schemaVersion := a },
      .of (ascii "revision") .uint64 Config.revision fun a s => { s with revision := a },
      .of (ascii "file_services") FileService.Config.codec Config.fileServices
        fun a s => { s with fileServices := a },
      .of (ascii "iscsi") IscsiPolicy.Policy.codec Config.iscsi fun a s => { s with iscsi := a }]

def Config.marshal (c : Config) : Bytes := (Config.codec.write c).render

def Config.validateFileServicesChecked (c : Config) : Bool :=
  c.format == formatName && c.schemaVersion == NasPolicy.schemaVersion && c.revision != 0 &&
    c.fileServices.revision == c.revision && c.iscsi.revision == c.revision &&
    c.iscsi.validate c.fileServices.shares &&
    c.fileServices.marshal.length ≤ FileService.maxConfigBytes &&
    c.iscsi.marshal.length ≤ IscsiPolicy.maxInputBytes

def Config.validate (netip : Netip) (c : Config) : Bool :=
  c.fileServices.validate netip && c.validateFileServicesChecked

def fieldNames : List Bytes :=
  [ascii "format", ascii "schema_version", ascii "revision", ascii "file_services",
    ascii "iscsi"]

def decode (netip : Netip) (data : Bytes) : Option Config := do
  let fields ← envelopeFields data maxInputBytes 12 fieldNames
  let format ← unmarshal .string (← rawField fields (ascii "format"))
  let schemaVersion ← unmarshal .int (← rawField fields (ascii "schema_version"))
  let revision ← unmarshal .uint64 (← rawField fields (ascii "revision"))
  let fileServices ←
    FileService.decodeConfig netip (← rawField fields (ascii "file_services"))
  let iscsi ← IscsiPolicy.decode (← rawField fields (ascii "iscsi")) fileServices.shares
  let c : Config := ⟨format, schemaVersion, revision, fileServices, iscsi⟩
  guard (c.validate netip)
  some c

variable {netip : Netip} {c : Config} {height : Nat}

structure Config.Accepted (netip : Netip) (c : Config) : Prop where
  fileServices : c.fileServices.validate netip = true
  format : c.format = formatName
  schema : c.schemaVersion = 1
  revision : c.revision ≠ 0
  filesRevision : c.fileServices.revision = c.revision
  iscsiRevision : c.iscsi.revision = c.revision
  iscsi : c.iscsi.validate c.fileServices.shares = true

theorem Config.validate_ok (h : c.validate netip = true) : c.Accepted netip := by
  simp only [Config.validate, Config.validateFileServicesChecked, Bool.and_eq_true, beq_iff_eq,
    bne_iff_ne, ne_eq] at h
  obtain ⟨hfiles, ⟨⟨⟨⟨⟨⟨hformat, hschema⟩, hrevision⟩, hf⟩, hi⟩, hiscsi⟩, _⟩, _⟩ := h
  exact ⟨hfiles, hformat, hschema, hrevision, hf, hi, hiscsi⟩

def Config.members (c : Config) : List (Bytes × Value) :=
  [(ascii "format", .str c.format), (ascii "schema_version", .num (formatInt c.schemaVersion)),
    (ascii "revision", .num (formatUint c.revision.toNat)),
    (ascii "file_services", FileService.Config.codec.write c.fileServices),
    (ascii "iscsi", IscsiPolicy.Policy.codec.write c.iscsi)]

theorem Config.write_eq (c : Config) : Config.codec.write c = .obj (.ofList c.members) := rfl

theorem Config.names (c : Config) : c.members.map Prod.fst = fieldNames := rfl

theorem Config.Accepted.values (h : c.Accepted netip) : ∀ m ∈ c.members, Fits none 7 m.2 := by
  intro m hm
  simp only [Config.members, List.mem_cons, List.not_mem_nil, or_false] at hm
  rcases hm with rfl | rfl | rfl | rfl | rfl
  · exact (carries_string (by rw [h.format]; decide)).fits
  · exact (carries_schema h.schema).fits
  · exact (carries_uint64 c.revision).fits
  · exact (FileService.Config.validate_ok h.fileServices).fits
  · exact (IscsiPolicy.Policy.validate_ok h.iscsi).carries.fits.open

/-- Both parts at their own limits still leave room for the envelope. -/
theorem Config.Accepted.size (h : c.Accepted netip) : c.marshal.length ≤ maxInputBytes := by
  have hfiles : (FileService.Config.codec.write c.fileServices).render.length ≤
      FileService.maxConfigBytes := (FileService.Config.validate_ok h.fileServices).size
  have hiscsi : (IscsiPolicy.Policy.codec.write c.iscsi).render.length ≤
      IscsiPolicy.maxInputBytes := (IscsiPolicy.Policy.validate_ok h.iscsi).size
  have hnames : (quoted formatName).length + (quoted (ascii "file_services")).length +
      (quoted (ascii "iscsi")).length = 51 := by decide
  rw [Config.marshal, c.write_eq, Config.members, h.format, h.schema]
  refine (FileService.length_envelope _ _ _ _ _ _).trans ?_
  rw [hnames]
  unfold maxInputBytes
  omega

theorem Config.Accepted.envelope (h : c.Accepted netip) :
    envelopeFields c.marshal maxInputBytes 12 fieldNames = some (rendered c.members) := by
  have hfits : Fits none 8 (Value.obj (.ofList c.members)) :=
    fits_obj (by rw [c.names]; decide) (by rw [c.names]; decide) h.values
  have hvalid : ∀ m ∈ c.members, validString m.1 = true := by
    intro m hm
    have hgood : fieldNames.all (goodKey none) = true := by decide
    have hgood := List.all_eq_true.mp hgood m.1 (c.names ▸ List.mem_map_of_mem hm)
    simp only [goodKey, Bool.and_eq_true] at hgood
    exact validString_plain hgood.1
  have hscreen : decodeEnvelope (Value.obj (.ofList c.members)).render maxInputBytes 12
      fieldNames = some (Members.ofList c.members).toList :=
    decodeEnvelope_render hfits.encodable h.size (by decide) (hfits.scans 0 12 (by decide))
      (by rw [Members.toList_ofList]; exact c.names)
  have hraw := rawObject_render hvalid fun m hm => (h.values m hm).encodable
  rw [envelopeFields, Config.marshal, c.write_eq, hscreen, Option.bind_some, hraw]

/-- A committed policy can be reopened. -/
theorem decode_marshal (h : c.validate netip = true) : decode netip c.marshal = some c := by
  have haccepted := Config.validate_ok h
  have hformat : rawField (rendered c.members) (ascii "format") =
      some (Value.str c.format).render := rfl
  have hschema : rawField (rendered c.members) (ascii "schema_version") =
      some (Value.num (formatInt c.schemaVersion)).render := rfl
  have hrevision : rawField (rendered c.members) (ascii "revision") =
      some (Value.num (formatUint c.revision.toNat)).render := rfl
  have hfiles : rawField (rendered c.members) (ascii "file_services") =
      some c.fileServices.marshal := rfl
  have hiscsi : rawField (rendered c.members) (ascii "iscsi") = some c.iscsi.marshal := rfl
  have hread₁ := unmarshal_render (@carries_string none 0 c.format (by
    rw [haccepted.format]
    decide))
  have hread₂ := unmarshal_render (@carries_schema none 0 c.schemaVersion haccepted.schema)
  have hread₃ := unmarshal_render (@carries_uint64 none 0 c.revision)
  have hread₄ := FileService.decodeConfig_marshal haccepted.fileServices
  have hread₅ := IscsiPolicy.decode_marshal haccepted.iscsi
  simp only [decode, haccepted.envelope, hformat, hschema, hrevision, hfiles, hiscsi, hread₁,
    hread₂, hread₃, hread₄, hread₅, Option.bind_eq_bind, Option.bind_some, guard_bind]
  exact ⟨h, trivial⟩

/-- Every accepted configuration, combined or of the file services alone, is read back as it
was. -/
theorem accepted_config_reads_back (netip : Netip) :
    (∀ c : Config, c.validate netip = true → decode netip c.marshal = some c) ∧
      ∀ f : FileService.Config, f.validate netip = true →
        FileService.decodeConfig netip f.marshal = some f :=
  ⟨fun _ h => decode_marshal h, fun _ h => FileService.decodeConfig_marshal h⟩

def sampleShares (revision : UInt64) : ShareConfig.Config :=
  ⟨ascii "phantowd-share-config", 1, revision,
    some [⟨ascii "data", ascii "0f0e0d0c-0000-4000-8000-000000000001"⟩],
    some [⟨ascii "u1", ascii "alice"⟩],
    some [⟨ascii "s1", ascii "Media", ascii "data", ascii "media<1>",
      some [⟨ascii "u1", ascii "rw"⟩]⟩]⟩

def sampleNfs (revision : UInt64) : NfsConfig.Policy :=
  ⟨ascii "phantowd-nfs-policy", 1, revision, revision,
    some [⟨ascii "11111111-2222-4333-8444-555555555555", ascii "data", ascii "export",
      some [⟨ascii "192.0.2.0/24", ascii "rw", ascii "root", 65534, 65534, ascii "krb5p"⟩]⟩]⟩

def sampleIscsi (revision : UInt64) : IscsiPolicy.Policy :=
  ⟨ascii "phantowd-iscsi-policy", 1, revision, revision,
    some [⟨ascii "b1", ascii "data", ascii "luns/b1.img", 1048576, 512, ascii "sparse"⟩],
    some [⟨ascii "t1", ascii "iqn.2026-01.example.nas:t1", ascii "enabled",
      some [⟨ascii "l1", 0, ascii "b1", ascii "rw"⟩],
      some [⟨ascii "iqn.2026-01.example.host",
        ⟨ascii "chap", ascii "host", ascii "host-secret", [], []⟩,
        some [⟨ascii "l1", ascii "rw"⟩]⟩]⟩]⟩

def sampleFiles (revision : UInt64) : FileService.Config :=
  ⟨ascii "phantowd-file-service-config", 1, revision, sampleShares revision,
    sampleNfs revision⟩

def sampleConfig (revision : UInt64) : Config :=
  ⟨ascii "phantowd-nas-service-config", 1, revision, sampleFiles revision, sampleIscsi revision⟩

theorem sampleConfig_valid : (sampleConfig 7).validate .ipv4 = true := by decide +kernel

theorem sample_config_reads_back :
    (sampleConfig 7).validate .ipv4 = true ∧
      decode .ipv4 (sampleConfig 7).marshal = some (sampleConfig 7) :=
  ⟨sampleConfig_valid, (accepted_config_reads_back .ipv4).1 _ sampleConfig_valid⟩

end NasPolicy
