import PhantoWD.ShareDocument

/-!
Exports bind a stable identifier to a directory of a shared volume and to the networks that
may mount it. The network grammar belongs to the standard library and is a parameter here.
-/
namespace NfsConfig

open GoText GoJson ConfigJson JsonStruct
open Checks (ite_error_ok)
open KeyedLists (apart_cons)

/-- The address prefixes of the standard library. No zone is accepted in a prefix, so every
spelling is ASCII. -/
structure Netip where
  Prefix : Type
  eq : DecidableEq Prefix
  parsePrefix : Bytes → Option Prefix
  isValid : Prefix → Bool
  bits : Prefix → Int
  masked : Prefix → Prefix
  string : Prefix → Bytes
  is4In6 : Prefix → Bool
  isUnspecified : Prefix → Bool
  overlaps : Prefix → Prefix → Bool
  string_ascii : ∀ p, ∀ b ∈ string p, b.toNat < 0x80

instance (netip : Netip) : DecidableEq netip.Prefix := netip.eq

def formatName : Bytes := ascii "phantowd-nfs-policy"
def maxInputBytes : Nat := 256 * 1024
def maxExports : Nat := 128
def maxClients : Nat := 64

structure Client where
  network : Bytes
  access : Bytes
  squash : Bytes
  anonymousUID : UInt32
  anonymousGID : UInt32
  security : Bytes
  deriving DecidableEq

structure Export where
  id : Bytes
  volumeID : Bytes
  relativePath : Bytes
  clients : Slice Client
  deriving DecidableEq

structure Policy where
  format : Bytes
  schemaVersion : Int
  revision : UInt64
  volumeRevision : UInt64
  exports : Slice Export
  deriving DecidableEq

def keys : List Bytes :=
  [ascii "format", ascii "schema_version", ascii "revision", ascii "volume_revision",
    ascii "exports", ascii "id", ascii "volume_id", ascii "relative_path", ascii "clients",
    ascii "network", ascii "access", ascii "squash", ascii "anonymous_uid",
    ascii "anonymous_gid", ascii "security"]

def Client.codec : Codec Client := .struct ⟨[], [], [], 0, 0, []⟩
  [.of (ascii "network") .string Client.network fun a s => { s with network := a },
    .of (ascii "access") .string Client.access fun a s => { s with access := a },
    .of (ascii "squash") .string Client.squash fun a s => { s with squash := a },
    .of (ascii "anonymous_uid") .uint32 Client.anonymousUID
      fun a s => { s with anonymousUID := a },
    .of (ascii "anonymous_gid") .uint32 Client.anonymousGID
      fun a s => { s with anonymousGID := a },
    .of (ascii "security") .string Client.security fun a s => { s with security := a }]

def Export.codec : Codec Export := .struct ⟨[], [], [], none⟩
  [.of (ascii "id") .string Export.id fun a s => { s with id := a },
    .of (ascii "volume_id") .string Export.volumeID fun a s => { s with volumeID := a },
    .of (ascii "relative_path") .string Export.relativePath
      fun a s => { s with relativePath := a },
    .of (ascii "clients") (.slice Client.codec) Export.clients fun a s => { s with clients := a }]

def Policy.codec : Codec Policy := .struct ⟨[], 0, 0, 0, none⟩
  [.of (ascii "format") .string Policy.format fun a s => { s with format := a },
    .of (ascii "schema_version") .int Policy.schemaVersion
      fun a s => { s with schemaVersion := a },
    .of (ascii "revision") .uint64 Policy.revision fun a s => { s with revision := a },
    .of (ascii "volume_revision") .uint64 Policy.volumeRevision
      fun a s => { s with volumeRevision := a },
    .of (ascii "exports") (.slice Export.codec) Policy.exports fun a s => { s with exports := a }]

def Policy.marshal (p : Policy) : Bytes := (Policy.codec.write p).render

inductive PolicyError where
  | volumes
  | stale
  | exports
  | «export» (index : Nat)
  | overlap
  | client (index j : Nat)
  | networks
  | size
  deriving DecidableEq

def anonymousID (id : UInt32) : Bool := id != 0 && id != 0xffffffff

def hexByte (b : UInt8) : Bool :=
  (0x30 ≤ b && b ≤ 0x39) || (0x61 ≤ b && b ≤ 0x66) || (0x41 ≤ b && b ≤ 0x46)

def uuid (s : Bytes) : Bool :=
  s.length == 36 && s[8]? == some 0x2d && s[13]? == some 0x2d && s[18]? == some 0x2d &&
    s[23]? == some 0x2d && ShareConfig.toLower s == s &&
    let raw := s.filter fun b => b != 0x2d
    raw.length == 32 && raw != List.replicate 32 0x30 && raw.all hexByte

/-- Unlike a share's path, an export's path may hold a colon. -/
def relativePath (s : Bytes) : Bool :=
  s != [] && s.length ≤ 1024 && validString s && validPath s &&
    !s.contains 0x5c && (runes s).all fun ch => 32 ≤ ch && ch != 127

def overlaps (a b : Bytes) : Bool :=
  a == b || a == ascii "/" || b == ascii "/" || below a b || below b a

def forbidden : List Bytes := [ascii "224.0.0.0/4", ascii "240.0.0.0/4", ascii "ff00::/8"]

section Networks

variable (netip : Netip)

def validNetwork (p : netip.Prefix) (spelling : Bytes) : Bool :=
  netip.isValid p && netip.bits p != 0 && p == netip.masked p && netip.string p == spelling &&
    !netip.is4In6 p && !netip.isUnspecified p &&
    !forbidden.any fun f => (netip.parsePrefix f).any fun q => netip.overlaps p q

def checkClient (client : Client) : Option netip.Prefix :=
  match netip.parsePrefix client.network with
  | none => none
  | some p =>
    if validNetwork netip p client.network &&
        (client.access == ascii "ro" || client.access == ascii "rw") &&
        (client.squash == ascii "root" || client.squash == ascii "all") &&
        anonymousID client.anonymousUID && anonymousID client.anonymousGID &&
        (client.security == ascii "sys" || client.security == ascii "krb5" ||
          client.security == ascii "krb5i" || client.security == ascii "krb5p") then some p
    else none

def checkClients (i j : Nat) (prefixes : List netip.Prefix) :
    List Client → Except PolicyError Unit
  | [] => .ok ()
  | client :: rest =>
    match checkClient netip client with
    | none => .error (.client i j)
    | some p =>
      if prefixes.any fun other => netip.overlaps p other then .error .networks
      else checkClients i (j + 1) (prefixes ++ [p]) rest

def checkExports (known : List Bytes) (i : Nat) (earlier : List Export) :
    List Export → Except PolicyError Unit
  | [] => .ok ()
  | e :: rest =>
    if !uuid e.id || (earlier.map Export.id).contains e.id || !known.contains e.volumeID ||
        !relativePath e.relativePath || e.clients.items.length == 0 ||
        maxClients < e.clients.items.length then .error (.export i)
    else if earlier.any fun other => other.volumeID == e.volumeID &&
        overlaps (joinRooted (ascii "/") other.relativePath)
          (joinRooted (ascii "/") e.relativePath) then .error .overlap
    else
      match checkClients netip i 0 [] e.clients.items with
      | .error err => .error err
      | .ok () => checkExports known (i + 1) (earlier ++ [e]) rest

def Policy.checkSize (p : Policy) : Except PolicyError Unit :=
  if maxInputBytes < p.marshal.length then .error .size else .ok ()

def Policy.validate (p : Policy) (volumes : ShareConfig.Config) : Except PolicyError Unit :=
  match volumes.validate with
  | .error _ => .error .volumes
  | .ok () =>
    if p.format != formatName || p.schemaVersion != 1 || p.revision == 0 ||
        p.volumeRevision != volumes.revision then .error .stale
    else if p.exports.isNone || maxExports < p.exports.items.length then .error .exports
    else
      match checkExports netip (volumes.volumes.items.map ShareConfig.Volume.id) 0 []
          p.exports.items with
      | .error err => .error err
      | .ok () => p.checkSize

inductive DecodeError where
  | json
  | policy (e : PolicyError)
  deriving DecidableEq

def decode (data : Bytes) (volumes : ShareConfig.Config) : Except DecodeError Policy :=
  match decodeDocument Policy.codec data maxInputBytes 8 keys with
  | none => .error .json
  | some p =>
    match p.validate netip volumes with
    | .error e => .error (.policy e)
    | .ok () => .ok p

end Networks

theorem hexByte_ascii {b : UInt8} (h : hexByte b = true) : b.toNat < 0x80 := by
  have hb : (0x30 ≤ b.toNat ∧ b.toNat ≤ 0x39 ∨ 0x61 ≤ b.toNat ∧ b.toNat ≤ 0x66) ∨
      0x41 ≤ b.toNat ∧ b.toNat ≤ 0x46 := by
    simpa [hexByte, UInt8.le_iff_toNat_le] using h
  omega

theorem uuid_valid {s : Bytes} (h : uuid s = true) : validString s = true := by
  simp only [uuid, Bool.and_eq_true, List.all_eq_true] at h
  apply validString_ascii
  intro b hb
  by_cases hyphen : b = 0x2d
  · rw [hyphen]
    decide
  · exact hexByte_ascii (h.2.2 b (List.mem_filter.mpr ⟨hb, by simpa using hyphen⟩))

theorem relativePath_valid {s : Bytes} (h : relativePath s = true) : validString s = true := by
  simp only [relativePath, Bool.and_eq_true] at h
  exact h.1.1.1.2

variable {netip : Netip}

structure Client.Checked (c : Client) : Prop where
  network : validString c.network = true
  access : c.access = ascii "ro" ∨ c.access = ascii "rw"
  squash : c.squash = ascii "root" ∨ c.squash = ascii "all"
  security : ((c.security = ascii "sys" ∨ c.security = ascii "krb5") ∨
    c.security = ascii "krb5i") ∨ c.security = ascii "krb5p"

theorem checkClient_some {c : Client} {p : netip.Prefix} (h : checkClient netip c = some p) :
    (netip.parsePrefix c.network = some p ∧ netip.isValid p = true ∧ netip.string p = c.network) ∧
      c.Checked := by
  rw [checkClient] at h
  cases hp : netip.parsePrefix c.network with
  | none => simp [hp] at h
  | some q =>
    simp only [hp] at h
    split_ifs at h with hgood
    obtain rfl := Option.some.inj h
    simp only [Bool.and_eq_true, Bool.or_eq_true, beq_iff_eq] at hgood
    obtain ⟨⟨⟨⟨⟨hnetwork, haccess⟩, hsquash⟩, _⟩, _⟩, hsecurity⟩ := hgood
    simp only [validNetwork, Bool.and_eq_true, beq_iff_eq] at hnetwork
    obtain ⟨⟨⟨⟨⟨⟨hvalid, -⟩, -⟩, hstring⟩, -⟩, -⟩, -⟩ := hnetwork
    exact ⟨⟨rfl, hvalid, hstring⟩, validString_ascii (hstring ▸ netip.string_ascii q), haccess,
      hsquash, hsecurity⟩

def ClientsApart (netip : Netip) (c d : Client) : Prop :=
  ∀ p q, checkClient netip c = some p → checkClient netip d = some q →
    netip.overlaps q p = false

theorem checkClients_iff {i j : Nat} {prefixes : List netip.Prefix} {cs : List Client} :
    checkClients netip i j prefixes cs = .ok () ↔
      (∀ c ∈ cs, ∃ p, checkClient netip c = some p ∧
        ∀ q ∈ prefixes, netip.overlaps p q = false) ∧ cs.Pairwise (ClientsApart netip) := by
  induction cs generalizing j prefixes with
  | nil => simp [checkClients]
  | cons c rest ih =>
    rw [checkClients, List.forall_mem_cons, List.pairwise_cons]
    cases hc : checkClient netip c with
    | none => simp
    | some p =>
      simp only [ite_error_ok, ih, List.any_eq_true, not_exists, not_and, Bool.not_eq_true,
        Option.some.injEq, exists_eq_left', ClientsApart, hc, List.mem_append,
        List.mem_singleton]
      constructor
      · rintro ⟨hclear, hall, hpairs⟩
        refine ⟨⟨hclear, fun d hd => ?_⟩, fun d hd p' q hp hq => ?_, hpairs⟩
        · obtain ⟨q, hq, hfree⟩ := hall d hd
          exact ⟨q, hq, fun r hr => hfree r (.inl hr)⟩
        · obtain ⟨q', hq', hfree⟩ := hall d hd
          obtain rfl : q' = q := Option.some.inj (hq'.symm.trans hq)
          exact hp ▸ hfree p (.inr rfl)
      · rintro ⟨⟨hclear, hall⟩, hhead, hpairs⟩
        refine ⟨hclear, fun d hd => ?_, hpairs⟩
        obtain ⟨q, hq, hfree⟩ := hall d hd
        exact ⟨q, hq, fun r hr => hr.elim (hfree r) fun heq => heq ▸ hhead d hd p q rfl hq⟩

def ExportsApart (e f : Export) : Prop :=
  e.id ≠ f.id ∧ (e.volumeID = f.volumeID →
    overlaps (joinRooted (ascii "/") e.relativePath)
      (joinRooted (ascii "/") f.relativePath) = false)

structure ExportGood (netip : Netip) (known : List Bytes) (e : Export) : Prop where
  id : uuid e.id = true
  volume : e.volumeID ∈ known
  path : NfsConfig.relativePath e.relativePath = true
  served : 0 < e.clients.items.length
  counted : e.clients.items.length ≤ maxClients
  clients : ∀ c ∈ e.clients.items, ∃ p, checkClient netip c = some p
  networks : e.clients.items.Pairwise (ClientsApart netip)

theorem checkExports_iff {known : List Bytes} {i : Nat} {earlier es : List Export} :
    checkExports netip known i earlier es = .ok () ↔
      (∀ e ∈ es, ExportGood netip known e ∧ ∀ o ∈ earlier, ExportsApart o e) ∧
        es.Pairwise ExportsApart := by
  induction es generalizing i earlier with
  | nil => simp [checkExports]
  | cons e rest ih =>
    have hclients := @checkClients_iff netip i 0 [] e.clients.items
    simp only [List.not_mem_nil, false_implies, implies_true, and_true] at hclients
    rw [checkExports, ite_error_ok, ite_error_ok]
    refine Iff.trans ?_ (apart_cons (f := id)).symm
    simp only [Bool.or_eq_true, Bool.not_eq_true', List.contains_eq_mem, decide_eq_false_iff_not,
      decide_eq_true_eq, beq_iff_eq, not_or, Decidable.not_not, Bool.not_eq_false, Nat.not_lt,
      List.any_eq_true, Bool.and_eq_true, not_exists, not_and, Bool.not_eq_true]
    constructor
    · rintro ⟨⟨⟨⟨⟨⟨hid, hnew⟩, hvolume⟩, hpath⟩, hserved⟩, hcounted⟩, hfree, h⟩
      cases hc : checkClients netip i 0 [] e.clients.items with
      | error err => simp [hc] at h
      | ok u =>
        obtain ⟨hall, hnetworks⟩ := hclients.mp hc
        rw [hc] at h
        exact ⟨⟨⟨hid, hvolume, hpath, Nat.pos_of_ne_zero hserved, hcounted, hall, hnetworks⟩,
          fun o ho => ⟨fun heq => hnew (heq ▸ List.mem_map_of_mem ho), hfree o ho⟩⟩, ih.mp h⟩
    · rintro ⟨⟨he, hclear⟩, h⟩
      have hnew : e.id ∉ earlier.map Export.id := by
        intro hmem
        obtain ⟨o, ho, heq⟩ := List.mem_map.mp hmem
        exact (hclear o ho).1 heq
      refine ⟨⟨⟨⟨⟨⟨he.id, hnew⟩, he.volume⟩, he.path⟩, he.served.ne'⟩, he.counted⟩,
        fun o ho => (hclear o ho).2, ?_⟩
      rw [hclients.mpr ⟨he.clients, he.networks⟩]
      exact ih.mpr h

/-- Everything an export policy is asked beside its share policy. -/
structure PolicySound (netip : Netip) (p : Policy) (c : ShareConfig.Config) : Prop where
  format : p.format = formatName
  schema : p.schemaVersion = 1
  revision : p.revision ≠ 0
  bound : p.volumeRevision = c.revision
  present : p.exports.isSome = true
  counted : p.exports.items.length ≤ maxExports
  exports : ∀ e ∈ p.exports.items, ExportGood netip (c.volumes.items.map ShareConfig.Volume.id) e
  apart : p.exports.items.Pairwise ExportsApart
  size : p.marshal.length ≤ maxInputBytes

/-- Validation decides soundness over sound shares. -/
theorem policy_validate_iff {p : Policy} {c : ShareConfig.Config} :
    p.validate netip c = .ok () ↔ ShareConfig.Sound c ∧ PolicySound netip p c := by
  have hexports := @checkExports_iff netip (c.volumes.items.map ShareConfig.Volume.id) 0 []
    p.exports.items
  simp only [List.not_mem_nil, false_implies, implies_true, and_true] at hexports
  rw [Policy.validate, ← ShareConfig.validate_iff]
  cases hv : c.validate with
  | error e => simp
  | ok u =>
    dsimp only
    rw [ite_error_ok, ite_error_ok]
    simp only [true_and, Bool.or_eq_true, bne_iff_ne, ne_eq, beq_iff_eq, not_or, Decidable.not_not,
      Option.isNone_iff_eq_none, ← Option.isSome_iff_ne_none, decide_eq_true_eq, Nat.not_lt]
    constructor
    · rintro ⟨⟨⟨⟨hformat, hschema⟩, hrev⟩, hbound⟩, ⟨hsome, hcounted⟩, h⟩
      cases hc : checkExports netip (c.volumes.items.map ShareConfig.Volume.id) 0 []
          p.exports.items with
      | error err => simp [hc] at h
      | ok u =>
        obtain ⟨hall, hpairs⟩ := hexports.mp hc
        simp only [hc, Policy.checkSize, ite_error_ok, Nat.not_lt, and_true] at h
        exact ⟨hformat, hschema, hrev, hbound, hsome, hcounted, hall, hpairs, h⟩
    · intro h
      refine ⟨⟨⟨⟨h.format, h.schema⟩, h.revision⟩, h.bound⟩, ⟨h.present, h.counted⟩, ?_⟩
      rw [hexports.mpr ⟨h.exports, h.apart⟩]
      simp only [Policy.checkSize, ite_error_ok, Nat.not_lt, and_true]
      exact h.size

structure Export.Checked (known : List Bytes) (e : Export) : Prop where
  id : uuid e.id = true
  volume : e.volumeID ∈ known
  path : NfsConfig.relativePath e.relativePath = true
  clients : ∃ cs, e.clients = some cs ∧ ∀ c ∈ cs, c.Checked

structure Policy.Accepted (p : Policy) (volumes : ShareConfig.Config) : Prop where
  shares : volumes.Accepted
  format : p.format = formatName
  schema : p.schemaVersion = 1
  revision : p.revision ≠ 0
  bound : p.volumeRevision = volumes.revision
  exports : ∃ es, p.exports = some es ∧ (es.map Export.id).Nodup ∧
    ∀ e ∈ es, e.Checked (volumes.volumes.items.map ShareConfig.Volume.id)
  size : p.marshal.length ≤ maxInputBytes

theorem Policy.validate_ok {p : Policy} {volumes : ShareConfig.Config}
    (h : p.validate netip volumes = .ok ()) : p.Accepted volumes := by
  obtain ⟨hshares, hsound⟩ := policy_validate_iff.mp h
  obtain ⟨es, hes⟩ := Option.isSome_iff_exists.mp hsound.present
  have hitems : p.exports.items = es := by rw [hes]; rfl
  refine ⟨ShareConfig.Config.validate_ok (ShareConfig.validate_iff.mpr hshares), hsound.format,
    hsound.schema, hsound.revision, hsound.bound, ⟨es, hes, ?_, fun e he => ?_⟩, hsound.size⟩
  · rw [← hitems, List.Nodup, List.pairwise_map]
    exact hsound.apart.imp fun hap => hap.1
  · have hgood := hsound.exports e (hitems ▸ he)
    cases hclients : e.clients with
    | none => simpa [hclients] using hgood.served
    | some cs =>
      refine ⟨hgood.id, hgood.volume, hgood.path, cs, hclients, fun c hc => ?_⟩
      obtain ⟨p, hp⟩ := hgood.clients c (by rw [hclients]; exact hc)
      exact (checkClient_some hp).2

variable {height : Nat}

theorem carries_client {c : Client} (h : c.Checked) :
    Carries (some keys) (height + 1) Client.codec (Client.codec.write c) c := by
  have haccess : validString c.access = true := by
    rcases h.access with heq | heq <;> rw [heq] <;> rfl
  have hsquash : validString c.squash = true := by
    rcases h.squash with heq | heq <;> rw [heq] <;> rfl
  have hsecurity : validString c.security = true := by
    rcases h.security with ((heq | heq) | heq) | heq <;> rw [heq] <;> rfl
  exact carries_struct <| .text h.network <| .text haccess <| .text hsquash <|
    .field (carries_uint32 c.anonymousUID) <| .field (carries_uint32 c.anonymousGID) <|
    .text hsecurity .nil

theorem carries_export {e : Export} {known : List Bytes} (h : e.Checked known)
    (hknown : ∀ id ∈ known, ShareConfig.identifier id = true) :
    Carries (some keys) (height + 3) Export.codec (Export.codec.write e) e := by
  obtain ⟨cs, hcs, hclients⟩ := h.clients
  obtain ⟨id, volumeID, path, clients⟩ := e
  cases hcs
  have hslice : Carries (some keys) (height + 2) (.slice Client.codec)
      (.arr (.ofList (cs.map Client.codec.write))) (some cs) :=
    carries_slice fun c hc => carries_client (hclients c hc)
  exact carries_struct <| .text (uuid_valid h.id) <|
    .text (ShareConfig.identifier_valid (hknown _ h.volume)) <|
    .text (relativePath_valid h.path) <| .field hslice .nil

theorem Policy.Accepted.carries {p : Policy} {volumes : ShareConfig.Config}
    (h : p.Accepted volumes) :
    Carries (some keys) (height + 5) Policy.codec (Policy.codec.write p) p := by
  obtain ⟨es, hes, _, hexports⟩ := h.exports
  obtain ⟨vs, hvs, _, hvolumes⟩ := h.shares.volumes
  have hknown : ∀ id ∈ volumes.volumes.items.map ShareConfig.Volume.id,
      ShareConfig.identifier id = true := by
    intro id hid
    rw [hvs] at hid
    obtain ⟨v, hv, rfl⟩ := List.mem_map.mp hid
    exact (hvolumes v hv).1
  have hformat := h.format
  have hschema := h.schema
  obtain ⟨format, schema, revision, volumeRevision, exports⟩ := p
  subst hformat hschema hes
  have hslice : Carries (some keys) (height + 4) (.slice Export.codec)
      (.arr (.ofList (es.map Export.codec.write))) (some es) :=
    carries_slice fun e he => carries_export (hexports e he) hknown
  exact carries_struct <| .text rfl <| .field (carries_schema rfl) <|
    .field (carries_uint64 revision) <| .field (carries_uint64 volumeRevision) <| .field hslice .nil

theorem decode_marshal {p : Policy} {volumes : ShareConfig.Config}
    (h : p.validate netip volumes = .ok ()) : decode netip p.marshal volumes = .ok p := by
  have haccepted := Policy.validate_ok h
  have hread := decodeDocument_render haccepted.carries haccepted.size
    (show 5 ≤ 8 by decide) (by decide)
  rw [decode, Policy.marshal, hread]
  simp only [h]

/-!
The parameter at work on dotted addresses: a prefix is an address with its length, and a
spelling is accepted only in canonical decimal.
-/

def ipv4Octets (a : Nat) : List Nat :=
  [a / 2 ^ 24 % 256, a / 2 ^ 16 % 256, a / 2 ^ 8 % 256, a % 256]

def ipv4String (p : Nat × Nat) : Bytes :=
  [0x2e].intercalate ((ipv4Octets p.1).map formatUint) ++ 0x2f :: formatUint p.2

def decimalBelow (bound : Nat) (s : Bytes) : Option Nat :=
  (List.range bound).find? fun n => formatUint n == s

def ipv4Parse (s : Bytes) : Option (Nat × Nat) :=
  match split s 0x2f with
  | [address, length] => do
    let octets ← (split address 0x2e).mapM (decimalBelow 256)
    guard (octets.length = 4)
    let bits ← decimalBelow 33 length
    some (octets.foldl (fun a o => 256 * a + o) 0, bits)
  | _ => none

theorem ipv4String_ascii (p : Nat × Nat) : ∀ b ∈ ipv4String p, b.toNat < 0x80 := by
  intro b hb
  rcases List.mem_append.mp hb with hb | hb
  · rcases mem_of_intercalate hb with rfl | ⟨l, hl, hb⟩
    · decide
    · obtain ⟨n, _, rfl⟩ := List.mem_map.mp hl
      exact formatUint_ascii n b hb
  · rcases List.mem_cons.mp hb with rfl | hb
    · decide
    · exact formatUint_ascii p.2 b hb

def Netip.ipv4 : Netip where
  Prefix := Nat × Nat
  eq := inferInstance
  parsePrefix := ipv4Parse
  isValid _ := true
  bits p := p.2
  masked p := (p.1 / 2 ^ (32 - p.2) * 2 ^ (32 - p.2), p.2)
  string := ipv4String
  is4In6 _ := false
  isUnspecified p := p.1 == 0
  overlaps p q :=
    let drop := 32 - min p.2 q.2
    p.1 / 2 ^ drop == q.1 / 2 ^ drop
  string_ascii := ipv4String_ascii

end NfsConfig
