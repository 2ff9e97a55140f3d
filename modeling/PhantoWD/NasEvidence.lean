import PhantoWD.JsonStruct

/-!
An intent and a local receipt describe one policy replacement by operation, revisions and
digests. They are compared with the exact current and base policy bytes.
-/
namespace NasEvidence

open GoText GoJson ConfigJson

def intentFormat : Bytes := ascii "phantowd-nas-policy-intent"
def receiptFormat : Bytes := ascii "phantowd-nas-policy-local-receipt"
def localConfirmed : Bytes := ascii "local-confirmed"
def maxRecordBytes : Nat := 4096

inductive Kind where
  | unavailable | invalidPolicy | noRecordedOperation | unconfirmedBase | unconfirmedPublication
  | matchingLocalRecords | inconsistent
  deriving DecidableEq

/-- What the records need of the policy package and of SHA-256. -/
structure PolicyCode (P : Type) where
  decode : Bytes → Option P
  revision : P → Nat
  revision_lt : ∀ policy, revision policy < 2 ^ 64
  retainsBindings : P → P → Bool
  sha256 : Bytes → Bytes

def PolicyCode.digest {P : Type} (c : PolicyCode P) (data : Bytes) : Bytes :=
  hexEncode (c.sha256 data)

structure Record where
  format : Bytes
  schemaVersion : Int
  installationID : Bytes
  operationID : Bytes
  baseRevision : Nat
  nextRevision : Nat
  baseSHA256 : Bytes
  nextSHA256 : Bytes
  phase : Bytes
  deriving DecidableEq

def requiredKeys : List Bytes :=
  [ascii "format", ascii "schema_version", ascii "installation_id", ascii "operation_id",
    ascii "base_revision", ascii "next_revision", ascii "base_sha256", ascii "next_sha256"]

def phaseKey : Bytes := ascii "phase"

def recordNames : List Bytes := requiredKeys ++ [phaseKey]

def unmarshalRecord (data : Bytes) : Option Record := do
  let members ← structMembers data
  let field := fun name => bound recordNames (ascii name) members
  let format ← bindString (field "format")
  let schemaVersion ← bindInt (field "schema_version")
  let installationID ← bindString (field "installation_id")
  let operationID ← bindString (field "operation_id")
  let baseRevision ← bindUint (field "base_revision")
  let nextRevision ← bindUint (field "next_revision")
  let baseSHA256 ← bindString (field "base_sha256")
  let nextSHA256 ← bindString (field "next_sha256")
  let phase ← bindString (field "phase")
  some ⟨format, schemaVersion, installationID, operationID, baseRevision, nextRevision,
    baseSHA256, nextSHA256, phase⟩

def Record.fixedMembers (r : Record) : List (Bytes × Value) :=
  [(ascii "format", .str r.format), (ascii "schema_version", .num (formatInt r.schemaVersion)),
    (ascii "installation_id", .str r.installationID), (ascii "operation_id", .str r.operationID),
    (ascii "base_revision", .num (formatUint r.baseRevision)),
    (ascii "next_revision", .num (formatUint r.nextRevision)),
    (ascii "base_sha256", .str r.baseSHA256), (ascii "next_sha256", .str r.nextSHA256)]

def Record.members (r : Record) : List (Bytes × Value) :=
  r.fixedMembers ++ if r.phase = [] then [] else [(phaseKey, .str r.phase)]

def marshalRecord (r : Record) : Bytes := (Value.obj (.ofList r.members)).render

def lowerHex (c : Rune) : Bool := (0x30 ≤ c && c ≤ 0x39) || (0x61 ≤ c && c ≤ 0x66)

def canonicalHex (s : Bytes) (size : Nat) (nonzero : Bool) : Bool :=
  s.length = size && (runes s).all lowerHex && (!nonzero || (runes s).any (· ≠ 0x30))

def Record.valid (receipt : Bool) (r : Record) : Bool :=
  r.format = (if receipt then receiptFormat else intentFormat) && r.schemaVersion = 1 &&
    r.phase = (if receipt then localConfirmed else []) &&
    canonicalHex r.installationID 32 true && canonicalHex r.operationID 32 true &&
    r.baseRevision ≠ 0 && r.baseRevision ≠ maxUint64 && r.nextRevision = r.baseRevision + 1 &&
    canonicalHex r.baseSHA256 64 false && canonicalHex r.nextSHA256 64 false

def recordKeys (receipt : Bool) : List Bytes := if receipt then recordNames else requiredKeys

def decode (data : Bytes) (receipt : Bool) : Option Record := do
  let _ ← decodeEnvelope data maxRecordBytes 2 (recordKeys receipt)
  let r ← unmarshalRecord data
  if r.valid receipt then some r else none

variable {P : Type} (c : PolicyCode P)

def inspectOperation (policy : P) (current : Bytes) (i : Record) (receipt : Option Bytes) : Kind :=
  let base := c.revision policy = i.baseRevision ∧ c.digest current = i.baseSHA256
  let next := c.revision policy = i.nextRevision ∧ c.digest current = i.nextSHA256
  match receipt with
  | none =>
    if base then .unconfirmedBase
    else if next then .unconfirmedPublication
    else .inconsistent
  | some receipt =>
    match decode receipt true with
    | none => .inconsistent
    | some r =>
      if { r with format := i.format, phase := [] } = i ∧ next then .matchingLocalRecords
      else .inconsistent

/-- A missing file is `none`; `complete` is the caller's claim that nothing was unreadable. -/
def inspect (installationID : Bytes) (current intent receipt : Option Bytes) (complete : Bool) :
    Kind :=
  match current with
  | none => .unavailable
  | some current =>
    if complete = false ∨ canonicalHex installationID 32 true = false then .unavailable
    else match c.decode current, intent with
    | none, _ => .invalidPolicy
    | some _, none => if receipt = none then .noRecordedOperation else .inconsistent
    | some policy, some intent =>
      match decode intent false with
      | none => .inconsistent
      | some i =>
        if i.installationID ≠ installationID then .inconsistent
        else inspectOperation c policy current i receipt

def unmarshalBase (data : Bytes) : Option (Nat × Bytes) := do
  let members ← structMembers data
  let names := [ascii "base_revision", ascii "base_sha256"]
  let revision ← bindUint (bound names (ascii "base_revision") members)
  let hash ← bindString (bound names (ascii "base_sha256") members)
  some (revision, hash)

def unmarshalOperation (data : Bytes) : Option Bytes := do
  let members ← structMembers data
  bindString (bound [ascii "operation_id"] (ascii "operation_id") members)

def baseAgrees (base : Bytes) (intent : Option Bytes) : Bool :=
  match c.decode base, intent.bind unmarshalBase with
  | some policy, some (revision, hash) => c.revision policy = revision && c.digest base = hash
  | _, _ => false

def nasEvidenceKind (installationID : Bytes) (current intent receipt base : Option Bytes) : Kind :=
  let kind := inspect c installationID current intent receipt true
  match base with
  | none => kind
  | some base =>
    if kind = .unavailable ∨ kind = .invalidPolicy ∨ kind = .inconsistent then kind
    else if kind = .noRecordedOperation ∨ baseAgrees c base intent = false then .inconsistent
    else kind

def encodeOperation (installationID operationID base next : Bytes) : Option (Bytes × Bytes) :=
  if canonicalHex installationID 32 true = false ∨ canonicalHex operationID 32 true = false then
    none
  else do
    let previous ← c.decode base
    let candidate ← c.decode next
    if c.retainsBindings previous candidate = false then none
    else
      let r : Record := ⟨intentFormat, 1, installationID, operationID, c.revision previous,
        c.revision candidate, c.digest base, c.digest next, []⟩
      let intent := marshalRecord r
      let _ ← decode intent false
      let receipt := marshalRecord { r with format := receiptFormat, phase := localConfirmed }
      if maxRecordBytes < receipt.length then none else some (intent, receipt)

theorem plain_hexChar {n : Nat} (h : n < 16) : plain (hexChar n) = true := by
  interval_cases n <;> rfl

theorem hexEncode_plain (s : Bytes) : (hexEncode s).all plain = true := by
  rw [List.all_eq_true]
  intro b hb
  obtain ⟨a, _, ha⟩ := List.mem_flatMap.mp hb
  have hlt : a.toNat < 256 := a.toNat_lt
  rcases List.mem_cons.mp ha with rfl | ha
  · exact plain_hexChar (by omega)
  · rw [List.mem_singleton.mp ha]
    exact plain_hexChar (by omega)

theorem lowerHex_range {r : Nat} (h : lowerHex r = true) :
    0x30 ≤ r ∧ r ≤ 0x39 ∨ 0x61 ≤ r ∧ r ≤ 0x66 := by
  simpa [lowerHex] using h

theorem plain_of_range {b : UInt8}
    (h : 0x30 ≤ b.toNat ∧ b.toNat ≤ 0x39 ∨ 0x61 ≤ b.toNat ∧ b.toNat ≤ 0x66) :
    plain b = true := by
  simp only [plain, ne_eq, decide_not, ← UInt8.toNat_inj, Bool.and_eq_true, decide_eq_true_eq,
    Bool.not_eq_eq_eq_not, Bool.not_true, decide_eq_false_iff_not, UInt8.reduceToNat]
  omega

theorem canonicalHex_plain {s : Bytes} {size : Nat} {nonzero : Bool}
    (h : canonicalHex s size nonzero = true) : s.all plain = true := by
  simp only [canonicalHex, Bool.and_eq_true] at h
  have hhex : ∀ r ∈ runes s, lowerHex r = true := List.all_eq_true.mp h.1.2
  have hascii : ∀ r ∈ runes s, r < (0x80 : Nat) := by
    intro r hr
    have hrange : _ ∨ _ := lowerHex_range (hhex r hr)
    exact hrange.elim (fun h => lt_of_le_of_lt h.2 (by decide))
      fun h => lt_of_le_of_lt h.2 (by decide)
  rw [List.all_eq_true]
  intro b hb
  exact plain_of_range (lowerHex_range (hhex b.toNat (mem_runes_of_ascii hascii b hb)))

structure Record.Encodable (r : Record) : Prop where
  format : r.format.all plain = true
  schema : r.schemaVersion = 1
  installation : r.installationID.all plain = true
  operation : r.operationID.all plain = true
  base : r.baseRevision < 2 ^ 64
  next : r.nextRevision < 2 ^ 64
  baseHash : r.baseSHA256.all plain = true
  nextHash : r.nextSHA256.all plain = true
  phase : r.phase.all plain = true

variable {r : Record}

theorem Record.Encodable.printable (h : r.Encodable) :
    (Value.obj (.ofList r.members)).Printable := by
  have hone : ∃ n, formatInt r.schemaVersion = formatUint n := ⟨1, by rw [h.schema]; rfl⟩
  have hfixed : ∀ tail : List (Bytes × Value), (Members.ofList tail).Printable →
      (Members.ofList (r.fixedMembers ++ tail)).Printable := fun tail ht =>
    ⟨rfl, h.format, rfl, hone, rfl, h.installation, rfl, h.operation, rfl, ⟨_, rfl⟩, rfl, ⟨_, rfl⟩,
      rfl, h.baseHash, rfl, h.nextHash, ht⟩
  refine hfixed _ ?_
  split_ifs
  · trivial
  · exact ⟨rfl, h.phase, trivial⟩

theorem structMembers_marshal (h : r.Encodable) :
    structMembers (marshalRecord r) = some r.members := by
  simp [structMembers, marshalRecord, parse_render h.printable.encodable]

theorem bindString_one (text : Bytes) : bindString [.str text] = some text := rfl

theorem bindUint_one {n : Nat} (h : n < 2 ^ 64) : bindUint [.num (formatUint n)] = some n := by
  simp [bindUint, parseUint_formatUint h]

theorem bound_members (r : Record) :
    bound recordNames (ascii "format") r.members = [.str r.format] ∧
    bound recordNames (ascii "schema_version") r.members = [.num (formatInt r.schemaVersion)] ∧
    bound recordNames (ascii "installation_id") r.members = [.str r.installationID] ∧
    bound recordNames (ascii "operation_id") r.members = [.str r.operationID] ∧
    bound recordNames (ascii "base_revision") r.members = [.num (formatUint r.baseRevision)] ∧
    bound recordNames (ascii "next_revision") r.members = [.num (formatUint r.nextRevision)] ∧
    bound recordNames (ascii "base_sha256") r.members = [.str r.baseSHA256] ∧
    bound recordNames (ascii "next_sha256") r.members = [.str r.nextSHA256] := by
  unfold Record.members
  split_ifs
  · exact ⟨rfl, rfl, rfl, rfl, rfl, rfl, rfl, rfl⟩
  · exact ⟨rfl, rfl, rfl, rfl, rfl, rfl, rfl, rfl⟩

theorem bind_phase (r : Record) :
    bindString (bound recordNames (ascii "phase") r.members) = some r.phase := by
  unfold Record.members
  split_ifs with hp
  · rw [hp]
    rfl
  · rfl

theorem unmarshal_marshal (h : r.Encodable) :
    unmarshalRecord (marshalRecord r) = some r := by
  obtain ⟨hf, hs, hi, ho, hb, hn, hbh, hnh⟩ := bound_members r
  have hone : bindInt [.num (formatInt r.schemaVersion)] = some r.schemaVersion := by
    rw [h.schema]
    rfl
  simp only [unmarshalRecord, structMembers_marshal h, Option.bind_eq_bind, Option.bind_some, hf,
    hs, hi, ho, hb, hn, hbh, hnh, bind_phase, bindString_one, bindUint_one h.base,
    bindUint_one h.next, hone]

theorem recordKeys_spec (receipt : Bool) (r : Record) (hp : r.phase = [] ↔ receipt = false) :
    r.members.map Prod.fst = recordKeys receipt := by
  unfold Record.members
  cases receipt with
  | false =>
    rw [if_pos (hp.mpr rfl)]
    rfl
  | true =>
    rw [if_neg fun h => Bool.noConfusion (hp.mp h)]
    rfl

theorem scan_members (r : Record) :
    scanValue 2 none 0 (.obj (.ofList r.members)) = true := by
  unfold Record.members
  split_ifs
  · rfl
  · rfl

theorem decode_marshal (h : r.Encodable) (receipt : Bool) (hp : r.phase = [] ↔ receipt = false)
    (hlen : (marshalRecord r).length ≤ maxRecordBytes) :
    decode (marshalRecord r) receipt = if r.valid receipt then some r else none := by
  have henv := decodeEnvelope_render h.printable.encodable hlen
    (by cases receipt <;> decide) (scan_members r)
    (show (Members.ofList r.members).toList.map Prod.fst = recordKeys receipt by
      rw [Members.toList_ofList, recordKeys_spec receipt r hp])
  unfold decode
  rw [show decodeEnvelope (marshalRecord r) maxRecordBytes 2 (recordKeys receipt) = _ from henv,
    unmarshal_marshal h]
  rfl

theorem decode_spec {data : Bytes} {receipt : Bool} (h : decode data receipt = some r) :
    data.length ≤ maxRecordBytes ∧ r.valid receipt = true ∧ unmarshalRecord data = some r ∧
      ∃ members, structMembers data = some members ∧ ∀ m ∈ members, m.1 ∈ recordKeys receipt := by
  unfold decode at h
  simp only [Option.bind_eq_bind, Option.bind_eq_some_iff] at h
  obtain ⟨fields, henv, r', hr, h⟩ := h
  split_ifs at h with hv
  cases h
  obtain ⟨hlen, hmem, hkeys⟩ := decodeEnvelope_spec henv
  exact ⟨hlen, hv, hr, fields, hmem, hkeys⟩

theorem unmarshalRecord_fields {data : Bytes} {members : List (Bytes × Value)}
    (hm : structMembers data = some members) (h : unmarshalRecord data = some r) :
    bindUint (bound recordNames (ascii "base_revision") members) = some r.baseRevision ∧
      bindString (bound recordNames (ascii "base_sha256") members) = some r.baseSHA256 := by
  simp only [unmarshalRecord, hm, Option.bind_eq_bind, Option.bind_some,
    Option.bind_eq_some_iff] at h
  obtain ⟨_, _, _, _, _, _, _, _, rev, hrev, _, _, hash, hhash, _, _, _, _, h⟩ := h
  cases h
  exact ⟨hrev, hhash⟩

theorem bound_narrow {members : List (Bytes × Value)} {names : List Bytes} {name : Bytes}
    (hk : ∀ m ∈ members, m.1 ∈ requiredKeys)
    (hw : ∀ k ∈ requiredKeys, fieldOf recordNames k = some name ↔ k = name)
    (hn : ∀ k ∈ requiredKeys, fieldOf names k = some name ↔ k = name) :
    bound names name members = bound recordNames name members :=
  (bound_exact hk hn).trans (bound_exact hk hw).symm

theorem unmarshalBase_eq {data : Bytes} (h : decode data false = some r) :
    unmarshalBase data = some (r.baseRevision, r.baseSHA256) := by
  obtain ⟨_, _, hr, members, hm, hk⟩ := decode_spec h
  obtain ⟨hrev, hhash⟩ := unmarshalRecord_fields hm hr
  have hrevision : bound [ascii "base_revision", ascii "base_sha256"] (ascii "base_revision")
      members = bound recordNames (ascii "base_revision") members :=
    bound_narrow hk (by decide) (by decide)
  have hbase : bound [ascii "base_revision", ascii "base_sha256"] (ascii "base_sha256")
      members = bound recordNames (ascii "base_sha256") members :=
    bound_narrow hk (by decide) (by decide)
  simp only [unmarshalBase, hm, Option.bind_eq_bind, Option.bind_some, hrevision, hbase, hrev,
    hhash]

section Kinds

variable {c} {installationID : Bytes} {current intent receipt base : Option Bytes}

structure Matches (c : PolicyCode P) (installationID current intent receipt : Bytes)
    (i : Record) : Prop where
  installation : canonicalHex installationID 32 true = true
  intent : decode intent false = some i
  owner : i.installationID = installationID
  receipt : ∃ r, decode receipt true = some r ∧ { r with format := i.format, phase := [] } = i
  policy : ∃ p, c.decode current = some p ∧ c.revision p = i.nextRevision
  digest : c.digest current = i.nextSHA256

theorem inspectOperation_matching {p : P} {s : Bytes} {i : Record} :
    inspectOperation c p s i receipt = .matchingLocalRecords ↔
      ∃ u r, receipt = some u ∧ decode u true = some r ∧
        { r with format := i.format, phase := [] } = i ∧
        c.revision p = i.nextRevision ∧ c.digest s = i.nextSHA256 := by
  unfold inspectOperation
  cases receipt with
  | none =>
    simp only
    split_ifs <;> simp
  | some u =>
    cases hd : decode u true with
    | none => simp [hd]
    | some r =>
      simp only [hd]
      split_ifs with h
      · simpa [hd] using h
      · simpa [hd] using h

theorem inspectOperation_ne_noRecorded (p : P) (s : Bytes) (i : Record) :
    inspectOperation c p s i receipt ≠ .noRecordedOperation := by
  unfold inspectOperation
  cases receipt with
  | none =>
    simp only
    split_ifs <;> simp
  | some u =>
    cases hd : decode u true with
    | none => simp [hd]
    | some r =>
      simp only [hd]
      split_ifs <;> simp

theorem inspect_noRecorded :
    inspect c installationID current intent receipt true = .noRecordedOperation ↔
      canonicalHex installationID 32 true = true ∧ (∃ s p, current = some s ∧ c.decode s = some p) ∧
        intent = none ∧ receipt = none := by
  cases current with
  | none => simp [inspect]
  | some s =>
    by_cases hi : canonicalHex installationID 32 true = true
    · cases hp : c.decode s with
      | none => simp [inspect, hi, hp]
      | some p =>
        cases intent with
        | none => simp [inspect, hi, hp]
        | some t =>
          cases ht : decode t false with
          | none => simp [inspect, hi, hp, ht]
          | some i =>
            by_cases ho : i.installationID = installationID
            · simp [inspect, hi, hp, ht, ho, inspectOperation_ne_noRecorded]
            · simp [inspect, hi, hp, ht, ho]
    · simp [inspect, hi]

/-- Only records of this very operation are reported as matching. -/
theorem inspect_matching :
    inspect c installationID current intent receipt true = .matchingLocalRecords ↔
      ∃ s t u i, current = some s ∧ intent = some t ∧ receipt = some u ∧
        Matches c installationID s t u i := by
  constructor
  · intro h
    cases current with
    | none => simp [inspect] at h
    | some s =>
      by_cases hi : canonicalHex installationID 32 true = true
      · cases hp : c.decode s with
        | none => simp [inspect, hi, hp] at h
        | some p =>
          cases intent with
          | none =>
            cases receipt <;> simp [inspect, hi, hp] at h
          | some t =>
            cases ht : decode t false with
            | none => simp [inspect, hi, hp, ht] at h
            | some i =>
              by_cases ho : i.installationID = installationID
              · simp only [inspect, hi, hp, ht, ho, Bool.true_eq_false, or_self, if_false, ne_eq,
                  not_true_eq_false] at h
                obtain ⟨u, r, hu, hr, heq, hrev, hdig⟩ := inspectOperation_matching.mp h
                exact ⟨s, t, u, i, rfl, rfl, hu, hi, ht, ho, ⟨r, hr, heq⟩, ⟨p, hp, hrev⟩, hdig⟩
              · simp [inspect, hi, hp, ht, ho] at h
      · simp [inspect, hi] at h
  · rintro ⟨s, t, u, i, rfl, rfl, rfl, hm⟩
    obtain ⟨r, hr, heq⟩ := hm.receipt
    obtain ⟨p, hp, hrev⟩ := hm.policy
    have hop : inspectOperation c p s i (some u) = .matchingLocalRecords :=
      inspectOperation_matching.mpr ⟨u, r, rfl, hr, heq, hrev, hm.digest⟩
    simp [inspect, hm.installation, hp, hm.intent, hm.owner, hop]

theorem kind_noRecorded :
    nasEvidenceKind c installationID current intent receipt base = .noRecordedOperation ↔
      inspect c installationID current intent receipt true = .noRecordedOperation ∧
        base = none := by
  unfold nasEvidenceKind
  cases base with
  | none => simp
  | some b =>
    simp only [reduceCtorEq, and_false, iff_false]
    intro h
    split_ifs at h with h1 h2
    · rcases h1 with h1 | h1 | h1 <;> rw [h1] at h <;> cases h
    · exact h2 (.inl h)

theorem kind_matching :
    nasEvidenceKind c installationID current intent receipt base = .matchingLocalRecords ↔
      inspect c installationID current intent receipt true = .matchingLocalRecords ∧
        ∀ b, base = some b → baseAgrees c b intent = true := by
  unfold nasEvidenceKind
  cases base with
  | none => simp
  | some b =>
    simp only [Option.some.injEq, forall_eq']
    constructor
    · intro h
      split_ifs at h with h1 h2
      · rcases h1 with h1 | h1 | h1 <;> rw [h1] at h <;> cases h
      · exact ⟨h, by simpa [h] using h2⟩
    · rintro ⟨h, ha⟩
      simp [h, ha]

theorem baseAgrees_iff {b t : Bytes} {i : Record} (hi : decode t false = some i) :
    baseAgrees c b (some t) = true ↔
      (∃ p, c.decode b = some p ∧ c.revision p = i.baseRevision) ∧ c.digest b = i.baseSHA256 := by
  unfold baseAgrees
  cases hp : c.decode b with
  | none => simp
  | some p => simp [unmarshalBase_eq hi]

end Kinds

def operationRecord (installationID operationID base next : Bytes) (previous candidate : P) :
    Record :=
  ⟨intentFormat, 1, installationID, operationID, c.revision previous, c.revision candidate,
    c.digest base, c.digest next, []⟩

def Record.confirmed (r : Record) : Record :=
  { r with format := receiptFormat, phase := localConfirmed }

theorem operationRecord_encodable {installationID operationID : Bytes} (base next : Bytes)
    (previous candidate : P) (hi : canonicalHex installationID 32 true = true)
    (ho : canonicalHex operationID 32 true = true) :
    (operationRecord c installationID operationID base next previous candidate).Encodable :=
  ⟨rfl, rfl, canonicalHex_plain hi, canonicalHex_plain ho, c.revision_lt _, c.revision_lt _,
    hexEncode_plain _, hexEncode_plain _, rfl⟩

theorem Record.Encodable.confirmed (h : r.Encodable) : r.confirmed.Encodable :=
  ⟨rfl, h.schema, h.installation, h.operation, h.base, h.next, h.baseHash, h.nextHash, rfl⟩

theorem Record.confirmed_valid (h : r.valid false = true) :
    r.confirmed.valid true = true := by
  simp only [Record.valid, Bool.and_eq_true, decide_eq_true_eq] at h
  obtain ⟨⟨⟨⟨⟨⟨⟨⟨⟨-, hs⟩, -⟩, hi⟩, ho⟩, hb⟩, hm⟩, hn⟩, hbh⟩, hnh⟩ := h
  simp [Record.valid, Record.confirmed, hs, hi, ho, hb, hm, hn, hbh, hnh]

theorem hexChar_hex {n : Nat} (h : n < 16) :
    (hexChar n).toNat < 0x80 ∧ lowerHex (hexChar n).toNat = true := by
  interval_cases n <;> decide

theorem canonicalHex_hexEncode (s : Bytes) :
    canonicalHex (hexEncode s) (2 * s.length) false = true := by
  have hall : (hexEncode s).length = 2 * s.length ∧ (runes (hexEncode s)).all lowerHex = true := by
    induction s with
    | nil => decide
    | cons b rest ih =>
      have hb := b.toNat_lt
      obtain ⟨hhigh, hhigh'⟩ := @hexChar_hex (b.toNat / 16) (by omega)
      obtain ⟨hlow, hlow'⟩ := @hexChar_hex (b.toNat % 16) (by omega)
      rw [show hexEncode (b :: rest) = hexChar (b.toNat / 16) :: hexChar (b.toNat % 16) ::
        hexEncode rest from rfl, runes_cons_ascii hhigh, runes_cons_ascii hlow]
      simp only [List.length_cons, ih.1, List.all_cons, hhigh', hlow', ih.2, Bool.and_self,
        and_true]
      omega
  simp [canonicalHex, hall.1, hall.2]

/-- Beside its texts a record takes little more than its keys. -/
theorem Record.Encodable.length (h : r.Encodable) : (marshalRecord r).length ≤
    r.format.length + r.installationID.length + r.operationID.length + r.baseSHA256.length +
      r.nextSHA256.length + r.phase.length + 300 := by
  have hkeys : recordNames.map (fun k => (quoted k).length) =
      [8, 16, 17, 14, 15, 15, 13, 13, 7] := by decide
  simp only [recordNames, requiredKeys, List.cons_append, List.nil_append, List.map_cons,
    List.map_nil, List.cons.injEq] at hkeys
  have hbase := length_formatUint_le h.base
  have hnext := length_formatUint_le h.next
  have hone : (formatInt 1).length = 1 := by decide
  rw [marshalRecord, JsonStruct.length_obj (by simp [Record.members, Record.fixedMembers])]
  simp only [Record.members, Record.fixedMembers, List.map_append, List.sum_append, List.map_cons,
    List.map_nil, List.sum_cons, List.sum_nil, Value.render, quoted_plain h.format,
    quoted_plain h.installation, quoted_plain h.operation, quoted_plain h.baseHash,
    quoted_plain h.nextHash, h.schema, hone, hkeys]
  split_ifs
  · simp
    omega
  · simp [Value.render, hkeys, quoted_plain h.phase]
    omega

/-- What a successful encoding provides: both records decode, agree with each other and
describe the step from `base` to `next`. -/
structure Operation (c : PolicyCode P)
    (installationID operationID base next intent receipt : Bytes) (i : Record) : Prop where
  installation : canonicalHex installationID 32 true = true
  intent_length : intent.length ≤ maxRecordBytes
  intent_decodes : decode intent false = some i
  receipt_length : receipt.length ≤ maxRecordBytes
  receipt_decodes : ∃ r, decode receipt true = some r ∧
    { r with format := i.format, phase := [] } = i
  owner : i.installationID = installationID
  operation : i.operationID = operationID
  base_revision : ∃ p, c.decode base = some p ∧ c.revision p = i.baseRevision
  next_revision : ∃ p, c.decode next = some p ∧ c.revision p = i.nextRevision
  base_digest : c.digest base = i.baseSHA256
  next_digest : c.digest next = i.nextSHA256

/-- Two policies a revision apart that keep the bindings are encoded, whatever their bytes. -/
theorem encodeOperation_some {installationID operationID base next : Bytes} {previous candidate : P}
    (hi : canonicalHex installationID 32 true = true)
    (ho : canonicalHex operationID 32 true = true) (hprev : c.decode base = some previous)
    (hcand : c.decode next = some candidate)
    (hretains : c.retainsBindings previous candidate = true) (hpos : c.revision previous ≠ 0)
    (hstep : c.revision candidate = c.revision previous + 1)
    (hsha : ∀ data, (c.sha256 data).length = 32) :
    ∃ i : Record, encodeOperation c installationID operationID base next =
      some (marshalRecord i, marshalRecord i.confirmed) := by
  have hlength : ∀ {s n b}, canonicalHex s n b = true → s.length = n := by
    intro s n b h
    simp only [canonicalHex, Bool.and_eq_true, decide_eq_true_eq] at h
    exact h.1.1
  have hdigest : ∀ data, canonicalHex (c.digest data) 64 false = true := by
    intro data
    have hhex := canonicalHex_hexEncode (c.sha256 data)
    rwa [hsha] at hhex
  have hmax : c.revision previous ≠ maxUint64 := by
    have hlt := c.revision_lt candidate
    unfold maxUint64
    omega
  have hformats : intentFormat.length ≤ 64 ∧ receiptFormat.length ≤ 64 ∧
      localConfirmed.length ≤ 64 := by decide
  have henc := operationRecord_encodable c base next previous candidate hi ho
  have hintent := henc.length
  have hreceipt := henc.confirmed.length
  simp only [operationRecord, Record.confirmed, hlength hi, hlength ho, hlength (hdigest _),
    List.length_nil] at henc hintent hreceipt
  have hdecode := decode_marshal henc false (by simp)
    (hintent.trans (by unfold maxRecordBytes; omega))
  rw [if_pos (by simp [Record.valid, hi, ho, hpos, hmax, hstep, hdigest])] at hdecode
  refine ⟨operationRecord c installationID operationID base next previous candidate, ?_⟩
  unfold encodeOperation
  simp only [hi, ho, hprev, hcand, hretains, hdecode, Bool.true_eq_false, or_self, if_false,
    Option.bind_eq_bind, Option.bind_some]
  exact if_neg (Nat.not_lt.mpr (hreceipt.trans (by unfold maxRecordBytes; omega)))

/-- What is encoded decodes to the operation it was made for. -/
theorem encodeOperation_spec {installationID operationID base next intent receipt : Bytes}
    (h : encodeOperation c installationID operationID base next = some (intent, receipt)) :
    ∃ i, Operation c installationID operationID base next intent receipt i := by
  unfold encodeOperation at h
  split_ifs at h with hids
  simp only [not_or, Bool.not_eq_false] at hids
  simp only [Option.bind_eq_bind, Option.bind_eq_some_iff] at h
  obtain ⟨previous, hprev, candidate, hcand, h⟩ := h
  obtain ⟨-, h⟩ := Option.ite_none_left_eq_some.mp h
  obtain ⟨i, hi, h⟩ := Option.bind_eq_some_iff.mp h
  have henc := operationRecord_encodable c base next previous candidate hids.1 hids.2
  -- the encoder already decoded its own intent, so the record is valid
  obtain ⟨hlen, _⟩ := decode_spec hi
  have hdec := decode_marshal henc false (by simp [operationRecord]) hlen
  rw [show decode (marshalRecord (operationRecord c installationID operationID base next previous
    candidate)) false = some i from hi] at hdec
  split_ifs at hdec with hvalid
  cases hdec
  split_ifs at h with hreceipt
  obtain ⟨rfl, rfl⟩ := Prod.mk.inj (Option.some.inj h)
  have hconf := decode_marshal henc.confirmed true
    (by simp [Record.confirmed, localConfirmed, ascii]) (Nat.not_lt.mp hreceipt)
  rw [if_pos (Record.confirmed_valid hvalid)] at hconf
  exact ⟨_, hids.1, hlen, hi, Nat.not_lt.mp hreceipt, ⟨_, hconf, rfl⟩, rfl, rfl,
    ⟨previous, hprev, rfl⟩, ⟨candidate, hcand, rfl⟩, rfl, rfl⟩

theorem valid_revisions {receipt : Bool} (h : r.valid receipt = true) :
    r.nextRevision = r.baseRevision + 1 := by
  simp only [Record.valid, Bool.and_eq_true, decide_eq_true_eq] at h
  exact h.1.1.2

theorem valid_phase (h : r.valid false = true) : r.phase = [] := by
  simp only [Record.valid, Bool.and_eq_true, decide_eq_true_eq] at h
  exact h.1.1.1.1.1.1.1.2

section Agreement

variable {c} {installationID operationID base next intent receipt : Bytes} {i : Record}

/-- An intent of this installation leaves the verdict to the policy and the receipt. -/
theorem Operation.inspect_eq
    (h : Operation c installationID operationID base next intent receipt i) {current : Bytes}
    {p : P} (hp : c.decode current = some p) (u : Option Bytes) :
    inspect c installationID (some current) (some intent) u true =
      inspectOperation c p current i u := by
  simp [inspect, h.installation, hp, h.intent_decodes, h.owner]

theorem Operation.revisions
    (h : Operation c installationID operationID base next intent receipt i) :
    i.nextRevision = i.baseRevision + 1 :=
  valid_revisions (decode_spec h.intent_decodes).2.1

theorem Operation.before_receipt
    (h : Operation c installationID operationID base next intent receipt i) :
    inspect c installationID (some base) (some intent) none true = .unconfirmedBase ∧
      inspect c installationID (some next) (some intent) none true = .unconfirmedPublication := by
  obtain ⟨p, hp, hbase⟩ := h.base_revision
  obtain ⟨q, hq, hnext⟩ := h.next_revision
  have hstep := h.revisions
  constructor
  · rw [h.inspect_eq hp]
    simp [inspectOperation, hbase, h.base_digest]
  · have hnot : i.nextRevision ≠ i.baseRevision := by omega
    rw [h.inspect_eq hq]
    simp [inspectOperation, hnot, hnext, h.next_digest]

theorem Operation.after_receipt
    (h : Operation c installationID operationID base next intent receipt i) :
    inspect c installationID (some next) (some intent) (some receipt) true =
        .matchingLocalRecords ∧
      inspect c installationID (some base) (some intent) (some receipt) true = .inconsistent := by
  obtain ⟨p, hp, hbase⟩ := h.base_revision
  obtain ⟨q, hq, hnext⟩ := h.next_revision
  obtain ⟨r, hr, hagree⟩ := h.receipt_decodes
  have hstep := h.revisions
  constructor
  · rw [h.inspect_eq hq]
    exact inspectOperation_matching.mpr ⟨receipt, r, rfl, hr, hagree, hnext, h.next_digest⟩
  · have hnot : c.revision p ≠ i.nextRevision := by omega
    rw [h.inspect_eq hp]
    simp [inspectOperation, hr, hnot]

end Agreement

theorem inspect_incomplete (installationID : Bytes) (current intent receipt : Option Bytes) :
    inspect c installationID current intent receipt false = .unavailable := by
  cases current <;> simp [inspect]

/-- The encoder's records are read back as the operation they describe at each of its stages,
and only a pair that agrees on everything but its kind, for this installation and with the
current policy as its result, is ever reported as matching. -/
theorem encoder_inspector_agree (c : PolicyCode P) :
    (∀ installationID operationID base next intent receipt,
      encodeOperation c installationID operationID base next = some (intent, receipt) →
        inspect c installationID (some base) (some intent) none true = .unconfirmedBase ∧
        inspect c installationID (some next) (some intent) none true = .unconfirmedPublication ∧
        inspect c installationID (some next) (some intent) (some receipt) true =
          .matchingLocalRecords ∧
        inspect c installationID (some base) (some intent) (some receipt) true =
          .inconsistent) ∧
    ∀ installationID current intent receipt complete,
      inspect c installationID current intent receipt complete = .matchingLocalRecords →
        ∃ s t u i r p, current = some s ∧ intent = some t ∧ receipt = some u ∧
          decode t false = some i ∧ decode u true = some r ∧
          { r with format := i.format, phase := i.phase } = i ∧
          i.installationID = installationID ∧
          c.decode s = some p ∧ c.revision p = i.nextRevision ∧ c.digest s = i.nextSHA256 := by
  constructor
  · intro installationID operationID base next intent receipt h
    obtain ⟨i, hop⟩ := encodeOperation_spec c h
    obtain ⟨hbase, hnext⟩ := hop.before_receipt
    obtain ⟨hmatching, hinconsistent⟩ := hop.after_receipt
    exact ⟨hbase, hnext, hmatching, hinconsistent⟩
  · intro installationID current intent receipt complete h
    cases complete with
    | false => simp [inspect_incomplete] at h
    | true =>
      obtain ⟨s, t, u, i, hs, ht, hu, hm⟩ := inspect_matching.mp h
      obtain ⟨r, hr, hagree⟩ := hm.receipt
      obtain ⟨p, hp, hrev⟩ := hm.policy
      rw [← valid_phase (decode_spec hm.intent).2.1] at hagree
      exact ⟨s, t, u, i, r, p, hs, ht, hu, hm.intent, hr, hagree, hm.owner, hp, hrev, hm.digest⟩

def byteCode : PolicyCode UInt8 where
  decode data := match data with
    | [b] => some b
    | _ => none
  revision b := b.toNat
  revision_lt b := b.toNat_lt.trans (by decide)
  retainsBindings _ _ := true
  sha256 data := (data ++ List.replicate 32 0).take 32

def demoInstallation : Bytes := ascii "0123456789abcdef0123456789abcdef"

def demoOperation : Bytes := ascii "fedcba9876543210fedcba9876543210"

theorem byte_operation_inspected :
    ∃ intent receipt,
      encodeOperation byteCode demoInstallation demoOperation [1] [2] = some (intent, receipt) ∧
        inspect byteCode demoInstallation (some [2]) (some intent) (some receipt) true =
          .matchingLocalRecords := by
  have hsome : (encodeOperation byteCode demoInstallation demoOperation [1] [2]).isSome = true := by
    decide +kernel
  obtain ⟨⟨intent, receipt⟩, h⟩ := Option.isSome_iff_exists.mp hsome
  exact ⟨intent, receipt, h, ((encoder_inspector_agree byteCode).1 _ _ _ _ _ _ h).2.2.1⟩

end NasEvidence
