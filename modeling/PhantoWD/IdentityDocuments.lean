import Mathlib.Algebra.Order.BigOperators.Group.List
import PhantoWD.IdentityProvision
import PhantoWD.JournaledStores
import PhantoWD.ShareDocument
import PhantoWD.SmbProvision

/-!
The registry of service accounts and the two provisioning journals as JSON documents with byte
limits. Validation has no size check, so what fits is a bound on the widest accepted document.
-/
namespace IdentityDocuments

open GoText GoJson ConfigJson JsonStruct ServiceAccounts UnixIdentity

def maxInputBytes : Nat := 256 * 1024

def maxJournalBytes : Nat := 4096

def stateText : AccountState → Bytes
  | .disabled => ascii "disabled"
  | .enabled => ascii "enabled"
  | .retired => ascii "retired"
  | .other text => text

def stateOfText (text : Bytes) : AccountState :=
  if text = ascii "disabled" then .disabled
  else if text = ascii "enabled" then .enabled
  else if text = ascii "retired" then .retired
  else .other text

def accountCodec : Codec Account := .struct ⟨[], [], 0, 0, .other []⟩
  [.of (ascii "id") .string Account.id fun a s => { s with id := a },
    .of (ascii "name") .string Account.name fun a s => { s with name := a },
    .of (ascii "uid") (.uint 32) Account.uid fun a s => { s with uid := a },
    .of (ascii "gid") (.uint 32) Account.gid fun a s => { s with gid := a },
    .of (ascii "state") (Codec.string.via stateOfText stateText) Account.state
      fun a s => { s with state := a }]

def registryCodec : Codec Registry := .struct ⟨[], 0, 0, 0, 0, none⟩
  [.of (ascii "format") .string Registry.format fun a s => { s with format := a },
    .of (ascii "schema_version") .int Registry.schemaVersion
      fun a s => { s with schemaVersion := a },
    .of (ascii "revision") (.uint 64) Registry.revision fun a s => { s with revision := a },
    .of (ascii "first_id") (.uint 32) Registry.firstID fun a s => { s with firstID := a },
    .of (ascii "last_id") (.uint 32) Registry.lastID fun a s => { s with lastID := a },
    .of (ascii "accounts") (.slice accountCodec) Registry.accounts
      fun a s => { s with accounts := a }]

def registryKeys : List Bytes :=
  [ascii "format", ascii "schema_version", ascii "revision", ascii "first_id", ascii "last_id",
    ascii "accounts", ascii "id", ascii "name", ascii "uid", ascii "gid", ascii "state"]

def marshalRegistry (r : Registry) : Bytes := (registryCodec.write r).render

def decodeRegistry (data : Bytes) : Option Registry := do
  let r ← decodeDocument registryCodec data maxInputBytes 5 registryKeys
  guard r.validate
  some r

/-- A journal on the wire, where a phase is any text. The native journal has no SID. -/
structure WireJournal where
  format : Bytes
  schemaVersion : Int
  revision : Nat
  ground : Nat
  account : Account
  sid : Bytes
  phase : Bytes
  deriving DecidableEq

def WireJournal.zero : WireJournal := ⟨[], 0, 0, 0, accountCodec.zero, [], []⟩

def headFields (ground : Bytes) : List (JsonStruct.Field WireJournal) :=
  [.of (ascii "format") .string WireJournal.format fun a s => { s with format := a },
    .of (ascii "schema_version") .int WireJournal.schemaVersion
      fun a s => { s with schemaVersion := a },
    .of (ascii "revision") (.uint 64) WireJournal.revision fun a s => { s with revision := a },
    .of ground (.uint 64) WireJournal.ground fun a s => { s with ground := a },
    .of (ascii "account") accountCodec WireJournal.account fun a s => { s with account := a }]

def sidField : JsonStruct.Field WireJournal :=
  .omitEmpty (ascii "sid") WireJournal.sid fun a s => { s with sid := a }

def phaseField : JsonStruct.Field WireJournal :=
  .of (ascii "phase") .string WireJournal.phase fun a s => { s with phase := a }

def nativeCodec : Codec WireJournal :=
  .struct .zero (headFields (ascii "registry_revision") ++ [phaseField])

def smbCodec : Codec WireJournal :=
  .struct .zero (headFields (ascii "native_revision") ++ [sidField, phaseField])

def nativeKeys : List Bytes :=
  [ascii "format", ascii "schema_version", ascii "revision", ascii "registry_revision",
    ascii "account", ascii "phase", ascii "id", ascii "name", ascii "uid", ascii "gid",
    ascii "state"]

def smbKeys : List Bytes :=
  [ascii "format", ascii "schema_version", ascii "revision", ascii "native_revision",
    ascii "account", ascii "id", ascii "name", ascii "uid", ascii "gid", ascii "state",
    ascii "sid", ascii "phase"]

def nativePhases : List (IdentityProvision.Phase × Bytes) :=
  [(.reserved, ascii "reserved"), (.groupIntent, ascii "group-intent"),
    (.groupConfirmed, ascii "group-confirmed"), (.userIntent, ascii "user-intent"),
    (.unixConfirmed, ascii "unix-confirmed"), (.reviewRequired, ascii "review-required")]

def smbPhases : List (SmbProvision.Phase × Bytes) :=
  [(.reserved, ascii "reserved"), (.createIntent, ascii "create-disabled-intent"),
    (.disabledNoPassword, ascii "disabled-no-password"),
    (.passwordIntent, ascii "set-password-disabled-intent"),
    (.credentialSetDisabled, ascii "credential-set-disabled"),
    (.enableIntent, ascii "enable-intent"), (.enabled, ascii "enabled"),
    (.disableIntent, ascii "disable-intent"), (.disabled, ascii "disabled"),
    (.reviewRequired, ascii "review-required")]

def textOf {P : Type} [DecidableEq P] (phases : List (P × Bytes)) (p : P) : Bytes :=
  ((phases.find? fun e => e.1 = p).map Prod.snd).getD []

def phaseOf {P : Type} (phases : List (P × Bytes)) (text : Bytes) : Option P :=
  (phases.find? fun e => e.2 = text).map Prod.fst

def nativeWire (j : IdentityProvision.Journal) : WireJournal :=
  ⟨j.format, j.schemaVersion, j.revision, j.registryRevision, j.account, [],
    textOf nativePhases j.phase⟩

def smbWire (j : SmbProvision.Journal) : WireJournal :=
  ⟨j.format, j.schemaVersion, j.revision, j.nativeRevision, j.account, j.sid,
    textOf smbPhases j.phase⟩

def marshalNative (j : IdentityProvision.Journal) : Bytes :=
  (nativeCodec.write (nativeWire j)).render

def marshalSmb (j : SmbProvision.Journal) : Bytes := (smbCodec.write (smbWire j)).render

def decodeNative (data : Bytes) : Option IdentityProvision.Journal := do
  let w ← decodeDocument nativeCodec data maxJournalBytes 4 nativeKeys
  let phase ← phaseOf nativePhases w.phase
  let j : IdentityProvision.Journal :=
    ⟨w.format, w.schemaVersion, w.revision, w.ground, w.account, phase⟩
  guard j.validate
  some j

def decodeSmb (data : Bytes) : Option SmbProvision.Journal := do
  let w ← decodeDocument smbCodec data maxJournalBytes 5 smbKeys
  let phase ← phaseOf smbPhases w.phase
  let j : SmbProvision.Journal :=
    ⟨w.format, w.schemaVersion, w.revision, w.ground, w.account, w.sid, phase⟩
  guard j.validate
  some j

structure Short (bound : Nat) (s : Bytes) : Prop where
  plain : s.all plain = true
  length : s.length ≤ bound

variable {bound : Nat} {s : Bytes}

theorem Short.valid (h : Short bound s) : validString s = true :=
  validString_plain h.plain

theorem Short.quoted (h : Short bound s) :
    (GoJson.quoted s).length ≤ bound + 2 := by
  rw [quoted_plain h.plain]
  simpa using h.length

theorem plain_of_word {b : UInt8} (h : b.toNat = 0x2d ∨ (0x30 ≤ b.toNat ∧ b.toNat ≤ 0x39) ∨
    b.toNat = 0x53 ∨ b.toNat = 0x5f ∨ (0x61 ≤ b.toNat ∧ b.toNat ≤ 0x7a)) : plain b = true := by
  simp only [plain, Bool.and_eq_true, decide_eq_true_eq, ne_eq]
  refine ⟨⟨⟨⟨⟨⟨by omega, by omega⟩, ?_⟩, ?_⟩, ?_⟩, ?_⟩, ?_⟩
  all_goals
    rintro rfl
    revert h
    decide

theorem short_of_runes {test : Rune → Bool} (hall : (runes s).all test = true)
    (hlen : s.length ≤ bound)
    (htest : ∀ r : Nat, test r = true → r = 0x2d ∨ (0x30 ≤ r ∧ r ≤ 0x39) ∨ r = 0x53 ∨ r = 0x5f ∨
      (0x61 ≤ r ∧ r ≤ 0x7a)) : Short bound s := by
  rw [List.all_eq_true] at hall
  have hascii : ∀ r : Nat, test r = true → r < 0x80 := by
    intro r hr
    have hword := htest r hr
    omega
  have hlow : ∀ r ∈ runes s, r < (0x80 : Nat) := fun r hr => hascii r (hall r hr)
  refine ⟨List.all_eq_true.mpr fun b hb => ?_, hlen⟩
  exact plain_of_word (htest b.toNat (hall _ (mem_runes_of_ascii hlow b hb)))

theorem identifier_short (h : ShareConfig.identifier s = true) : Short 64 s := by
  simp only [ShareConfig.identifier, Bool.and_eq_true, decide_eq_true_eq] at h
  refine short_of_runes h.2 h.1.1 fun r hr => ?_
  have hword : ((0x61 ≤ r ∧ r ≤ 0x7a) ∨ (0x30 ≤ r ∧ r ≤ 0x39)) ∨ r = 0x2d := by
    simpa [ShareConfig.lower, ShareConfig.digit] using hr
  omega

theorem accountName_short (h : ShareConfig.accountName s = true) : Short 32 s := by
  simp only [ShareConfig.accountName, Bool.and_eq_true, decide_eq_true_eq] at h
  refine short_of_runes h.1.1.1.2 h.1.1.1.1.1 fun r hr => ?_
  have hword : (((0x61 ≤ r ∧ r ≤ 0x7a) ∨ (0x30 ≤ r ∧ r ≤ 0x39)) ∨ r = 0x2d) ∨ r = 0x5f := by
    simpa [ShareConfig.lower, ShareConfig.digit] using hr
  omega

theorem decimal_grows (part : Bytes) (n : Nat) :
    n * 10 ^ part.length ≤ part.foldl (fun n b => 10 * n + (b.toNat - 0x30)) n := by
  induction part generalizing n with
  | nil => simp
  | cons b rest ih =>
    rw [List.foldl_cons, List.length_cons, Nat.pow_succ]
    refine Nat.le_trans ?_ (ih _)
    calc n * (10 ^ rest.length * 10) = 10 * n * 10 ^ rest.length := by ring
      _ ≤ (10 * n + (b.toNat - 0x30)) * 10 ^ rest.length :=
        Nat.mul_le_mul_right _ (Nat.le_add_right _ _)

theorem canonicalPositive_short {part : Bytes} (h : SmbProvision.canonicalPositive part = true) :
    Short 10 part := by
  simp only [SmbProvision.canonicalPositive, Bool.and_eq_true, List.all_eq_true, ne_eq,
    decide_eq_true_eq] at h
  obtain ⟨⟨⟨hdigits, hhead⟩, -⟩, hbound⟩ := h
  constructor
  · rw [List.all_eq_true]
    intro b hb
    obtain ⟨hlow, hhigh⟩ := hdigits b hb
    exact plain_of_word (.inr (.inl ⟨hlow, hhigh⟩))
  · cases part with
    | nil => simp
    | cons b rest =>
      obtain ⟨hlow, -⟩ := hdigits b List.mem_cons_self
      have hlow' : 0x30 ≤ b.toNat := hlow
      have hne : b.toNat ≠ 0x30 := by
        intro heq
        exact hhead (by simp [UInt8.toNat_inj.mp (show b.toNat = (0x30 : UInt8).toNat from heq)])
      have hgrow := decimal_grows rest (10 * 0 + (b.toNat - 0x30))
      have hread : rest.foldl (fun n b => 10 * n + (b.toNat - 0x30)) (10 * 0 + (b.toNat - 0x30)) <
          2 ^ 32 := hbound
      have hpow : 10 ^ rest.length < 10 ^ 10 := by
        calc 10 ^ rest.length ≤ (10 * 0 + (b.toNat - 0x30)) * 10 ^ rest.length :=
              Nat.le_mul_of_pos_left _ (by omega)
          _ < 10 ^ 10 := by omega
      have hlen := (Nat.pow_lt_pow_iff_right (by decide : 1 < 10)).mp hpow
      simp only [List.length_cons]
      omega

theorem validSID_short {sid : Bytes} (h : SmbProvision.validSID sid = true) : Short 52 sid := by
  unfold SmbProvision.validSID at h
  have hjoin : [0x2d].intercalate (split sid 0x2d) = sid := List.intercalate_splitOn 0x2d
  split at h
  case h_2 => cases h
  case h_1 p0 p1 p2 p3 p4 p5 p6 p7 hsplit =>
    simp only [Bool.and_eq_true, decide_eq_true_eq, List.all_cons, List.all_nil, and_true] at h
    obtain ⟨⟨⟨⟨rfl, rfl⟩, rfl⟩, rfl⟩, h4, h5, h6, h7⟩ := h
    obtain ⟨h4, l4⟩ := canonicalPositive_short h4
    obtain ⟨h5, l5⟩ := canonicalPositive_short h5
    obtain ⟨h6, l6⟩ := canonicalPositive_short h6
    obtain ⟨h7, l7⟩ := canonicalPositive_short h7
    rw [hsplit] at hjoin
    constructor
    · have hfixed : plain 0x2d = true ∧ (ascii "S").all plain = true ∧
          (ascii "1").all plain = true ∧ (ascii "5").all plain = true ∧
          (ascii "21").all plain = true := by decide
      rw [← hjoin]
      simp [List.intercalate_cons_cons, List.all_append, h4, h5, h6, h7, hfixed]
    · have hfixed : (ascii "S").length = 1 ∧ (ascii "1").length = 1 ∧ (ascii "5").length = 1 ∧
          (ascii "21").length = 2 := by decide
      rw [← hjoin]
      simp only [List.intercalate_cons_cons, List.intercalate_singleton, List.length_append,
        List.length_singleton, hfixed]
      omega

structure AccountSound (a : Account) : Prop where
  id : Short 64 a.id
  name : Short 32 a.name
  uid : a.uid < 2 ^ 32
  gid : a.gid < 2 ^ 32
  state : knownState a.state = true

variable {a : Account}

theorem accountSound_of_wellFormed {first last : Nat} (hlast : last ≤ 60000)
    (h : a.wellFormed first last = true) : AccountSound a := by
  simp only [Account.wellFormed, Bool.and_eq_true, decide_eq_true_eq, beq_iff_eq] at h
  obtain ⟨⟨⟨⟨hidentity, -⟩, hmost⟩, hgid⟩, hstate⟩ := h
  obtain ⟨hid, hname⟩ := (validIdentity_iff _ _).mp hidentity
  exact ⟨identifier_short hid, accountName_short hname, by omega, by omega, hstate⟩

theorem accountSound_of_sole (h : soleAccountValid a = true) : AccountSound a := by
  rw [soleAccountValid, Bool.and_eq_true] at h
  have hsole := (validate_iff _).mp h.2
  exact accountSound_of_wellFormed hsole.last (hsole.each a (by simp [soleAccount]))

theorem AccountSound.stateText_eq (h : AccountSound a) :
    Short 8 (stateText a.state) ∧ stateOfText (stateText a.state) = a.state := by
  have hknown := h.state
  cases hs : a.state with
  | disabled | enabled | retired => exact ⟨⟨by decide, by decide⟩, by decide⟩
  | other text =>
    rw [hs] at hknown
    cases hknown

theorem carries_account {height : Nat} {keys : Option (List Bytes)}
    (hkeys : [ascii "id", ascii "name", ascii "uid", ascii "gid", ascii "state"].all
      (goodKey keys) = true) (h : AccountSound a) :
    Carries keys (height + 1) accountCodec (accountCodec.write a) a := by
  obtain ⟨hstate, heq⟩ := h.stateText_eq
  have hread : Carries keys height (Codec.string.via stateOfText stateText)
      (.str (stateText a.state)) a.state :=
    carries_via (by decide) heq (carries_string hstate.valid)
  have hzero : AccountState.other [] = (Codec.string.via stateOfText stateText).zero := by decide
  exact carries_struct (.text h.id.valid <| .text h.name.valid <|
    .field (carries_uint (by decide) h.uid) <| .field (carries_uint (by decide) h.gid) <|
    .field hread .nil hzero) hkeys

theorem length_number {n : Nat} (h : n < 2 ^ 64) : (Value.num (formatUint n)).render.length ≤ 20 :=
  length_formatUint_le h

theorem length_text (h : Short bound s) :
    (Value.str s).render.length ≤ bound + 2 := h.quoted

theorem length_account (h : AccountSound a) :
    (accountCodec.write a).render.length ≤ 188 := by
  have hkeys : (quoted (ascii "id")).length = 4 ∧ (quoted (ascii "name")).length = 6 ∧
      (quoted (ascii "uid")).length = 5 ∧ (quoted (ascii "gid")).length = 5 ∧
      (quoted (ascii "state")).length = 7 := by decide
  have hid := length_text h.id
  have hname := length_text h.name
  have huid := length_number (h.uid.trans (by decide))
  have hgid := length_number (h.gid.trans (by decide))
  have hstate := length_text h.stateText_eq.1
  simp only [accountCodec, Codec.struct, JsonStruct.Field.of, List.filterMap_cons,
    List.filterMap_nil, Option.map_some]
  rw [length_obj (by simp)]
  simp only [List.map_cons, List.map_nil, List.sum_cons, List.sum_nil, hkeys, Codec.string,
    Codec.uint, Codec.via]
  omega

theorem carries_registry {r : Registry} (h : r.WellFormed) (hrev : r.revision < 2 ^ 64) :
    Carries (some registryKeys) 3 registryCodec (registryCodec.write r) r := by
  obtain ⟨accounts, haccounts⟩ := Option.isSome_iff_exists.mp h.present
  have hitems : r.accounts.items = accounts := by rw [haccounts]; rfl
  have heach := h.each
  have hrange := h.range
  have hlast := h.last
  have hslice : Carries (some registryKeys) 2 (.slice accountCodec)
      ((Codec.slice accountCodec).write r.accounts) r.accounts := by
    rw [haccounts]
    refine carries_slice fun a ha => carries_account (by decide) ?_
    exact accountSound_of_wellFormed hlast (heach a (hitems ▸ ha))
  have hschema : Carries (some registryKeys) 2 .int (.num (formatInt r.schemaVersion))
      r.schemaVersion := carries_schema h.schema
  exact carries_struct <| .text (by rw [h.format]; decide) <| .field hschema <|
    .field (carries_uint (by decide) hrev) <|
    .field (carries_uint (by decide) (show r.firstID < 2 ^ 32 by omega)) <|
    .field (carries_uint (by decide) (show r.lastID < 2 ^ 32 by omega)) <| .field hslice .nil

theorem length_accounts {r : Registry} (h : r.WellFormed) :
    ((Codec.slice accountCodec).write r.accounts).render.length ≤ 1024 * 189 + 2 := by
  obtain ⟨accounts, haccounts⟩ := Option.isSome_iff_exists.mp h.present
  have hitems : r.accounts.items = accounts := by rw [haccounts]; rfl
  have hrecords : accounts.length ≤ 1024 := hitems ▸ h.records
  have hsum : ((accounts.map accountCodec.write).map fun v => v.render.length + 1).sum ≤
      accounts.length * 189 := by
    rw [List.map_map]
    refine (List.sum_le_card_nsmul _ 189 fun n hn => ?_).trans (by simp)
    obtain ⟨a, ha, rfl⟩ := List.mem_map.mp hn
    have hone := length_account (accountSound_of_wellFormed h.last (h.each a (hitems ▸ ha)))
    exact Nat.succ_le_succ hone
  rw [haccounts]
  change (Value.arr (.ofList (accounts.map accountCodec.write))).render.length ≤ _
  rw [length_arr]
  split_ifs
  · decide
  · omega

theorem length_registry {r : Registry} (h : r.WellFormed) (hrev : r.revision < 2 ^ 64) :
    (marshalRegistry r).length ≤ maxInputBytes := by
  have hkeys : (quoted (ascii "format")).length = 8 ∧
      (quoted (ascii "schema_version")).length = 16 ∧ (quoted (ascii "revision")).length = 10 ∧
      (quoted (ascii "first_id")).length = 10 ∧ (quoted (ascii "last_id")).length = 9 ∧
      (quoted (ascii "accounts")).length = 10 := by decide
  have hformat : (Value.str r.format).render.length = 27 := by
    rw [h.format]
    decide
  have hschema : (Value.num (formatInt r.schemaVersion)).render.length = 1 := by
    rw [h.schema]
    decide
  have hrange := h.range
  have hlast := h.last
  have hrevision := length_number hrev
  have hfirst := length_number (show r.firstID < 2 ^ 64 by omega)
  have hmost := length_number (show r.lastID < 2 ^ 64 by omega)
  have haccounts := length_accounts h
  simp only [marshalRegistry, registryCodec, Codec.struct, JsonStruct.Field.of,
    List.filterMap_cons, List.filterMap_nil, Option.map_some]
  rw [length_obj (by simp)]
  simp only [List.map_cons, List.map_nil, List.sum_cons, List.sum_nil, hkeys, Codec.string,
    Codec.uint, Codec.int, hformat, hschema, maxInputBytes]
  omega

theorem registry_fits {r : Registry} (h : r.validate = true) (hrev : r.revision < 2 ^ 64) :
    (marshalRegistry r).length ≤ maxInputBytes ∧ decodeRegistry (marshalRegistry r) = some r := by
  have hwell := (validate_iff r).mp h
  have hlen := length_registry hwell hrev
  refine ⟨hlen, ?_⟩
  rw [decodeRegistry, marshalRegistry, decodeDocument_render (carries_registry hwell hrev) hlen
    (show 3 ≤ 5 by decide) (by decide)]
  simp [h]

structure WireSound (w : WireJournal) : Prop where
  format : Short 27 w.format
  schema : w.schemaVersion = 1
  revision : w.revision < 2 ^ 64
  ground : w.ground < 2 ^ 64
  account : AccountSound w.account
  sid : Short 52 w.sid
  phase : Short 28 w.phase

variable {w : WireJournal}

theorem WireSound.filled (h : WireSound w) {keys : Option (List Bytes)}
    (hkeys : [ascii "id", ascii "name", ascii "uid", ascii "gid", ascii "state"].all
      (goodKey keys) = true) {ground : Bytes} {fields : List (JsonStruct.Field WireJournal)}
    {members : List (Bytes × Value)} {s : WireJournal}
    (rest : Filled keys 1 fields members { w with sid := [], phase := [] } s) :
    Filled keys 1 (headFields ground ++ fields)
      ([(ascii "format", .str w.format), (ascii "schema_version", .num (formatInt w.schemaVersion)),
        (ascii "revision", .num (formatUint w.revision)), (ground, .num (formatUint w.ground)),
        (ascii "account", accountCodec.write w.account)] ++ members) .zero s := by
  have hschema : Carries keys 1 .int (.num (formatInt w.schemaVersion)) w.schemaVersion :=
    carries_schema h.schema
  simp only [headFields, List.cons_append, List.nil_append]
  exact .text h.format.valid <| .field hschema <| .field (carries_uint (by decide) h.revision) <|
    .field (carries_uint (by decide) h.ground) <| .field (carries_account hkeys h.account) rest

theorem length_head (h : WireSound w) (ground : Bytes) (hground : (quoted ground).length ≤ 19)
    (members : List (Bytes × Value))
    (hrest : (members.map fun m => (quoted m.1).length + m.2.render.length + 2).sum ≤ bound) :
    (Value.obj (.ofList ([(ascii "format", .str w.format),
        (ascii "schema_version", .num (formatInt w.schemaVersion)),
        (ascii "revision", .num (formatUint w.revision)), (ground, .num (formatUint w.ground)),
        (ascii "account", accountCodec.write w.account)] ++ members))).render.length ≤
      bound + 400 := by
  have hkeys : (quoted (ascii "format")).length = 8 ∧
      (quoted (ascii "schema_version")).length = 16 ∧ (quoted (ascii "revision")).length = 10 ∧
      (quoted (ascii "account")).length = 9 := by decide
  have hschema : (Value.num (formatInt w.schemaVersion)).render.length = 1 := by
    rw [h.schema]
    decide
  have hformat := length_text h.format
  have hrevision := length_number h.revision
  have hnumber := length_number h.ground
  have haccount := length_account h.account
  rw [length_obj (by simp)]
  simp only [List.map_append, List.map_cons, List.map_nil, List.sum_append, List.sum_cons,
    List.sum_nil, hkeys, hschema]
  omega

theorem phase_member (h : WireSound w) :
    (quoted (ascii "phase")).length + (Value.str w.phase).render.length + 2 ≤ 39 := by
  have hkey : (quoted (ascii "phase")).length = 7 := by decide
  have htext := length_text h.phase
  omega

theorem native_wire_fits (h : WireSound w) (hsid : w.sid = []) :
    (nativeCodec.write w).render.length ≤ maxJournalBytes ∧
      decodeDocument nativeCodec (nativeCodec.write w).render maxJournalBytes 4 nativeKeys =
        some w := by
  obtain ⟨format, schema, revision, ground, account, sid, phase⟩ := w
  cases hsid
  have hlen :
      (nativeCodec.write ⟨format, schema, revision, ground, account, [], phase⟩).render.length ≤
        39 + 400 :=
    length_head h (ascii "registry_revision") (by decide) [(ascii "phase", .str phase)]
      (by simpa using phase_member h)
  have hcarries : Carries (some nativeKeys) 2 nativeCodec
      (nativeCodec.write ⟨format, schema, revision, ground, account, [], phase⟩)
      ⟨format, schema, revision, ground, account, [], phase⟩ :=
    carries_struct <| h.filled (by decide) <| .text h.phase.valid .nil
  refine ⟨hlen.trans (by decide), ?_⟩
  exact decodeDocument_render hcarries (hlen.trans (by decide)) (by decide) (by decide)

theorem smb_wire_fits (h : WireSound w) :
    (smbCodec.write w).render.length ≤ maxJournalBytes ∧
      decodeDocument smbCodec (smbCodec.write w).render maxJournalBytes 5 smbKeys = some w := by
  have hmember := phase_member h
  have hphase : Carries (some smbKeys) 1 .string (.str w.phase) w.phase :=
    carries_string h.phase.valid
  have hsid : Carries (some smbKeys) 1 .string (.str w.sid) w.sid :=
    carries_string h.sid.valid
  obtain ⟨v, hwrite, hlen, hcarries⟩ : ∃ v, smbCodec.write w = v ∧ v.render.length ≤ 102 + 400 ∧
      Carries (some smbKeys) 2 smbCodec v w := by
    obtain ⟨format, schema, revision, ground, account, sid, phase⟩ := w
    by_cases hempty : sid = []
    · subst hempty
      exact ⟨_, rfl, length_head h (ascii "native_revision") (by decide)
        [(ascii "phase", .str phase)] (by simpa using hmember.trans (by decide : 39 ≤ 102)),
        carries_struct <| h.filled (by decide) <| .skip <| .field hphase .nil⟩
    · have hkey : (quoted (ascii "sid")).length = 5 := by decide
      have htext := length_text h.sid
      refine ⟨_, by simp [smbCodec, Codec.struct, headFields, sidField, phaseField, Codec.string,
        Codec.int, Codec.uint, JsonStruct.Field.of, JsonStruct.Field.omitEmpty, hempty], ?_,
        carries_struct <| h.filled (by decide) <| .optional hsid <| .field hphase .nil⟩
      refine length_head h (ascii "native_revision") (by decide)
        [(ascii "sid", .str sid), (ascii "phase", .str phase)] ?_
      simp only [List.map_cons, List.map_nil, List.sum_cons, List.sum_nil, hkey] at *
      omega
  rw [hwrite]
  exact ⟨hlen.trans (by decide),
    decodeDocument_render hcarries (hlen.trans (by decide)) (by decide) (by decide)⟩

theorem nativePhase_text (p : IdentityProvision.Phase) :
    Short 28 (textOf nativePhases p) ∧ phaseOf nativePhases (textOf nativePhases p) = some p := by
  cases p <;> exact ⟨⟨by decide +kernel, by decide +kernel⟩, by decide +kernel⟩

theorem smbPhase_text (p : SmbProvision.Phase) :
    Short 28 (textOf smbPhases p) ∧ phaseOf smbPhases (textOf smbPhases p) = some p := by
  cases p <;> exact ⟨⟨by decide +kernel, by decide +kernel⟩, by decide +kernel⟩

/-- The widest native journal is below the limit. -/
theorem native_fits {j : IdentityProvision.Journal} (h : j.validate = true)
    (hground : j.registryRevision < 2 ^ 64) :
    (marshalNative j).length ≤ maxJournalBytes ∧ decodeNative (marshalNative j) = some j := by
  have hvalid := h
  simp only [IdentityProvision.Journal.validate, Bool.and_eq_true, decide_eq_true_eq] at h
  obtain ⟨⟨⟨⟨⟨hsole, -⟩, hformat⟩, hschema⟩, -⟩, hadmits⟩ := h
  have hrev : j.revision < 2 ^ 64 := by
    cases hp : j.phase <;> simp [IdentityProvision.Phase.admits, hp] at hadmits <;> omega
  have hname : Short 27 j.format := by
    rw [hformat]
    exact ⟨by decide +kernel, by decide +kernel⟩
  obtain ⟨hshort, hphase⟩ := nativePhase_text j.phase
  have hsound : WireSound (nativeWire j) :=
    ⟨hname, hschema, hrev, hground, accountSound_of_sole hsole, ⟨rfl, by simp [nativeWire]⟩, hshort⟩
  obtain ⟨hlen, hread⟩ := native_wire_fits hsound rfl
  refine ⟨hlen, ?_⟩
  rw [decodeNative, marshalNative, hread]
  simp [nativeWire, hphase, hvalid]

/-- The widest Samba journal is below the limit. -/
theorem smb_fits {j : SmbProvision.Journal} (h : j.validate = true)
    (hrev : j.revision < 2 ^ 64) (hground : j.nativeRevision < 2 ^ 64) :
    (marshalSmb j).length ≤ maxJournalBytes ∧ decodeSmb (marshalSmb j) = some j := by
  obtain ⟨⟨haccount, hformat, hschema, -⟩, -, -, hrules⟩ := (SmbProvision.validate_iff j).mp h
  rw [SmbProvision.validAccount, Bool.and_eq_true] at haccount
  have hsid : Short 52 j.sid := by
    unfold SmbProvision.sidRules at hrules
    split_ifs at hrules
    · exact validSID_short hrules
    · rcases hrules with hempty | ⟨-, -, hvalid⟩
      · rw [hempty]
        exact ⟨rfl, by simp⟩
      · exact validSID_short hvalid
  have hname : Short 27 j.format := by
    rw [hformat]
    exact ⟨by decide +kernel, by decide +kernel⟩
  obtain ⟨hshort, hphase⟩ := smbPhase_text j.phase
  have hsound : WireSound (smbWire j) :=
    ⟨hname, hschema, hrev, hground, accountSound_of_sole haccount.1, hsid, hshort⟩
  obtain ⟨hlen, hread⟩ := smb_wire_fits hsound
  refine ⟨hlen, ?_⟩
  rw [decodeSmb, marshalSmb, hread]
  simp [smbWire, hphase, h]

/-- Every valid registry and journal fits its decoder's limit and is read back as it was. -/
theorem identity_documents_fit :
    (∀ r : Registry, r.revision < 2 ^ 64 → r.validate = true →
      (marshalRegistry r).length ≤ maxInputBytes ∧
        decodeRegistry (marshalRegistry r) = some r) ∧
    (∀ j : IdentityProvision.Journal, j.registryRevision < 2 ^ 64 → j.validate = true →
      (marshalNative j).length ≤ maxJournalBytes ∧ decodeNative (marshalNative j) = some j) ∧
    (∀ j : SmbProvision.Journal, j.revision < 2 ^ 64 → j.nativeRevision < 2 ^ 64 →
      j.validate = true →
      (marshalSmb j).length ≤ maxJournalBytes ∧ decodeSmb (marshalSmb j) = some j) :=
  ⟨fun _ hrev h => registry_fits h hrev, fun _ hground h => native_fits h hground,
    fun _ hrev hground h => smb_fits h hrev hground⟩

def alice : Account := ⟨ascii "u1", ascii "alice", 1000, 1000, .disabled⟩

theorem alice_documents_fit :
    (marshalRegistry ⟨formatName, 1, 7, 1000, 2000, some [alice]⟩).length ≤ maxInputBytes ∧
      decodeSmb (marshalSmb ⟨SmbProvision.formatName, 1, 9, 5, alice,
        ascii "S-1-5-21-1-2-3-4294967295", .disabled⟩) =
      some ⟨SmbProvision.formatName, 1, 9, 5, alice, ascii "S-1-5-21-1-2-3-4294967295",
        .disabled⟩ := by
  have hregistry : Registry.validate ⟨formatName, 1, 7, 1000, 2000, some [alice]⟩ = true := by
    decide +kernel
  have hjournal : SmbProvision.Journal.validate ⟨SmbProvision.formatName, 1, 9, 5, alice,
      ascii "S-1-5-21-1-2-3-4294967295", .disabled⟩ = true := by decide +kernel
  exact ⟨(identity_documents_fit.1 _ (by decide) hregistry).1,
    (identity_documents_fit.2.2 _ (by decide) (by decide) hjournal).2⟩

section Stores

open EffectProgram RevisionStore RevisionEngine JournaledCommands JournaledStores

variable {euid : Nat} {w₀ : RevisionHistory.World}

section Native

open IdentityProvision

def nativeStore : RevisionStore.Codec Journal where
  currentName := ascii "identity-operation.json"
  pendingName := ascii ".identity-operation.pending"
  maxBytes := maxJournalBytes
  decode := decodeNative
  validate := Journal.validate
  revision := Journal.revision
  marshal j := if j.registryRevision ≤ maxUint64 then some (marshalNative j) else none
  validateTransition := none

theorem nativeStore_roundTrips : nativeStore.RoundTrips := by
  intro j data hvalid hdata _
  simp only [nativeStore, Option.ite_none_right_eq_some, Option.some.injEq] at hdata
  obtain ⟨hground, rfl⟩ := hdata
  exact (native_fits hvalid (by unfold maxUint64 at hground; omega)).2

/-- On the store, from an empty directory on, every record of the log is allowed after the older
ones, and each creation command is issued at most once. -/
theorem native_store_commands {s : Site Journal Query Snapshot Command}
    {ls : List (Event IdentityProvision.Call (Except Failure Unit × Unit))} (h₀ : w₀.Initial)
    (hempty : Shows nativeStore euid w₀.machine none none)
    (h : Execution (SiteStep nativeStore euid program) ⟨w₀, [], true⟩ ls s) :
    Traced Allowed s.log ∧ commandCount isCreateGroup s.log ≤ 1 ∧
      commandCount isCreateUser s.log ≤ 1 := by
  obtain ⟨w, hw, ht⟩ := site_tracked (I := Inv) nativeStore_roundTrips
    (fun _ _ _ hw hs => (step_keeps legal_rank program_safe hw hs).1) h₀ hempty
    emptyOperation_sound h
  rw [← ht.log]
  exact ⟨hw.traced, creations_once hw⟩

end Native

section Smb

open SmbProvision

def smbStore : RevisionStore.Codec Journal where
  currentName := ascii "smb-operation.json"
  pendingName := ascii ".smb-operation.pending"
  maxBytes := maxJournalBytes
  decode := decodeSmb
  validate := Journal.validate
  revision := Journal.revision
  marshal j :=
    if j.revision ≤ maxUint64 ∧ j.nativeRevision ≤ maxUint64 then some (marshalSmb j) else none
  validateTransition := none

theorem smbStore_roundTrips : smbStore.RoundTrips := by
  intro j data hvalid hdata _
  simp only [smbStore, Option.ite_none_right_eq_some, Option.some.injEq] at hdata
  obtain ⟨⟨hrev, hground⟩, rfl⟩ := hdata
  unfold maxUint64 at hrev hground
  exact (smb_fits hvalid (by omega) (by omega)).2

/-- On the store, every record of the log is allowed after the older ones, so a command runs
under its durable intent, and no two commands share a revision. -/
theorem smb_store_commands {s : Site Journal Account Observation Command}
    {ls : List (Event SmbProvision.Call Answer)} (h₀ : w₀.Initial)
    (hempty : Shows smbStore euid w₀.machine none none)
    (h : Execution (SiteStep smbStore euid program) ⟨w₀, [], true⟩ ls s) :
    Traced Allowed s.log ∧ (issued s.log).Pairwise fun a b => schema.rank b < schema.rank a := by
  obtain ⟨w, hw, ht⟩ := site_tracked (I := Inv) smbStore_roundTrips
    (fun _ _ _ hw hs => (step_keeps legal_rank program_safe hw hs).1) h₀ hempty
    emptyOperation_sound h
  rw [← ht.log]
  exact ⟨hw.traced, issued_descending followsCommit hw.traced hw.descending⟩

end Smb

end Stores

end IdentityDocuments
