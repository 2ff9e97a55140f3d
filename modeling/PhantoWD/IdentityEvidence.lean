import PhantoWD.SambaLookup
import PhantoWD.SmbProvision
import PhantoWD.StorageEvidence

/-!
The identity owner hands over its registry, the local census of user and group numbers and one
Samba journal with one observation per enrolled account. Grants are checked against all of them
together.
-/
namespace IdentityEvidence

open GoText ShareConfig KeyedLists PolicyOrder ServicePreview SambaLookup StorageEvidence Checks
open ServiceAccounts (Account AccountState Registry)
open NfsConfig (Netip Client Export Policy)

def maxUnixIdentities : Nat := 4096

structure SambaIdentity where
  journal : SmbProvision.Journal
  observation : SmbProvision.Observation
  deriving DecidableEq

def SambaIdentity.accountID (i : SambaIdentity) : Bytes := i.journal.account.id

structure IdentitySnapshot where
  complete : Bool
  generation : UInt64
  fingerprint : Digest
  registry : Registry
  unixUIDs : Slice Nat
  unixGIDs : Slice Nat
  samba : Slice SambaIdentity
  kerberosReady : Bool
  deriving DecidableEq

def sameAccountIdentity (first second : Account) : Bool :=
  first.id == second.id && first.name == second.name && first.uid == second.uid &&
    first.gid == second.gid

def scanNumbers (seen : List Nat) : List Nat → Except PlanError Unit
  | [] => .ok ()
  | n :: rest => if n ∈ seen then .error .invalidEvidence else scanNumbers (n :: seen) rest

def registered (r : Registry) (i : SambaIdentity) : Bool :=
  i.journal.validate &&
    (lookup Account.id r.accounts.items i.accountID).any (sameAccountIdentity i.journal.account)

def scanSamba (r : Registry) (seen : List Bytes) : List SambaIdentity → Except PlanError Unit
  | [] => .ok ()
  | i :: rest =>
    if registered r i = false ∨ i.accountID ∈ seen then .error .invalidEvidence
    else scanSamba r (i.accountID :: seen) rest

def validateIdentitySnapshot (s : IdentitySnapshot) : Except PlanError Unit := do
  refuseIf (s.complete = false ∨ s.generation = 0 ∨ s.registry.validate = false ∨
    s.fingerprint = Digest.zero ∨ s.unixUIDs = none ∨ s.unixGIDs = none ∨ s.samba = none ∨
    maxUnixIdentities < s.unixUIDs.items.length ∨ maxUnixIdentities < s.unixGIDs.items.length ∨
    ServiceAccounts.maxRecords < s.samba.items.length) .notReady
  scanNumbers [] s.unixUIDs.items
  scanNumbers [] s.unixGIDs.items
  scanSamba s.registry [] s.samba.items

theorem scanNumbers_iff {seen l : List Nat} : scanNumbers seen l = .ok () ↔ Fresh id seen l := by
  induction l generalizing seen with
  | nil => simp [scanNumbers, fresh_nil]
  | cons n rest ih =>
    rw [scanNumbers, fresh_cons, id]
    by_cases hn : n ∈ seen
    · simp [hn]
    · simp [hn, ih]

theorem scanSamba_iff {r : Registry} {seen : List Bytes} {l : List SambaIdentity} :
    scanSamba r seen l = .ok () ↔
      (∀ i ∈ l, registered r i = true) ∧ Fresh SambaIdentity.accountID seen l := by
  induction l generalizing seen with
  | nil => simp [scanSamba, fresh_nil]
  | cons i rest ih =>
    rw [scanSamba, fresh_cons, List.forall_mem_cons]
    by_cases hr : registered r i = true
    · by_cases hs : i.accountID ∈ seen
      · simp [hs]
      · simp [hr, hs, ih]
    · simp [hr]

structure Identified (s : IdentitySnapshot) : Prop where
  complete : s.complete = true
  generation : s.generation ≠ 0
  registry : s.registry.WellFormed
  fingerprint : s.fingerprint ≠ Digest.zero
  present : s.unixUIDs.isSome = true ∧ s.unixGIDs.isSome = true ∧ s.samba.isSome = true
  counted : s.unixUIDs.items.length ≤ maxUnixIdentities ∧
    s.unixGIDs.items.length ≤ maxUnixIdentities ∧
    s.samba.items.length ≤ ServiceAccounts.maxRecords
  uids : s.unixUIDs.items.Nodup
  gids : s.unixGIDs.items.Nodup
  enrolled : ∀ i ∈ s.samba.items, registered s.registry i = true
  accounts : (s.samba.items.map SambaIdentity.accountID).Nodup

/-- Evidence is accepted exactly when every account is identified. -/
theorem validateIdentitySnapshot_iff {s : IdentitySnapshot} :
    validateIdentitySnapshot s = .ok () ↔ Identified s := by
  simp only [validateIdentitySnapshot, bind_unit_ok, refuseIf_ok, scanNumbers_iff, scanSamba_iff,
    fresh_start, List.map_id]
  constructor
  · rintro ⟨hhead, huids, hgids, henrolled, haccounts⟩
    push Not at hhead
    obtain ⟨hc, hg, hr, hf, hu, hg', hs, hcounted⟩ := hhead
    rw [ne_eq, Bool.not_eq_false] at hc hr
    exact ⟨hc, hg, (ServiceAccounts.validate_iff _).mp hr, hf,
      ⟨Option.isSome_iff_ne_none.mpr hu, Option.isSome_iff_ne_none.mpr hg',
        Option.isSome_iff_ne_none.mpr hs⟩, hcounted, huids, hgids, henrolled, haccounts⟩
  · intro h
    refine ⟨?_, h.uids, h.gids, h.enrolled, h.accounts⟩
    have hregistry := (ServiceAccounts.validate_iff _).mpr h.registry
    push Not
    exact ⟨ne_false_of_eq_true h.complete, h.generation, ne_false_of_eq_true hregistry,
      h.fingerprint, Option.isSome_iff_ne_none.mp h.present.1,
      Option.isSome_iff_ne_none.mp h.present.2.1, Option.isSome_iff_ne_none.mp h.present.2.2,
      h.counted⟩

def serviceable (s : IdentitySnapshot) (a : Account) : Bool :=
  s.unixUIDs.items.contains a.uid && s.unixGIDs.items.contains a.gid &&
    (lookup SambaIdentity.accountID s.samba.items a.id).any fun i =>
      i.journal.phase == .enabled && sameAccountIdentity i.journal.account a &&
        i.observation.present && !i.observation.disabled && i.observation.name == a.name &&
        i.observation.uid == a.uid && i.observation.gid == a.gid && i.observation.sid != [] &&
        i.observation.sid == i.journal.sid

def validateSMBAccounts (sort : Sorter) (policy : Config) (s : IdentitySnapshot) :
    Except PlanError Unit :=
  match bindShares sort s.registry policy with
  | .error _ => .error .notReady
  | .ok bound => forEach (fun a => refuseIf (serviceable s a = false) .notReady) bound.accounts

def validateNFSIdentities (policy : Policy) (s : IdentitySnapshot) : Except PlanError Unit :=
  forEach (fun e : Export => forEach (fun c : Client =>
    refuseIf (c.anonymousUID.toNat ∉ s.unixUIDs.items ∨ c.anonymousGID.toNat ∉ s.unixGIDs.items)
      .notReady) e.clients.items) policy.exports.items

theorem validateSMBAccounts_iff {sort : Sorter} {policy : Config} {s : IdentitySnapshot} :
    validateSMBAccounts sort policy s = .ok () ↔
      ∃ bound, bindShares sort s.registry policy = .ok bound ∧
        ∀ a ∈ bound.accounts, serviceable s a = true := by
  rw [validateSMBAccounts]
  cases hb : bindShares sort s.registry policy with
  | error e => simp
  | ok bound => simp [forEach_ok]

theorem validateNFSIdentities_iff {policy : Policy} {s : IdentitySnapshot} :
    validateNFSIdentities policy s = .ok () ↔
      ∀ e ∈ policy.exports.items, ∀ c ∈ e.clients.items,
        c.anonymousUID.toNat ∈ s.unixUIDs.items ∧ c.anonymousGID.toNat ∈ s.unixGIDs.items := by
  simp only [validateNFSIdentities, forEach_ok, refuseIf_ok, not_or, not_not]

/-- An account that Samba may serve: enabled there, and seen as the journal describes it. -/
structure Serves (s : IdentitySnapshot) (a : Account) (i : SambaIdentity) : Prop where
  listed : i ∈ s.samba.items
  uid : a.uid ∈ s.unixUIDs.items
  gid : a.gid ∈ s.unixGIDs.items
  account : i.journal.account.id = a.id ∧ i.journal.account.name = a.name ∧
    i.journal.account.uid = a.uid ∧ i.journal.account.gid = a.gid
  phase : i.journal.phase = .enabled
  present : i.observation.present = true
  active : i.observation.disabled = false
  name : i.observation.name = a.name
  observedUID : i.observation.uid = a.uid
  observedGID : i.observation.gid = a.gid
  sid : i.observation.sid ≠ [] ∧ i.observation.sid = i.journal.sid

theorem serviceable_serves {s : IdentitySnapshot} {a : Account} (h : serviceable s a = true) :
    ∃ i, Serves s a i := by
  rw [serviceable, Bool.and_eq_true, Bool.and_eq_true, List.contains_iff_mem,
    List.contains_iff_mem] at h
  obtain ⟨⟨huid, hgid⟩, hany⟩ := h
  cases hfound : lookup SambaIdentity.accountID s.samba.items a.id with
  | none => simp [hfound] at hany
  | some i =>
    simp only [hfound, Option.any_some, sameAccountIdentity, Bool.and_eq_true, beq_iff_eq,
      bne_iff_ne, Bool.not_eq_true'] at hany
    obtain ⟨⟨⟨⟨⟨⟨⟨⟨hphase, hsame⟩, hpresent⟩, hactive⟩, hn⟩, hou⟩, hog⟩, hsid⟩, hj⟩ := hany
    obtain ⟨⟨⟨hid, hname⟩, hu⟩, hg⟩ := hsame
    exact ⟨i, (lookup_some hfound).1, huid, hgid, ⟨hid, hname, hu, hg⟩, hphase, hpresent,
      hactive, hn, hou, hog, hsid, hj⟩

structure IdentitiesReordered (a b : IdentitySnapshot) : Prop where
  complete : a.complete = b.complete
  generation : a.generation = b.generation
  fingerprint : a.fingerprint = b.fingerprint
  registry : a.registry = b.registry
  uids : SlicePerm a.unixUIDs b.unixUIDs
  gids : SlicePerm a.unixGIDs b.unixGIDs
  samba : SlicePerm a.samba b.samba
  kerberos : a.kerberosReady = b.kerberosReady

theorem IdentitiesReordered.symm {a b : IdentitySnapshot} (h : IdentitiesReordered a b) :
    IdentitiesReordered b a :=
  ⟨h.complete.symm, h.generation.symm, h.fingerprint.symm, h.registry.symm, h.uids.symm,
    h.gids.symm, h.samba.symm, h.kerberos.symm⟩

section Order

variable {a b : IdentitySnapshot}

theorem IdentitiesReordered.identified (h : IdentitiesReordered a b) (ha : Identified a) :
    Identified b := by
  constructor
  · exact h.complete ▸ ha.complete
  · exact h.generation ▸ ha.generation
  · exact h.registry ▸ ha.registry
  · exact h.fingerprint ▸ ha.fingerprint
  · exact ⟨h.uids.present ▸ ha.present.1, h.gids.present ▸ ha.present.2.1,
      h.samba.present ▸ ha.present.2.2⟩
  · exact ⟨h.uids.items.length_eq ▸ ha.counted.1, h.gids.items.length_eq ▸ ha.counted.2.1,
      h.samba.items.length_eq ▸ ha.counted.2.2⟩
  · exact h.uids.items.nodup_iff.mp ha.uids
  · exact h.gids.items.nodup_iff.mp ha.gids
  · exact fun i hi => h.registry ▸ ha.enrolled i (h.samba.items.mem_iff.mpr hi)
  · exact (h.samba.items.map _).nodup_iff.mp ha.accounts

theorem IdentitiesReordered.serviceable (h : IdentitiesReordered a b) (ha : Identified a)
    (x : Account) : serviceable a x = serviceable b x := by
  unfold IdentityEvidence.serviceable
  rw [lookup_perm h.samba.items ha.accounts]
  simp only [List.contains_eq_mem, h.uids.items.mem_iff, h.gids.items.mem_iff]

end Order

end IdentityEvidence
