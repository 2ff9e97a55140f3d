import PhantoWD.ServicePreview

/-!
Every granted user is resolved to an enabled account of the registry, by ID and by name. The
accounts found are rendered as the passwd and group files of a Samba root.
-/
namespace SambaLookup

open GoText GoJson ShareConfig KeyedLists PolicyOrder ServicePreview
open ServiceAccounts (Account AccountState Registry)

inductive BindError where
  | invalid
  | unresolved
  deriving DecidableEq

structure Bindings where
  registryRevision : Nat
  shareRevision : UInt64
  accounts : List Account
  deriving DecidableEq

def grants (policy : Config) : List Grant := policy.shares.items.flatMap fun s => s.grants.items

def resolve (r : Registry) (policy : Config) (g : Grant) : Option Account :=
  match lookup Account.id r.accounts.items g.userID with
  | none => none
  | some a => if a.name ≠ userName policy g.userID ∨ a.state ≠ .enabled then none else some a

/-- The loop over all grants; an account that was bound before is not bound again. -/
def bindGrants (r : Registry) (policy : Config) (bound : List Account) :
    List Grant → Option (List Account)
  | [] => some bound
  | g :: rest =>
    match resolve r policy g with
    | none => none
    | some a =>
      bindGrants r policy (if a.id ∈ bound.map Account.id then bound else bound ++ [a]) rest

def bindShares (s : Sorter) (r : Registry) (policy : Config) : Except BindError Bindings :=
  if r.validate = false ∨ policy.validate ≠ .ok () then .error .invalid
  else
    match bindGrants r policy [] (grants policy) with
    | none => .error .unresolved
    | some accounts => .ok ⟨r.revision, policy.revision, s.run Account.id accounts⟩

section Binding

variable {r : Registry} {policy : Config} {bound out : List Account} {gs : List Grant}

theorem resolve_some {g : Grant} {a : Account} (h : resolve r policy g = some a) :
    a ∈ r.accounts.items ∧ a.id = g.userID ∧ a.name = userName policy g.userID ∧
      a.state = .enabled := by
  rw [resolve] at h
  cases hfound : lookup Account.id r.accounts.items g.userID with
  | none => simp [hfound] at h
  | some b =>
    simp only [hfound] at h
    split_ifs at h with hbad
    push Not at hbad
    obtain ⟨hmem, hid⟩ := lookup_some hfound
    rw [← Option.some.inj h]
    exact ⟨hmem, hid, hbad.1, hbad.2⟩

structure Bound (r : Registry) (bound : List Account) : Prop where
  registered : ∀ a ∈ bound, a ∈ r.accounts.items
  ids : (bound.map Account.id).Nodup

theorem bound_nil : Bound r [] := ⟨by simp, by simp⟩

theorem Bound.add (hr : r.WellFormed) (hb : Bound r bound) {a : Account}
    (ha : a ∈ r.accounts.items) :
    let next := if a.id ∈ bound.map Account.id then bound else bound ++ [a]
    Bound r next ∧ ∀ b, b ∈ next ↔ b ∈ bound ∨ b = a := by
  dsimp only
  split
  next hmem =>
    refine ⟨hb, fun b => ⟨.inl, ?_⟩⟩
    rintro (hb' | rfl)
    · exact hb'
    · obtain ⟨c, hc, heq⟩ := List.mem_map.mp hmem
      exact List.inj_on_of_nodup_map hr.ids (hb.registered c hc) ha heq ▸ hc
  next hnew =>
    refine ⟨⟨?_, ?_⟩, by simp⟩
    · intro b hmem
      rcases List.mem_append.mp hmem with hmem | hmem
      · exact hb.registered b hmem
      · rw [List.mem_singleton.mp hmem]
        exact ha
    · rw [List.map_append, List.nodup_append]
      refine ⟨hb.ids, by simp, ?_⟩
      intro x hx y hy heq
      rw [List.map_singleton, List.mem_singleton] at hy
      exact hnew (hy ▸ heq ▸ hx)

theorem bindGrants_some (hr : r.WellFormed) (hb : Bound r bound)
    (h : bindGrants r policy bound gs = some out) :
    Bound r out ∧ (∀ a, a ∈ out ↔ a ∈ bound ∨ ∃ g ∈ gs, resolve r policy g = some a) ∧
      ∀ g ∈ gs, ∃ a, resolve r policy g = some a := by
  induction gs generalizing bound with
  | nil =>
    rw [bindGrants, Option.some.injEq] at h
    simp [← h, hb]
  | cons g rest ih =>
    rw [bindGrants] at h
    cases hg : resolve r policy g with
    | none => simp [hg] at h
    | some a =>
      simp only [hg] at h
      obtain ⟨hnext, hmem⟩ := hb.add hr (resolve_some hg).1
      obtain ⟨hout, hiff, hall⟩ := ih hnext h
      refine ⟨hout, fun b => ?_, List.forall_mem_cons.mpr ⟨⟨a, hg⟩, hall⟩⟩
      rw [hiff b, hmem b, List.exists_mem_cons_iff, hg, Option.some.injEq, or_assoc,
        eq_comm (a := a)]

theorem bindGrants_exists (h : ∀ g ∈ gs, ∃ a, resolve r policy g = some a) :
    ∃ out, bindGrants r policy bound gs = some out := by
  induction gs generalizing bound with
  | nil => exact ⟨bound, rfl⟩
  | cons g rest ih =>
    rw [List.forall_mem_cons] at h
    obtain ⟨⟨a, ha⟩, hrest⟩ := h
    rw [bindGrants, ha]
    exact ih hrest

theorem bindShares_ok {s : Sorter} {b : Bindings} (h : bindShares s r policy = .ok b) :
    r.WellFormed ∧ Sound policy ∧
      ∃ accounts, bindGrants r policy [] (grants policy) = some accounts ∧
        b = ⟨r.revision, policy.revision, s.run Account.id accounts⟩ := by
  rw [bindShares] at h
  split_ifs at h with hbad
  push Not at hbad
  rw [ne_eq, Bool.not_eq_false] at hbad
  cases hb : bindGrants r policy [] (grants policy) with
  | none => simp [hb] at h
  | some accounts =>
    simp only [hb, Except.ok.injEq] at h
    exact ⟨(ServiceAccounts.validate_iff r).mp hbad.1, validate_iff.mp hbad.2, accounts, rfl,
      h.symm⟩

end Binding

section BindingOrder

variable {r : Registry} {c d : Config}

theorem mem_grants_congr (h : SharesReordered c d) {g : Grant} (hg : g ∈ grants c) :
    g ∈ grants d := by
  obtain ⟨x, hx, hg⟩ := List.mem_flatMap.mp hg
  obtain ⟨y, hy, hyx⟩ := h.symm.shares.items.exists_left hx
  exact List.mem_flatMap.mpr ⟨y, hy, hyx.grants.items.mem_iff.mpr hg⟩

theorem resolve_congr (h : SharesReordered c d) (hc : Sound c) (g : Grant) :
    resolve r c g = resolve r d g := by
  unfold resolve
  rw [userName_congr h hc]

/-- The accounts bound do not depend on the order of the policy. -/
theorem bindShares_congr {s s' : Sorter} (h : SharesReordered c d) {b : Bindings}
    (hb : bindShares s r c = .ok b) : bindShares s' r d = .ok b := by
  obtain ⟨hr, hc, accounts, haccounts, rfl⟩ := bindShares_ok hb
  obtain ⟨hbound, hmem, hall⟩ := bindGrants_some hr bound_nil haccounts
  have hall' : ∀ g ∈ grants d, ∃ a, resolve r d g = some a := by
    intro g hg
    obtain ⟨a, ha⟩ := hall g (mem_grants_congr h.symm hg)
    exact ⟨a, resolve_congr h hc g ▸ ha⟩
  obtain ⟨accounts', haccounts'⟩ := @bindGrants_exists r d [] _ hall'
  obtain ⟨hbound', hmem', -⟩ := bindGrants_some hr bound_nil haccounts'
  have hperm : accounts.Perm accounts' := by
    rw [List.perm_ext_iff_of_nodup hbound.ids.of_map hbound'.ids.of_map]
    intro a
    simp only [hmem, hmem', List.not_mem_nil, false_or]
    constructor
    · rintro ⟨g, hg, ha⟩
      exact ⟨g, mem_grants_congr h hg, resolve_congr h hc g ▸ ha⟩
    · rintro ⟨g, hg, ha⟩
      exact ⟨g, mem_grants_congr h.symm hg, resolve_congr h hc g ▸ ha⟩
  rw [bindShares, if_neg, haccounts', h.revision, sort_keyed s s' hperm hbound.ids]
  rw [(ServiceAccounts.validate_iff r).mpr hr, validate_iff.mpr (h.sound hc)]
  simp

end BindingOrder

structure LookupDocuments where
  passwd : Bytes
  group : Bytes
  nss : Bytes
  deriving DecidableEq

def maxSambaNSSBytes : Nat := 32 * 1024

def sambaFilesOnlyNSS : Bytes :=
  ascii "passwd: files\ngroup: files\ninitgroups: files\nshadow: files\nhosts: files\n" ++
    ascii "networks: files\nprotocols: files\nservices: files\n"

def passwdRow (a : Account) : Bytes :=
  a.name ++ ascii ":!:" ++ formatUint a.uid ++ ascii ":" ++ formatUint a.gid ++
    ascii "::/:/sbin/nologin\n"

def groupRow (a : Account) : Bytes :=
  a.name ++ ascii ":!:" ++ formatUint a.gid ++ ascii ":\n"

def lookupDocuments (sorted : List Account) : LookupDocuments where
  passwd := ascii "root:!:0:0:root:/:/sbin/nologin\n" ++
    ascii "nobody:!:65534:65534:nobody:/:/sbin/nologin\n" ++ sorted.flatMap passwdRow
  group := ascii "root:!:0:\nnobody:!:65534:\n" ++ sorted.flatMap groupRow
  nss := sambaFilesOnlyNSS

def renderNativeSambaNSS (s : Sorter) (accounts : List Account) : Option LookupDocuments :=
  let created := ServiceAccounts.new 1000 60000
  let registry : Registry := { created.1 with accounts := some accounts }
  if created.2 = false ∨ registry.validate = false ∨ ServiceAccounts.maxLive < accounts.length then
    none
  else if accounts.any fun a => a.state = .retired then none
  else
    let documents := lookupDocuments (s.run Account.name accounts)
    if maxSambaNSSBytes < documents.passwd.length + documents.group.length +
        sambaFilesOnlyNSS.length then none
    else some documents

def renderSambaNSS (s : Sorter) (policy : Config) (r : Registry) : Option LookupDocuments :=
  match bindShares s r policy with
  | .error _ => none
  | .ok b => if maxUsers < b.accounts.length then none else renderNativeSambaNSS s b.accounts

theorem renderNative_congr (s s' : Sorter) (accounts : List Account) :
    renderNativeSambaNSS s accounts = renderNativeSambaNSS s' accounts := by
  unfold renderNativeSambaNSS
  dsimp only
  split
  next => rfl
  next hbad =>
    push Not at hbad
    have hvalid := (ServiceAccounts.validate_iff _).mp (Bool.eq_true_of_not_eq_false hbad.2.1)
    rw [sort_keyed s s' (.refl accounts) hvalid.names]

theorem renderSambaNSS_congr {s s' : Sorter} {r : Registry} {c d : Config}
    (h : SharesReordered c d) {documents : LookupDocuments}
    (hc : renderSambaNSS s c r = some documents) : renderSambaNSS s' d r = some documents := by
  rw [renderSambaNSS] at hc ⊢
  cases hb : bindShares s r c with
  | error e => simp [hb] at hc
  | ok b =>
    simp only [hb] at hc
    rw [bindShares_congr h hb]
    dsimp only
    rw [renderNative_congr s' s]
    exact hc

/-- Every live account, when the census has all of them; otherwise nothing. -/
def sambaManagementLookup (s : Sorter) (r : Registry) (uids gids : List Nat) : LookupDocuments :=
  let live := r.accounts.items.filter fun a => a.state ≠ .retired
  if live.all fun a => a.uid ∈ uids ∧ a.gid ∈ gids then
    (renderNativeSambaNSS s live).getD ⟨[], [], []⟩
  else ⟨[], [], []⟩

theorem sambaManagementLookup_congr {s s' : Sorter} {r : Registry}
    {uids uids' gids gids' : List Nat} (hu : uids.Perm uids') (hg : gids.Perm gids') :
    sambaManagementLookup s r uids gids = sambaManagementLookup s' r uids' gids' := by
  unfold sambaManagementLookup
  simp only [hu.mem_iff, hg.mem_iff, renderNative_congr s s']

end SambaLookup
