import Mathlib.Data.List.Nodup
import Mathlib.Order.Bounds.Basic
import PhantoWD.ShareConfig

/-!
Reservations are permanent: a record keeps its identity and index forever, and
retirement is a tombstone rather than a deletion. Every transition is a pure plan
over the whole document, guarded by its exact revision.
-/
namespace ServiceAccounts

open GoText

def formatName : Bytes := ascii "phantowd-service-accounts"
def maxRecords : Nat := 1024
def maxLive : Nat := ShareConfig.maxUsers
def maxReservations : Nat := 65536

inductive AccountState where
  | disabled
  | enabled
  | retired
  | other (text : Bytes)
  deriving DecidableEq

structure Account where
  id : Bytes
  name : Bytes
  uid : Nat
  gid : Nat
  state : AccountState
  deriving DecidableEq

structure Registry where
  format : Bytes
  schemaVersion : Int
  revision : Nat
  firstID : Nat
  lastID : Nat
  accounts : Slice Account
  deriving DecidableEq

structure Reservations where
  uids : Slice Nat
  gids : Slice Nat
  names : Slice Bytes
  deriving DecidableEq

inductive RegistryError where
  | invalid
  | conflict
  | collision
  | exhausted
  | transition
  deriving DecidableEq

def validIdentity (id name : Bytes) : Bool :=
  ShareConfig.Config.validate
    ⟨ShareConfig.formatName, 1, 1, some [], some [⟨id, name⟩], some []⟩ == .ok ()

theorem validIdentity_iff (id name : Bytes) : validIdentity id name = true ↔
    ShareConfig.identifier id = true ∧ ShareConfig.accountName name = true := by
  rw [← ShareConfig.single_user_valid]
  simp [validIdentity]

def knownState : AccountState → Bool
  | .disabled | .enabled | .retired => true
  | .other _ => false

def Account.live (a : Account) : Bool := a.state != .retired

/-- One record against the range, apart from its uniqueness among the others. -/
def Account.wellFormed (first last : Nat) (a : Account) : Bool :=
  validIdentity a.id a.name && first ≤ a.uid && a.uid ≤ last && a.gid == a.uid &&
    knownState a.state

def scan (first last : Nat) (ids names : List Bytes) (numbers : List Nat) (live : Nat) :
    List Account → Option Nat
  | [] => some live
  | a :: rest =>
    if !validIdentity a.id a.name || ids.contains a.id || names.contains a.name ||
        numbers.contains a.uid || a.uid < first || last < a.uid || a.gid != a.uid ||
        !knownState a.state then none
    else
      scan first last (a.id :: ids) (a.name :: names) (a.uid :: numbers)
        (if a.state != .retired then live + 1 else live) rest

/-- `Registry.Validate`: true is the nil error, and ErrInvalid is the only other result. -/
def Registry.validate (r : Registry) : Bool :=
  if r.format != formatName || r.schemaVersion != 1 || r.revision == 0 ||
      r.firstID < 1000 || 60000 < r.lastID || r.lastID < r.firstID ||
      r.accounts.isNone || maxRecords < r.accounts.items.length then false
  else
    match scan r.firstID r.lastID [] [] [] 0 r.accounts.items with
    | none => false
    | some live => !(maxLive < live)

/-- `New` also returns the document it refuses; callers only use it after the nil error. -/
def new (first last : Nat) : Registry × Bool :=
  let r : Registry := ⟨formatName, 1, 1, first, last, some []⟩
  (r, r.validate)

def Registry.next (r : Registry) (expected : Nat) : Except RegistryError Registry :=
  if !r.validate then .error .invalid
  else if r.revision ≠ expected ∨ expected = maxUint64 then .error .conflict
  else .ok { r with accounts := some r.accounts.items, revision := succ64 r.revision }

def unusableName (external : Bytes) : Bool :=
  external.length == 0 || 256 < external.length || !validString external ||
    containsAny external [0x00, 0x0d, 0x0a]

def checkNames (name : Bytes) : List Bytes → Except RegistryError Unit
  | [] => .ok ()
  | external :: rest =>
    if unusableName external then .error .invalid
    else if equalFold external name then .error .collision
    else checkNames name rest

/-- The record loop of `Create`: refuse a reused identity, collect numbers, count live records. -/
def tally (id name : Bytes) (used : List Nat) (live : Nat) :
    List Account → Except RegistryError (List Nat × Nat)
  | [] => .ok (used, live)
  | a :: rest =>
    if a.id == id || a.name == name then .error .collision
    else tally id name (a.uid :: used) (if a.state != .retired then live + 1 else live) rest

def firstFree (used : List Nat) (first last : Nat) : Option Nat :=
  (List.range' first (last + 1 - first)).find? fun candidate => !used.contains candidate

def Registry.create (r : Registry) (expected : Nat) (id name : Bytes) (reserved : Reservations) :
    Except RegistryError Registry :=
  match r.next expected with
  | .error e => .error e
  | .ok next =>
    if !validIdentity id name || reserved.uids.isNone || reserved.gids.isNone ||
        reserved.names.isNone || maxReservations < reserved.uids.items.length ||
        maxReservations < reserved.gids.items.length ||
        maxReservations < reserved.names.items.length then .error .invalid
    else
      match checkNames name reserved.names.items with
      | .error e => .error e
      | .ok () =>
        match tally id name (reserved.gids.items ++ reserved.uids.items) 0 r.accounts.items with
        | .error e => .error e
        | .ok (used, live) =>
          if maxRecords ≤ r.accounts.items.length ∨ maxLive ≤ live then .error .exhausted
          else
            match firstFree used r.firstID r.lastID with
            | none => .error .exhausted
            | some candidate =>
              .ok { next with
                accounts := some (next.accounts.items ++
                  [⟨id, name, candidate, candidate, .disabled⟩]) }

/-- The transition test of `SetState` on the one matching record. -/
def refusedTransition (current state : AccountState) : Bool :=
  current == .retired || current == state || !knownState state ||
    (state == .retired && current != .disabled)

def setFirst (id : Bytes) (state : AccountState) : List Account → Option (List Account)
  | [] => none
  | a :: rest =>
    if a.id == id then
      if refusedTransition a.state state then none else some ({ a with state := state } :: rest)
    else (setFirst id state rest).map (a :: ·)

def Registry.setState (r : Registry) (expected : Nat) (id : Bytes) (state : AccountState) :
    Except RegistryError Registry :=
  match r.next expected with
  | .error e => .error e
  | .ok next =>
    match setFirst id state next.accounts.items with
    | none => .error .transition
    | some accounts => .ok { next with accounts := some accounts }

structure Registry.WellFormed (r : Registry) : Prop where
  format : r.format = formatName
  schema : r.schemaVersion = 1
  revision : r.revision ≠ 0
  first : 1000 ≤ r.firstID
  last : r.lastID ≤ 60000
  range : r.firstID ≤ r.lastID
  present : r.accounts.isSome = true
  records : r.accounts.items.length ≤ maxRecords
  each : ∀ a ∈ r.accounts.items, a.wellFormed r.firstID r.lastID = true
  ids : (r.accounts.items.map Account.id).Nodup
  names : (r.accounts.items.map Account.name).Nodup
  uids : (r.accounts.items.map Account.uid).Nodup
  live : r.accounts.items.countP Account.live ≤ maxLive

/-- The loop accepts exactly well-formed records that are new to the accumulators and
pairwise distinct in each of the three namespaces. -/
theorem scan_eq_some {first last : Nat} (l : List Account) :
    ∀ (ids names : List Bytes) (numbers : List Nat) (live n : Nat),
    scan first last ids names numbers live l = some n ↔
      (∀ a ∈ l, a.wellFormed first last = true ∧ a.id ∉ ids ∧ a.name ∉ names ∧ a.uid ∉ numbers) ∧
      (l.map Account.id).Nodup ∧ (l.map Account.name).Nodup ∧ (l.map Account.uid).Nodup ∧
      n = live + l.countP Account.live := by
  induction l with
  | nil =>
    intro ids names numbers live n
    simpa [scan] using eq_comm
  | cons a rest ih =>
    intro ids names numbers live n
    by_cases hok : a.wellFormed first last = true ∧ a.id ∉ ids ∧ a.name ∉ names ∧ a.uid ∉ numbers
    · have hscan : scan first last ids names numbers live (a :: rest) =
          scan first last (a.id :: ids) (a.name :: names) (a.uid :: numbers)
            (if a.state != .retired then live + 1 else live) rest := by
        obtain ⟨hw, hi, hn, hu⟩ := hok
        simp only [Account.wellFormed, Bool.and_eq_true, decide_eq_true_eq, beq_iff_eq] at hw
        obtain ⟨⟨⟨⟨hv, hf⟩, hl⟩, hg⟩, hs⟩ := hw
        simp [scan, hv, hi, hn, hu, hg, hs, Nat.not_lt.mpr hf, Nat.not_lt.mpr hl]
      rw [hscan, ih]
      have hlive : (if a.state != .retired then live + 1 else live) + rest.countP Account.live =
          live + (a :: rest).countP Account.live := by
        by_cases hr : a.state = .retired <;> simp [List.countP_cons, Account.live, hr]; omega
      rw [hlive]
      simp only [List.mem_cons, List.map_cons, List.nodup_cons, List.mem_map, not_or, not_exists,
        not_and, forall_eq_or_imp]
      constructor
      · rintro ⟨hall, hi, hn, hu, he⟩
        exact ⟨⟨hok, fun b hb => ⟨(hall b hb).1, (hall b hb).2.1.2, (hall b hb).2.2.1.2,
          (hall b hb).2.2.2.2⟩⟩, ⟨fun b hb => (hall b hb).2.1.1, hi⟩,
          ⟨fun b hb => (hall b hb).2.2.1.1, hn⟩, ⟨fun b hb => (hall b hb).2.2.2.1, hu⟩, he⟩
      · rintro ⟨⟨_, hall⟩, ⟨di, hi⟩, ⟨dn, hn⟩, ⟨du, hu⟩, he⟩
        exact ⟨fun b hb => ⟨(hall b hb).1, ⟨di b hb, (hall b hb).2.1⟩,
          ⟨dn b hb, (hall b hb).2.2.1⟩, ⟨du b hb, (hall b hb).2.2.2⟩⟩, hi, hn, hu, he⟩
    · have hnone : scan first last ids names numbers live (a :: rest) = none := by
        simp only [scan, ite_eq_left_iff]
        intro hc
        refine absurd ?_ hok
        simpa [Account.wellFormed, and_assoc, and_comm, and_left_comm] using hc
      rw [hnone]
      simp only [reduceCtorEq, false_iff, List.mem_cons, forall_eq_or_imp, not_and]
      intro h
      exact absurd h.1 hok

/-- Validation decides well-formedness. -/
theorem validate_iff (r : Registry) : r.validate = true ↔ r.WellFormed := by
  unfold Registry.validate
  constructor
  · intro h
    split at h
    · cases h
    rename_i hc
    simp only [bne_iff_ne, Bool.or_eq_true, decide_eq_true_eq, beq_iff_eq, not_or, ne_eq,
      not_not, not_lt, Option.isNone_iff_eq_none] at hc
    obtain ⟨⟨⟨⟨⟨⟨⟨hf, hs⟩, hr⟩, h1⟩, h2⟩, h3⟩, hp⟩, hm⟩ := hc
    split at h
    · cases h
    rename_i live hscan
    obtain ⟨he, hi, hn, hu, hl⟩ := (scan_eq_some _ _ _ _ _ _).mp hscan
    refine ⟨hf, hs, hr, h1, h2, h3, Option.isSome_iff_ne_none.mpr hp, hm,
      fun a ha => (he a ha).1, hi, hn, hu, ?_⟩
    simp only [Bool.not_eq_eq_eq_not, Bool.not_true, decide_eq_false_iff_not, not_lt] at h
    omega
  · intro h
    have hscan : scan r.firstID r.lastID [] [] [] 0 r.accounts.items =
        some (r.accounts.items.countP Account.live) :=
      (scan_eq_some _ _ _ _ _ _).mpr
        ⟨fun a ha => ⟨h.each a ha, by simp, by simp, by simp⟩, h.ids, h.names, h.uids, by simp⟩
    rw [hscan, if_neg]
    · simpa using h.live
    · simp only [bne_iff_ne, Bool.or_eq_true, decide_eq_true_eq, beq_iff_eq, not_or, ne_eq,
        not_not, not_lt, Option.isNone_iff_eq_none]
      exact ⟨⟨⟨⟨⟨⟨⟨h.format, h.schema⟩, h.revision⟩, h.first⟩, h.last⟩, h.range⟩,
        Option.isSome_iff_ne_none.mp h.present⟩, h.records⟩

variable {expected : Nat}

theorem next_eq_ok {r n : Registry} : r.next expected = .ok n ↔
    r.WellFormed ∧ r.revision = expected ∧ expected ≠ maxUint64 ∧
      n = { r with accounts := some r.accounts.items, revision := succ64 r.revision } := by
  unfold Registry.next
  by_cases hv : r.validate = true
  · by_cases hc : r.revision ≠ expected ∨ expected = maxUint64
    · simp only [hv, hc]
      simp only [Bool.not_true, Bool.false_eq_true, ↓reduceIte, reduceCtorEq, false_iff]
      rintro ⟨_, he, hm, _⟩
      exact hc.elim (fun h => h he) hm
    · have hs := not_or.mp hc
      simp [hv, hs.2, not_not.mp hs.1, ← validate_iff, eq_comm]
  · simp [hv, ← validate_iff]

variable {name : Bytes}

theorem checkNames_eq_ok {l : List Bytes} : checkNames name l = .ok () ↔
    ∀ external ∈ l, unusableName external = false ∧ equalFold external name = false := by
  induction l with
  | nil => simp [checkNames]
  | cons e rest ih =>
    by_cases hu : unusableName e = true <;> by_cases hf : equalFold e name = true <;>
      simp_all [checkNames]

variable {id : Bytes}

theorem tally_eq_ok (l : List Account) :
    ∀ (used : List Nat) (live : Nat) (out : List Nat × Nat),
    tally id name used live l = .ok out ↔
      (∀ a ∈ l, a.id ≠ id ∧ a.name ≠ name) ∧
      out = ((l.map Account.uid).reverse ++ used, live + l.countP Account.live) := by
  induction l with
  | nil => intro used live out; simp [tally, eq_comm]
  | cons a rest ih =>
    intro used live out
    by_cases hc : a.id = id ∨ a.name = name
    · have : tally id name used live (a :: rest) = .error .collision := by
        simp [tally, hc]
      rw [this]
      simp only [reduceCtorEq, false_iff, List.mem_cons, forall_eq_or_imp, not_and]
      intro h
      exact absurd hc (not_or.mpr h.1)
    · have hn := not_or.mp hc
      have hstep : tally id name used live (a :: rest) =
          tally id name (a.uid :: used) (if a.state != .retired then live + 1 else live) rest := by
        simp [tally, hn.1, hn.2]
      have hlive : (if a.state != .retired then live + 1 else live) + rest.countP Account.live =
          live + (a :: rest).countP Account.live := by
        by_cases hr : a.state = .retired <;> simp [List.countP_cons, Account.live, hr]; omega
      rw [hstep, ih, hlive]
      simp [hn.1, hn.2]

def available (r : Registry) (reserved : Reservations) : Set Nat :=
  {n | r.firstID ≤ n ∧ n ≤ r.lastID ∧ n ∉ reserved.uids.items ∧ n ∉ reserved.gids.items ∧
    ∀ a ∈ r.accounts.items, a.uid ≠ n}

theorem firstFree_eq_some {used : List Nat} {first last n : Nat}
    (h : firstFree used first last = some n) :
    IsLeast {m | first ≤ m ∧ m ≤ last ∧ m ∉ used} n := by
  unfold firstFree at h
  obtain ⟨hp, before, after, hl, hb⟩ := List.find?_eq_some_iff_append.mp h
  have hsorted : (before ++ n :: after).Pairwise (· < ·) := by
    rw [← hl]
    exact List.pairwise_lt_range'
  have hmem : n ∈ List.range' first (last + 1 - first) := by simp [hl]
  rw [List.mem_range'_1] at hmem
  refine ⟨⟨hmem.1, by omega, by simpa using hp⟩, ?_⟩
  rintro m ⟨h1, h2, hu⟩
  have hm : m ∈ before ++ n :: after := by
    rw [← hl, List.mem_range'_1]
    omega
  rcases List.mem_append.mp hm with hm | hm
  · exact absurd hu (by simpa using hb m hm)
  rcases List.mem_cons.mp hm with rfl | hm
  · exact le_rfl
  · exact le_of_lt ((List.pairwise_cons.mp (List.pairwise_append.mp hsorted).2.1).1 m hm)

theorem firstFree_eq_none {used : List Nat} {first last : Nat}
    (h : firstFree used first last = none) : {m | first ≤ m ∧ m ≤ last ∧ m ∉ used} = ∅ := by
  unfold firstFree at h
  ext m
  simp only [Set.mem_ofPred_eq, Set.mem_empty_iff_false, iff_false, not_and]
  intro h1 h2
  have := List.find?_eq_none.mp h m (by rw [List.mem_range'_1]; omega)
  simpa using this

theorem available_eq (r : Registry) (reserved : Reservations) : available r reserved =
    {m | r.firstID ≤ m ∧ m ≤ r.lastID ∧ m ∉ (r.accounts.items.map Account.uid).reverse ++
      (reserved.gids.items ++ reserved.uids.items)} := by
  ext m
  simp only [available, Set.mem_ofPred_eq, List.mem_append, List.mem_reverse, List.mem_map, not_or,
    not_exists, not_and]
  constructor
  · rintro ⟨h1, h2, hu, hg, ha⟩
    exact ⟨h1, h2, ha, hg, hu⟩
  · rintro ⟨h1, h2, ha, hg, hu⟩
    exact ⟨h1, h2, hu, hg, ha⟩

structure Created (r : Registry) (expected : Nat) (id name : Bytes) (reserved : Reservations)
    (uid : Nat) (r' : Registry) : Prop where
  source : r.WellFormed
  revision : r.revision = expected
  room : expected ≠ maxUint64
  identity : validIdentity id name = true
  names : ∀ external ∈ reserved.names.items, equalFold external name = false
  fresh : ∀ a ∈ r.accounts.items, a.id ≠ id ∧ a.name ≠ name
  records : r.accounts.items.length < maxRecords
  live : r.accounts.items.countP Account.live < maxLive
  least : IsLeast (available r reserved) uid
  result : r' = { r with
    revision := succ64 r.revision
    accounts := some (r.accounts.items ++ [⟨id, name, uid, uid, .disabled⟩]) }

variable {r' : Registry}

variable {reserved : Reservations}

theorem create_ok {r : Registry} (h : r.create expected id name reserved = .ok r') :
    ∃ uid, Created r expected id name reserved uid r' := by
  unfold Registry.create at h
  split at h
  · cases h
  rename_i next hnext
  obtain ⟨hw, hr, hm, rfl⟩ := next_eq_ok.mp hnext
  split at h
  · cases h
  rename_i hargs
  split at h
  · cases h
  rename_i hnames
  split at h
  · cases h
  rename_i used live htally
  split at h
  · cases h
  rename_i hroom
  split at h
  · cases h
  rename_i uid hfree
  obtain ⟨hfresh, hout⟩ := (tally_eq_ok _ _ _ _).mp htally
  obtain ⟨rfl, rfl⟩ := Prod.mk.inj hout
  have hn := checkNames_eq_ok.mp hnames
  have hl := firstFree_eq_some hfree
  rw [← available_eq] at hl
  refine ⟨uid, hw, hr, hm, ?_, fun e he => (hn e he).2, hfresh, ?_, ?_, hl, ?_⟩
  · by_contra hv
    exact hargs (by simp [hv])
  · omega
  · omega
  · exact (Except.ok.inj h).symm

/-- Exhaustion is reported only when nothing is left to give. -/
theorem create_exhausted {r : Registry}
    (h : r.create expected id name reserved = .error .exhausted) :
    available r reserved = ∅ ∨ maxRecords ≤ r.accounts.items.length ∨
      maxLive ≤ r.accounts.items.countP Account.live := by
  have names_error : ∀ l, checkNames name l ≠ .error .exhausted := by
    intro l
    induction l with
    | nil => simp [checkNames]
    | cons e rest ih => simp only [checkNames]; split_ifs <;> simp_all
  have tally_error : ∀ l used live, tally id name used live l ≠ .error .exhausted := by
    intro l
    induction l with
    | nil => simp [tally]
    | cons a rest ih => intro used live; simp only [tally]; split_ifs <;> simp_all
  unfold Registry.create at h
  split at h
  · rename_i e hnext
    cases h
    simp only [Registry.next] at hnext
    split_ifs at hnext <;> cases hnext
  split at h
  · cases h
  split at h
  · rename_i e hnames
    cases h
    exact absurd hnames (names_error _)
  split at h
  · rename_i e htally
    cases h
    exact absurd htally (tally_error _ _ _)
  rename_i used live htally
  obtain ⟨_, hout⟩ := (tally_eq_ok _ _ _ _).mp htally
  obtain ⟨rfl, rfl⟩ := Prod.mk.inj hout
  split at h
  · rename_i hfull
    rcases hfull with hfull | hfull
    · exact Or.inr (Or.inl hfull)
    · exact Or.inr (Or.inr (by omega))
  split at h
  · rename_i hnone
    left
    rw [available_eq]
    exact firstFree_eq_none hnone
  · cases h

variable {state : AccountState}

theorem setFirst_eq_some {l l' : List Account} (h : setFirst id state l = some l') :
    ∃ before a after, l = before ++ a :: after ∧ a.id = id ∧
      refusedTransition a.state state = false ∧
      l' = before ++ { a with state := state } :: after := by
  induction l generalizing l' with
  | nil => simp [setFirst] at h
  | cons a rest ih =>
    simp only [setFirst] at h
    split at h
    · rename_i hid
      split at h
      · cases h
      · rename_i hr
        exact ⟨[], a, rest, rfl, by simpa using hid, by simpa using hr, (Option.some.inj h).symm⟩
    · obtain ⟨t, ht, rfl⟩ := Option.map_eq_some_iff.mp h
      obtain ⟨before, b, after, rfl, hid, hr, rfl⟩ := ih ht
      exact ⟨a :: before, b, after, rfl, hid, hr, rfl⟩

structure Switched (r : Registry) (expected : Nat) (id : Bytes) (state : AccountState)
    (before : List Account) (a : Account) (after : List Account) (r' : Registry) : Prop where
  source : r.WellFormed
  revision : r.revision = expected
  room : expected ≠ maxUint64
  split : r.accounts.items = before ++ a :: after
  identity : a.id = id
  allowed : refusedTransition a.state state = false
  result : r' = { r with
    revision := succ64 r.revision
    accounts := some (before ++ { a with state := state } :: after) }

theorem setState_ok {r : Registry} (h : r.setState expected id state = .ok r') :
    ∃ before a after, Switched r expected id state before a after r' := by
  unfold Registry.setState at h
  split at h
  · cases h
  rename_i next hnext
  obtain ⟨hw, hr, hm, rfl⟩ := next_eq_ok.mp hnext
  split at h
  · cases h
  rename_i l hset
  obtain ⟨before, a, after, hl, hid, ha, rfl⟩ := setFirst_eq_some hset
  exact ⟨before, a, after, hw, hr, hm, hl, hid, ha, (Except.ok.inj h).symm⟩

variable {a : Account}

theorem Switched.known {r : Registry} {before after : List Account}
    (h : Switched r expected id state before a after r') :
    knownState state = true ∧ a.state ≠ .retired ∧ (state = .retired → a.state = .disabled) := by
  have ha := h.allowed
  simp only [refusedTransition, Bool.or_eq_false_iff, beq_eq_false_iff_ne, Bool.not_eq_false',
    Bool.and_eq_false_iff, bne_eq_false_iff_eq] at ha
  exact ⟨ha.1.2, ha.1.1.1, fun he => ha.2.resolve_left (fun hn => hn he)⟩

theorem Created.wellFormed {r : Registry} {uid : Nat}
    (h : Created r expected id name reserved uid r') (hb : r.revision ≤ maxUint64) :
    r'.WellFormed ∧ r'.revision = r.revision + 1 := by
  have hlt : r.revision < maxUint64 := lt_of_le_of_ne hb (h.revision ▸ h.room)
  have hs := succ64_of_lt hlt
  obtain ⟨h1, h2, _, _, hu⟩ := h.least.1
  have hw := h.source
  rw [h.result]
  refine ⟨⟨hw.format, hw.schema, ?_, hw.first, hw.last, hw.range, rfl, ?_, ?_, ?_, ?_, ?_, ?_⟩, hs⟩
  · simp [hs]
  · have := h.records
    simp only [Slice.items_some, List.length_append, List.length_singleton]
    omega
  · intro a ha
    rcases List.mem_append.mp ha with ha | ha
    · exact hw.each a ha
    · rw [List.mem_singleton.mp ha]
      simp [Account.wellFormed, h.identity, h1, h2, knownState]
  · simp only [Slice.items_some, List.map_append, List.map_cons, List.map_nil]
    exact List.Nodup.append hw.ids (by simp)
      (by simpa using fun a ha => (h.fresh a ha).1)
  · simp only [Slice.items_some, List.map_append, List.map_cons, List.map_nil]
    exact List.Nodup.append hw.names (by simp)
      (by simpa using fun a ha => (h.fresh a ha).2)
  · simp only [Slice.items_some, List.map_append, List.map_cons, List.map_nil]
    exact List.Nodup.append hw.uids (by simp) (by simpa using hu)
  · have := h.live
    simp only [Slice.items_some, List.countP_append, List.countP_singleton]
    split <;> omega

theorem Switched.wellFormed {r : Registry} {before after : List Account}
    (h : Switched r expected id state before a after r') (hb : r.revision ≤ maxUint64) :
    r'.WellFormed ∧ r'.revision = r.revision + 1 := by
  have hlt : r.revision < maxUint64 := lt_of_le_of_ne hb (h.revision ▸ h.room)
  have hs := succ64_of_lt hlt
  have hw := h.source
  have hk := h.known
  have hsplit := h.split
  rw [h.result]
  refine ⟨⟨hw.format, hw.schema, ?_, hw.first, hw.last, hw.range, rfl, ?_, ?_, ?_, ?_, ?_, ?_⟩, hs⟩
  · simp [hs]
  · simpa [hsplit] using hw.records
  · intro b hb
    have each := hw.each
    rw [hsplit] at each
    simp only [Slice.items_some, List.mem_append, List.mem_cons] at hb each
    rcases hb with hb | rfl | hb
    · exact each b (Or.inl hb)
    · have ha := each a (Or.inr (Or.inl rfl))
      simp only [Account.wellFormed, Bool.and_eq_true] at ha ⊢
      exact ⟨ha.1, hk.1⟩
    · exact each b (Or.inr (Or.inr hb))
  · simpa [hsplit] using hw.ids
  · simpa [hsplit] using hw.names
  · simpa [hsplit] using hw.uids
  · have hl := hw.live
    rw [hsplit] at hl
    have hlive : a.live = true := by simpa [Account.live] using hk.2.1
    simp only [Slice.items_some, List.countP_append, List.countP_cons, hlive, ↓reduceIte] at hl ⊢
    split <;> omega

inductive Call where
  | create (expected : Nat) (id name : Bytes) (reserved : Reservations)
  | setState (expected : Nat) (id : Bytes) (state : AccountState)

def apply (r : Registry) : Call → Except RegistryError Registry
  | .create expected id name reserved => r.create expected id name reserved
  | .setState expected id state => r.setState expected id state

/-- Successful calls only: a refused call returns no registry and leaves its receiver alone. -/
inductive Run : Registry → Registry → Prop where
  | refl (r) : Run r r
  | tail {r s t c} : Run r s → apply s c = .ok t → Run r t

theorem apply_wellFormed {r : Registry} {c : Call} (hb : r.revision ≤ maxUint64)
    (h : apply r c = .ok r') : r'.WellFormed ∧ r'.revision = r.revision + 1 := by
  cases c with
  | create expected id name reserved =>
    obtain ⟨uid, hc⟩ := create_ok h
    exact hc.wellFormed hb
  | setState expected id state =>
    obtain ⟨before, a, after, hs⟩ := setState_ok h
    exact hs.wellFormed hb

theorem apply_bounded {r : Registry} {c : Call} (h : apply r c = .ok r') :
    r'.revision ≤ maxUint64 := by
  have key : succ64 r.revision ≤ maxUint64 := by unfold succ64 maxUint64; omega
  cases c with
  | create expected id name reserved =>
    obtain ⟨uid, hc⟩ := create_ok h
    rw [hc.result]
    exact key
  | setState expected id state =>
    obtain ⟨before, a, after, hs⟩ := setState_ok h
    rw [hs.result]
    exact key

/-- The immutable part of a record, with the tombstone rule. -/
def Keeps (a b : Account) : Prop :=
  b.id = a.id ∧ b.name = a.name ∧ b.uid = a.uid ∧ b.gid = a.gid ∧
    (a.state = .retired → b.state = .retired)

theorem Keeps.refl (a : Account) : Keeps a a := ⟨rfl, rfl, rfl, rfl, id⟩

theorem Keeps.trans {b c : Account} (h : Keeps a b) (k : Keeps b c) : Keeps a c := by
  obtain ⟨h1, h2, h3, h4, h5⟩ := h
  obtain ⟨k1, k2, k3, k4, k5⟩ := k
  exact ⟨k1.trans h1, k2.trans h2, k3.trans h3, k4.trans h4, fun hr => k5 (h5 hr)⟩

/-- Every call keeps every record in its place and adds only disabled ones. -/
theorem apply_moves {r : Registry} {c : Call} (h : apply r c = .ok r') :
    ∃ kept added, r'.accounts.items = kept ++ added ∧
      List.Forall₂ (fun a b => Keeps a b ∧
        (b.state = .retired → a.state = .retired ∨ a.state = .disabled)) r.accounts.items kept ∧
      ∀ b ∈ added, b.state = .disabled := by
  have same (l : List Account) : List.Forall₂ (fun a b => Keeps a b ∧
      (b.state = .retired → a.state = .retired ∨ a.state = .disabled)) l l :=
    List.forall₂_same.mpr fun a _ => ⟨Keeps.refl a, Or.inl⟩
  cases c with
  | create expected id name reserved =>
    obtain ⟨uid, hc⟩ := create_ok h
    exact ⟨r.accounts.items, _, by rw [hc.result]; rfl, same _, by simp⟩
  | setState expected id state =>
    obtain ⟨before, x, after, hs⟩ := setState_ok h
    refine ⟨before ++ { x with state := state } :: after, [], by simp [hs.result], ?_, by simp⟩
    rw [hs.split]
    exact List.rel_append (same before) (.cons
      ⟨⟨rfl, rfl, rfl, rfl, fun hr => absurd hr hs.known.2.1⟩, fun hr => Or.inr (hs.known.2.2 hr)⟩
      (same after))

theorem apply_keeps {r : Registry} {c : Call} (h : apply r c = .ok r') {i : Nat}
    (ha : r.accounts.items[i]? = some a) :
    ∃ b, r'.accounts.items[i]? = some b ∧ Keeps a b := by
  obtain ⟨kept, added, hr, hm, -⟩ := apply_moves h
  obtain ⟨hi, rfl⟩ := List.getElem?_eq_some_iff.mp ha
  have hk : i < kept.length := hm.length_eq ▸ hi
  exact ⟨kept[i], by rw [hr, List.getElem?_append_left hk, List.getElem?_eq_getElem hk],
    (hm.get hi hk).1⟩

theorem apply_retired {r : Registry} {c : Call} (h : apply r c = .ok r') {i : Nat} {b : Account}
    (hb : r'.accounts.items[i]? = some b) (hret : b.state = .retired) :
    ∃ a, r.accounts.items[i]? = some a ∧ (a.state = .retired ∨ a.state = .disabled) := by
  obtain ⟨kept, added, hr, hm, hnew⟩ := apply_moves h
  rw [hr] at hb
  rcases Nat.lt_or_ge i kept.length with hk | hk
  · rw [List.getElem?_append_left hk] at hb
    obtain ⟨_, hbk⟩ := List.getElem?_eq_some_iff.mp hb
    have hi : i < r.accounts.items.length := hm.length_eq ▸ hk
    exact ⟨_, List.getElem?_eq_getElem hi, (hm.get hi hk).2 (by simpa [hbk] using hret)⟩
  · rw [List.getElem?_append_right hk] at hb
    cases hret.symm.trans (hnew b (List.mem_of_getElem? hb))

theorem run_wellFormed {r s : Registry} (h : Run r s) (hw : r.WellFormed)
    (hb : r.revision ≤ maxUint64) : s.WellFormed ∧ s.revision ≤ maxUint64 := by
  induction h with
  | refl => exact ⟨hw, hb⟩
  | tail _ hstep ih => exact ⟨(apply_wellFormed ih.2 hstep).1, apply_bounded hstep⟩

theorem run_keeps {r s : Registry} (h : Run r s) {i : Nat} (ha : r.accounts.items[i]? = some a) :
    ∃ b, s.accounts.items[i]? = some b ∧ Keeps a b := by
  induction h with
  | refl => exact ⟨a, ha, Keeps.refl a⟩
  | tail _ hstep ih =>
    obtain ⟨b, hb, hk⟩ := ih
    obtain ⟨c, hc, hk'⟩ := apply_keeps hstep hb
    exact ⟨c, hc, hk.trans hk'⟩

theorem new_wellFormed {first last : Nat} (h : (new first last).2 = true) :
    (new first last).1.WellFormed ∧ (new first last).1.revision ≤ maxUint64 :=
  ⟨(validate_iff _).mp h, by simp [new, maxUint64]⟩

/-- Permanence over every history of the registry. -/
theorem service_account_permanence {first last : Nat} {r : Registry}
    (hnew : (new first last).2 = true) (hrun : Run (new first last).1 r) :
    r.validate = true ∧
    (r.accounts.items.map Account.id).Nodup ∧ (r.accounts.items.map Account.name).Nodup ∧
    (r.accounts.items.map Account.uid).Nodup ∧
    (∀ c r', apply r c = .ok r' → r'.revision = r.revision + 1 ∧
      ∀ (i : Nat) (b : Account), r'.accounts.items[i]? = some b → b.state = .retired →
        ∃ a, r.accounts.items[i]? = some a ∧ (a.state = .retired ∨ a.state = .disabled)) ∧
    (∀ r', Run r r' → ∀ (i : Nat) (a : Account), r.accounts.items[i]? = some a →
      ∃ b, r'.accounts.items[i]? = some b ∧ b.id = a.id ∧ b.name = a.name ∧ b.uid = a.uid ∧
        b.gid = a.gid ∧ (a.state = .retired → b.state = .retired)) ∧
    (∀ expected id name reserved r', r.create expected id name reserved = .ok r' →
      ∃ uid, IsLeast (available r reserved) uid ∧
        r'.accounts.items = r.accounts.items ++ [⟨id, name, uid, uid, .disabled⟩]) ∧
    (∀ expected id name reserved, r.create expected id name reserved = .error .exhausted →
      available r reserved = ∅ ∨ maxRecords ≤ r.accounts.items.length ∨
        maxLive ≤ r.accounts.items.countP Account.live) := by
  obtain ⟨h0, b0⟩ := new_wellFormed hnew
  obtain ⟨hw, hb⟩ := run_wellFormed hrun h0 b0
  refine ⟨(validate_iff r).mpr hw, hw.ids, hw.names, hw.uids, ?_, ?_, ?_, ?_⟩
  · intro c r' hc
    exact ⟨(apply_wellFormed hb hc).2, fun i b => apply_retired hc⟩
  · intro r' hr i a ha
    exact run_keeps hr ha
  · intro expected id name reserved r' hc
    obtain ⟨uid, h⟩ := create_ok hc
    exact ⟨uid, h.least, by rw [h.result]; rfl⟩
  · intro expected id name reserved
    exact create_exhausted

def aliceAs (state : AccountState) : Account := ⟨ascii "a", ascii "alice", 1001, 1001, state⟩

def firstReservation : Registry := ⟨formatName, 1, 2, 1000, 1001, some [aliceAs .disabled]⟩

def firstRetirement : Registry := ⟨formatName, 1, 3, 1000, 1001, some [aliceAs .retired]⟩

/-- The number of a retired account is not given away, though no other is left. -/
theorem first_reservation_permanent :
    apply (new 1000 1001).1
        (.create 1 (ascii "a") (ascii "alice") ⟨some [1000], some [], some []⟩) =
      .ok firstReservation ∧
    firstReservation.validate = true ∧
    apply firstReservation (.setState 2 (ascii "a") .retired) = .ok firstRetirement ∧
    (∃ b, firstRetirement.accounts.items[0]? = some b ∧ b.id = ascii "a" ∧
      b.name = ascii "alice" ∧ b.uid = 1001 ∧ b.gid = 1001) ∧
    available firstRetirement ⟨some [1000], some [], some []⟩ = ∅ := by
  have hcreate : apply (new 1000 1001).1 (.create 1 (ascii "a") (ascii "alice")
      ⟨some [1000], some [], some []⟩) = .ok firstReservation := by decide
  have hretire : apply firstReservation (.setState 2 (ascii "a") .retired) =
      .ok firstRetirement := by decide
  have hrun : Run (new 1000 1001).1 firstReservation := .tail (.refl _) hcreate
  obtain ⟨hvalid, -, -, -, -, hkept, -⟩ := service_account_permanence (by decide) hrun
  obtain ⟨-, -, -, -, -, -, -, hexhausted⟩ :=
    service_account_permanence (by decide) (.tail hrun hretire)
  obtain ⟨b, hb, hid, hname, huid, hgid, -⟩ :=
    hkept firstRetirement (.tail (.refl _) hretire) 0 (aliceAs .disabled) rfl
  exact ⟨hcreate, hvalid, hretire, ⟨b, hb, hid, hname, huid, hgid⟩,
    (hexhausted 3 (ascii "b") (ascii "bob") _ (by decide)).resolve_right (by decide)⟩

end ServiceAccounts
