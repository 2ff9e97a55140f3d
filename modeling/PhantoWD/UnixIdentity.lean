import Mathlib.Data.List.Dedup
import Mathlib.Data.List.Sort
import PhantoWD.ServiceAccounts

/-!
A snapshot retains names and numbers only. Reservations flatten it into exclusion
sets for the allocator; assessment compares one native identity with every row.
-/
namespace UnixIdentity

open GoText ServiceAccounts

def maxFileBytes : Nat := 2 ^ 20
def maxRows : Nat := 4096
def maxLineBytes : Nat := 16384

inductive Status where
  | absent
  | partialIdentity
  | conflict
  | observed
  deriving DecidableEq

structure User where
  name : Bytes
  uid : Nat
  gid : Nat
  deriving DecidableEq

structure Group where
  name : Bytes
  gid : Nat
  members : List Bytes
  deriving DecidableEq

structure Snapshot where
  valid : Bool
  users : List User
  groups : List Group
  deriving DecidableEq

/-- A reader's whole content; `none` is a nil reader or a failed read. -/
abbrev Reader := Option Bytes

def nameByte (r : Rune) : Bool :=
  (0x61 ≤ r && r ≤ 0x7a) || (0x41 ≤ r && r ≤ 0x5a) || (0x30 ≤ r && r ≤ 0x39) ||
    r == 0x5f || r == 0x2d || r == 0x2e || r == 0x24

def validName (value : Bytes) : Bool :=
  value.length != 0 && value.length ≤ 256 && (runes value).all nameByte

def decimal (value : Bytes) : Nat := value.foldl (fun n b => 10 * n + (b.toNat - 0x30)) 0

def number (value : Bytes) : Option Nat :=
  if value.length == 0 || 10 < value.length then none
  else if (runes value).any fun c => c < 0x30 || 0x39 < c then none
  else if decimal value ≥ 2 ^ 32 - 1 then none
  else some (decimal value)

def controlByte (c : UInt8) : Bool := c != 0x0a && (c < 32 || c == 127)

def collectRows (count : Nat) (seen : List Bytes) (rows : List (List Bytes)) :
    List Bytes → Option (List (List Bytes))
  | [] => some rows
  | line :: rest =>
    if maxLineBytes < line.length then none
    else if line == [] || line.head? == some 0x23 then collectRows count seen rows rest
    else
      let fields := split line 0x3a
      let key := fields.headD []
      if fields.length != count || !validName key || seen.contains key || maxRows ≤ rows.length then
        none
      else collectRows count (key :: seen) (rows ++ [fields]) rest

def readRows (input : Reader) (count : Nat) : Option (List (List Bytes)) :=
  match input with
  | none => none
  | some data =>
    if maxFileBytes < data.length || !validString data || data.any controlByte then none
    else
      match collectRows count [] [] (split data 0x0a) with
      | none => none
      | some rows => if rows.length == 0 then none else some rows

def field (fields : List Bytes) (i : Nat) : Bytes := fields.getD i []

def parseUser (fields : List Bytes) : Option User :=
  match number (field fields 2), number (field fields 3) with
  | some uid, some gid => some ⟨field fields 0, uid, gid⟩
  | _, _ => none

def parseMembers (seen : List Bytes) : List Bytes → Option (List Bytes)
  | [] => some []
  | m :: rest =>
    if !validName m || seen.contains m then none
    else (parseMembers (m :: seen) rest).map (m :: ·)

def parseGroup (fields : List Bytes) : Option Group :=
  match number (field fields 2) with
  | none => none
  | some gid =>
    if field fields 3 == [] then some ⟨field fields 0, gid, []⟩
    else (parseMembers [] (split (field fields 3) 0x2c)).map fun ms => ⟨field fields 0, gid, ms⟩

def parse (passwd groups : Reader) : Option Snapshot :=
  match readRows passwd 7 with
  | none => none
  | some userRows =>
    match userRows.mapM parseUser with
    | none => none
    | some users =>
      match readRows groups 4 with
      | none => none
      | some groupRows =>
        match groupRows.mapM parseGroup with
        | none => none
        | some parsed => some ⟨true, users, parsed⟩

/-- Map keys in ascending order: what remains of a Go map after collecting and sorting. -/
def sortedKeys {α : Type} [DecidableEq α] (le : α → α → Bool) (l : List α) : List α :=
  l.dedup.insertionSort fun a b => le a b = true

/-- Byte-wise lexicographic order of Go strings. -/
def bytesLe : Bytes → Bytes → Bool
  | [], _ => true
  | _ :: _, [] => false
  | a :: s, b :: t => a < b || (a == b && bytesLe s t)

theorem bytesLe_iff {s t : Bytes} : bytesLe s t = true ↔ s ≤ t := by
  induction s generalizing t with
  | nil => simp [bytesLe]
  | cons a s ih =>
    cases t with
    | nil => simp [bytesLe]
    | cons b t => simp [bytesLe, List.cons_le_cons_iff, ih]

theorem bytesLe_antisymm {s t : Bytes} (hst : bytesLe s t = true) (hts : bytesLe t s = true) :
    s = t :=
  List.le_antisymm (bytesLe_iff.mp hst) (bytesLe_iff.mp hts)

theorem bytesLe_total (s t : Bytes) : bytesLe s t = true ∨ bytesLe t s = true := by
  simpa only [bytesLe_iff] using List.le_total s t

theorem bytesLe_trans {s t u : Bytes} (hst : bytesLe s t = true) (htu : bytesLe t u = true) :
    bytesLe s u = true :=
  bytesLe_iff.mpr (List.le_trans (bytesLe_iff.mp hst) (bytesLe_iff.mp htu))

def Snapshot.reservedNames (s : Snapshot) : List Bytes :=
  s.users.map User.name ++ s.groups.flatMap fun g => g.name :: g.members

/-- `Snapshot.Reservations`; `none` is ErrInvalid. -/
def Snapshot.reservations (s : Snapshot) : Option Reservations :=
  if !s.valid then none
  else
    let uids := sortedKeys (· ≤ ·) (s.users.map User.uid)
    let gids := sortedKeys (· ≤ ·) (s.users.map User.gid ++ s.groups.map Group.gid)
    let names := sortedKeys bytesLe s.reservedNames
    if 65536 < names.length then none else some ⟨some uids, some gids, some names⟩

structure Assessment where
  status : Status
  userPresent : Bool
  groupPresent : Bool
  deriving DecidableEq

def inspectUsers (a : Account) (hasUser : Bool) : List User → Option Bool
  | [] => some hasUser
  | u :: rest =>
    if equalFold u.name a.name then
      if u.name != a.name || u.uid != a.uid || u.gid != a.gid then none
      else inspectUsers a true rest
    else if u.uid == a.uid || u.gid == a.gid then none
    else inspectUsers a hasUser rest

def memberConflict (a : Account) (own : Bool) (m : Bytes) : Bool :=
  (own && m != a.name) || (!own && equalFold m a.name)

def inspectGroups (a : Account) (hasGroup : Bool) : List Group → Option Bool
  | [] => some hasGroup
  | g :: rest =>
    let own := g.name == a.name && g.gid == a.gid
    let touches := equalFold g.name a.name || g.gid == a.gid
    if touches && !own then none
    else if g.members.any (memberConflict a own) then none
    else inspectGroups a (hasGroup || touches) rest

def classify (hasUser hasGroup : Bool) : Assessment :=
  if hasUser && hasGroup then ⟨.observed, hasUser, hasGroup⟩
  else if hasUser || hasGroup then ⟨.partialIdentity, hasUser, hasGroup⟩
  else ⟨.absent, hasUser, hasGroup⟩

/-- The one-record registry that `Inspect` and the provisioning journals validate. -/
def soleAccount (a : Account) : Registry :=
  ⟨ServiceAccounts.formatName, 1, 1, a.uid, a.uid, some [a]⟩

def soleAccountValid (a : Account) : Bool := (new a.uid a.uid).2 && (soleAccount a).validate

/-- `Snapshot.Inspect`; `none` is ErrInvalid. -/
def Snapshot.inspect (s : Snapshot) (a : Account) : Option Assessment :=
  if !s.valid || !soleAccountValid a then none
  else
    match inspectUsers a false s.users with
    | none => some ⟨.conflict, false, false⟩
    | some hasUser =>
      match inspectGroups a false s.groups with
      | none => some ⟨.conflict, false, false⟩
      | some hasGroup => some (classify hasUser hasGroup)

def Snapshot.assess (s : Snapshot) (a : Account) : Option Status :=
  (s.inspect a).map Assessment.status

theorem parse_valid {passwd groups : Reader} {s : Snapshot} (h : parse passwd groups = some s) :
    s.valid = true := by
  unfold parse at h
  split at h
  · cases h
  split at h
  · cases h
  split at h
  · cases h
  split at h
  · cases h
  · cases h
    rfl

theorem mem_sortedKeys {α : Type} [DecidableEq α] {le : α → α → Bool} {l : List α} {x : α} :
    x ∈ sortedKeys le l ↔ x ∈ l := by
  simp [sortedKeys]

theorem mem_reservations {s : Snapshot} {reserved : Reservations}
    (h : s.reservations = some reserved) :
    (∀ u ∈ s.users, u.uid ∈ reserved.uids.items ∧ u.gid ∈ reserved.gids.items ∧
      u.name ∈ reserved.names.items) ∧
    (∀ g ∈ s.groups, g.gid ∈ reserved.gids.items ∧ g.name ∈ reserved.names.items ∧
      ∀ m ∈ g.members, m ∈ reserved.names.items) := by
  simp only [Snapshot.reservations] at h
  split_ifs at h
  obtain rfl := Option.some.inj h
  simp only [Slice.items_some, mem_sortedKeys, Snapshot.reservedNames, List.mem_append,
    List.mem_map, List.mem_flatMap, List.mem_cons]
  refine ⟨fun u hu => ⟨⟨u, hu, rfl⟩, Or.inl ⟨u, hu, rfl⟩, Or.inl ⟨u, hu, rfl⟩⟩, fun g hg => ?_⟩
  exact ⟨Or.inr ⟨g, hg, rfl⟩, Or.inr ⟨g, hg, Or.inl rfl⟩,
    fun m hm => Or.inr ⟨g, hg, Or.inr hm⟩⟩

theorem inspectUsers_disjoint {a : Account} {hasUser : Bool} {l : List User}
    (h : ∀ u ∈ l, equalFold u.name a.name = false ∧ u.uid ≠ a.uid ∧ u.gid ≠ a.gid) :
    inspectUsers a hasUser l = some hasUser := by
  induction l with
  | nil => rfl
  | cons u rest ih =>
    obtain ⟨hf, hu, hg⟩ := h u List.mem_cons_self
    simp only [inspectUsers, hf, Bool.false_eq_true, ↓reduceIte, beq_iff_eq, hu, hg, or_self,
      Bool.or_eq_true]
    exact ih fun v hv => h v (List.mem_cons_of_mem u hv)

theorem inspectGroups_disjoint {a : Account} {hasGroup : Bool} {l : List Group}
    (h : ∀ g ∈ l, equalFold g.name a.name = false ∧ g.gid ≠ a.gid ∧
      ∀ m ∈ g.members, equalFold m a.name = false) :
    inspectGroups a hasGroup l = some hasGroup := by
  induction l with
  | nil => rfl
  | cons g rest ih =>
    obtain ⟨hf, hg, hm⟩ := h g List.mem_cons_self
    have hgid : (g.gid == a.gid) = false := by simpa using hg
    have hany : g.members.any (memberConflict a false) = false := by
      simpa [memberConflict] using hm
    simp only [inspectGroups, hf, hgid, Bool.and_false, Bool.or_self, Bool.false_and,
      Bool.false_eq_true, ↓reduceIte, hany, Bool.or_false]
    exact ih fun v hv => h v (List.mem_cons_of_mem g hv)

theorem soleAccountValid_of_wellFormed {a : Account} {first last : Nat}
    (hfirst : 1000 ≤ first) (hlast : last ≤ 60000) (h : a.wellFormed first last = true) :
    soleAccountValid a = true := by
  simp only [Account.wellFormed, Bool.and_eq_true, decide_eq_true_eq, beq_iff_eq] at h
  obtain ⟨⟨⟨⟨hi, h1⟩, h2⟩, hg⟩, hs⟩ := h
  have hnew : (new a.uid a.uid).2 = true := by
    refine (validate_iff _).mpr ⟨rfl, rfl, by simp, ?_, ?_, le_rfl, rfl, ?_, ?_, ?_, ?_, ?_, ?_⟩
    · exact hfirst.trans h1
    · exact h2.trans hlast
    all_goals simp
  have hsole : (soleAccount a).validate = true := by
    refine (validate_iff _).mpr ⟨rfl, rfl, by simp [soleAccount], hfirst.trans h1, h2.trans hlast,
      le_rfl, rfl, ?_, ?_, ?_, ?_, ?_, ?_⟩
    · simp [soleAccount, maxRecords]
    · simp [soleAccount, Account.wellFormed, hi, hg, hs]
    · simp [soleAccount]
    · simp [soleAccount]
    · simp [soleAccount]
    · refine (List.countP_le_length).trans ?_
      simp [soleAccount, maxLive, ShareConfig.maxUsers]
  simp [soleAccountValid, hnew, hsole]

def appendSlice {α : Type} (s : Slice α) (more : List α) : Slice α :=
  match s, more with
  | none, [] => none
  | s, more => some (s.items ++ more)

def extend (reserved : Reservations) (uids gids : List Nat) (names : List Bytes) : Reservations :=
  ⟨appendSlice reserved.uids uids, appendSlice reserved.gids gids,
    appendSlice reserved.names names⟩

@[simp] theorem items_appendSlice {α : Type} (s : Slice α) (more : List α) :
    (appendSlice s more).items = s.items ++ more := by
  cases s <;> cases more <;> rfl

/-- The identity the allocator hands out is absent for the observer of the same snapshot,
whatever further exclusions the caller appended. -/
theorem reserved_identity_absent {passwd groups : Reader} {s : Snapshot}
    {reserved : Reservations} {r r' : Registry} {expected : Nat} {id name : Bytes}
    {uids gids : List Nat} {names : List Bytes} (hparse : parse passwd groups = some s)
    (hres : s.reservations = some reserved)
    (hcreate : r.create expected id name (extend reserved uids gids names) = .ok r') :
    ∃ a, r'.accounts.items = r.accounts.items ++ [a] ∧ s.assess a = some .absent := by
  obtain ⟨uid, h⟩ := create_ok hcreate
  obtain ⟨hu, hg⟩ := mem_reservations hres
  obtain ⟨h1, h2, nu, ng, _⟩ := h.least.1
  have hn := h.names
  simp only [extend, items_appendSlice, List.mem_append, not_or] at nu ng hn
  have hvalid := parse_valid hparse
  refine ⟨⟨id, name, uid, uid, .disabled⟩, by rw [h.result]; rfl, ?_⟩
  have hsole : soleAccountValid ⟨id, name, uid, uid, .disabled⟩ = true := by
    apply soleAccountValid_of_wellFormed h.source.first h.source.last
    simp [Account.wellFormed, h.identity, h1, h2, knownState]
  have husers : inspectUsers ⟨id, name, uid, uid, .disabled⟩ false s.users = some false := by
    apply inspectUsers_disjoint
    intro u hmem
    obtain ⟨k1, k2, k3⟩ := hu u hmem
    exact ⟨hn u.name (Or.inl k3), fun he => nu.1 (Eq.subst he k1),
      fun he => ng.1 (Eq.subst he k2)⟩
  have hgroups : inspectGroups ⟨id, name, uid, uid, .disabled⟩ false s.groups = some false := by
    apply inspectGroups_disjoint
    intro g hmem
    obtain ⟨k1, k2, k3⟩ := hg g hmem
    exact ⟨hn g.name (Or.inl k2), fun he => ng.1 (Eq.subst he k1),
      fun m hm => hn m (Or.inl (k3 m hm))⟩
  simp [Snapshot.assess, Snapshot.inspect, hvalid, hsole, husers, hgroups, classify]

def rootOnly : Snapshot := ⟨true, [⟨ascii "root", 0, 0⟩], [⟨ascii "root", 0, []⟩]⟩

theorem first_reservation_absent :
    parse (some (ascii "root:x:0:0:r:/:/bin/sh")) (some (ascii "root:x:0:")) = some rootOnly ∧
    ∃ a, firstReservation.accounts.items = [] ++ [a] ∧ rootOnly.assess a = some .absent := by
  have hparse : parse (some (ascii "root:x:0:0:r:/:/bin/sh")) (some (ascii "root:x:0:")) =
      some rootOnly := by decide
  have hres : rootOnly.reservations = some ⟨some [0], some [0], some [ascii "root"]⟩ := by decide
  have hcreate : (new 1000 1001).1.create 1 (ascii "a") (ascii "alice")
      (extend ⟨some [0], some [0], some [ascii "root"]⟩ [1000] [] []) = .ok firstReservation := by
    decide
  exact ⟨hparse, reserved_identity_absent hparse hres hcreate⟩

end UnixIdentity
