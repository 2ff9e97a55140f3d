import PhantoWD.JsonKeys
import PhantoWD.KeyedLists
import PhantoWD.UnixIdentity

/-!
`Disable` switches the passdb entry off, logs the user's sessions off once, and polls the
session inventory until two readings in a row do not show the user. The inventory's keys are
checked for repetition by spelling and decoded without regard to case.
-/
namespace SmbRevocation

open GoText GoJson JsonKeys
open KeyedLists (forall₂_zip mapM_forall₂)
open ServiceAccounts (Account)
open UnixIdentity (soleAccountValid)

def maxObserveBytes : Nat := 2 ^ 20

def stableAbsentSessionInventories : Nat := 2

def sessionNames : List Bytes := [ascii "session_id", ascii "username", ascii "server_id"]

def serverNames : List Bytes := [ascii "pid", ascii "task_id", ascii "vnn", ascii "unique_id"]

def parseUintBits (bits : Nat) (s : Bytes) : Option Nat := (parseUint s).filter (· < 2 ^ bits)

def serverText (name text : Bytes) : Bool :=
  if name = ascii "pid" then (parseUintBits 32 text).any (· != 0)
  else if name = ascii "task_id" then (parseUintBits 32 text).any (· == 0)
  else if name = ascii "vnn" then (parseUintBits 32 text).any (· == 2 ^ 32 - 1)
  else (parseUintBits 64 text).any fun n => n != 0 && n != 2 ^ 64 - 1

/-- The members of every value bound to the server field; a later one overwrites field by field. -/
def serverMembers (members : List (Bytes × Value)) : List (Bytes × Value) :=
  (bound sessionNames (ascii "server_id") members).flatMap fun v => match v with
    | .obj sub => sub.toList
    | _ => []

def isStruct : Value → Bool
  | .obj _ => true
  | .null => true
  | _ => false

def sessionUser (key : Bytes) (members : List (Bytes × Value)) : Option Bytes := do
  let id ← bindString (bound sessionNames (ascii "session_id") members)
  let user ← bindString (bound sessionNames (ascii "username") members)
  guard ((bound sessionNames (ascii "server_id") members).all isStruct)
  guard (id ≠ [] ∧ id = key ∧ user ≠ [] ∧ containsAny user [0x00, 0x0d, 0x0a] = false)
  let n ← parseUint id
  guard (n ≠ 0 ∧ formatUint n = id)
  let texts ← serverNames.mapM fun name =>
    bindString (bound serverNames name (serverMembers members))
  guard ((serverNames.zip texts).all fun p => serverText p.1 p.2)
  some user

def rawMap : Value → Option (List (Bytes × Value))
  | .obj members => some members.toList
  | _ => none

def sessionsOf (output : Bytes) : Option (List (Bytes × Value)) := do
  let v ← parse output
  let root ← rawMap v
  let sessions ← (root.find? fun m => m.1 = ascii "sessions").map Prod.snd
  rawMap sessions

def entryMembers : Value → Option (List (Bytes × Value))
  | .obj members => some members.toList
  | .null => some []
  | _ => none

def entryUser (entry : Bytes × Value) : Option Bytes :=
  (entryMembers entry.2).bind fun members => sessionUser entry.1 members

def validateUniqueJSONKeys (data : Bytes) : Bool :=
  (parse data).any fun v => uniqueValue (some 16) 0 v

/-- Whether the inventory shows the user; every session must pass, not only the user's. -/
def parseSMBStatusHasUser (output username : Bytes) : Option Bool := do
  guard (output ≠ [] ∧ output.length ≤ maxObserveBytes ∧ username ≠ [])
  guard (validateUniqueJSONKeys output)
  let sessions ← sessionsOf output
  let users ← sessions.mapM entryUser
  some (users.contains username)

/-- What the environment does in one turn: time, the status command, the control command and the
wait. -/
structure Turn where
  expired : Bool
  status : Option Bytes
  controlExpired : Bool
  controlFails : Bool
  waitFails : Bool
  deriving DecidableEq

inductive Command where
  | disable (succeeded : Bool)
  | status (output : Option Bytes)
  | logoff (succeeded : Bool)
  deriving DecidableEq

inductive Outcome where
  | ok
  | invalid
  | unavailable
  | running
  deriving DecidableEq

/-- `revokeUserSessions`; with no more turns the loop is still running. -/
def revokeUserSessions (username : Bytes) (controlSent : Bool) (stableAbsent : Nat) :
    List Turn → Outcome × List Command
  | [] => (.running, [])
  | t :: rest =>
    if t.expired then (.unavailable, [])
    else match t.status with
      | none => (.unavailable, [.status none])
      | some output =>
        match parseSMBStatusHasUser output username with
        | none => (.unavailable, [.status (some output)])
        | some true =>
          if controlSent then
            if t.waitFails then (.unavailable, [.status (some output)])
            else
              let next := revokeUserSessions username true 0 rest
              (next.1, .status (some output) :: next.2)
          else if t.controlExpired then (.unavailable, [.status (some output)])
          else if t.controlFails then (.unavailable, [.status (some output), .logoff false])
          else if t.waitFails then (.unavailable, [.status (some output), .logoff true])
          else
            let next := revokeUserSessions username true 0 rest
            (next.1, .status (some output) :: .logoff true :: next.2)
        | some false =>
          if stableAbsentSessionInventories ≤ stableAbsent + 1 then
            (.ok, [.status (some output)])
          else if t.waitFails then (.unavailable, [.status (some output)])
          else
            let next := revokeUserSessions username controlSent (stableAbsent + 1) rest
            (next.1, .status (some output) :: next.2)

structure Call where
  account : Account
  usable : Bool
  disableFails : Bool
  turns : List Turn

def validAccount (a : Account) : Bool := soleAccountValid a && a.state = .disabled

def disable (c : Call) : Outcome × List Command :=
  if !validAccount c.account || !c.usable then (.invalid, [])
  else if c.disableFails then (.unavailable, [.disable false])
  else if c.account.name = [] then (.invalid, [.disable true])
  else
    let r := revokeUserSessions c.account.name false 0 c.turns
    (r.1, .disable true :: r.2)

variable {commands : List Command} {text name : Bytes}

section Runs

variable {username : Bytes} {controlSent : Bool} {stableAbsent : Nat}

inductive TurnResult (username : Bytes) (controlSent : Bool) (stableAbsent : Nat)
    (rest : List Turn) : Outcome × List Command → Prop
  | stopped (commands : List Command) (h : ∀ c ∈ commands, ∃ o, c = .status o) :
      TurnResult username controlSent stableAbsent rest (.unavailable, commands)
  | refused (o : Bytes) (succeeded : Bool) (hsent : controlSent = false)
      (h : parseSMBStatusHasUser o username = some true) :
      TurnResult username controlSent stableAbsent rest
        (.unavailable, [.status (some o), .logoff succeeded])
  | confirmed (o : Bytes) (h : parseSMBStatusHasUser o username = some false)
      (hs : 1 ≤ stableAbsent) :
      TurnResult username controlSent stableAbsent rest (.ok, [.status (some o)])
  | shown (o : Bytes) (hsent : controlSent = true)
      (h : parseSMBStatusHasUser o username = some true) :
      TurnResult username controlSent stableAbsent rest
        ((revokeUserSessions username true 0 rest).1,
          .status (some o) :: (revokeUserSessions username true 0 rest).2)
  | loggedOff (o : Bytes) (hsent : controlSent = false)
      (h : parseSMBStatusHasUser o username = some true) :
      TurnResult username controlSent stableAbsent rest
        ((revokeUserSessions username true 0 rest).1,
          .status (some o) :: .logoff true :: (revokeUserSessions username true 0 rest).2)
  | absent (o : Bytes) (h : parseSMBStatusHasUser o username = some false)
      (hs : stableAbsent = 0) :
      TurnResult username controlSent stableAbsent rest
        ((revokeUserSessions username controlSent 1 rest).1,
          .status (some o) :: (revokeUserSessions username controlSent 1 rest).2)

/-- Everything one turn of the loop can come to. -/
theorem turn_cases (username : Bytes) (controlSent : Bool) (stableAbsent : Nat) (t : Turn)
    (rest : List Turn) :
    TurnResult username controlSent stableAbsent rest
      (revokeUserSessions username controlSent stableAbsent (t :: rest)) := by
  have hone (o : Option Bytes) : ∀ c ∈ [Command.status o], ∃ o, c = .status o := by simp
  rw [revokeUserSessions]
  by_cases hexpired : t.expired = true
  · rw [if_pos hexpired]
    exact .stopped _ (by simp)
  rw [if_neg hexpired]
  cases t.status with
  | none => exact .stopped _ (hone none)
  | some o =>
    cases hp : parseSMBStatusHasUser o username with
    | none => simpa only [hp] using .stopped _ (hone (some o))
    | some present =>
      cases present with
      | true =>
        simp only [hp]
        cases hsent : controlSent with
        | true =>
          simp only [if_true]
          split_ifs
          · exact .stopped _ (hone (some o))
          · exact .shown o rfl hp
        | false =>
          simp only [Bool.false_eq_true, if_false]
          split_ifs
          · exact .stopped _ (hone (some o))
          · exact .refused o false rfl hp
          · exact .refused o true rfl hp
          · exact .loggedOff o rfl hp
      | false =>
        simp only [hp, stableAbsentSessionInventories]
        split_ifs with hstable
        · exact .confirmed o hp (by omega)
        · exact .stopped _ (hone (some o))
        · obtain rfl : stableAbsent = 0 := by omega
          exact .absent o hp rfl

def inventories (commands : List Command) : List Bytes :=
  commands.filterMap fun c => match c with
    | .status o => o
    | _ => none

@[simp] theorem inventories_status (o : Bytes) (rest : List Command) :
    inventories (.status (some o) :: rest) = o :: inventories rest := rfl

@[simp] theorem inventories_logoff (b : Bool) (rest : List Command) :
    inventories (.logoff b :: rest) = inventories rest := rfl

@[simp] theorem inventories_disable (b : Bool) (rest : List Command) :
    inventories (.disable b :: rest) = inventories rest := rfl

theorem run_accepted {turns : List Turn}
    (h : (revokeUserSessions username controlSent stableAbsent turns).1 = .ok) :
    ∀ o ∈ inventories (revokeUserSessions username controlSent stableAbsent turns).2,
      ∃ present, parseSMBStatusHasUser o username = some present := by
  induction turns generalizing controlSent stableAbsent with
  | nil => simp [revokeUserSessions] at h
  | cons t rest ih =>
    generalize hr : revokeUserSessions username controlSent stableAbsent (t :: rest) = r at h ⊢
    have hcases := turn_cases username controlSent stableAbsent t rest
    rw [hr] at hcases
    cases hcases with
    | stopped | refused => simp at h
    | confirmed o hp => exact List.forall_mem_singleton.mpr ⟨false, hp⟩
    | shown o _ hp | loggedOff o _ hp => exact List.forall_mem_cons.mpr ⟨⟨true, hp⟩, ih h⟩
    | absent o hp => exact List.forall_mem_cons.mpr ⟨⟨false, hp⟩, ih h⟩

/-- A confirmed run ends with two inventories in a row without the user; one of them may have
been read before the run. -/
theorem run_absent {turns : List Turn}
    (h : (revokeUserSessions username controlSent stableAbsent turns).1 = .ok) :
    (∃ before o₁ o₂,
      inventories (revokeUserSessions username controlSent stableAbsent turns).2 =
        before ++ [o₁, o₂] ∧
      parseSMBStatusHasUser o₁ username = some false ∧
      parseSMBStatusHasUser o₂ username = some false) ∨
    1 ≤ stableAbsent ∧ ∃ o,
      inventories (revokeUserSessions username controlSent stableAbsent turns).2 = [o] ∧
      parseSMBStatusHasUser o username = some false := by
  induction turns generalizing controlSent stableAbsent with
  | nil => simp [revokeUserSessions] at h
  | cons t rest ih =>
    generalize hr : revokeUserSessions username controlSent stableAbsent (t :: rest) = r at h ⊢
    have hcases := turn_cases username controlSent stableAbsent t rest
    rw [hr] at hcases
    cases hcases with
    | stopped | refused => simp at h
    | confirmed o hp hs => exact .inr ⟨hs, o, rfl, hp⟩
    | shown o _ hp =>
      rcases ih h with ⟨before, o₁, o₂, heq, h₁, h₂⟩ | ⟨hs, _⟩
      · exact .inl ⟨o :: before, o₁, o₂, by rw [inventories_status, heq]; rfl, h₁, h₂⟩
      · omega
    | loggedOff o _ hp =>
      rcases ih h with ⟨before, o₁, o₂, heq, h₁, h₂⟩ | ⟨hs, _⟩
      · refine .inl ⟨o :: before, o₁, o₂, ?_, h₁, h₂⟩
        rw [inventories_status, inventories_logoff, heq]
        rfl
      · omega
    | absent o hp =>
      rcases ih h with ⟨before, o₁, o₂, heq, h₁, h₂⟩ | ⟨_, o', heq, h'⟩
      · exact .inl ⟨o :: before, o₁, o₂, by rw [inventories_status, heq]; rfl, h₁, h₂⟩
      · exact .inl ⟨[], o, o', by rw [inventories_status, heq]; rfl, hp, h'⟩

def isLogoff : Command → Bool
  | .logoff _ => true
  | _ => false

/-- The control command is issued once at most, and never again once it was. -/
theorem run_logoffs (turns : List Turn) :
    (revokeUserSessions username controlSent stableAbsent turns).2.countP isLogoff ≤
      if controlSent then 0 else 1 := by
  induction turns generalizing controlSent stableAbsent with
  | nil => simp [revokeUserSessions]
  | cons t rest ih =>
    generalize hr : revokeUserSessions username controlSent stableAbsent (t :: rest) = r
    have hcases := turn_cases username controlSent stableAbsent t rest
    rw [hr] at hcases
    cases hcases with
    | stopped commands hc =>
      have hzero : commands.countP isLogoff = 0 := by
        rw [List.countP_eq_zero]
        intro c hmem
        obtain ⟨o, rfl⟩ := hc c hmem
        simp [isLogoff]
      simp [hzero]
    | refused o b hsent => simp [hsent, isLogoff]
    | confirmed o => simp [isLogoff]
    | shown o hsent | loggedOff o hsent =>
      have hnext := @ih true 0
      rw [if_pos rfl] at hnext
      simp only [List.countP_cons, isLogoff, hsent, if_true, Bool.false_eq_true, if_false]
      omega
    | absent o =>
      have hnext := @ih controlSent 1
      simpa only [List.countP_cons, isLogoff, Bool.false_eq_true, if_false,
        Nat.add_zero] using hnext

/-- The control command follows an inventory that shows the user. -/
def FollowsSighting (username : Bytes) (commands : List Command) : Prop :=
  ∀ before b after, commands = before ++ .logoff b :: after →
    ∃ earlier o, before = earlier ++ [.status (some o)] ∧
      parseSMBStatusHasUser o username = some true

theorem followsSighting_cons {c : Command} (hc : isLogoff c = false)
    (h : FollowsSighting username commands) : FollowsSighting username (c :: commands) := by
  intro before b after heq
  cases before with
  | nil =>
    cases heq
    simp [isLogoff] at hc
  | cons d before =>
    obtain ⟨rfl, htail⟩ := List.cons.inj heq
    obtain ⟨earlier, o, rfl, ho⟩ := h before b after htail
    exact ⟨c :: earlier, o, rfl, ho⟩

theorem followsSighting_logoff {o : Bytes} {b : Bool}
    (ho : parseSMBStatusHasUser o username = some true) (h : FollowsSighting username commands) :
    FollowsSighting username (.status (some o) :: .logoff b :: commands) := by
  intro before b' after heq
  match before with
  | [] => simp at heq
  | [d] =>
    obtain ⟨rfl, _⟩ := List.cons.inj heq
    exact ⟨[], o, rfl, ho⟩
  | d :: e :: before =>
    simp only [List.cons_append, List.cons.injEq] at heq
    obtain ⟨rfl, rfl, htail⟩ := heq
    obtain ⟨earlier, o', rfl, ho'⟩ := h before b' after htail
    exact ⟨.status (some o) :: .logoff b :: earlier, o', rfl, ho'⟩

theorem followsSighting_quiet (h : ∀ c ∈ commands, ∃ o, c = .status o) :
    FollowsSighting username commands := by
  rintro before b after rfl
  obtain ⟨o, ho⟩ := h (.logoff b) (by simp)
  cases ho

theorem run_follows (turns : List Turn) :
    FollowsSighting username (revokeUserSessions username controlSent stableAbsent turns).2 := by
  induction turns generalizing controlSent stableAbsent with
  | nil => exact followsSighting_quiet (by simp [revokeUserSessions])
  | cons t rest ih =>
    generalize hr : revokeUserSessions username controlSent stableAbsent (t :: rest) = r
    have hcases := turn_cases username controlSent stableAbsent t rest
    rw [hr] at hcases
    cases hcases with
    | stopped commands hc => exact followsSighting_quiet hc
    | refused o b _ hp => exact followsSighting_logoff hp (followsSighting_quiet (by simp))
    | confirmed o => exact followsSighting_quiet (by simp)
    | shown o => exact followsSighting_cons rfl ih
    | loggedOff o _ hp => exact followsSighting_logoff hp ih
    | absent o => exact followsSighting_cons rfl ih

end Runs

/-- A session that binds one field from two members, lacks a required field or has a malformed
server identity. -/
def Faulty (members : List (Bytes × Value)) : Prop :=
  (BoundTwice sessionNames members ∨ BoundTwice serverNames (serverMembers members)) ∨
    ((∃ name ∈ sessionNames, bound sessionNames name members = []) ∨
      ∃ name ∈ serverNames, bound serverNames name (serverMembers members) = []) ∨
    ∃ name ∈ serverNames, ∃ v ∈ bound serverNames name (serverMembers members),
      ∀ text, v = .str text → serverText name text = false

def Session (output : Bytes) (members : List (Bytes × Value)) : Prop :=
  ∃ sessions, sessionsOf output = some sessions ∧ ∃ entry ∈ sessions,
    entryMembers entry.2 = some members

/-- A well-formed inventory in which nothing a decoder could take for the username is the
user's name. -/
def Clear (username output : Bytes) : Prop :=
  (sessionsOf output).isSome = true ∧ ∀ members, Session output members →
    ∀ m ∈ members, fieldOf sessionNames m.1 = some (ascii "username") → m.2 ≠ .str username

/-- No session object spells one of the decoded names in two ways. -/
def SpelledOnce (output : Bytes) : Prop :=
  ∀ members, Session output members → ¬ CaseVariants (selecting sessionNames members) ∧
    ¬ CaseVariants (selecting serverNames (serverMembers members))

theorem sessionNames_distinct : Distinct sessionNames := by decide +kernel

theorem serverNames_distinct : Distinct serverNames := by decide +kernel

variable {members : List (Bytes × Value)}

theorem rawMap_some {v : Value} (h : rawMap v = some members) :
    ∃ ms, v = .obj ms ∧ ms.toList = members := by
  cases v with
  | obj ms => exact ⟨ms, rfl, Option.some.inj h⟩
  | null | bool | num | str | arr => simp [rawMap] at h

theorem bindString_nil : bindString [] = some [] := rfl

theorem bindString_single {v : Value} (h : bindString [v] = some text) (hne : text ≠ []) :
    v = .str text := by
  cases v with
  | str t =>
    have heq : some t = some text := h
    rw [Option.some.inj heq]
  | null =>
    have heq : some [] = some text := h
    exact absurd (Option.some.inj heq).symm hne
  | bool | num | arr | obj => simp [bindString] at h

theorem serverText_ne_nil (h : serverText name text = true) : text ≠ [] := by
  rintro rfl
  have hnone (bits : Nat) : parseUintBits bits [] = none := by simp [parseUintBits, parseUint]
  simp [serverText, hnone] at h

structure Passed (members : List (Bytes × Value)) (user : Bytes) : Prop where
  session : ∃ id, bindString (bound sessionNames (ascii "session_id") members) = some id ∧ id ≠ []
  bindsUser : bindString (bound sessionNames (ascii "username") members) = some user
  named : user ≠ []
  server : ∀ name ∈ serverNames, ∃ text,
    bindString (bound serverNames name (serverMembers members)) = some text ∧
      serverText name text = true

theorem sessionUser_some {key user : Bytes} (h : sessionUser key members = some user) :
    Passed members user := by
  simp only [sessionUser, Option.bind_eq_bind, Option.bind_eq_some_iff, Option.guard_eq_some',
    Option.some.injEq] at h
  obtain ⟨id, hid, name, hname, _, _, _, ⟨hne, _, hnamed, _⟩, _, _, _, _, texts, htexts, _, hall,
    rfl⟩ := h
  refine ⟨⟨id, hid, hne⟩, hname, hnamed, fun field hfield => ?_⟩
  obtain ⟨text, hzip, htext⟩ := forall₂_zip (mapM_forall₂ htexts) hfield
  exact ⟨text, htext, List.all_eq_true.mp hall _ hzip⟩

theorem bound_ne_nil {names : List Bytes} (h : bindString (bound names name members) = some text)
    (hne : text ≠ []) : bound names name members ≠ [] := by
  intro hnil
  rw [hnil, bindString_nil, Option.some.injEq] at h
  exact hne h.symm

theorem bound_single {names : List Bytes} (hn : name ∈ names) (honce : ¬ BoundTwice names members)
    (h : bindString (bound names name members) = some text) (hne : text ≠ []) :
    bound names name members = [.str text] := by
  cases hb : bound names name members with
  | nil => exact absurd hb (bound_ne_nil h hne)
  | cons v rest =>
    cases rest with
    | nil =>
      rw [hb] at h
      rw [bindString_single h hne]
    | cons w tail => exact absurd ⟨name, hn, by simp [hb]⟩ honce

theorem Passed.not_faulty {user : Bytes} (h : Passed members user)
    (hsession : ¬ BoundTwice sessionNames members)
    (hserver : ¬ BoundTwice serverNames (serverMembers members)) : ¬ Faulty members := by
  have hfield : ∀ name ∈ serverNames, ∃ text, serverText name text = true ∧
      bound serverNames name (serverMembers members) = [.str text] := by
    intro name hname
    obtain ⟨text, htext, hgood⟩ := h.server name hname
    exact ⟨text, hgood, bound_single hname hserver htext (serverText_ne_nil hgood)⟩
  rintro ((htwice | htwice) | (⟨name, hname, hnil⟩ | ⟨name, hname, hnil⟩) |
    ⟨name, hname, v, hv, hbad⟩)
  · exact hsession htwice
  · exact hserver htwice
  · simp only [sessionNames, List.mem_cons, List.not_mem_nil, or_false] at hname
    rcases hname with rfl | rfl | rfl
    · obtain ⟨id, hid, hne⟩ := h.session
      exact bound_ne_nil hid hne hnil
    · exact bound_ne_nil h.bindsUser h.named hnil
    · -- Without a server member no server field is bound either.
      obtain ⟨text, _, hbound⟩ := hfield (ascii "pid") (by decide)
      rw [serverMembers, hnil] at hbound
      simp [bound] at hbound
  · obtain ⟨text, _, hbound⟩ := hfield name hname
    simp [hbound] at hnil
  · obtain ⟨text, hgood, hbound⟩ := hfield name hname
    rw [hbound, List.mem_singleton] at hv
    rw [hbad text hv] at hgood
    simp at hgood

variable {output : Bytes}

/-- The keys of a scanned session object, and of its server object, are spelled once. -/
theorem session_keys (hu : validateUniqueJSONKeys output = true) (hs : Session output members) :
    (members.map Prod.fst).Nodup ∧
      (¬ BoundTwice sessionNames members → ((serverMembers members).map Prod.fst).Nodup) := by
  rw [validateUniqueJSONKeys, Option.any_eq_true] at hu
  obtain ⟨v, hv, hu⟩ := hu
  obtain ⟨sessions, hsessions, entry, hentry, hmembers⟩ := hs
  simp only [sessionsOf, Option.bind_eq_bind, Option.bind_eq_some_iff, Option.map_eq_some_iff,
    hv, Option.some.injEq] at hsessions
  obtain ⟨_, rfl, root, hroot, _, ⟨top, htop, rfl⟩, hmap⟩ := hsessions
  obtain ⟨rootMembers, rfl, rfl⟩ := rawMap_some hroot
  obtain ⟨sessionMembers, hobj, rfl⟩ := rawMap_some hmap
  have htopUnique := uniqueValue_member hu top (List.mem_of_find?_eq_some htop)
  rw [hobj] at htopUnique
  have hentryUnique := uniqueValue_member htopUnique entry hentry
  have hall : (members.map Prod.fst).Nodup ∧
      ∀ m ∈ members, uniqueValue (some 16) 3 m.2 = true := by
    cases hval : entry.2 with
    | obj inner =>
      rw [hval] at hentryUnique hmembers
      cases hmembers
      exact ⟨uniqueValue_nodup hentryUnique, uniqueValue_member hentryUnique⟩
    | null =>
      rw [hval] at hmembers
      cases hmembers
      simp
    | bool | num | str | arr => simp [hval, entryMembers] at hmembers
  refine ⟨hall.1, fun honce => ?_⟩
  rw [serverMembers]
  cases hb : bound sessionNames (ascii "server_id") members with
  | nil => simp
  | cons w rest =>
    cases rest with
    | cons => exact absurd ⟨ascii "server_id", by decide, by simp [hb]⟩ honce
    | nil =>
      have hw : w ∈ bound sessionNames (ascii "server_id") members := by simp [hb]
      obtain ⟨m, hm, rfl⟩ := List.mem_map.mp hw
      have hm := hall.2 m (List.mem_filter.mp hm).1
      cases hval : m.2 with
      | obj sub =>
        rw [hval] at hm
        simpa using uniqueValue_nodup hm
      | null => simp
      | bool => simp
      | num => simp
      | str => simp
      | arr => simp

theorem spelledOnce_of_sound (h : ∀ members, Session output members → ¬ Faulty members) :
    SpelledOnce output := by
  intro members hs
  constructor
  · intro hv
    exact h members hs (.inl (.inl (boundTwice_of_variants sessionNames_distinct hv)))
  · intro hv
    exact h members hs (.inl (.inr (boundTwice_of_variants serverNames_distinct hv)))

structure Read (username output : Bytes) (present : Bool) : Prop where
  unique : validateUniqueJSONKeys output = true
  complete : (sessionsOf output).isSome = true
  passed : ∀ members, Session output members →
    ∃ user, Passed members user ∧ (present = false → user ≠ username)

theorem parseSMBStatus_some {username : Bytes} {present : Bool}
    (h : parseSMBStatusHasUser output username = some present) : Read username output present := by
  simp only [parseSMBStatusHasUser, Option.bind_eq_bind, Option.bind_eq_some_iff,
    Option.guard_eq_some', Option.some.injEq] at h
  obtain ⟨_, _, _, hunique, sessions, hsessions, users, husers, hpresent⟩ := h
  refine ⟨hunique, by rw [hsessions]; rfl, ?_⟩
  rintro members ⟨sessions', hs', entry, hentry, hmembers⟩
  rw [hsessions, Option.some.injEq] at hs'
  subst hs'
  obtain ⟨user, hzip, huser⟩ := forall₂_zip (mapM_forall₂ husers) hentry
  have hmem := (List.of_mem_zip hzip).2
  rw [entryUser, hmembers, Option.bind_some] at huser
  refine ⟨user, sessionUser_some huser, ?_⟩
  rintro rfl rfl
  simp [hmem] at hpresent

theorem Read.spelled {username : Bytes} {present : Bool} (h : Read username output present)
    (honce : SpelledOnce output) (hs : Session output members) :
    ¬ BoundTwice sessionNames members ∧ ¬ BoundTwice serverNames (serverMembers members) := by
  obtain ⟨hkeys, hserver⟩ := session_keys h.unique hs
  have hsession : ¬ BoundTwice sessionNames members := fun htwice =>
    (honce members hs).1 (variants_of_boundTwice hkeys htwice)
  exact ⟨hsession, fun htwice =>
    (honce members hs).2 (variants_of_boundTwice (hserver hsession) htwice)⟩

theorem Read.clear {username : Bytes} (h : Read username output false)
    (honce : SpelledOnce output) : Clear username output := by
  refine ⟨h.complete, ?_⟩
  intro members hs m hm hfield heq
  obtain ⟨user, hpassed, hne⟩ := h.passed members hs
  have hsingle := bound_single (by decide) (h.spelled honce hs).1 hpassed.bindsUser hpassed.named
  have hmem : m.2 ∈ bound sessionNames (ascii "username") members :=
    List.mem_map_of_mem (List.mem_filter.mpr ⟨hm, by simpa using hfield⟩)
  rw [hsingle, List.mem_singleton, heq, Value.str.injEq] at hmem
  exact hne rfl hmem.symm

/-- Revocation is never claimed on ambiguous evidence. -/
structure Sound (c : Call) : Prop where
  confirmed : (disable c).1 = .ok → .disable true ∈ (disable c).2 ∧
    ∃ before o₁ o₂, inventories (disable c).2 = before ++ [o₁, o₂] ∧
      Clear c.account.name o₁ ∧ Clear c.account.name o₂
  logoffOnce : (disable c).2.countP isLogoff ≤ 1
  logoffSeen : FollowsSighting c.account.name (disable c).2
  faultyFails : ∀ o ∈ inventories (disable c).2, ∀ members, Session o members →
    Faulty members → (disable c).1 ≠ .ok

theorem disable_logoffs (c : Call) : (disable c).2.countP isLogoff ≤ 1 := by
  rw [disable]
  split_ifs
  · simp
  · simp [isLogoff]
  · simp [isLogoff]
  · have hrun := @run_logoffs c.account.name false 0 c.turns
    simpa [isLogoff] using hrun

theorem disable_follows (c : Call) : FollowsSighting c.account.name (disable c).2 := by
  have hnone : FollowsSighting c.account.name [] := followsSighting_quiet (by simp)
  rw [disable]
  split_ifs
  · exact hnone
  · exact followsSighting_cons rfl hnone
  · exact followsSighting_cons rfl hnone
  · exact followsSighting_cons rfl (run_follows c.turns)

theorem disable_ok {c : Call} (h : (disable c).1 = .ok) :
    (revokeUserSessions c.account.name false 0 c.turns).1 = .ok ∧
      (disable c).2 =
        .disable true :: (revokeUserSessions c.account.name false 0 c.turns).2 := by
  rw [disable] at h ⊢
  split_ifs at h ⊢
  exact ⟨h, rfl⟩

/-- A call that fails is sound, and one that reports success is sound exactly when no session
object it read spells a decoded name in two ways. -/
theorem revocation_sound_iff (c : Call) :
    ((disable c).1 ≠ .ok → Sound c) ∧
      ((disable c).1 = .ok →
        (Sound c ↔ ∀ o ∈ inventories (disable c).2, SpelledOnce o)) := by
  constructor
  · intro hfail
    exact ⟨fun h => absurd h hfail, disable_logoffs c, disable_follows c, fun _ _ _ _ _ => hfail⟩
  · intro hok
    obtain ⟨hrun, hcommands⟩ := disable_ok hok
    have hinventories : inventories (disable c).2 =
        inventories (revokeUserSessions c.account.name false 0 c.turns).2 := by
      rw [hcommands, inventories_disable]
    constructor
    · intro hsound o ho
      exact spelledOnce_of_sound fun members hs hfault =>
        hsound.faultyFails o ho members hs hfault hok
    · intro hspelled
      refine ⟨fun _ => ⟨by rw [hcommands]; simp, ?_⟩, disable_logoffs c, disable_follows c, ?_⟩
      · rcases run_absent hrun with ⟨before, o₁, o₂, heq, h₁, h₂⟩ | ⟨hs, _⟩
        · rw [hinventories] at hspelled ⊢
          refine ⟨before, o₁, o₂, heq, ?_, ?_⟩
          · exact (parseSMBStatus_some h₁).clear (hspelled o₁ (by simp [heq]))
          · exact (parseSMBStatus_some h₂).clear (hspelled o₂ (by simp [heq]))
        · omega
      · intro o ho members hs hfault
        obtain ⟨present, hp⟩ := run_accepted hrun o (hinventories ▸ ho)
        have hread := parseSMBStatus_some hp
        obtain ⟨user, hpassed, _⟩ := hread.passed members hs
        obtain ⟨h₁, h₂⟩ := hread.spelled (hspelled o ho) hs
        exact absurd hfault (hpassed.not_faulty h₁ h₂)

def alice : Account := ⟨ascii "a", ascii "alice", 1001, 1001, .disabled⟩

def inventory (names : String) : Bytes :=
  ascii ("\x7b\"sessions\":\x7b\"7\":\x7b\"session_id\":\"7\"," ++ names ++
    ",\"server_id\":\x7b\"pid\":\"12\",\"task_id\":\"0\",\"vnn\":\"4294967295\"," ++
    "\"unique_id\":\"5\"\x7d\x7d\x7d\x7d")

def quietTurn (output : Bytes) : Turn := ⟨false, some output, false, false, false⟩

def plainCall : Call :=
  ⟨alice, true, false, [quietTurn (inventory "\"username\":\"alice\""),
    quietTurn (inventory "\"username\":\"bob\""), quietTurn (inventory "\"username\":\"bob\"")]⟩

def doubledCall : Call :=
  ⟨alice, true, false, [quietTurn (inventory "\"username\":\"alice\",\"Username\":\"bob\""),
    quietTurn (inventory "\"username\":\"alice\",\"Username\":\"bob\"")]⟩

theorem plain_call_sound :
    (disable plainCall).1 = .ok ∧
      (Sound plainCall ↔ ∀ o ∈ inventories (disable plainCall).2, SpelledOnce o) := by
  have hok : (disable plainCall).1 = .ok := by decide +kernel
  exact ⟨hok, (revocation_sound_iff plainCall).2 hok⟩

def doubledSession : List (Bytes × Value) :=
  [(ascii "session_id", .str (ascii "7")), (ascii "username", .str (ascii "alice")),
    (ascii "Username", .str (ascii "bob")), (ascii "server_id", .obj (.ofList
      [(ascii "pid", .str (ascii "12")), (ascii "task_id", .str (ascii "0")),
        (ascii "vnn", .str (ascii "4294967295")), (ascii "unique_id", .str (ascii "5"))]))]

/-- Two spellings of the username hide a live session of the user. -/
theorem doubled_call_unsound : (disable doubledCall).1 = .ok ∧ ¬ Sound doubledCall := by
  have hok : (disable doubledCall).1 = .ok := by decide +kernel
  refine ⟨hok, fun hsound => ?_⟩
  have hmem : inventory "\"username\":\"alice\",\"Username\":\"bob\"" ∈
      inventories (disable doubledCall).2 := by decide +kernel
  have hsession : Session (inventory "\"username\":\"alice\",\"Username\":\"bob\"")
      doubledSession :=
    ⟨[(ascii "7", .obj (.ofList doubledSession))], by decide +kernel, _, List.mem_cons_self,
      by decide +kernel⟩
  refine hsound.faultyFails _ hmem _ hsession (.inl (.inl ?_)) hok
  decide +kernel

end SmbRevocation
