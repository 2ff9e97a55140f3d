import PhantoWD.JournaledCommands
import PhantoWD.UnixIdentity

/-!
The journal of one operation moves from the reservation through a group intent, the confirmed
group and a user intent to the confirmed Unix identity. An intent found on a later call is
ambiguous and only leads to review.
-/
namespace IdentityProvision

open GoText EffectProgram RevisionStore RevisionEngine JournaledCommands
open ServiceAccounts UnixIdentity

def formatName : Bytes := ascii "phantowd-identity-provision"

inductive Phase where
  | reserved | groupIntent | groupConfirmed | userIntent | unixConfirmed | reviewRequired
  deriving DecidableEq

structure Journal where
  format : Bytes
  schemaVersion : Int
  revision : Nat
  registryRevision : Nat
  account : Account
  phase : Phase
  deriving DecidableEq

/-- A journal has one monotonic operation, so a phase fixes its revision. -/
def Phase.admits : Phase → Nat → Bool
  | .reserved, n => n = 1
  | .groupIntent, n => n = 2
  | .groupConfirmed, n => n = 3
  | .userIntent, n => n = 4
  | .unixConfirmed, n => n = 5
  | .reviewRequired, n => 2 ≤ n && n ≤ 6

def Journal.validate (j : Journal) : Bool :=
  soleAccountValid j.account && j.account.state = .disabled && j.format = formatName &&
    j.schemaVersion = 1 && j.registryRevision ≠ 0 && j.phase.admits j.revision

def Journal.matches (j : Journal) (r : Registry) : Bool :=
  r.validate && r.revision = j.registryRevision && r.accounts.items.any fun a => a = j.account

def Journal.advance (j : Journal) (phase : Phase) : Journal :=
  { j with revision := succ64 j.revision, phase := phase }

def Journal.intent (j : Journal) : Journal :=
  j.advance (if j.phase = .groupConfirmed then .userIntent else .groupIntent)

def Journal.confirmed (intent : Journal) : Journal :=
  intent.advance (if intent.phase = .userIntent then .unixConfirmed else .groupConfirmed)

/-- `review` carries the error of its own commit, if any. -/
inductive Failure where
  | store (e : StoreError)
  | invalid | conflict | observation | cancelled
  | review (commit : Option StoreError)
  deriving DecidableEq

inductive Command where
  | createGroup (a : Account)
  | createUser (a : Account)
  deriving DecidableEq

abbrev Query := Unit

abbrev Operation := JournaledCommands.Operation Journal Query Snapshot Command Failure

open Method

def review (j : Journal) : Operation Unit :=
  commitReview .review j.revision (j.advance .reviewRequired)

def begin (r : Registry) (id : Bytes) (observed : Snapshot) : Operation Unit := do
  requireEngine .store
  refuseIf (r.validate = false) .invalid
  let a ← ofOption (r.accounts.items.find? fun a => a.id = id) .invalid
  let j : Journal := ⟨formatName, 1, 1, r.revision, a, .reserved⟩
  refuseIf (j.validate = false) .invalid
  let status ← ofOption (observed.assess a) .observation
  refuseIf (status ≠ .absent) (.review none)
  commitJournal .store 0 j

def groupOnly (detail : Assessment) : Bool :=
  detail.status = .partialIdentity && detail.groupPresent && !detail.userPresent

def confirm (intent : Journal) : Operation Unit := do
  match ← request (.observe ()) with
  | none => review intent
  | some observed =>
    match observed.inspect intent.account with
    | none => review intent
    | some detail =>
      if (← request .cancelled) = true then review intent
      else if (intent.phase = .groupIntent ∧ groupOnly detail = false) ∨
          (intent.phase = .userIntent ∧ detail.status ≠ .observed) then review intent
      else commitJournal .store intent.revision intent.confirmed

def creation (intent : Journal) : Command :=
  if intent.phase = .groupIntent then .createGroup intent.account
  else .createUser intent.account

def dispatch (j : Journal) : Operation Unit := do
  commitJournal .store j.revision j.intent
  if (← request .cancelled) = true then review j.intent
  else if (← request (.command (creation j.intent))) = false then review j.intent
  else confirm j.intent

/-- `Store.Step`; `ctx` and `backend` say that the argument is not nil. -/
def step (ctx backend : Bool) (expected : Nat) (r : Registry) : Operation Unit := do
  requireEngine .store
  refuseIf (ctx = false ∨ backend = false) .invalid
  let j ← loadJournal .store
  refuseIf (expected ≠ j.revision ∨ j.matches r = false) .conflict
  refuseIf (j.phase = .reviewRequired) (.review none)
  if j.phase = .groupIntent ∨ j.phase = .userIntent then review j
  else do
    let cancelled ← request .cancelled
    refuseIf (cancelled = true) .cancelled
    let observed ← ofOption (← request (.observe ())) .observation
    let detail ← ofOption (observed.inspect j.account) .observation
    if j.phase = .unixConfirmed then
      if detail.status ≠ .observed then review j else pure ()
    else if (j.phase = .reserved ∧ detail.status ≠ .absent) ∨
        (j.phase = .groupConfirmed ∧ groupOnly detail = false) then review j
    else dispatch j

inductive Call where
  | begin (r : Registry) (id : Bytes) (observed : Snapshot)
  | step (ctx backend : Bool) (expected : Nat) (r : Registry)
  deriving DecidableEq

def program : Call → Program (Request Journal Query Snapshot Command) (Except Failure Unit × Unit)
  | .begin r id observed => begin r id observed ()
  | .step ctx backend expected r => step ctx backend expected r ()

def schema : Schema Journal := ⟨Journal.validate, Journal.revision⟩

def edge : Phase → Phase → Bool
  | .reserved, .groupIntent | .groupIntent, .groupConfirmed | .groupConfirmed, .userIntent
  | .userIntent, .unixConfirmed => true
  | p, .reviewRequired => p ≠ .reviewRequired
  | _, _ => false

def Legal : Option Journal → Journal → Prop
  | none, n => n.validate = true ∧ n.phase = .reserved
  | some j, n => j.validate = true ∧ n.validate = true ∧ n.revision = j.revision + 1 ∧
      n.account = j.account ∧ n.registryRevision = j.registryRevision ∧
      edge j.phase n.phase = true

theorem validate_iff (j : Journal) : j.validate = true ↔
    (soleAccountValid j.account = true ∧ j.account.state = .disabled ∧ j.format = formatName ∧
      j.schemaVersion = 1 ∧ j.registryRevision ≠ 0) ∧ j.phase.admits j.revision = true := by
  simp [Journal.validate, and_assoc]

theorem Phase.admits_le {p : Phase} {n : Nat} (h : p.admits n = true) : 1 ≤ n ∧ n ≤ 6 := by
  cases p <;> simp [Phase.admits] at h <;> omega

theorem Phase.admits_succ {p q : Phase} {n : Nat} (h : p.admits n = true)
    (he : edge p q = true) : q.admits (n + 1) = true := by
  cases p <;> cases q <;> simp [edge] at he <;> simp_all [Phase.admits]

variable {j : Journal}

theorem legal_advance {p : Phase} (hv : j.validate = true) (he : edge j.phase p = true) :
    Legal (some j) (j.advance p) := by
  obtain ⟨hbase, hp⟩ := (validate_iff j).mp hv
  have hrev : succ64 j.revision = j.revision + 1 :=
    succ64_of_lt (by have := (Phase.admits_le hp).2; unfold maxUint64; omega)
  refine ⟨hv, (validate_iff _).mpr ⟨hbase, ?_⟩, hrev, rfl, rfl, he⟩
  rw [show (j.advance p).revision = j.revision + 1 from hrev]
  exact Phase.admits_succ hp he

theorem legal_rank (a : Option Journal) (n : Journal) (h : Legal a n) :
    schema.revision n = schema.rank a + 1 := by
  cases a with
  | none =>
    obtain ⟨hv, hp⟩ := h
    have := ((validate_iff n).mp hv).2
    rw [hp] at this
    simpa [Phase.admits, schema] using this
  | some j => exact h.2.2.1

theorem extends_valid {a b : Option Journal} (h : Extends Legal a b)
    (ha : ∀ j, a = some j → j.validate = true) (hb : b = some j) :
    j.validate = true := by
  cases h with
  | refl => exact ha j hb
  | @tail x _ _ hs =>
    obtain ⟨n, rfl, hn⟩ := hs
    obtain rfl := Option.some.inj hb
    cases x with
    | none => exact hn.1
    | some k => exact hn.2.1

theorem extends_identity {a b : Option Journal} (h : Extends Legal a b) (ha : a = some j) :
    ∃ k, b = some k ∧ k.account = j.account ∧
      k.registryRevision = j.registryRevision := by
  induction h with
  | refl => exact ⟨j, ha, rfl, rfl⟩
  | tail _ hs ih =>
    obtain ⟨k, rfl, hacc, hreg⟩ := ih
    obtain ⟨n, rfl, hn⟩ := hs
    exact ⟨n, rfl, hn.2.2.2.1.trans hacc, hn.2.2.2.2.1.trans hreg⟩

theorem extends_review {a b : Option Journal} (h : Extends Legal a b) (ha : a = some j)
    (hj : j.phase = .reviewRequired) : b = a := by
  induction h with
  | refl => rfl
  | tail _ hs ih =>
    obtain ⟨n, rfl, hn⟩ := hs
    rw [ih, ha] at hn
    have he := hn.2.2.2.2.2
    rw [hj] at he
    cases hp : n.phase <;> rw [hp] at he <;> simp [edge] at he

abbrev Entry := Record Journal Query Snapshot Command

/-- The grammar of the log. A creation command directly follows the confirmed commit of its
intent, which directly follows the observation that justified it; the final confirmation
directly follows the matching observation. -/
def Allowed : Entry → List Entry → Prop
  | .observed _ _, _ => True
  | .commit before expected next result, rest =>
    next.validate = true ∧ next.revision = expected + 1 ∧
      (result = .ok () → Legal before next) ∧
      (next.phase = .unixConfirmed → ∃ snapshot older,
        rest = .observed () snapshot :: older ∧ snapshot.assess next.account = some .observed)
  | .command c durable, rest =>
    ∃ j expected intent snapshot older,
      rest = .commit (some j) expected intent (.ok ()) :: .observed () snapshot :: older ∧
      durable = some intent ∧
      ((c = .createGroup intent.account ∧ j.phase = .reserved ∧ intent.phase = .groupIntent ∧
          snapshot.assess intent.account = some .absent) ∨
        (c = .createUser intent.account ∧ j.phase = .groupConfirmed ∧
          intent.phase = .userIntent ∧
          snapshot.inspect intent.account = some ⟨.partialIdentity, false, true⟩))

abbrev State := World Journal Query Snapshot Command

abbrev Inv : State → Prop := Sound schema Legal Allowed

section Safety

variable {w₀ w : State} {α : Type}

variable {j : Journal}

theorem visible_valid (h : Inv w) (hj : w.engine.visible = some j) :
    j.validate = true :=
  extends_valid (h.reached.trans h.extends) (by simp) hj

theorem keeps_commit (h : Keeps schema Legal Allowed w₀ w) {n : Journal}
    (hj : w.engine.visible = some j) (hn : Legal (some j) n)
    (hconf : n.phase = .unixConfirmed → ∃ snapshot older, w.log = .observed () snapshot :: older ∧
      snapshot.assess n.account = some .observed) {r : Except StoreError Unit} {u : State}
    (hu : environment schema (.commit j.revision n) w r u) : Keeps schema Legal Allowed w₀ u := by
  refine h.commit legal_rank (fun _ => hj ▸ hn) ?_ hu
  exact ⟨hn.2.1, hn.2.2.1, fun _ => hj ▸ hn, hconf⟩

abbrev Respects (w₀ : State) (m : Operation Unit) (w : State) : Prop :=
  Meets (environment schema) (Keeps schema Legal Allowed w₀) (fun _ _ _ => True) m () w

/-- Review is always a legal commit away from a journal that is not yet in review. -/
theorem review_safe (h : Keeps schema Legal Allowed w₀ w) (hj : w.engine.visible = some j)
    (hp : j.phase ≠ .reviewRequired) :
    Respects w₀ (review j) w := by
  have hedge : edge j.phase .reviewRequired = true := by
    cases hq : j.phase <;> simp_all [edge]
  have hlegal := legal_advance (visible_valid h.sound hj) hedge
  refine meets_commitReview h fun r u hu => ⟨?_, fun _ => trivial⟩
  exact keeps_commit h hj hlegal (fun hc => by cases hc) hu

theorem confirm_safe (h : Keeps schema Legal Allowed w₀ w) {intent : Journal}
    (hj : w.engine.visible = some intent)
    (hp : intent.phase = .groupIntent ∨ intent.phase = .userIntent) :
    Respects w₀ (confirm intent) w := by
  have hnot : intent.phase ≠ .reviewRequired := by rcases hp with hp | hp <;> simp [hp]
  refine meets_request_bind.mpr ⟨h, fun o u hu => ?_⟩
  obtain ⟨hk, heng, hlog⟩ := h.observe (fun _ _ _ => trivial) hu
  have hvis : u.engine.visible = some intent := by rw [heng, hj]
  cases o with
  | none => exact review_safe hk hvis hnot
  | some snapshot =>
    cases hdetail : snapshot.inspect intent.account with
    | none => simpa only [hdetail] using review_safe hk hvis hnot
    | some detail =>
      simp only [hdetail]
      refine meets_cancelled_bind hk fun cancelled => ?_
      split_ifs with hc hrefused
      · exact review_safe hk hvis hnot
      · exact review_safe hk hvis hnot
      · have hedge : edge intent.phase
            (if intent.phase = .userIntent then .unixConfirmed else .groupConfirmed) = true := by
          rcases hp with hp | hp <;> simp [hp, edge]
        have hlegal := legal_advance (visible_valid hk.sound hvis) hedge
        refine preserves_commit hk fun r v hv => keeps_commit hk hvis hlegal (fun hconf => ?_) hv
        have huser : intent.phase = .userIntent := by
          rcases hp with hp | hp
          · simp [Journal.advance, hp] at hconf
          · exact hp
        refine ⟨snapshot, w.log, hlog snapshot rfl, ?_⟩
        have hobs : detail.status = .observed := by
          by_contra hne
          exact hrefused (.inr ⟨huser, hne⟩)
        rw [show (intent.advance _).account = intent.account from rfl, Snapshot.assess, hdetail,
          Option.map_some, hobs]

theorem groupOnly_eq {d : Assessment} (h : groupOnly d = true) :
    d = ⟨.partialIdentity, false, true⟩ := by
  obtain ⟨status, user, group⟩ := d
  simp only [groupOnly, Bool.and_eq_true, decide_eq_true_eq, Bool.not_eq_true'] at h
  obtain ⟨⟨rfl, rfl⟩, rfl⟩ := h
  rfl

theorem dispatch_safe (h : Keeps schema Legal Allowed w₀ w) {snapshot : Snapshot}
    {older : List Entry} (hj : w.engine.visible = some j)
    (hlog : w.log = .observed () snapshot :: older)
    (hp : (j.phase = .reserved ∧ snapshot.assess j.account = some .absent) ∨
      (j.phase = .groupConfirmed ∧
        snapshot.inspect j.account = some ⟨.partialIdentity, false, true⟩)) :
    Respects w₀ (dispatch j) w := by
  have hedge : edge j.phase
      (if j.phase = .groupConfirmed then .userIntent else .groupIntent) = true := by
    rcases hp with ⟨hp, -⟩ | ⟨hp, -⟩ <;> simp [hp, edge]
  have hlegal : Legal (some j) j.intent := legal_advance (visible_valid h.sound hj) hedge
  have hphase : j.intent.phase = .groupIntent ∨ j.intent.phase = .userIntent := by
    rcases hp with ⟨hp, -⟩ | ⟨hp, -⟩ <;> simp [Journal.intent, Journal.advance, hp]
  have hnot : j.intent.phase ≠ .reviewRequired := by rcases hphase with hp | hp <;> simp [hp]
  have hconf : j.intent.phase = .unixConfirmed → ∃ snapshot older,
      w.log = .observed () snapshot :: older ∧
      snapshot.assess j.intent.account = some .observed := by
    rcases hphase with hp | hp <;> simp [hp]
  refine preserves_seq (meets_commitJournal_logged h fun r u hu =>
    keeps_commit h hj hlegal hconf hu) fun _ u hu hpost => ?_
  obtain ⟨-, rfl⟩ := hpost rfl
  refine meets_cancelled_bind hu fun cancelled => ?_
  split_ifs
  · exact review_safe hu rfl hnot
  refine meets_request_bind.mpr ⟨hu, ?_⟩
  rintro created x rfl
  have hallowed : Allowed (.command (creation j.intent) (some j.intent))
      (.commit w.engine.visible j.revision j.intent (.ok ()) :: w.log) := by
    refine ⟨j, j.revision, j.intent, snapshot, older, by rw [hj, hlog], rfl, ?_⟩
    rcases hp with ⟨hp, hs⟩ | ⟨hp, hs⟩
    · exact .inl ⟨by simp [creation, Journal.intent, Journal.advance, hp], hp,
        by simp [Journal.intent, Journal.advance, hp], hs⟩
    · exact .inr ⟨by simp [creation, Journal.intent, Journal.advance, hp], hp,
        by simp [Journal.intent, Journal.advance, hp], hs⟩
  have hv := hu.cons hallowed rfl
  split_ifs
  · exact review_safe hv rfl hnot
  · exact confirm_safe hv rfl hphase

theorem begin_safe (h : Keeps schema Legal Allowed w₀ w) (r : Registry) (id : Bytes)
    (observed : Snapshot) : Respects w₀ (begin r id observed) w := by
  refine meets_requireEngine_bind h trivial ?_
  refine preserves_refuse h fun _ => ?_
  refine preserves_take h fun a _ => ?_
  refine preserves_refuse h fun hvalid => ?_
  refine preserves_take h fun status _ => ?_
  refine preserves_refuse h fun _ => ?_
  have hvalid := Bool.eq_true_of_not_eq_false hvalid
  refine preserves_commit h fun result u hu => ?_
  refine h.first legal_rank ⟨hvalid, rfl⟩ (fun j hj => ?_) (fun hlegal => ?_) hu
  · exact Nat.ne_of_gt
      (Phase.admits_le ((validate_iff j).mp (visible_valid h.sound hj)).2).1
  · exact ⟨hvalid, rfl, hlegal, by simp⟩

/-- A step commits legal successors only and logs what the grammar allows. -/
theorem step_safe (h : Keeps schema Legal Allowed w₀ w) (ctx backend : Bool) (expected : Nat)
    (r : Registry) : Respects w₀ (step ctx backend expected r) w := by
  refine meets_requireEngine_bind h trivial ?_
  refine preserves_refuse h fun _ => ?_
  refine preserves_load h fun j hvis => ?_
  refine preserves_refuse h fun _ => ?_
  refine preserves_refuse h fun hnot => ?_
  by_cases hintent : j.phase = .groupIntent ∨ j.phase = .userIntent
  · rw [if_pos hintent]
    exact review_safe h hvis hnot
  rw [if_neg hintent]
  refine meets_cancelled_bind h fun cancelled => ?_
  refine preserves_refuse h fun _ => ?_
  refine meets_request_bind.mpr ⟨h, fun o u hu => ?_⟩
  obtain ⟨hk, heng, hlog⟩ := h.observe (fun _ _ _ => trivial) hu
  refine preserves_take hk fun snapshot hsnap => ?_
  refine preserves_take hk fun detail hdetail => ?_
  rw [← heng] at hvis
  split_ifs with hconf hobs hrefused
  · exact review_safe hk hvis hnot
  · exact ⟨hk, trivial⟩
  · exact review_safe hk hvis hnot
  · refine dispatch_safe hk hvis (hlog snapshot hsnap) ?_
    obtain ⟨hres, hgroup⟩ := not_or.mp hrefused
    cases hp : j.phase with
    | reserved =>
      refine .inl ⟨rfl, ?_⟩
      have habsent : detail.status = .absent := by
        by_contra hne
        exact hres ⟨hp, hne⟩
      rw [Snapshot.assess, hdetail, Option.map_some, habsent]
    | groupConfirmed =>
      refine .inr ⟨rfl, ?_⟩
      have honly : groupOnly detail = true := by
        by_contra hne
        exact hgroup ⟨hp, by simpa using hne⟩
      rw [hdetail, groupOnly_eq honly]
    | groupIntent => exact absurd (.inl hp) hintent
    | userIntent => exact absurd (.inr hp) hintent
    | unixConfirmed => exact absurd hp hconf
    | reviewRequired => exact absurd hp hnot

theorem program_safe (call : Call) (w : State) (h : Inv w) :
    Safe (environment schema) (Keeps schema Legal Allowed w) (fun _ _ => True)
      (program call) w := by
  cases call with
  | begin r id observed => exact begin_safe (.refl h) r id observed
  | step ctx backend expected r => exact step_safe (.refl h) ctx backend expected r

end Safety

def emptyOperation : State := ⟨.closed none none, []⟩

theorem emptyOperation_sound : Inv emptyOperation :=
  ⟨trivial, .refl, .inl rfl, by simp [emptyOperation, confirmed],
    by simp [emptyOperation, confirmed]⟩

theorem followsCommit : FollowsCommit Allowed := by
  rintro c durable rest ⟨j, expected, intent, snapshot, older, rfl, rfl, -⟩
  exact ⟨some j, expected, intent, _, rfl, rfl⟩

def isCreateGroup : Command → Bool
  | .createGroup _ => true
  | .createUser _ => false

def isCreateUser : Command → Bool
  | .createGroup _ => false
  | .createUser _ => true

/-- The intent under which a command is issued was committed, so its phase fixes its
revision. -/
theorem command_revision {c : Command} {durable : Option Journal} {rest : List Entry}
    (h : Traced Allowed (.command c durable :: rest)) :
    (isCreateGroup c = true → schema.rank durable = 2) ∧
      (isCreateUser c = true → schema.rank durable = 4) := by
  obtain ⟨⟨j, expected, intent, snapshot, older, rfl, rfl, hc⟩, ⟨hvalid, -⟩, -⟩ := h
  have hadmits := ((validate_iff intent).mp hvalid).2
  rcases hc with ⟨rfl, -, hp, -⟩ | ⟨rfl, -, hp, -⟩
  · rw [hp] at hadmits
    exact ⟨fun _ => by simpa [Phase.admits, schema] using hadmits, by simp [isCreateUser]⟩
  · rw [hp] at hadmits
    exact ⟨by simp [isCreateGroup], fun _ => by simpa [Phase.admits, schema] using hadmits⟩

theorem creations_once {w : State} (hw : Inv w) :
    commandCount isCreateGroup w.log ≤ 1 ∧ commandCount isCreateUser w.log ≤ 1 := by
  constructor
  · exact commandCount_le_one followsCommit (fun _ _ _ ht => (command_revision ht).1)
      hw.traced hw.descending
  · exact commandCount_le_one followsCommit (fun _ _ _ ht => (command_revision ht).2)
      hw.traced hw.descending

/-- The invariant holds in every history from an empty operation. -/
theorem reachable_sound {w : State} {ls : List (Event Call (Except Failure Unit × Unit))}
    (h : Execution (Step schema program) emptyOperation ls w) : Inv w :=
  (run_keeps legal_rank program_safe emptyOperation_sound h).1

/-- Once durable, review is the last word on the operation. -/
theorem review_absorbing {w v : State} {ls : List (Event Call (Except Failure Unit × Unit))}
    (hw : Inv w) (hj : w.engine.durable = some j) (hp : j.phase = .reviewRequired)
    (h : Execution (Step schema program) w ls v) :
    v.engine.durable = some j ∧ v.engine.visible = some j := by
  obtain ⟨hv, hext⟩ := run_keeps legal_rank program_safe hw h
  have hd := (extends_review hext hj hp).trans hj
  exact ⟨hd, (extends_review hv.extends hd hp).trans hd⟩

/-- Over every history of one operation, with kills, reopens and power losses anywhere:
each creation command is issued at most once, and only right after its own intent became
durable on the strength of a fresh observation; every commit is valid and one revision up,
and every confirmed one is a transition of the same account and reservation; the final
confirmation follows a matching observation; and review is absorbing. -/
theorem creation_commands_once {w : State}
    {ls : List (Event Call (Except Failure Unit × Unit))}
    (h : Execution (Step schema program) emptyOperation ls w) :
    (commandCount isCreateGroup w.log ≤ 1 ∧ commandCount isCreateUser w.log ≤ 1) ∧
    (∀ newer c durable older, w.log = newer ++ .command c durable :: older →
      ∃ j expected intent snapshot rest,
        older = .commit (some j) expected intent (.ok ()) :: .observed () snapshot :: rest ∧
        durable = some intent ∧
        ((c = .createGroup intent.account ∧ j.phase = .reserved ∧
            intent.phase = .groupIntent ∧ snapshot.assess intent.account = some .absent) ∨
          (c = .createUser intent.account ∧ j.phase = .groupConfirmed ∧
            intent.phase = .userIntent ∧
            snapshot.inspect intent.account = some ⟨.partialIdentity, false, true⟩))) ∧
    (∀ newer before expected next result older,
      w.log = newer ++ .commit before expected next result :: older →
      next.validate = true ∧ next.revision = expected + 1 ∧
      (result = .ok () → Legal before next) ∧
      (next.phase = .unixConfirmed → ∃ snapshot rest, older = .observed () snapshot :: rest ∧
        snapshot.assess next.account = some .observed)) ∧
    (w.engine.visible = w.engine.durable ∨
      ∃ n, w.engine.visible = some n ∧ Legal w.engine.durable n) ∧
    (∀ j ks v, Execution (Step schema program) w ks v → w.engine.durable = some j →
      ∃ k, v.engine.durable = some k ∧ k.account = j.account ∧
        k.registryRevision = j.registryRevision) ∧
    (∀ j ks v, Execution (Step schema program) w ks v → j.phase = .reviewRequired →
      w.engine.durable = some j → v.engine.durable = some j ∧ v.engine.visible = some j) ∧
    (∀ j l v, Step schema program w l v → l ≠ .powerLoss → w.engine.visible = some j →
      ∃ k, v.engine.visible = some k ∧ k.account = j.account ∧
        k.registryRevision = j.registryRevision ∧ (j.phase = .reviewRequired → k = j)) := by
  have hw := reachable_sound h
  refine ⟨creations_once hw, ?_, ?_, hw.ahead, ?_, ?_, ?_⟩
  · intro newer c durable older hlog
    exact (hlog ▸ hw.traced).at
  · intro newer before expected next result older hlog
    exact (hlog ▸ hw.traced).at
  · intro j ks v hrun hj
    exact extends_identity (run_keeps legal_rank program_safe hw hrun).2 hj
  · intro j ks v hrun hp hj
    exact review_absorbing hw hj hp hrun
  · intro j l v hs hl hj
    have hext := (step_keeps legal_rank program_safe hw hs).2.2 hl
    obtain ⟨k, hk, hacc, hreg⟩ := extends_identity hext hj
    refine ⟨k, hk, hacc, hreg, fun hp => ?_⟩
    exact Option.some.inj (hk.symm.trans ((extends_review hext hj hp).trans hj))

def honestHost (log : List Entry) (_ : Query) : Snapshot :=
  { rootOnly with
    users := rootOnly.users ++ log.filterMap fun
      | .command (.createUser a) _ => some ⟨a.name, a.uid, a.gid⟩
      | _ => none
    groups := rootOnly.groups ++ log.filterMap fun
      | .command (.createGroup a) _ => some ⟨a.name, a.gid, []⟩
      | _ => none }

def afterCall (w : State) (call : Call) : State :=
  ((program call).run (serve schema honestHost) w).2

def afterBegin : State :=
  afterCall ⟨.ready none, []⟩ (.begin firstReservation (ascii "a") rootOnly)

def afterGroup : State := afterCall afterBegin (.step true true 1 firstReservation)

def afterUser : State := afterCall afterGroup (.step true true 3 firstReservation)

theorem first_identity_created_once :
    afterUser.engine = .ready (some ⟨formatName, 1, 5, 2,
      ⟨ascii "a", ascii "alice", 1001, 1001, .disabled⟩, .unixConfirmed⟩) ∧
    commandCount isCreateGroup afterUser.log ≤ 1 ∧ commandCount isCreateUser afterUser.log ≤ 1 := by
  have hopen : Step schema program emptyOperation .moved ⟨.ready none, []⟩ := .moved .opens
  have hrun := Execution.snoc (.snoc (.snoc (.snoc (.nil _) hopen)
    (step_serve schema honestHost program (.begin firstReservation (ascii "a") rootOnly) _))
    (step_serve schema honestHost program (.step true true 1 firstReservation) _))
    (step_serve schema honestHost program (.step true true 3 firstReservation) _)
  exact ⟨by decide, (creation_commands_once hrun).1⟩

end IdentityProvision
