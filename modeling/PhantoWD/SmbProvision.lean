import PhantoWD.JournaledCommands
import PhantoWD.UnixIdentity

/-!
Enrollment starts disabled without a password. Setting a password, enabling and disabling are
separate journaled transitions around one backend command each.
-/
namespace SmbProvision

open GoText EffectProgram RevisionStore RevisionEngine JournaledCommands
open ServiceAccounts UnixIdentity

def formatName : Bytes := ascii "phantowd-smb-provision"

inductive Phase where
  | reserved | createIntent | disabledNoPassword | passwordIntent | credentialSetDisabled
  | enableIntent | enabled | disableIntent | disabled | reviewRequired
  deriving DecidableEq

structure Journal where
  format : Bytes
  schemaVersion : Int
  revision : Nat
  nativeRevision : Nat
  account : Account
  sid : Bytes
  phase : Phase
  deriving DecidableEq

structure Observation where
  present : Bool
  name : Bytes
  uid : Nat
  gid : Nat
  sid : Bytes
  disabled : Bool
  deriving DecidableEq

/-- `ParseUint(part, 10, 32)` of a nonzero number in the form `FormatUint` prints. -/
def canonicalPositive (part : Bytes) : Bool :=
  part.all (fun b => 0x30 ≤ b && b ≤ 0x39) && part.head? ≠ some 0x30 &&
    0 < decimal part && decimal part < 2 ^ 32

def validSID (value : Bytes) : Bool :=
  match split value 0x2d with
  | [p0, p1, p2, p3, p4, p5, p6, p7] =>
    p0 = ascii "S" && p1 = ascii "1" && p2 = ascii "5" && p3 = ascii "21" &&
      [p4, p5, p6, p7].all canonicalPositive
  | _ => false

def Observation.validFor (o : Observation) (a : Account) (requireDisabled : Bool) : Bool :=
  if !o.present then
    o.name = [] && o.uid = 0 && o.gid = 0 && o.sid = [] && !o.disabled
  else
    o.name = a.name && o.uid = a.uid && o.gid = a.gid && validSID o.sid &&
      !(requireDisabled && !o.disabled)

def Phase.admits : Phase → Nat → Bool
  | .reserved, n => n = 1
  | .createIntent, n => n = 2
  | .disabledNoPassword, n => n = 3
  | .passwordIntent, n => 4 ≤ n && n % 2 = 0
  | .credentialSetDisabled, n => 5 ≤ n && n % 2 = 1
  | .enableIntent, n => 6 ≤ n && n % 2 = 0
  | .enabled, n => 7 ≤ n && n % 2 = 1
  | .disableIntent, n => 8 ≤ n && n % 2 = 0
  | .disabled, n => 9 ≤ n && n % 2 = 1
  | .reviewRequired, n => 2 ≤ n

def sidRequired : Phase → Bool
  | .disabledNoPassword | .passwordIntent | .credentialSetDisabled | .enableIntent | .enabled
  | .disableIntent | .disabled => true
  | .reserved | .createIntent | .reviewRequired => false

def validAccount (a : Account) : Bool := soleAccountValid a && a.state = .disabled

def Journal.validate (j : Journal) : Bool :=
  let requireSID := sidRequired j.phase || (j.phase = .reviewRequired && 4 ≤ j.revision)
  let validReviewSID := j.phase = .reviewRequired && j.revision = 3 && j.sid ≠ [] && validSID j.sid
  validAccount j.account && j.format = formatName && j.schemaVersion = 1 && j.revision ≠ 0 &&
    j.nativeRevision ≠ 0 && j.phase.admits j.revision &&
    !(!requireSID && j.sid ≠ [] && !validReviewSID) && !(requireSID && !validSID j.sid)

def isControl (r : Rune) : Bool := r < 0x20 || (0x7f ≤ r && r < 0xa0)

def validPassword (secret : Bytes) : Bool :=
  12 ≤ secret.length && secret.length ≤ 256 && validString secret &&
    (runes secret).all fun r => !isControl r

inductive Failure where
  | store (e : StoreError)
  | invalid | conflict | observation | pending | cancelled
  | review (commit : Option StoreError)
  deriving DecidableEq

inductive Command where
  | createDisabled (a : Account)
  | setPasswordDisabled (a : Account) (secret : Bytes)
  | enable (a : Account)
  | disable (a : Account)
  deriving DecidableEq

abbrev Operation := JournaledCommands.Operation Journal Account Observation Command Failure

open Method

def checkCancelled : Operation Unit := do
  let cancelled ← request .cancelled
  refuseIf (cancelled = true) .cancelled

def Journal.advance (j : Journal) (phase : Phase) : Journal :=
  { j with revision := succ64 j.revision, phase := phase }

def review {α : Type} (j : Journal) : Operation α :=
  commitReview .review j.revision (j.advance .reviewRequired)

def Phase.isIntent : Phase → Bool
  | .createIntent | .passwordIntent | .enableIntent | .disableIntent => true
  | _ => false

def recoverInterrupted : Operation Journal := do
  requireEngine .store
  let j ← loadJournal .store
  if j.phase.isIntent = false then pure j
  else do
    commitJournal .store j.revision (j.advance .reviewRequired)
    pure (j.advance .reviewRequired)

/-- `Store.ObserveReview`. Storage errors are redacted here. -/
def observeReview (ctx backend : Bool) : Operation Observation := do
  requireEngine .store
  refuseIf (ctx = false) .observation
  let cancelled ← request .cancelled
  refuseIf (cancelled = true) .observation
  match ← request .load with
  | .error _ => fail .observation
  | .ok j =>
    refuseIf (j.phase ≠ .reviewRequired) .conflict
    refuseIf (backend = false) .observation
    let observed ← request (.observe j.account)
    let cancelled ← request .cancelled
    refuseIf (cancelled = true) .observation
    let observed ← ofOption observed .observation
    refuseIf (observed.validFor j.account false = false) .observation
    pure observed

def begin (ctx backend : Bool) (nativeRevision : Nat) (a : Account) : Operation Unit := do
  requireEngine .store
  refuseIf (ctx = false ∨ backend = false ∨ nativeRevision = 0 ∨ validAccount a = false) .invalid
  checkCancelled
  let observed ← ofOption (← request (.observe a)) .observation
  checkCancelled
  refuseIf (observed.validFor a false = false) .observation
  refuseIf (observed.present = true) (.review none)
  let j : Journal := ⟨formatName, 1, 1, nativeRevision, a, [], .reserved⟩
  refuseIf (j.validate = false) .invalid
  commitJournal .store 0 j

/-- The tail shared by every mutation: the intent is committed, the command issued, its
effect observed and confirmed; anything doubtful goes to review. -/
def perform (j intent : Journal) (command : Command) (accept : Observation → Bool)
    (confirmed : Observation → Journal) : Operation Unit := do
  commitJournal .store j.revision intent
  if (← request .cancelled) = true then review intent
  else if (← request (.command command)) = false then review intent
  else if (← request .cancelled) = true then review intent
  else do
    match ← request (.observe j.account) with
    | none => review intent
    | some after =>
      if accept after = false then review intent
      else commitJournal .store intent.revision (confirmed after)

def Journal.created (intent : Journal) (sid : Bytes) : Journal :=
  { intent.advance .disabledNoPassword with sid := sid }

def createStep (j : Journal) : Operation Unit :=
  perform j (j.advance .createIntent) (.createDisabled j.account)
    (fun after => after.validFor j.account true && after.present)
    fun after => (j.advance .createIntent).created after.sid

def step (ctx backend : Bool) (expected : Nat) : Operation Unit := do
  requireEngine .store
  refuseIf (ctx = false) .invalid
  let j ← loadJournal .store
  refuseIf (expected ≠ j.revision) .conflict
  refuseIf (j.phase = .reviewRequired) (.review none)
  if j.phase.isIntent = true then review j
  else do
    checkCancelled
    refuseIf (backend = false) .invalid
    let observed ← ofOption (← request (.observe j.account)) .observation
    match j.phase with
    | .reserved =>
      if observed.validFor j.account false = false ∨ observed.present = true then review j
      else createStep j
    | .disabledNoPassword =>
      if observed.validFor j.account true = false ∨ observed.present = false ∨
          observed.sid ≠ j.sid then review j
      else fail .pending
    | .credentialSetDisabled =>
      if observed.validFor j.account true = false ∨ observed.present = false ∨
          observed.sid ≠ j.sid then review j
      else pure ()
    | _ => fail .invalid

/-- What tells the explicit mutations apart: the intents they send to review and the phases
they start from, the account state they expect before and after the command, and whether
the context is looked at again before the intent. -/
structure Mutation where
  arguments : Bool
  resumed : Phase → Bool
  source : Phase → Bool
  before : Journal → Observation → Bool
  recheck : Bool
  intent : Phase
  command : Account → Command
  after : Journal → Observation → Bool
  confirmed : Phase

def recheckCancelled (again : Bool) : Operation Unit :=
  if again = true then checkCancelled else pure ()

/-- The frame of `Enable`, `Disable` and `SetPasswordDisabled`. -/
def mutate (m : Mutation) (ctx backend : Bool) (expected : Nat) : Operation Unit := do
  requireEngine .store
  refuseIf (ctx = false ∨ m.arguments = false) .invalid
  let j ← loadJournal .store
  refuseIf (expected ≠ j.revision) .conflict
  refuseIf (j.phase = .reviewRequired) (.review none)
  if m.resumed j.phase = true then review j
  else do
    refuseIf (m.source j.phase = false) .conflict
    checkCancelled
    refuseIf (backend = false) .invalid
    let observed ← ofOption (← request (.observe j.account)) .observation
    if m.before j observed = false then review j
    else do
      recheckCancelled m.recheck
      perform j (j.advance m.intent) (m.command j.account) (m.after j)
        fun _ => (j.advance m.intent).advance m.confirmed

def sameAccount (requireDisabled : Bool) (disabled : Bool) (j : Journal) (o : Observation) :
    Bool :=
  o.validFor j.account requireDisabled && o.present && o.sid = j.sid && o.disabled = disabled

/-- The password check relies on `validFor` alone for the Disabled flag. -/
def sameDisabledAccount (j : Journal) (o : Observation) : Bool :=
  o.validFor j.account true && o.present && o.sid = j.sid

def enabling : Mutation where
  arguments := true
  resumed p := p = .enableIntent
  source p := p = .credentialSetDisabled || p = .disabled
  before := sameAccount false true
  recheck := true
  intent := .enableIntent
  command := .enable
  after := sameAccount false false
  confirmed := .enabled

def disabling : Mutation where
  arguments := true
  resumed p := p = .disableIntent
  source p := p = .enabled
  before := sameAccount false false
  recheck := true
  intent := .disableIntent
  command := .disable
  after := sameAccount true true
  confirmed := .disabled

def passwordSetting (secret : Bytes) : Mutation where
  arguments := validPassword secret
  resumed := Phase.isIntent
  source p := p = .disabledNoPassword || p = .credentialSetDisabled || p = .disabled
  before := sameDisabledAccount
  recheck := false
  intent := .passwordIntent
  command a := .setPasswordDisabled a secret
  after := sameDisabledAccount
  confirmed := .credentialSetDisabled

def enable (ctx backend : Bool) (expected : Nat) : Operation Unit :=
  mutate enabling ctx backend expected

def disable (ctx backend : Bool) (expected : Nat) : Operation Unit :=
  mutate disabling ctx backend expected

def setPasswordDisabled (ctx backend : Bool) (expected : Nat) (secret : Bytes) : Operation Unit :=
  mutate (passwordSetting secret) ctx backend expected

inductive Call where
  | begin (ctx backend : Bool) (nativeRevision : Nat) (a : Account)
  | step (ctx backend : Bool) (expected : Nat)
  | setPasswordDisabled (ctx backend : Bool) (expected : Nat) (secret : Bytes)
  | enable (ctx backend : Bool) (expected : Nat)
  | disable (ctx backend : Bool) (expected : Nat)
  | recoverInterrupted
  | observeReview (ctx backend : Bool)
  deriving DecidableEq

inductive Answer where
  | done | journal (j : Journal) | observation (o : Observation) | failed (e : Failure)
  deriving DecidableEq

def answer {α : Type} (ok : α → Answer) (r : Except Failure α × Unit) : Answer :=
  match r.1 with
  | .ok a => ok a
  | .error e => .failed e

def program (call : Call) : Program (Request Journal Account Observation Command) Answer :=
  match call with
  | .begin ctx backend nativeRevision a => do
    pure (answer (fun _ => .done) (← begin ctx backend nativeRevision a ()))
  | .step ctx backend expected => do
    pure (answer (fun _ => .done) (← step ctx backend expected ()))
  | .setPasswordDisabled ctx backend expected secret => do
    pure (answer (fun _ => .done) (← setPasswordDisabled ctx backend expected secret ()))
  | .enable ctx backend expected => do
    pure (answer (fun _ => .done) (← enable ctx backend expected ()))
  | .disable ctx backend expected => do
    pure (answer (fun _ => .done) (← disable ctx backend expected ()))
  | .recoverInterrupted => do pure (answer .journal (← recoverInterrupted ()))
  | .observeReview ctx backend => do
    pure (answer .observation (← observeReview ctx backend ()))

def schema : Schema Journal := ⟨Journal.validate, Journal.revision⟩

def edge : Phase → Phase → Bool
  | .reserved, .createIntent | .createIntent, .disabledNoPassword
  | .disabledNoPassword, .passwordIntent | .credentialSetDisabled, .passwordIntent
  | .disabled, .passwordIntent | .passwordIntent, .credentialSetDisabled
  | .credentialSetDisabled, .enableIntent | .disabled, .enableIntent | .enableIntent, .enabled
  | .enabled, .disableIntent | .disableIntent, .disabled => true
  | p, .reviewRequired => p ≠ .reviewRequired
  | _, _ => false

/-- The transitions of the journal. A SID appears once and stays. -/
def Legal : Option Journal → Journal → Prop
  | none, n => n.validate = true ∧ n.phase = .reserved
  | some j, n => j.validate = true ∧ n.validate = true ∧ n.revision = j.revision + 1 ∧
      n.revision ≤ maxUint64 ∧ n.account = j.account ∧ n.nativeRevision = j.nativeRevision ∧
      (j.sid ≠ [] → n.sid = j.sid) ∧ edge j.phase n.phase = true

def Journal.Grounded (j : Journal) : Prop :=
  validAccount j.account = true ∧ j.format = formatName ∧ j.schemaVersion = 1 ∧
    j.nativeRevision ≠ 0

def sidRules (p : Phase) (n : Nat) (sid : Bytes) : Prop :=
  if sidRequired p = true ∨ (p = .reviewRequired ∧ 4 ≤ n) then validSID sid = true
  else sid = [] ∨ (p = .reviewRequired ∧ n = 3 ∧ validSID sid = true)

theorem validate_iff (j : Journal) : j.validate = true ↔
    j.Grounded ∧ j.revision ≠ 0 ∧ j.phase.admits j.revision = true ∧
      sidRules j.phase j.revision j.sid := by
  have hsid : (!(!(sidRequired j.phase || (j.phase = .reviewRequired && 4 ≤ j.revision)) &&
        j.sid ≠ [] && !(j.phase = .reviewRequired && j.revision = 3 && j.sid ≠ [] &&
          validSID j.sid)) &&
      !((sidRequired j.phase || (j.phase = .reviewRequired && 4 ≤ j.revision)) &&
        !validSID j.sid)) = true ↔ sidRules j.phase j.revision j.sid := by
    unfold sidRules
    by_cases hreq : sidRequired j.phase = true ∨ (j.phase = .reviewRequired ∧ 4 ≤ j.revision)
    · rw [if_pos hreq]
      have hb : (sidRequired j.phase || (j.phase = .reviewRequired && 4 ≤ j.revision)) = true := by
        simpa using hreq
      simp [hb]
    · rw [if_neg hreq]
      have hb : (sidRequired j.phase || (j.phase = .reviewRequired && 4 ≤ j.revision)) = false := by
        simpa using hreq
      by_cases hempty : j.sid = [] <;> simp [hb, hempty, and_assoc]
  rw [← hsid]
  simp only [Journal.validate, Journal.Grounded, Bool.and_eq_true, decide_eq_true_eq]
  tauto

theorem Phase.admits_succ {p q : Phase} {n : Nat} (h : p.admits n = true)
    (he : edge p q = true) : q.admits (n + 1) = true := by
  cases p <;> cases q <;> simp only [edge, decide_eq_true_eq, reduceCtorEq, ne_eq,
    not_false_eq_true, not_true_eq_false, Bool.false_eq_true] at he <;>
    simp only [Phase.admits, Bool.and_eq_true, decide_eq_true_eq] at h ⊢ <;> omega

/-- Only the confirmed creation brings a SID; every other edge keeps the rules as they are. -/
theorem sidRules_succ {p q : Phase} {n : Nat} {sid : Bytes} (hn : p.admits n = true)
    (h : sidRules p n sid) (he : edge p q = true) (hq : q ≠ .disabledNoPassword) :
    sidRules q (n + 1) sid := by
  cases p <;> cases q <;> simp only [edge, decide_eq_true_eq, reduceCtorEq, ne_eq,
    not_false_eq_true, not_true_eq_false, Bool.false_eq_true] at he hq <;>
    simp only [Phase.admits, Bool.and_eq_true, decide_eq_true_eq] at hn <;>
    simp_all [sidRules, sidRequired]
  all_goals
    intro hlt
    exfalso
    omega

variable {j : Journal}

/-- Every edge but the confirmed creation advances to a journal its own schema accepts. -/
theorem legal_advance {p : Phase} (hv : j.validate = true) (hlt : j.revision < maxUint64)
    (he : edge j.phase p = true) (hp : p ≠ .disabledNoPassword) :
    Legal (some j) (j.advance p) := by
  obtain ⟨hground, -, hadmits, hsid⟩ := (validate_iff j).mp hv
  have hrev : (j.advance p).revision = j.revision + 1 := succ64_of_lt hlt
  refine ⟨hv, (validate_iff _).mpr ⟨hground, ?_, ?_, ?_⟩, hrev, ?_, rfl, rfl, fun _ => rfl, he⟩
  · rw [hrev]; exact Nat.succ_ne_zero _
  · rw [hrev]; exact Phase.admits_succ hadmits he
  · rw [hrev]; exact sidRules_succ hadmits hsid he hp
  · rw [hrev]; exact hlt

theorem legal_created {sid : Bytes} (hv : j.validate = true) (hlt : j.revision < maxUint64)
    (hp : j.phase = .createIntent) (hs : validSID sid = true) :
    Legal (some j) (j.created sid) := by
  obtain ⟨hground, -, hadmits, hsid⟩ := (validate_iff j).mp hv
  have he : edge j.phase .disabledNoPassword = true := by rw [hp]; rfl
  have hrev : (j.created sid).revision = j.revision + 1 := succ64_of_lt hlt
  refine ⟨hv, (validate_iff _).mpr ⟨hground, ?_, ?_, ?_⟩, hrev, ?_, rfl, rfl, fun hne => ?_, he⟩
  · rw [hrev]; exact Nat.succ_ne_zero _
  · rw [hrev]; exact Phase.admits_succ hadmits he
  · simp [sidRules, sidRequired, Journal.created, Journal.advance, hs]
  · rw [hrev]; exact hlt
  · rw [hp] at hsid
    exact absurd (by simpa [sidRules, sidRequired] using hsid) hne

theorem legal_rank (a : Option Journal) (n : Journal) (h : Legal a n) :
    schema.revision n = schema.rank a + 1 := by
  cases a with
  | none =>
    obtain ⟨hv, hp⟩ := h
    have := ((validate_iff n).mp hv).2.2.1
    rw [hp] at this
    simpa [Phase.admits, schema] using this
  | some j => exact h.2.2.1

theorem extends_valid {a b : Option Journal} (h : Extends Legal a b)
    (ha : ∀ j, a = some j → j.validate = true ∧ j.revision ≤ maxUint64) (hb : b = some j) :
    j.validate = true ∧ j.revision ≤ maxUint64 := by
  cases h with
  | refl => exact ha j hb
  | @tail x _ _ hs =>
    obtain ⟨n, rfl, hn⟩ := hs
    obtain rfl := Option.some.inj hb
    cases x with
    | none =>
      have hone := legal_rank none n hn
      rw [Schema.rank_none] at hone
      change n.revision = 1 at hone
      exact ⟨hn.1, by rw [hone]; decide⟩
    | some k => exact ⟨hn.2.1, hn.2.2.2.1⟩

/-- The bound identity never changes, and neither does a SID once it is set. -/
theorem extends_identity {a b : Option Journal} (h : Extends Legal a b) (ha : a = some j) :
    ∃ k, b = some k ∧ k.account = j.account ∧
      k.nativeRevision = j.nativeRevision ∧ (j.sid ≠ [] → k.sid = j.sid) := by
  induction h with
  | refl => exact ⟨j, ha, rfl, rfl, fun _ => rfl⟩
  | tail _ hs ih =>
    obtain ⟨k, rfl, hacc, hnat, hsid⟩ := ih
    obtain ⟨n, rfl, hn⟩ := hs
    refine ⟨n, rfl, hn.2.2.2.2.1.trans hacc, hn.2.2.2.2.2.1.trans hnat, fun hne => ?_⟩
    have hk := hsid hne
    exact (hn.2.2.2.2.2.2.1 (hk ▸ hne)).trans hk

theorem extends_review {a b : Option Journal} (h : Extends Legal a b) (ha : a = some j)
    (hj : j.phase = .reviewRequired) : b = a := by
  induction h with
  | refl => rfl
  | tail _ hs ih =>
    obtain ⟨n, rfl, hn⟩ := hs
    rw [ih, ha] at hn
    have he := hn.2.2.2.2.2.2.2
    rw [hj] at he
    cases hp : n.phase <;> rw [hp] at he <;> simp [edge] at he

abbrev Entry := Record Journal Account Observation Command

def Phase.confirms : Phase → Option Bool
  | .disabledNoPassword | .credentialSetDisabled | .disabled => some true
  | .enabled => some false
  | _ => none

def Command.serves : Command → Journal → Prop
  | .createDisabled a, intent => intent.phase = .createIntent ∧ a = intent.account
  | .setPasswordDisabled a _, intent => intent.phase = .passwordIntent ∧ a = intent.account
  | .enable a, intent => intent.phase = .enableIntent ∧ a = intent.account
  | .disable a, intent => intent.phase = .disableIntent ∧ a = intent.account

/-- The grammar of the log. A command directly follows the confirmed commit of its intent,
and a confirmed phase directly follows the observation it stands for. Only a revision at
the 64-bit limit excuses a commit from the schema. -/
def Allowed : Entry → List Entry → Prop
  | .observed _ _, _ => True
  | .commit before expected next result, rest =>
    (expected ≠ maxUint64 → next.validate = true ∧ next.revision = expected + 1) ∧
      (expected = schema.rank before ∨ expected = 0 ∧ next.phase = .reserved) ∧
      (result = .ok () → Legal before next) ∧
      (∀ flag, next.phase.confirms = some flag → ∃ o older,
        rest = .observed next.account o :: older ∧ o.present = true ∧ o.sid = next.sid ∧
        o.disabled = flag)
  | .command c durable, rest =>
    ∃ before expected intent older, rest = .commit before expected intent (.ok ()) :: older ∧
      durable = some intent ∧ c.serves intent

abbrev State := World Journal Account Observation Command

abbrev Inv : State → Prop := Sound schema Legal Allowed

/-- What the calls ask of an invariant outside the commits of their own: it survives an
observation, and the commit that sends the visible journal to review. -/
structure Walks (I : State → Prop) : Prop where
  observe : ∀ {w u : State} {a : Account} {o : Option Observation}, I w →
    environment schema (.observe a) w o u → I u ∧ u.engine = w.engine
  review : ∀ {w u : State} {j : Journal} {r : Except StoreError Unit}, I w →
    w.engine.visible = some j → j.phase ≠ .reviewRequired →
    environment schema (.commit j.revision (j.advance .reviewRequired)) w r u → I u

abbrev Mutation.performs (m : Mutation) (j : Journal) : Operation Unit :=
  perform j (j.advance m.intent) (m.command j.account) (m.after j)
    fun _ => (j.advance m.intent).advance m.confirmed

def Call.mutation : Call → Option Mutation
  | .setPasswordDisabled _ _ _ secret => some (passwordSetting secret)
  | .enable _ _ _ => some enabling
  | .disable _ _ _ => some disabling
  | _ => none

section Walk

variable {I : State → Prop} {w : State} {α : Type} (hI : Walks I) (h : I w)

include hI h

theorem review_walk (hj : w.engine.visible = some j) (hp : j.phase ≠ .reviewRequired) :
    Preserves schema I (review (α := α) j) w :=
  meets_commitReview h fun _ _ hu => ⟨hI.review h hj hp hu, fun _ => trivial⟩

omit hI in
theorem checkCancelled_walk {f : Unit → Operation α} (hf : Preserves schema I (f ()) w) :
    Preserves schema I (checkCancelled >>= f) w :=
  meets_bind.mpr (meets_cancelled_bind h fun _ =>
    meets_refuseIf h (fun _ => ⟨h, trivial⟩) fun _ => ⟨h, hf⟩)

theorem observe_walk {f : Observation → Operation α} {a : Account} {e : Failure}
    (hf : ∀ u o, I u → u.engine = w.engine → Preserves schema I (f o) u) :
    Preserves schema I (do let observed ← ofOption (← request (.observe a)) e; f observed) w := by
  refine meets_request_bind.mpr ⟨h, fun o u hu => ?_⟩
  obtain ⟨hk, heng⟩ := hI.observe h hu
  exact preserves_take hk fun observed _ => hf u observed hk heng

/-- The command is issued under its durable intent, and the confirmation is committed right
after the observation that was accepted. -/
theorem perform_walk {intent : Journal} {command : Command} {accept : Observation → Bool}
    {confirmed : Observation → Journal} (hnot : intent.phase ≠ .reviewRequired)
    (hintent : ∀ r u, environment schema (.commit j.revision intent) w r u → I u)
    (hcommand : ∀ u : State, I u → u.engine = .ready (some intent) →
      u.log = .commit w.engine.visible j.revision intent (.ok ()) :: w.log →
      I { u with log := .command command (some intent) :: u.log })
    (hconfirmed : Admissible schema w.engine.visible j.revision intent → ∀ o v r x,
      accept o = true → I v → v.engine = .ready (some intent) →
      (∃ older, v.log = .observed j.account o :: older) →
      environment schema (.commit intent.revision (confirmed o)) v r x → I x) :
    Preserves schema I (perform j intent command accept confirmed) w := by
  refine preserves_seq (meets_commitJournal_logged h hintent) fun _ u hu hpost => ?_
  obtain ⟨hadm, rfl⟩ := hpost rfl
  refine meets_cancelled_bind hu fun _ => ?_
  split_ifs
  · exact review_walk hI hu rfl hnot
  refine meets_request_bind.mpr ⟨hu, ?_⟩
  rintro created x rfl
  have hx := hcommand _ hu rfl rfl
  split_ifs
  · exact review_walk hI hx rfl hnot
  refine meets_cancelled_bind hx fun _ => ?_
  split_ifs
  · exact review_walk hI hx rfl hnot
  refine meets_request_bind.mpr ⟨hx, fun o v hv => ?_⟩
  obtain ⟨hk, heng⟩ := hI.observe hx hv
  have hvis : v.engine.visible = some intent := by rw [heng]; rfl
  cases o with
  | none => exact review_walk hI hk hvis hnot
  | some after =>
    dsimp only
    split_ifs with haccept
    · exact review_walk hI hk hvis hnot
    · refine preserves_commit hk fun r x hx => ?_
      obtain rfl := hv
      exact hconfirmed hadm after _ r x (by simpa using haccept) hk rfl ⟨_, rfl⟩ hx

theorem step_walk (ctx backend : Bool) (expected : Nat)
    (hcreate : ∀ u j, I u → u.engine.visible = some j → j.phase = .reserved →
      Preserves schema I (createStep j) u) :
    Preserves schema I (step ctx backend expected) w := by
  refine meets_requireEngine_bind h trivial ?_
  refine preserves_refuse h fun _ => ?_
  refine preserves_load h fun j hj => ?_
  refine preserves_refuse h fun _ => ?_
  refine preserves_refuse h fun hnot => ?_
  split_ifs
  · exact review_walk hI h hj hnot
  refine checkCancelled_walk h ?_
  refine preserves_refuse h fun _ => ?_
  refine observe_walk hI h fun u observed hu heng => ?_
  rw [← heng] at hj
  cases hp : j.phase with
  | reserved =>
    dsimp only
    split_ifs
    · exact review_walk hI hu hj hnot
    · exact hcreate u j hu hj hp
  | disabledNoPassword | credentialSetDisabled =>
    dsimp only
    split_ifs
    · exact review_walk hI hu hj hnot
    · exact ⟨hu, trivial⟩
  | _ => exact ⟨hu, trivial⟩

theorem mutate_walk (m : Mutation) (ctx backend : Bool) (expected : Nat)
    (hperform : ∀ u j, I u → u.engine = w.engine → u.engine.visible = some j →
      m.source j.phase = true → Preserves schema I (m.performs j) u) :
    Preserves schema I (mutate m ctx backend expected) w := by
  refine meets_requireEngine_bind h trivial ?_
  refine preserves_refuse h fun _ => ?_
  refine preserves_load h fun j hj => ?_
  refine preserves_refuse h fun _ => ?_
  refine preserves_refuse h fun hnot => ?_
  split_ifs
  · exact review_walk hI h hj hnot
  refine preserves_refuse h fun hsource => ?_
  refine checkCancelled_walk h ?_
  refine preserves_refuse h fun _ => ?_
  refine observe_walk hI h fun u observed hu heng => ?_
  rw [← heng] at hj
  split_ifs
  · exact review_walk hI hu hj hnot
  have hlast := hperform u j hu heng hj (by simpa using hsource)
  refine meets_bind.mpr ?_
  unfold recheckCancelled
  split_ifs
  · exact meets_cancelled_bind hu fun _ =>
      meets_refuseIf hu (fun _ => ⟨hu, trivial⟩) fun _ => ⟨hu, hlast⟩
  · exact ⟨hu, hu, hlast⟩

theorem recoverInterrupted_walk : Preserves schema I recoverInterrupted w := by
  refine meets_requireEngine_bind h trivial ?_
  refine preserves_load h fun j hj => ?_
  split_ifs with hintent
  · exact ⟨h, trivial⟩
  · have hnot : j.phase ≠ .reviewRequired := by
      intro hp
      rw [hp] at hintent
      exact hintent rfl
    exact preserves_seq (preserves_commit h fun r u hu => hI.review h hj hnot hu)
      fun _ u hu _ => ⟨hu, trivial⟩

theorem observeReview_walk (ctx backend : Bool) :
    Preserves schema I (observeReview ctx backend) w := by
  refine meets_requireEngine_bind h trivial ?_
  refine preserves_refuse h fun _ => ?_
  refine meets_cancelled_bind h fun _ => ?_
  refine preserves_refuse h fun _ => ?_
  refine meets_request_bind.mpr ⟨h, ?_⟩
  rintro loaded u ⟨-, rfl⟩
  cases loaded with
  | error e => exact ⟨h, trivial⟩
  | ok j =>
    refine preserves_refuse h fun _ => ?_
    refine preserves_refuse h fun _ => ?_
    refine meets_request_bind.mpr ⟨h, fun o v hv => ?_⟩
    obtain ⟨hk, -⟩ := hI.observe h hv
    refine meets_cancelled_bind hk fun _ => ?_
    refine preserves_refuse hk fun _ => ?_
    refine preserves_take hk fun observed _ => ?_
    refine preserves_refuse hk fun _ => ?_
    exact ⟨hk, trivial⟩

theorem begin_walk (ctx backend : Bool) (nativeRevision : Nat) (a : Account)
    (hbegin : ∀ u n r v, I u → n.validate = true → n.phase = .reserved →
      environment schema (.commit 0 n) u r v → I v) :
    Preserves schema I (begin ctx backend nativeRevision a) w := by
  refine meets_requireEngine_bind h trivial ?_
  refine preserves_refuse h fun _ => ?_
  refine checkCancelled_walk h ?_
  refine observe_walk hI h fun u observed hu _ => ?_
  refine checkCancelled_walk hu ?_
  refine preserves_refuse hu fun _ => ?_
  refine preserves_refuse hu fun _ => ?_
  refine preserves_refuse hu fun hvalid => ?_
  exact preserves_commit hu fun r v hv => hbegin u _ r v hu (by simpa using hvalid) rfl hv

/-- Every call keeps an invariant that its own commits keep. -/
theorem program_walk (call : Call)
    (hcreate : ∀ u j, I u → u.engine.visible = some j → j.phase = .reserved →
      Preserves schema I (createStep j) u)
    (hperform : ∀ m, call.mutation = some m → ∀ u j, I u → u.engine = w.engine →
      u.engine.visible = some j → m.source j.phase = true → Preserves schema I (m.performs j) u)
    (hbegin : ∀ u n r v, I u → n.validate = true → n.phase = .reserved →
      environment schema (.commit 0 n) u r v → I v) :
    Safe (environment schema) I (fun _ _ => True) (program call) w := by
  have hanswer {α : Type} {ok : α → Answer} {m : Operation α} (hm : Preserves schema I m w) :
      Safe (environment schema) I (fun _ _ => True) (do pure (answer ok (← m ()))) w :=
    Safe.seq hm fun _ _ hv _ => ⟨hv, trivial⟩
  cases call with
  | begin ctx backend nativeRevision a => exact hanswer (begin_walk hI h ctx backend _ a hbegin)
  | step ctx backend expected => exact hanswer (step_walk hI h ctx backend expected hcreate)
  | setPasswordDisabled ctx backend expected | enable ctx backend expected
  | disable ctx backend expected =>
    exact hanswer (mutate_walk hI h _ ctx backend expected (hperform _ rfl))
  | recoverInterrupted => exact hanswer (recoverInterrupted_walk hI h)
  | observeReview ctx backend => exact hanswer (observeReview_walk hI h ctx backend)

end Walk

section Safety

variable {w₀ w u : State} {α : Type}

variable {j : Journal}

theorem visible_valid (h : Inv w) (hj : w.engine.visible = some j) :
    j.validate = true ∧ j.revision ≤ maxUint64 :=
  extends_valid (h.reached.trans h.extends) (by simp) hj

/-- A commit of a legal successor of the visible journal keeps the invariant; at the
revision limit nothing is asked of the successor. -/
theorem keeps_commit (h : Keeps schema Legal Allowed w₀ w) {n : Journal}
    (hj : w.engine.visible = some j) (hn : j.revision < maxUint64 → Legal (some j) n)
    (hconf : ∀ flag, n.phase.confirms = some flag → ∃ o older,
      w.log = .observed n.account o :: older ∧ o.present = true ∧ o.sid = n.sid ∧
      o.disabled = flag) {r : Except StoreError Unit}
    (hu : environment schema (.commit j.revision n) w r u) :
    Keeps schema Legal Allowed w₀ u := by
  have hbound := (visible_valid h.sound hj).2
  have hlegal : j.revision ≠ maxUint64 → Legal (some j) n := fun hne =>
    hn (Nat.lt_of_le_of_ne hbound hne)
  refine h.commit legal_rank (fun hadm => hj ▸ hlegal hadm.bounded) ?_ hu
  refine ⟨fun hne => ⟨(hlegal hne).2.1, (hlegal hne).2.2.1⟩, .inl (by rw [hj]; rfl), ?_, hconf⟩
  rintro rfl
  exact hj ▸ hlegal hu.1.admissible.bounded

abbrev Respects (w₀ : State) (m : Operation α) (w : State) : Prop :=
  Meets (environment schema) (Keeps schema Legal Allowed w₀) (fun _ _ _ => True) m () w

theorem edge_review {p : Phase} (h : p ≠ .reviewRequired) : edge p .reviewRequired = true := by
  cases p <;> simp_all [edge]

theorem review_legal (h : Inv w) (hj : w.engine.visible = some j) (hp : j.phase ≠ .reviewRequired)
    (hlt : j.revision < maxUint64) :
    Legal (some j) (j.advance .reviewRequired) :=
  legal_advance (visible_valid h hj).1 hlt (edge_review hp) (by simp)

theorem walks_keeps : Walks (Keeps schema Legal Allowed w₀) where
  observe h hu :=
    have hk := h.observe (fun _ _ _ => trivial) hu
    ⟨hk.1, hk.2.1⟩
  review h hj hp hu := keeps_commit h hj (review_legal h.sound hj hp) (fun _ hc => by cases hc) hu

theorem perform_safe (h : Keeps schema Legal Allowed w₀ w) {intent : Journal} {command : Command}
    {accept : Observation → Bool} {confirmed : Observation → Journal}
    (hj : w.engine.visible = some j) (hintent : j.revision < maxUint64 → Legal (some j) intent)
    (hphase : intent.phase.isIntent = true) (hserves : command.serves intent)
    (hconfirmed : intent.validate = true → ∀ o, accept o = true →
      (intent.revision < maxUint64 → Legal (some intent) (confirmed o)) ∧
      ∀ flag, (confirmed o).phase.confirms = some flag → (confirmed o).account = j.account ∧
        o.present = true ∧ o.sid = (confirmed o).sid ∧ o.disabled = flag) :
    Respects w₀ (perform j intent command accept confirmed) w := by
  have hnot : intent.phase ≠ .reviewRequired := by
    intro hp
    rw [hp] at hphase
    cases hphase
  have hquiet : intent.phase.confirms = none := by
    cases hp : intent.phase <;> simp_all [Phase.isIntent, Phase.confirms]
  refine perform_walk walks_keeps h hnot
    (fun r u hu => keeps_commit h hj hintent (by simp [hquiet]) hu) ?_ ?_
  · intro u hu _ hlog
    exact hu.cons ⟨w.engine.visible, j.revision, intent, w.log, hlog, rfl, hserves⟩ rfl
  · rintro - o v r x haccept hv heng ⟨older, hlog⟩ hx
    have hvis : v.engine.visible = some intent := by rw [heng]; rfl
    obtain ⟨hlegal, hmatch⟩ := hconfirmed (visible_valid hv.sound hvis).1 o haccept
    refine keeps_commit hv hvis hlegal (fun flag hflag => ?_) hx
    obtain ⟨ha, hpresent, hsid, hdisabled⟩ := hmatch flag hflag
    exact ⟨o, older, by rw [hlog, ha], hpresent, hsid, hdisabled⟩

theorem validFor_present {o : Observation} {a : Account} {requireDisabled : Bool}
    (h : o.validFor a requireDisabled = true) (hp : o.present = true) :
    validSID o.sid = true ∧ (requireDisabled = true → o.disabled = true) := by
  simp only [Observation.validFor, hp, Bool.not_true, Bool.false_eq_true, if_false,
    Bool.and_eq_true, Bool.not_eq_true', Bool.and_eq_false_iff] at h
  refine ⟨h.1.2, fun hr => ?_⟩
  rcases h.2 with h | h
  · rw [hr] at h; cases h
  · simpa using h

theorem createStep_safe (h : Keeps schema Legal Allowed w₀ w) (hj : w.engine.visible = some j)
    (hp : j.phase = .reserved) :
    Respects w₀ (createStep j) w := by
  have hv := (visible_valid h.sound hj).1
  refine perform_safe h hj (fun hlt => legal_advance hv hlt (by rw [hp]; rfl) (by simp)) rfl
    ⟨rfl, rfl⟩ fun hintent o haccept => ?_
  obtain ⟨hvalid, hpresent⟩ := Bool.and_eq_true_iff.mp haccept
  obtain ⟨hsid, hdisabled⟩ := validFor_present hvalid hpresent
  refine ⟨fun hlt => legal_created hintent hlt rfl hsid, fun flag hflag => ?_⟩
  obtain rfl : true = flag := Option.some.inj hflag
  exact ⟨rfl, hpresent, rfl, hdisabled rfl⟩

structure Mutation.Fits (m : Mutation) : Prop where
  isIntent : m.intent.isIntent = true
  leaves : ∀ p, m.source p = true → edge p m.intent = true
  arrives : edge m.intent m.confirmed = true
  keepsSID : m.confirmed ≠ .disabledNoPassword
  serves : ∀ j : Journal, j.phase = m.intent → (m.command j.account).serves j
  after : ∀ j o, m.after j o = true → o.present = true ∧ o.sid = j.sid ∧
    m.confirmed.confirms = some o.disabled

theorem mutation_safe (h : Keeps schema Legal Allowed w₀ w) {m : Mutation} (hm : m.Fits)
    (hj : w.engine.visible = some j) (hsource : m.source j.phase = true) :
    Respects w₀ (m.performs j) w := by
  have hintent : m.intent ≠ .disabledNoPassword := by
    intro hp
    have := hm.isIntent
    rw [hp] at this
    cases this
  refine perform_safe h hj (fun hlt => ?_) hm.isIntent (hm.serves (j.advance m.intent) rfl)
    fun hvalid o haccept => ?_
  · exact legal_advance (visible_valid h.sound hj).1 hlt (hm.leaves j.phase hsource) hintent
  · obtain ⟨hpresent, hsid, hflag⟩ := hm.after j o haccept
    refine ⟨fun hlt => legal_advance hvalid hlt hm.arrives hm.keepsSID, fun flag hconf => ?_⟩
    exact ⟨rfl, hpresent, hsid, Option.some.inj (hflag.symm.trans hconf)⟩

theorem enabling_fits : enabling.Fits where
  isIntent := rfl
  leaves p hp := by cases p <;> simp [enabling] at hp <;> rfl
  arrives := rfl
  keepsSID := by simp [enabling]
  serves _ hj := ⟨hj, rfl⟩
  after j o h := by
    simp only [enabling, sameAccount, Bool.and_eq_true, decide_eq_true_eq] at h
    exact ⟨h.1.1.2, h.1.2, by rw [h.2]; rfl⟩

theorem disabling_fits : disabling.Fits where
  isIntent := rfl
  leaves p hp := by cases p <;> simp [disabling] at hp; rfl
  arrives := rfl
  keepsSID := by simp [disabling]
  serves _ hj := ⟨hj, rfl⟩
  after j o h := by
    simp only [disabling, sameAccount, Bool.and_eq_true, decide_eq_true_eq] at h
    exact ⟨h.1.1.2, h.1.2, by rw [h.2]; rfl⟩

theorem passwordSetting_fits (secret : Bytes) : (passwordSetting secret).Fits where
  isIntent := rfl
  leaves p hp := by cases p <;> simp [passwordSetting] at hp <;> rfl
  arrives := rfl
  keepsSID := by simp [passwordSetting]
  serves _ hj := ⟨hj, rfl⟩
  after j o h := by
    simp only [passwordSetting, sameDisabledAccount, Bool.and_eq_true, decide_eq_true_eq] at h
    have hdisabled := (validFor_present h.1.1 h.1.2).2 rfl
    exact ⟨h.1.2, h.2, by rw [hdisabled]; rfl⟩

theorem mutation_fits {call : Call} {m : Mutation} (h : call.mutation = some m) : m.Fits := by
  cases call with
  | setPasswordDisabled ctx backend expected secret =>
    exact Option.some.inj h ▸ passwordSetting_fits secret
  | enable ctx backend expected => exact Option.some.inj h ▸ enabling_fits
  | disable ctx backend expected => exact Option.some.inj h ▸ disabling_fits
  | _ => cases h

theorem begin_safe (h : Keeps schema Legal Allowed w₀ w) {n : Journal} (hv : n.validate = true)
    (hp : n.phase = .reserved) {r : Except StoreError Unit}
    (hu : environment schema (.commit 0 n) w r u) : Keeps schema Legal Allowed w₀ u := by
  refine h.first legal_rank ⟨hv, hp⟩ (fun j hj => ?_) (fun hlegal => ?_) hu
  · exact ((validate_iff j).mp (visible_valid h.sound hj).1).2.1
  · exact ⟨fun _ => ⟨hv, legal_rank none n ⟨hv, hp⟩⟩, .inr ⟨rfl, hp⟩, hlegal,
      by simp [hp, Phase.confirms]⟩

theorem program_safe (call : Call) (w : State) (h : Inv w) :
    Safe (environment schema) (Keeps schema Legal Allowed w) (fun _ _ => True)
      (program call) w :=
  program_walk walks_keeps (.refl h) call (fun _ _ => createStep_safe)
    (fun _ hm _ _ hu _ hj hs => mutation_safe hu (mutation_fits hm) hj hs)
    fun _ _ _ _ hu hv hp => begin_safe hu hv hp

end Safety

def emptyOperation : State := ⟨.closed none none, []⟩

theorem emptyOperation_sound : Inv emptyOperation :=
  ⟨trivial, .refl, .inl rfl, by simp [emptyOperation, confirmed],
    by simp [emptyOperation, confirmed]⟩

theorem followsCommit : FollowsCommit Allowed := by
  rintro c durable rest ⟨before, expected, intent, older, rfl, rfl, -⟩
  exact ⟨before, expected, intent, older, rfl, rfl⟩

/-- The invariant holds in every history from an empty journal. -/
theorem reachable_sound {w : State} {ls : List (Event Call Answer)}
    (h : Execution (Step schema program) emptyOperation ls w) : Inv w :=
  (run_keeps legal_rank program_safe emptyOperation_sound h).1

/-- Over every history of one journal, with kills, reopens and power losses anywhere: every
attempted commit is valid and one revision up unless the revision is exhausted; a command
runs only under its own durable intent, and no two commands share a revision; the bound
identity never changes, nor does a SID once set; review is absorbing; and a confirmed
phase directly follows the observation of its SID with the matching flag. -/
theorem journal_commands_once {w : State} {ls : List (Event Call Answer)}
    (h : Execution (Step schema program) emptyOperation ls w) :
    (∀ newer before expected next result older,
      w.log = newer ++ .commit before expected next result :: older →
      (expected ≠ maxUint64 → next.validate = true ∧ next.revision = expected + 1) ∧
      (expected = schema.rank before ∨ expected = 0 ∧ next.phase = .reserved) ∧
      (result = .ok () → Legal before next)) ∧
    (∀ newer c durable older, w.log = newer ++ .command c durable :: older →
      ∃ before expected intent rest, older = .commit before expected intent (.ok ()) :: rest ∧
        durable = some intent ∧ c.serves intent) ∧
    (issued w.log).Pairwise (fun a b => schema.rank b < schema.rank a) ∧
    (w.engine.visible = w.engine.durable ∨
      ∃ n, w.engine.visible = some n ∧ Legal w.engine.durable n) ∧
    (∀ j ks v, Execution (Step schema program) w ks v → w.engine.durable = some j →
      ∃ k, v.engine.durable = some k ∧ k.account = j.account ∧
        k.nativeRevision = j.nativeRevision ∧ (j.sid ≠ [] → k.sid = j.sid)) ∧
    (∀ j ks v, Execution (Step schema program) w ks v → j.phase = .reviewRequired →
      w.engine.durable = some j → v.engine.durable = some j ∧ v.engine.visible = some j) ∧
    (∀ j l v, Step schema program w l v → l ≠ .powerLoss → w.engine.visible = some j →
      ∃ k, v.engine.visible = some k ∧ k.account = j.account ∧
        k.nativeRevision = j.nativeRevision ∧ (j.sid ≠ [] → k.sid = j.sid) ∧
        (j.phase = .reviewRequired → k = j)) ∧
    (∀ newer before expected next result older flag,
      w.log = newer ++ .commit before expected next result :: older →
      next.phase.confirms = some flag → ∃ o rest, older = .observed next.account o :: rest ∧
        o.present = true ∧ o.sid = next.sid ∧ o.disabled = flag) := by
  have hw := reachable_sound h
  refine ⟨?_, ?_, issued_descending followsCommit hw.traced hw.descending, hw.ahead, ?_, ?_, ?_, ?_⟩
  · intro newer before expected next result older hlog
    obtain ⟨hvalid, hexpected, hlegal, -⟩ := (hlog ▸ hw.traced).at
    exact ⟨hvalid, hexpected, hlegal⟩
  · intro newer c durable older hlog
    exact (hlog ▸ hw.traced).at
  · intro j ks v hrun hj
    exact extends_identity (run_keeps legal_rank program_safe hw hrun).2 hj
  · intro j ks v hrun hp hj
    obtain ⟨hv, hext⟩ := run_keeps legal_rank program_safe hw hrun
    have hd := (extends_review hext hj hp).trans hj
    exact ⟨hd, (extends_review hv.extends hd hp).trans hd⟩
  · intro j l v hs hl hj
    have hext := (step_keeps legal_rank program_safe hw hs).2.2 hl
    obtain ⟨k, hk, hacc, hnat, hsid⟩ := extends_identity hext hj
    refine ⟨k, hk, hacc, hnat, hsid, fun hp => ?_⟩
    exact Option.some.inj (hk.symm.trans ((extends_review hext hj hp).trans hj))
  · intro newer before expected next result older flag hlog
    exact (hlog ▸ hw.traced).at.2.2.2 flag

def alice : Account := ⟨ascii "a", ascii "alice", 1001, 1001, .disabled⟩

def aliceSID : Bytes := ascii "S-1-5-21-1-2-3-1001"

def honestPassdb : List Entry → Account → Observation
  | [], _ => ⟨false, [], 0, 0, [], false⟩
  | .command (.enable _) _ :: _, a => ⟨true, a.name, a.uid, a.gid, aliceSID, false⟩
  | .command _ _ :: _, a => ⟨true, a.name, a.uid, a.gid, aliceSID, true⟩
  | _ :: rest, a => honestPassdb rest a

def afterCall (w : State) (call : Call) : State :=
  ((program call).run (serve schema honestPassdb) w).2

def aliceEnabled : State :=
  afterCall (afterCall (afterCall (afterCall ⟨.ready none, []⟩ (.begin true true 5 alice))
    (.step true true 1)) (.setPasswordDisabled true true 3 (ascii "correct horse")))
    (.enable true true 5)

theorem alice_enabled_once :
    aliceEnabled.engine = .ready (some ⟨formatName, 1, 7, 5, alice, aliceSID, .enabled⟩) ∧
    (issued aliceEnabled.log).length = 3 ∧
    (issued aliceEnabled.log).Pairwise (fun a b => schema.rank b < schema.rank a) := by
  have hopen : Step schema program emptyOperation .moved ⟨.ready none, []⟩ := .moved .opens
  have hrun := Execution.snoc (.snoc (.snoc (.snoc (.snoc (.nil _) hopen)
    (step_serve schema honestPassdb program (.begin true true 5 alice) _))
    (step_serve schema honestPassdb program (.step true true 1) _))
    (step_serve schema honestPassdb program
      (.setPasswordDisabled true true 3 (ascii "correct horse")) _))
    (step_serve schema honestPassdb program (.enable true true 5) _)
  exact ⟨by decide, by decide, (journal_commands_once hrun).2.2.1⟩

end SmbProvision
