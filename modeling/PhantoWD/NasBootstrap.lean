import PhantoWD.NasWriter

/-!
A bootstrap opens the directory, takes its lock and watch, and classifies one complete census.
Only two pictures are eligible: the header with a policy and no recorded operation, or all five
roles with matching records.
-/
namespace NasBootstrap

open GoText GoJson EffectProgram NasEvidence NasDirectory NasWriter Method
open RevisionStore (StoreError cleanAbsolute)

variable {P : Type} (c : PolicyCode P) (euid : Nat)

def takeLock : AuthorityMethod Unit := do
  match ← request .flock with
  | .held => pure ()
  | .busy => fail (.store .busy)
  | .failed => fail (.store .io)

def openSteps (directory : Bytes) : AuthorityMethod Unit := do
  refuseIf (cleanAbsolute directory = false) (.store .unsafeStorage)
  ctxErr
  let opened ← request (.openRoot directory)
  refuseIf (opened = false) (.store .io)
  modify fun a => { a with opened := true }
  let initial ← ofOption (← request .statRoot) (.store .unsafeStorage)
  modify fun a => { a with initial := initial }
  refuseIf (initial.mode ≠ privateDirectory ∨ initial.uid ≠ euid) (.store .unsafeStorage)
  takeLock
  let proc ← request .statfsProc
  refuseIf (proc = false) (.store .io)
  let watch ← request .inotifyInit
  refuseIf (watch = false) (.store .io)
  modify fun a => { a with watching := true }
  let added ← request .addWatch
  refuseIf (added = false) (.store .io)
  let after ← request .statRoot
  refuseIf (after ≠ some initial) .review
  let quiet ← quietLocked true
  refuseIf (quiet = false) .review
  ctxErr

def openAuthority (directory : Bytes) : AuthorityMethod Unit := do
  match ← attempt (openSteps euid directory) with
  | .ok () => pure ()
  | .error e => do
    match ← attempt Authority.close with
    | .ok () => fail e
    | .error _ => do
      modify fun a => { a with review := true }
      fail .review

def fromCensus (root : Stat) (installation : Bytes) : Option Directory →
    AuthorityMethod EvidenceSet
  | none => fail (.store .io)
  | some d => match collectNASEvidenceSet c euid root installation d with
    | .error e => fail e
    | .ok set => pure set

def unchangedRoot (initial : Stat) : AuthorityMethod Unit := do
  let st ← request .statRoot
  refuseIf (st ≠ some initial) .review

def observeSteps (installation : Bytes) : AuthorityMethod Observation := do
  let a ← get
  unchangedRoot a.initial
  let quiet ← quietLocked a.watching
  refuseIf (quiet = false) .review
  let opened ← request .openCursor
  refuseIf (opened = false) (.store .io)
  verifyCursor a.initial
  let census ← request .census
  let closed ← request .closeCursor
  let set ← fromCensus c euid a.initial installation census
  refuseIf (closed = false) (.store .io)
  unchangedRoot a.initial
  let quiet ← quietLocked a.watching
  refuseIf (quiet = false) .review
  ctxErr
  pure set.observation

def settledKind (kind : Kind) : Bool := kind = .noRecordedOperation || kind = .matchingLocalRecords

/-- Any failure, and any unsettled picture, makes review sticky. -/
def Authority.observe (installation : Bytes) : AuthorityMethod Observation := do
  ctxErr
  let a ← get
  refuseIf (a.closed = true) (.store .closed)
  refuseIf (a.closeFailed = true ∨ a.review = true) .review
  ctxErr
  match ← attempt (observeSteps c euid installation) with
  | .error _ => do
    modify fun a => { a with review := true }
    fail .review
  | .ok value => do
    modify fun a => { a with review := a.review || !settledKind value.kind }
    pure value

structure Bootstrap where
  evidence : Authority := {}
  installation : Bytes
  seen : Bool := false
  moved : Bool := false
  closed : Bool := false
  review : Bool := false
  closeFailed : Bool := false

abbrev BootstrapMethod := Method Sys Bootstrap Failure

def onEvidence {α : Type} (m : AuthorityMethod α) : BootstrapMethod α :=
  m.embed (fun r => r) (fun e => e) Bootstrap.evidence fun a b => { b with evidence := a }

def hexDecode : Bytes → Option Bytes
  | [] => some []
  | [_] => none
  | a :: b :: rest => do
    let high ← hexDigit a
    let low ← hexDigit b
    let tail ← hexDecode rest
    some ((high * 16 + low).toUInt8 :: tail)

def validInstallation (installation : Bytes) : Bool :=
  match hexDecode installation with
  | none => false
  | some id => id.length = 16 && hexEncode id = installation && id ≠ List.replicate 16 0

def openNASOwnerBootstrap (directory installation : Bytes) : BootstrapMethod Unit := do
  refuseIf (validInstallation installation = false) (.store .invalid)
  match ← attempt (onEvidence (openAuthority euid directory)) with
  | .ok () => pure ()
  | .error e => do
    modify fun b => { b with review := true }
    fail e

def Observation.eligible (v : Observation) : Bool :=
  !v.pending && ((v.kind = .noRecordedOperation && v.roles = 2) ||
    (v.kind = .matchingLocalRecords && v.roles = 5))

def bootstrapState : BootstrapMethod Unit := do
  let b ← get
  refuseIf (b.moved = true ∨ b.closed = true) (.store .closed)
  refuseIf (b.review = true ∨ b.closeFailed = true) .review
  ctxErr

def Bootstrap.observe : BootstrapMethod Observation := do
  bootstrapState
  let b ← get
  match ← attempt (onEvidence (Authority.observe c euid b.installation)) with
  | .error e => do
    modify fun b => { b with review := true }
    fail e
  | .ok v => do
    modify fun b => if Observation.eligible v then { b with seen := true }
      else { b with review := true }
    pure v

def freshObserve (directory installation : Bytes) : BootstrapMethod Observation := do
  openNASOwnerBootstrap euid directory installation
  Bootstrap.observe c euid

def Bootstrap.new (installation : Bytes) : Bootstrap := { installation }

def Eligible (directory installation : Bytes) (m : Machine) : Prop :=
  ∃ v b m', Returns (filesystem euid) (freshObserve c euid directory installation)
    (Bootstrap.new installation) m v b m' ∧ b.seen = true

section Specs

variable {c euid} {m : Machine} {directory installation : Bytes}

theorem unchangedRoot_spec (a : Authority) (initial : Stat) :
    Meets (filesystem euid) (· = m)
      (fun r t _ => t = a ∧ (r = .ok () → initial = m.root)) (unchangedRoot initial) a m := by
  unfold unchangedRoot
  refine meets_request_bind.mpr ⟨rfl, fun st u hu => ?_⟩
  obtain ⟨rfl, hst⟩ := hu
  refine meets_refuseIf rfl (fun _ => ⟨rfl, by simp⟩) fun h => ⟨rfl, fun _ => ?_⟩
  simp only [ne_eq, not_not] at h
  subst h
  rcases hst with h | h
  · cases h
  · exact Option.some.inj h

theorem fromCensus_spec (a : Authority) (root : Stat) (census : Option Directory) :
    Meets (filesystem euid) (· = m)
      (fun r t _ => t = a ∧ ∀ set, r = .ok set → ∃ d, census = some d ∧
        collectNASEvidenceSet c euid root installation d = .ok set)
      (fromCensus c euid root installation census) a m := by
  cases census with
  | none => exact ⟨rfl, rfl, by simp⟩
  | some d =>
    cases hc : collectNASEvidenceSet c euid root installation d with
    | error e =>
      rw [show fromCensus c euid root installation (some d) = fail e by simp [fromCensus, hc]]
      exact ⟨rfl, rfl, by simp⟩
    | ok set =>
      rw [show fromCensus c euid root installation (some d) = pure set by simp [fromCensus, hc]]
      exact ⟨rfl, rfl, fun s hs => ⟨d, rfl, by rw [hc, Except.ok.inj hs]⟩⟩

/-- An observation that returns is the classification of an admissible directory. -/
theorem observeSteps_spec (a : Authority) :
    Meets (filesystem euid) (· = m)
      (fun r t _ => t = a ∧ ∀ v, r = .ok v → Admissible euid m.root installation m.dir ∧
        v = (evidence c installation m.dir).observation)
      (observeSteps c euid installation) a m := by
  unfold observeSteps
  refine meets_get_bind.mpr ?_
  refine meets_mayFail rfl (fun _ => ⟨rfl, by simp⟩) fun hs => ?_
  refine hs.observe (unchangedRoot_spec a a.initial) fun _ hroot => ?_
  refine hs.observe (quietLocked_spec a a.watching) fun _ _ => ?_
  refine hs.guard fun _ => ?_
  refine hs.check (fun _ _ => id) fun _ _ => ?_
  refine hs.observe (verifyCursor_spec a a.initial) fun _ _ => ?_
  refine meets_request_bind.mpr ⟨rfl, fun census u hu => ?_⟩
  obtain ⟨rfl, hcensus⟩ := hu
  refine meets_ask_bind hs.1 (fun _ _ => id) fun _ => ?_
  refine hs.observe (fromCensus_spec a a.initial census) fun set hset => ?_
  refine hs.guard fun _ => ?_
  refine hs.observe (unchangedRoot_spec a a.initial) fun _ _ => ?_
  refine hs.observe (quietLocked_spec a a.watching) fun _ _ => ?_
  refine hs.guard fun _ => ?_
  refine hs.observe (ctxErr_spec a) fun _ _ => ?_
  refine meets_pure.mpr ⟨rfl, rfl, fun v hv => ?_⟩
  obtain ⟨d, hd, hcollect⟩ := hset set rfl
  rw [hd] at hcensus
  obtain rfl : d = u.dir := by simpa using hcensus
  rw [hroot rfl] at hcollect
  obtain ⟨hadm, rfl⟩ := collect_ok.mp hcollect
  exact ⟨hadm, (Except.ok.inj hv).symm⟩

theorem authority_observe_spec (a : Authority) :
    Meets (filesystem euid) (· = m)
      (fun r _ _ => ∀ v, r = .ok v → Admissible euid m.root installation m.dir ∧
        v = (evidence c installation m.dir).observation)
      (Authority.observe c euid installation) a m := by
  unfold Authority.observe
  refine meets_mayFail rfl (fun _ => by simp) fun hs => ?_
  refine hs.observe (ctxErr_spec a) fun _ _ => ?_
  refine meets_get_bind.mpr ?_
  refine hs.guard fun _ => ?_
  refine hs.guard fun _ => ?_
  refine hs.observe (ctxErr_spec a) fun _ _ => ?_
  refine meets_attempt_bind.mpr ((observeSteps_spec a).mono (fun _ => id) ?_)
  rintro r t v rfl ⟨rfl, hv⟩
  refine ⟨rfl, ?_⟩
  cases r with
  | error e => exact ⟨rfl, by simp⟩
  | ok value => exact ⟨rfl, fun x hx => Except.ok.inj hx ▸ hv value rfl⟩

theorem closeStep_spec (a : Authority) {sys : Sys Bool}
    (h : ∀ b u, filesystem euid sys m b u → u = m) :
    Meets (filesystem euid) (· = m) (fun _ _ _ => True) (closeStep sys) a m := by
  unfold closeStep
  refine meets_ask_bind rfl h fun closed => ?_
  by_cases hc : closed = false
  · rw [if_pos hc]
    exact ⟨rfl, trivial⟩
  · rw [if_neg hc]
    exact ⟨rfl, trivial⟩

theorem authority_close_spec (a : Authority) :
    Meets (filesystem euid) (· = m) (fun _ _ _ => True) Authority.close a m := by
  unfold Authority.close
  refine meets_get_bind.mpr (meets_refuseIf_bind rfl (fun _ => trivial) fun _ => ?_)
  by_cases hc : a.closed = true
  · rw [if_pos hc]
    exact ⟨rfl, trivial⟩
  rw [if_neg hc]
  have hwatch :
      Meets (filesystem euid) (· = m) (fun _ _ _ => True) (closeWatch a.watching) a m := by
    unfold closeWatch
    by_cases hw : a.watching = false
    · rw [if_pos hw]
      exact ⟨rfl, trivial⟩
    · rw [if_neg hw]
      exact (closeStep_spec a fun _ _ => id).seq (fun _ _ _ _ _ => trivial)
        fun _ _ _ hv _ => ⟨hv, trivial⟩
  refine hwatch.seq (fun _ _ _ _ _ => trivial) ?_
  rintro _ t v rfl _
  have hroot : Meets (filesystem euid) (· = v) (fun _ _ _ => True) (closeRoot a.opened) t v := by
    unfold closeRoot
    by_cases ho : a.opened = false
    · rw [if_pos ho]
      exact ⟨rfl, trivial⟩
    · rw [if_neg ho]
      exact closeStep_spec t fun _ _ => id
  exact hroot.seq (fun _ _ _ _ _ => trivial) fun _ _ _ hv _ => ⟨hv, trivial⟩

theorem takeLock_spec (a : Authority) :
    Meets (filesystem euid) (· = m) (fun _ t _ => t = a ∧ True) takeLock a m := by
  unfold takeLock
  refine meets_ask_bind rfl (fun _ _ => id) fun lock => ?_
  cases lock <;> exact ⟨rfl, rfl, trivial⟩

def PrivateRoot (euid : Nat) (root : Stat) : Prop :=
  root.mode = privateDirectory ∧ root.uid = euid

theorem openSteps_spec (a : Authority) :
    Meets (filesystem euid) (· = m) (fun r _ _ => r = .ok () → PrivateRoot euid m.root)
      (openSteps euid directory) a m := by
  unfold openSteps
  refine meets_mayFail rfl (fun _ => by simp) fun hs => ?_
  refine hs.guard fun _ => ?_
  refine hs.observe (ctxErr_spec a) fun _ _ => ?_
  refine hs.check (fun _ _ => id) fun _ _ => ?_
  refine meets_modify_bind.mpr ?_
  refine meets_read_bind (fun _ _ h => h) rfl (by simp) fun initial hinitial => ?_
  obtain rfl := Option.some.inj hinitial
  refine meets_modify_bind.mpr (meets_mayFail rfl (fun _ => by simp) fun hs => ?_)
  refine hs.guard fun hroot => ?_
  have hroot : PrivateRoot euid m.root := by simpa [PrivateRoot] using hroot
  refine hs.observe (takeLock_spec _) fun _ _ => ?_
  refine hs.check (fun _ _ => id) fun _ _ => ?_
  refine hs.check (fun _ _ => id) fun _ _ => ?_
  refine meets_modify_bind.mpr (meets_mayFail rfl (fun _ => by simp) fun hs => ?_)
  refine hs.check (fun _ _ => id) fun _ _ => ?_
  refine hs.check (fun _ _ h => h.1) fun _ _ => ?_
  refine hs.observe (quietLocked_spec _ true) fun _ _ => ?_
  refine hs.guard fun _ => ?_
  exact (ctxErr_spec _).mono (fun _ => id) fun _ _ _ _ _ _ => hroot

theorem openAuthority_spec (a : Authority) :
    Meets (filesystem euid) (· = m) (fun r _ _ => r = .ok () → PrivateRoot euid m.root)
      (openAuthority euid directory) a m := by
  unfold openAuthority
  refine meets_attempt_bind.mpr ((openSteps_spec a).mono (fun _ => id) ?_)
  rintro r t v rfl hroot
  refine ⟨rfl, ?_⟩
  cases r with
  | ok x => exact ⟨rfl, fun _ => hroot rfl⟩
  | error e =>
    refine meets_attempt_bind.mpr ((authority_close_spec t).mono (fun _ => id) ?_)
    rintro r t' v' rfl _
    refine ⟨rfl, ?_⟩
    cases r with
    | ok | error => exact ⟨rfl, by simp⟩

/-- Opening neither observes anything nor changes the installation. -/
theorem open_spec (b : Bootstrap) :
    Meets (filesystem euid) (· = m)
      (fun r t _ => t.seen = b.seen ∧ t.installation = b.installation ∧
        (r = .ok () → validInstallation installation = true ∧ PrivateRoot euid m.root))
      (openNASOwnerBootstrap euid directory installation) b m := by
  unfold openNASOwnerBootstrap
  refine meets_refuseIf_bind rfl (fun _ => ⟨rfl, rfl, by simp⟩) fun hvalid => ?_
  refine meets_attempt_bind.mpr (meets_embed.mpr ((openAuthority_spec _).mono (fun _ => id) ?_))
  rintro r t v rfl hroot
  refine ⟨rfl, ?_⟩
  cases r with
  | ok x => exact ⟨rfl, rfl, rfl, fun _ => ⟨by simpa using hvalid, hroot rfl⟩⟩
  | error e => exact ⟨rfl, rfl, rfl, by simp⟩

structure Settles (c : PolicyCode P) (euid : Nat) (installation : Bytes) (m : Machine) :
    Prop where
  valid : validInstallation installation = true
  root : PrivateRoot euid m.root
  admissible : Admissible euid m.root installation m.dir
  eligible : Observation.eligible (evidence c installation m.dir).observation = true

theorem bootstrapState_spec (b : Bootstrap) :
    Meets (filesystem euid) (· = m) (fun _ t _ => t = b ∧ True) bootstrapState b m := by
  unfold bootstrapState
  refine meets_get_bind.mpr ?_
  refine meets_refuseIf_bind rfl (fun _ => ⟨rfl, trivial⟩) fun _ => ?_
  refine meets_refuseIf_bind rfl (fun _ => ⟨rfl, trivial⟩) fun _ => ?_
  exact (ctxErr_spec b).mono (fun _ => id) fun _ _ _ _ h => ⟨h.1, trivial⟩

/-- Whatever the input and output do, only a settled directory is ever seen. -/
theorem freshObserve_spec :
    Meets (filesystem euid) (· = m)
      (fun _ b _ => b.seen = true → Settles c euid installation m)
      (freshObserve c euid directory installation) (Bootstrap.new installation) m := by
  unfold freshObserve
  refine (open_spec _).seq ?_ ?_
  · rintro e t v rfl ⟨hseen, _⟩ hs
    simp [hseen, Bootstrap.new] at hs
  rintro _ t v rfl ⟨hseen, hinst, hvalid⟩
  have hnot : t.seen = false := hseen
  have hinst : t.installation = installation := hinst
  unfold Bootstrap.observe
  refine meets_mayFail rfl (fun _ hs => by simp [hnot] at hs) fun hs => ?_
  refine hs.observe (bootstrapState_spec t) fun _ _ => ?_
  refine meets_get_bind.mpr ?_
  rw [hinst]
  refine meets_attempt_bind.mpr (meets_embed.mpr
    ((authority_observe_spec t.evidence).mono (fun _ => id) ?_))
  rintro r a u rfl hr
  refine ⟨rfl, ?_⟩
  cases r with
  | error e => exact ⟨rfl, fun hs => by simp [hnot] at hs⟩
  | ok value =>
    obtain ⟨hadm, rfl⟩ := hr value rfl
    refine ⟨rfl, fun hs => ⟨(hvalid rfl).1, (hvalid rfl).2, hadm, ?_⟩⟩
    by_contra hne
    simp [hne, hnot] at hs

theorem ctxErr_returns {σ : Type} (s : σ) : Returns (filesystem euid) ctxErr s m () s m :=
  returns_request_bind false rfl returns_pure

theorem quietLocked_returns {σ : Type} (s : σ) :
    Returns (filesystem euid) (quietLocked true) s m true s m :=
  .request rfl (.done _ _)

theorem verifyCursor_returns {σ : Type} (s : σ) :
    Returns (filesystem euid) (verifyCursor m.root) s m () s m := by
  refine returns_request_bind (some m.root) ⟨rfl, .inr rfl⟩ ?_
  simp only [ne_eq, not_true_eq_false, if_false]
  exact returns_pure

theorem unchangedRoot_returns (a : Authority) :
    Returns (filesystem euid) (unchangedRoot m.root) a m () a m := by
  refine returns_request_bind (some m.root) ⟨rfl, .inr rfl⟩ ?_
  simp only [refuseIf, ne_eq, not_true_eq_false, if_false]
  exact returns_pure

theorem openSteps_returns (hdir : cleanAbsolute directory = true)
    (hmode : m.root.mode = privateDirectory) (huid : m.root.uid = euid) (a : Authority) :
    Returns (filesystem euid) (openSteps euid directory) a m ()
      { a with initial := m.root, opened := true, watching := true } m := by
  unfold openSteps
  refine returns_refuseIf_bind (by simp [hdir]) ?_
  refine (ctxErr_returns _).bind ?_
  refine returns_request_bind true rfl (returns_refuseIf_bind (by simp) ?_)
  refine returns_modify_bind ?_
  refine returns_request_bind (some m.root) ⟨rfl, .inr rfl⟩ (returns_ofOption_bind rfl ?_)
  refine returns_modify_bind (returns_refuseIf_bind (by simp [hmode, huid]) ?_)
  refine Returns.bind (m := takeLock) (returns_request_bind .held rfl returns_pure) ?_
  refine returns_request_bind true rfl (returns_refuseIf_bind (by simp) ?_)
  refine returns_request_bind true rfl (returns_refuseIf_bind (by simp) ?_)
  refine returns_modify_bind ?_
  refine returns_request_bind true rfl (returns_refuseIf_bind (by simp) ?_)
  refine returns_request_bind (some m.root) ⟨rfl, .inr rfl⟩ (returns_refuseIf_bind (by simp) ?_)
  refine (quietLocked_returns _).bind (returns_refuseIf_bind (by simp) ?_)
  exact ctxErr_returns _

theorem openAuthority_returns (hdir : cleanAbsolute directory = true)
    (hmode : m.root.mode = privateDirectory) (huid : m.root.uid = euid) (a : Authority) :
    Returns (filesystem euid) (openAuthority euid directory) a m ()
      { a with initial := m.root, opened := true, watching := true } m :=
  returns_attempt_bind (openSteps_returns hdir hmode huid a) returns_pure

def Bootstrap.fresh (installation : Bytes) (root : Stat) : Bootstrap :=
  { evidence := { initial := root, opened := true, watching := true }, installation }

theorem open_returns (hdir : cleanAbsolute directory = true)
    (hvalid : validInstallation installation = true)
    (hmode : m.root.mode = privateDirectory) (huid : m.root.uid = euid) :
    Returns (filesystem euid) (openNASOwnerBootstrap euid directory installation)
      (Bootstrap.new installation) m () (Bootstrap.fresh installation m.root) m := by
  unfold openNASOwnerBootstrap
  refine returns_refuseIf_bind (by simp [hvalid]) ?_
  have hopen := openAuthority_returns hdir hmode huid (Bootstrap.new installation).evidence
  exact returns_attempt_bind (a := ()) (returns_embed hopen) returns_pure

theorem fromCensus_returns (hadm : Admissible euid m.root installation m.dir) (a : Authority) :
    Returns (filesystem euid) (fromCensus c euid m.root installation (some m.dir)) a m
      (evidence c installation m.dir) a m := by
  have hcollect := collect_ok.mpr ⟨hadm, (rfl : evidence c installation m.dir = _)⟩
  rw [show fromCensus c euid m.root installation (some m.dir) =
    pure (evidence c installation m.dir) by simp [fromCensus, hcollect]]
  exact returns_pure

theorem observeSteps_returns (hadm : Admissible euid m.root installation m.dir) {a : Authority}
    (hroot : a.initial = m.root) (hwatch : a.watching = true) :
    Returns (filesystem euid) (observeSteps c euid installation) a m
      (evidence c installation m.dir).observation a m := by
  unfold observeSteps
  refine returns_get_bind ?_
  rw [hroot, hwatch]
  refine (unchangedRoot_returns a).bind ?_
  refine (quietLocked_returns a).bind (returns_refuseIf_bind (by simp) ?_)
  refine returns_request_bind true rfl (returns_refuseIf_bind (by simp) ?_)
  refine (verifyCursor_returns a).bind ?_
  refine returns_request_bind (some m.dir) ⟨rfl, .inr rfl⟩ ?_
  refine returns_request_bind true rfl ((fromCensus_returns hadm a).bind ?_)
  refine returns_refuseIf_bind (by simp) ?_
  refine (unchangedRoot_returns a).bind ?_
  refine (quietLocked_returns a).bind (returns_refuseIf_bind (by simp) ?_)
  exact (ctxErr_returns a).bind returns_pure

theorem authority_observe_returns (hadm : Admissible euid m.root installation m.dir) :
    ∃ a, Returns (filesystem euid) (Authority.observe c euid installation)
      (Bootstrap.fresh installation m.root).evidence m
      (evidence c installation m.dir).observation a m := by
  let kind := (evidence c installation m.dir).observation.kind
  refine ⟨{ (Bootstrap.fresh installation m.root).evidence with
    review := false || !settledKind kind }, ?_⟩
  unfold Authority.observe
  refine (ctxErr_returns _).bind (returns_get_bind ?_)
  refine returns_refuseIf_bind (by simp [Bootstrap.fresh]) ?_
  refine returns_refuseIf_bind (by simp [Bootstrap.fresh]) ?_
  refine (ctxErr_returns _).bind ?_
  refine returns_attempt_bind (observeSteps_returns hadm rfl rfl) ?_
  exact returns_modify_bind returns_pure

/-- A bootstrap that meets no fault accepts a settled directory. -/
theorem eligible_of_settles (hdir : cleanAbsolute directory = true)
    (h : Settles c euid installation m) : Eligible c euid directory installation m := by
  obtain ⟨a, ha⟩ := authority_observe_returns (c := c) h.admissible
  have hstate : Returns (filesystem euid) bootstrapState (Bootstrap.fresh installation m.root) m ()
      (Bootstrap.fresh installation m.root) m :=
    returns_get_bind (returns_refuseIf_bind (by simp [Bootstrap.fresh])
      (returns_refuseIf_bind (by simp [Bootstrap.fresh]) (ctxErr_returns _)))
  have hobserve : Returns (filesystem euid) (Bootstrap.observe c euid)
      (Bootstrap.fresh installation m.root) m (evidence c installation m.dir).observation
      { Bootstrap.fresh installation m.root with evidence := a, seen := true } m := by
    unfold Bootstrap.observe
    refine hstate.bind (returns_get_bind (returns_attempt_bind (returns_embed ha) ?_))
    refine returns_modify_bind ?_
    rw [if_pos h.eligible]
    exact returns_pure
  exact ⟨_, _, m, (open_returns hdir h.valid h.root.1 h.root.2).bind hobserve, rfl⟩

/-- Eligibility is the classification of what is on disk. -/
theorem eligible_iff (hdir : cleanAbsolute directory = true) :
    Eligible c euid directory installation m ↔ Settles c euid installation m := by
  constructor
  · rintro ⟨v, b, m', hr, hseen⟩
    exact (freshObserve_spec.sound hr).2 _ rfl hseen
  · exact eligible_of_settles hdir

end Specs

end NasBootstrap
