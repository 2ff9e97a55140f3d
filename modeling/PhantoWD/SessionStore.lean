import Mathlib.Data.Set.Defs
import Mathlib.Order.Nat
import PhantoWD.GoText

/-!
At most eight sessions, keyed by the digest of their token. Calls hold the store's lock, so a
run is a sequence of calls with arbitrary clock values. The epoch is a pointer in the source; a
new one differs from every epoch handed out before.
-/
namespace SessionStore

open GoText

def sessionLifetime : Int := 30 * 60 * 1000000000

def maximumSessions : Nat := 8

abbrev Token := { b : Bytes // b.length = 32 }

structure Library where
  sum256 : Token → Bytes
  encodeToString : Bytes → Bytes
  decodeString : Bytes → Option Bytes

structure AuthSession where
  csrf : Bytes
  expiresAt : Int
  deriving DecidableEq

structure Store where
  sessions : List (Bytes × AuthSession)
  epoch : Nat
  deriving DecidableEq

def newSessionStore : Store := ⟨[], 0⟩

inductive SessionError where
  | randomness
  | csrfRandomness
  | revoked
  | capacity
  | missing
  | csrf
  deriving DecidableEq

structure Random where
  token : Option Token
  csrf : Option Token

inductive Call where
  | create (now : Int) (random : Random)
  | createForEpoch (now : Int) (expected : Option Nat) (random : Random)
  | find (token : Bytes) (now : Int)
  | revoke (token : Bytes)
  | revokeAll (token csrf : Bytes) (now : Int)

inductive Reply where
  | issued (token : Bytes) (session : AuthSession)
  | found (session : AuthSession)
  | absent
  | done
  | error (e : SessionError)
  deriving DecidableEq

section Calls

variable (lib : Library)

def createForEpoch (s : Store) (now : Int) (expected : Option Nat) (random : Random) :
    Store × Reply :=
  match random.token, random.csrf with
  | none, _ => (s, .error .randomness)
  | some _, none => (s, .error .csrfRandomness)
  | some token, some csrf =>
    let session := ⟨lib.encodeToString csrf, now + sessionLifetime⟩
    if expected ≠ some s.epoch then (s, .error .revoked)
    else
      let kept := s.sessions.filter fun e => now < e.2.expiresAt
      if maximumSessions ≤ kept.length then ({ s with sessions := kept }, .error .capacity)
      else
        let key := lib.sum256 token
        ({ s with sessions := (key, session) :: kept.filter fun e => e.1 ≠ key },
          .issued (lib.encodeToString token) session)

def tokenOf (text : Bytes) : Option Token :=
  match lib.decodeString text with
  | none => none
  | some b => if h : b.length = 32 then some ⟨b, h⟩ else none

def lookup (s : Store) (key : Bytes) : Option AuthSession :=
  (s.sessions.find? fun e => e.1 = key).map Prod.snd

def delete (s : Store) (key : Bytes) : Store :=
  { s with sessions := s.sessions.filter fun e => e.1 ≠ key }

def find (s : Store) (token : Bytes) (now : Int) : Store × Reply :=
  match tokenOf lib token with
  | none => (s, .absent)
  | some t =>
    match lookup s (lib.sum256 t) with
    | none => (s, .absent)
    | some session =>
      if now < session.expiresAt then (s, .found session)
      else (delete s (lib.sum256 t), .absent)

def revoke (s : Store) (token : Bytes) : Store × Reply :=
  match tokenOf lib token with
  | none => (s, .done)
  | some t => (delete s (lib.sum256 t), .done)

def validCSRF (session : AuthSession) (supplied : Bytes) : Bool :=
  supplied.length == session.csrf.length && session.csrf == supplied

def revokeAll (s : Store) (token csrf : Bytes) (now : Int) : Store × Reply :=
  match tokenOf lib token with
  | none => (s, .error .missing)
  | some t =>
    match lookup s (lib.sum256 t) with
    | none => (s, .error .missing)
    | some session =>
      if session.expiresAt ≤ now then (s, .error .missing)
      else if !validCSRF session csrf then (s, .error .csrf)
      else (⟨[], s.epoch + 1⟩, .done)

def step (s : Store) : Call → Store × Reply
  | .create now random => createForEpoch lib s now (some s.epoch) random
  | .createForEpoch now expected random => createForEpoch lib s now expected random
  | .find token now => find lib s token now
  | .revoke token => revoke lib s token
  | .revokeAll token csrf now => revokeAll lib s token csrf now

structure Record where
  call : Call
  reply : Reply

inductive Run (start : Store) : Store → List Record → Prop
  | start : Run start start []
  | call {s : Store} {history : List Record} (c : Call) (h : Run start s history) :
    Run start (step lib s c).1 (⟨c, (step lib s c).2⟩ :: history)

def Issues (t : Token) (session : AuthSession) (r : Record) : Prop :=
  ∃ now csrf, (r.call = .create now ⟨some t, some csrf⟩ ∨
      ∃ expected, r.call = .createForEpoch now expected ⟨some t, some csrf⟩) ∧
    session = ⟨lib.encodeToString csrf, now + sessionLifetime⟩ ∧
    r.reply = .issued (lib.encodeToString t) session

def LogsOut (r : Record) : Prop :=
  ∃ token csrf now, r.call = .revokeAll token csrf now ∧ r.reply = .done

def Ends (t : Token) (r : Record) : Prop :=
  (∃ text, r.call = .revoke text ∧ tokenOf lib text = some t) ∨ LogsOut r

/-- The token was issued, and nothing since has revoked it. -/
def Live (history : List Record) (t : Token) (session : AuthSession) : Prop :=
  ∃ later r earlier, history = later ++ r :: earlier ∧ Issues lib t session r ∧
    ∀ x ∈ later, ¬ Ends lib t x

end Calls

variable {lib : Library} {s start : Store} {history : List Record}

variable {session : AuthSession}

theorem lookup_some {key : Bytes} (h : lookup s key = some session) :
    (key, session) ∈ s.sessions := by
  rw [lookup, Option.map_eq_some_iff] at h
  obtain ⟨e, he, rfl⟩ := h
  have hkey : e.1 = key := by simpa using List.find?_some he
  exact hkey ▸ List.mem_of_find?_eq_some he

/-- What one call can do: nothing, drop sessions, publish one, or log everybody out. -/
inductive Effect (lib : Library) (s : Store) (c : Call) : Store × Reply → Prop
  | drop {kept : List (Bytes × AuthSession)} {reply : Reply} (hsub : kept.Sublist s.sessions)
      (hended : ∀ text t, c = .revoke text → tokenOf lib text = some t →
        ∀ e ∈ kept, e.1 ≠ lib.sum256 t)
      (hall : ¬ LogsOut ⟨c, reply⟩) : Effect lib s c ({ s with sessions := kept }, reply)
  | publish {t : Token} {session : AuthSession} {kept : List (Bytes × AuthSession)} {reply : Reply}
      (hsub : kept.Sublist s.sessions) (hroom : kept.length < maximumSessions)
      (hissues : Issues lib t session ⟨c, reply⟩) :
      Effect lib s c ({ s with sessions := (lib.sum256 t, session) :: kept }, reply)
  | logout {reply : Reply} (hall : LogsOut ⟨c, reply⟩) : Effect lib s c (⟨[], s.epoch + 1⟩, reply)

variable {c : Call} {r : Record} {t : Token} {now : Int} {token : Bytes}

theorem Effect.same {reply : Reply} (hrevoke : ∀ text, c ≠ .revoke text)
    (hall : ¬ LogsOut ⟨c, reply⟩) : Effect lib s c (s, reply) :=
  .drop (.refl _) (fun text _ hc => absurd hc (hrevoke text)) hall

theorem Issues.not_logsOut (h : Issues lib t session r) : ¬ LogsOut r := by
  obtain ⟨now, csrf, -, -, hreply⟩ := h
  rintro ⟨token, csrf, now, -, hdone⟩
  rw [hreply] at hdone
  cases hdone

theorem createForEpoch_effect {expected : Option Nat} {random : Random}
    (hc : (c = .create now random ∧ expected = some s.epoch) ∨
      c = .createForEpoch now expected random) :
    Effect lib s c (createForEpoch lib s now expected random) := by
  have hrevoke : ∀ text, c ≠ .revoke text := by
    intro text
    rcases hc with ⟨rfl, -⟩ | rfl <;> exact Call.noConfusion
  have hall : ∀ reply, ¬ LogsOut ⟨c, reply⟩ := by
    rintro reply ⟨token, csrf, now, hcall, -⟩
    rcases hc with ⟨rfl, -⟩ | rfl <;> cases hcall
  obtain ⟨token, csrf⟩ := random
  unfold createForEpoch
  cases token with
  | none => exact .same hrevoke (hall _)
  | some token =>
    cases csrf with
    | none => exact .same hrevoke (hall _)
    | some csrf =>
      dsimp only
      by_cases hepoch : expected = some s.epoch
      · rw [if_neg (not_not.mpr hepoch)]
        by_cases hfull : maximumSessions ≤
            (s.sessions.filter fun e => decide (now < e.2.expiresAt)).length
        · rw [if_pos hfull]
          exact .drop List.filter_sublist (fun text _ hcall => absurd hcall (hrevoke text)) (hall _)
        · rw [if_neg hfull]
          refine .publish (List.filter_sublist.trans List.filter_sublist)
            ((List.length_filter_le _ _).trans_lt (Nat.not_le.mp hfull)) ⟨now, csrf, ?_, rfl, rfl⟩
          exact hc.imp And.left fun hcall => ⟨expected, hcall⟩
      · rw [if_pos hepoch]
        exact .same hrevoke (hall _)

/-- Every call has one of the effects. -/
theorem step_effect (s : Store) (c : Call) : Effect lib s c (step lib s c) := by
  cases c with
  | create now random => exact createForEpoch_effect (.inl ⟨rfl, rfl⟩)
  | createForEpoch now expected random => exact createForEpoch_effect (.inr rfl)
  | find token now =>
    have hall : ∀ reply, ¬ LogsOut ⟨.find token now, reply⟩ := by
      rintro reply ⟨_, _, _, hcall, -⟩
      cases hcall
    have hrevoke : ∀ text, Call.find token now ≠ .revoke text := fun _ => Call.noConfusion
    rw [step, find]
    cases tokenOf lib token with
    | none => exact .same hrevoke (hall _)
    | some t =>
      dsimp only
      cases lookup s (lib.sum256 t) with
      | none => exact .same hrevoke (hall _)
      | some session =>
        dsimp only
        by_cases hnow : now < session.expiresAt
        · rw [if_pos hnow]
          exact .same hrevoke (hall _)
        · rw [if_neg hnow]
          exact .drop List.filter_sublist (fun _ _ hcall => absurd hcall (hrevoke _)) (hall _)
  | revoke token =>
    have hall : ¬ LogsOut ⟨.revoke token, .done⟩ := by
      rintro ⟨_, _, _, hcall, -⟩
      cases hcall
    rw [step, revoke]
    cases htoken : tokenOf lib token with
    | none =>
      refine .drop (.refl _) (fun text t hcall ht => ?_) hall
      cases hcall
      rw [htoken] at ht
      cases ht
    | some t =>
      refine .drop List.filter_sublist (fun text u hcall hu e he => ?_) hall
      cases hcall
      rw [htoken] at hu
      cases hu
      simpa using (List.mem_filter.mp he).2
  | revokeAll token csrf now =>
    have hrevoke : ∀ text, Call.revokeAll token csrf now ≠ .revoke text :=
      fun _ => Call.noConfusion
    have hall : ∀ e, ¬ LogsOut ⟨.revokeAll token csrf now, .error e⟩ := by
      rintro e ⟨_, _, _, -, hdone⟩
      cases hdone
    rw [step, revokeAll]
    cases tokenOf lib token with
    | none => exact .same hrevoke (hall _)
    | some t =>
      dsimp only
      cases lookup s (lib.sum256 t) with
      | none => exact .same hrevoke (hall _)
      | some session =>
        dsimp only
        by_cases hold : session.expiresAt ≤ now
        · rw [if_pos hold]
          exact .same hrevoke (hall _)
        · rw [if_neg hold]
          by_cases hcsrf : validCSRF session csrf = true
          · rw [if_neg (by simp [hcsrf])]
            exact .logout ⟨token, csrf, now, rfl, rfl⟩
          · rw [if_pos (by simpa using hcsrf)]
            exact .same hrevoke (hall _)

structure Invariant (lib : Library) (s : Store) (history : List Record) : Prop where
  bounded : s.sessions.length ≤ maximumSessions
  live : ∀ e ∈ s.sessions, ∃ t, lib.sum256 t = e.1 ∧ Live lib history t e.2

theorem Live.later (h : Live lib history t session) (hr : ¬ Ends lib t r) :
    Live lib (r :: history) t session := by
  obtain ⟨later, issue, earlier, rfl, hissue, hlater⟩ := h
  exact ⟨r :: later, issue, earlier, rfl, hissue, List.forall_mem_cons.mpr ⟨hr, hlater⟩⟩

theorem effect_preserves {out : Store × Reply} (hi : Invariant lib s history)
    (he : Effect lib s c out) : Invariant lib out.1 (⟨c, out.2⟩ :: history) := by
  cases he with
  | @drop kept reply hsub hended hall =>
    refine ⟨hsub.length_le.trans hi.bounded, fun e he => ?_⟩
    obtain ⟨t, ht, hlive⟩ := hi.live e (hsub.subset he)
    refine ⟨t, ht, hlive.later ?_⟩
    rintro (⟨text, hcall, htoken⟩ | hout)
    · exact hended text t hcall htoken e he ht.symm
    · exact hall hout
  | @publish t session kept reply hsub hroom hissues =>
    refine ⟨hroom, fun e he => ?_⟩
    rcases List.mem_cons.mp he with rfl | he
    · exact ⟨t, rfl, [], _, history, rfl, hissues, by simp⟩
    · obtain ⟨u, hu, hlive⟩ := hi.live e (hsub.subset he)
      refine ⟨u, hu, hlive.later ?_⟩
      rintro (⟨text, hcall, -⟩ | hout)
      · obtain ⟨_, _, hcreate | ⟨_, hcreate⟩, -⟩ := hissues
        · exact Call.noConfusion (hcreate.symm.trans hcall)
        · exact Call.noConfusion (hcreate.symm.trans hcall)
      · exact hissues.not_logsOut hout
  | logout hall => exact ⟨Nat.zero_le _, by simp⟩

theorem run_invariant (h : Run lib newSessionStore s history) : Invariant lib s history := by
  induction h with
  | start => exact ⟨Nat.zero_le _, by simp [newSessionStore]⟩
  | call c _ ih => exact effect_preserves ih (step_effect _ c)

theorem epoch_step (s : Store) (c : Call) : s.epoch ≤ (step lib s c).1.epoch ∧
    (LogsOut ⟨c, (step lib s c).2⟩ → s.epoch < (step lib s c).1.epoch) := by
  have he : Effect lib s c (step lib s c) := step_effect s c
  generalize step lib s c = out at he
  cases he with
  | drop _ _ hall => exact ⟨le_rfl, fun hout => absurd hout hall⟩
  | publish _ _ hissues => exact ⟨le_rfl, fun hout => absurd hout hissues.not_logsOut⟩
  | logout _ => exact ⟨Nat.le_succ _, fun _ => Nat.lt_succ_self _⟩

theorem run_epoch (h : Run lib start s history) : start.epoch ≤ s.epoch ∧
    ((∃ r ∈ history, LogsOut r) → start.epoch < s.epoch) := by
  induction h with
  | start => exact ⟨le_rfl, by simp⟩
  | @call s history c _ ih =>
    obtain ⟨hle, hlt⟩ := @epoch_step lib s c
    refine ⟨ih.1.trans hle, ?_⟩
    rintro ⟨r, hr, hout⟩
    rcases List.mem_cons.mp hr with rfl | hr
    · exact ih.1.trans_lt (hlt hout)
    · exact (ih.2 ⟨r, hr, hout⟩).trans_le hle

def CollisionFree (lib : Library) (tokens : Set Token) : Prop :=
  ∀ t ∈ tokens, ∀ u ∈ tokens, lib.sum256 t = lib.sum256 u → t = u

def tokensWith (lib : Library) (history : List Record) (presented : Bytes) : Set Token :=
  { t | (∃ r ∈ history, ∃ session, Issues lib t session r) ∨ tokenOf lib presented = some t }

/-- A stored session belongs to the token that finds it. -/
theorem lookup_live (h : Run lib newSessionStore s history)
    (hfree : CollisionFree lib (tokensWith lib history token))
    (htoken : tokenOf lib token = some t) (hlook : lookup s (lib.sum256 t) = some session) :
    Live lib history t session := by
  obtain ⟨u, hu, hlive⟩ := (run_invariant h).live _ (lookup_some hlook)
  have hissued : u ∈ tokensWith lib history token := by
    obtain ⟨later, r, earlier, rfl, hissue, -⟩ := hlive
    exact .inl ⟨r, List.mem_append_right _ List.mem_cons_self, session, hissue⟩
  have heq : u = t := hfree u hissued t (.inr htoken) hu
  exact heq ▸ hlive

theorem find_live (h : Run lib newSessionStore s history)
    (hfree : CollisionFree lib (tokensWith lib history token))
    (hfound : (find lib s token now).2 = .found session) :
    ∃ t, tokenOf lib token = some t ∧ Live lib history t session ∧ now < session.expiresAt := by
  rw [find] at hfound
  cases htoken : tokenOf lib token with
  | none => simp [htoken] at hfound
  | some t =>
    rw [htoken] at hfound
    cases hlook : lookup s (lib.sum256 t) with
    | none => simp [hlook] at hfound
    | some stored =>
      simp only [hlook] at hfound
      split_ifs at hfound with hnow
      cases hfound
      exact ⟨t, rfl, lookup_live h hfree htoken hlook, hnow⟩

theorem revokeAll_refused {csrf : Bytes} (h : Run lib newSessionStore s history)
    (hfree : CollisionFree lib (tokensWith lib history token))
    (hbad : ∀ t session, tokenOf lib token = some t → Live lib history t session →
      session.expiresAt ≤ now ∨ csrf ≠ session.csrf) :
    ∃ e, revokeAll lib s token csrf now = (s, .error e) := by
  rw [revokeAll]
  cases htoken : tokenOf lib token with
  | none => exact ⟨_, rfl⟩
  | some t =>
    dsimp only
    cases hlook : lookup s (lib.sum256 t) with
    | none => exact ⟨_, rfl⟩
    | some session =>
      dsimp only
      by_cases hold : session.expiresAt ≤ now
      · exact ⟨_, if_pos hold⟩
      · rw [if_neg hold]
        have hcsrf : csrf ≠ session.csrf :=
          (hbad t session htoken (lookup_live h hfree htoken hlook)).resolve_left hold
        exact ⟨_, if_pos (by simp [validCSRF, Ne.symm hcsrf])⟩

def DistinctTokens (lib : Library) (history : List Record) : Prop :=
  history.Pairwise fun x y => ∀ t session session', Issues lib t session x →
    ¬ Issues lib t session' y

theorem Issues.not_ends (h : Issues lib t session r) : ¬ Ends lib t r := by
  rintro (⟨text, hcall, -⟩ | hout)
  · obtain ⟨_, _, hcreate | ⟨_, hcreate⟩, -⟩ := h
    · exact Call.noConfusion (hcreate.symm.trans hcall)
    · exact Call.noConfusion (hcreate.symm.trans hcall)
  · exact h.not_logsOut hout

/-- A revoked token stays revoked. -/
theorem revoked_not_live {later earlier : List Record}
    (hdistinct : DistinctTokens lib (later ++ r :: earlier)) (hends : Ends lib t r)
    (hissued : ∃ x ∈ earlier, ∃ session, Issues lib t session x) (session : AuthSession) :
    ¬ Live lib (later ++ r :: earlier) t session := by
  rintro ⟨later', issue, earlier', heq, hissue, hquiet⟩
  obtain ⟨x, hx, session', hx'⟩ := hissued
  rw [List.append_eq_append_iff] at heq
  rcases heq with ⟨between, rfl, heq⟩ | ⟨between, rfl, heq⟩
  · -- the revocation is the issue itself, or it is newer
    cases between with
    | nil => exact hissue.not_ends ((List.cons.inj heq).1 ▸ hends)
    | cons b rest =>
      rw [(List.cons.inj heq).1] at hends
      exact hquiet b (by simp) hends
  · cases between with
    | nil => exact hissue.not_ends ((List.cons.inj heq).1.symm ▸ hends)
    | cons b rest =>
      -- the issue is newer than the revocation: the token was drawn twice
      rw [(List.cons.inj heq).1] at hissue
      rw [DistinctTokens, List.pairwise_append] at hdistinct
      exact hdistinct.2.2 b (by simp) x (List.mem_cons_of_mem _ hx) t session session' hissue hx'

/-- Every run keeps at most eight sessions, finds only what was issued, is unexpired and was
not revoked since, refuses issues of an epoch that was left behind, and is changed by a logout of
all only through a live session and its CSRF value. -/
theorem session_store_sound (h : Run lib newSessionStore s history) :
    s.sessions.length ≤ maximumSessions ∧
    (∀ token now session, CollisionFree lib (tokensWith lib history token) →
      (find lib s token now).2 = .found session →
      ∃ t, tokenOf lib token = some t ∧ Live lib history t session ∧ now < session.expiresAt) ∧
    (∀ s' later, Run lib s s' later → (∃ r ∈ later, LogsOut r) → ∀ now token csrf,
      createForEpoch lib s' now (some s.epoch) ⟨some token, some csrf⟩ =
        (s', .error .revoked)) ∧
    (∀ token csrf now, CollisionFree lib (tokensWith lib history token) →
      (∀ t session, tokenOf lib token = some t → Live lib history t session →
        session.expiresAt ≤ now ∨ csrf ≠ session.csrf) →
      ∃ e, revokeAll lib s token csrf now = (s, .error e)) ∧
    (∀ later r earlier t, history = later ++ r :: earlier → DistinctTokens lib history →
      Ends lib t r → (∃ x ∈ earlier, ∃ session, Issues lib t session x) →
      ∀ session, ¬ Live lib history t session) := by
  refine ⟨(run_invariant h).bounded, fun token now session => find_live h, ?_,
    fun token csrf now => revokeAll_refused h, ?_⟩
  · intro s' later hrun hout now token csrf
    have hlt : s.epoch ≠ s'.epoch := ((run_epoch hrun).2 hout).ne
    simp [createForEpoch, hlt]
  · rintro later r earlier t rfl hdistinct hends hissued
    exact revoked_not_live hdistinct hends hissued

def zeroToken : Token := ⟨List.replicate 32 0, rfl⟩

def oneToken : Token := ⟨List.replicate 32 1, rfl⟩

def zeroCookie : Bytes := List.replicate 43 0x41

def sampleLibrary : Library where
  sum256 t := if t = zeroToken then
      [0x66, 0x68, 0x7a, 0xad, 0xf8, 0x62, 0xbd, 0x77, 0x6c, 0x8f, 0xc1, 0x8b, 0x8e, 0x9f, 0x8e,
        0x20, 0x08, 0x97, 0x14, 0x85, 0x6e, 0xe2, 0x33, 0xb3, 0x90, 0x2a, 0x59, 0x1d, 0x0d, 0x5f,
        0x29, 0x25]
    else []
  encodeToString b := if b = zeroToken.1 then zeroCookie
    else if b = oneToken.1 then ascii "AQEBAQEBAQEBAQEBAQEBAQEBAQEBAQEBAQEBAQEBAQE" else []
  decodeString text := if text = zeroCookie then some zeroToken.1 else none

def sampleCreate : Call := .create 0 ⟨some zeroToken, some oneToken⟩

def sampleSession : AuthSession :=
  ⟨ascii "AQEBAQEBAQEBAQEBAQEBAQEBAQEBAQEBAQEBAQEBAQE", sessionLifetime⟩

theorem sample_session_found :
    (find sampleLibrary (step sampleLibrary newSessionStore sampleCreate).1 zeroCookie 1).2 =
        .found sampleSession ∧
      ∃ t, tokenOf sampleLibrary zeroCookie = some t ∧
        Live sampleLibrary
          [⟨sampleCreate, (step sampleLibrary newSessionStore sampleCreate).2⟩] t sampleSession ∧
        1 < sampleSession.expiresAt := by
  have hrun : Run sampleLibrary newSessionStore _
      [⟨sampleCreate, (step sampleLibrary newSessionStore sampleCreate).2⟩] := .call _ .start
  have hfound : (find sampleLibrary (step sampleLibrary newSessionStore sampleCreate).1 zeroCookie
      1).2 = .found sampleSession := by decide +kernel
  have hzero : ∀ t ∈ tokensWith sampleLibrary
      [⟨sampleCreate, (step sampleLibrary newSessionStore sampleCreate).2⟩] zeroCookie,
      t = zeroToken := by
    rintro t (⟨r, hr, session, now, csrf, hcall, -⟩ | htoken)
    · rw [List.mem_singleton.mp hr] at hcall
      rcases hcall with hcall | ⟨_, hcall⟩
      · cases hcall
        rfl
      · cases hcall
    · have hcookie : tokenOf sampleLibrary zeroCookie = some zeroToken := by decide +kernel
      exact Option.some.inj (htoken.symm.trans hcookie)
  refine ⟨hfound, (session_store_sound hrun).2.1 _ _ _ ?_ hfound⟩
  exact fun t ht u hu _ => (hzero t ht).trans (hzero u hu).symm

end SessionStore
