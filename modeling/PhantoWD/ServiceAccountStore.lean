import PhantoWD.IdentityDocuments
import PhantoWD.RevisionEngine

/-!
`serviceaccountstore` publishes registries by its typed changes only. Whatever cuts its calls
short, no record of a registry that a call confirmed is lost or given to somebody else.
-/
namespace ServiceAccountStore

open GoText EffectProgram RevisionStore RevisionHistory RevisionEngine IdentityDocuments
open ServiceAccounts hiding Call

/-- A revision beyond `uint64` is no value of the source. -/
def codec : Codec Registry where
  currentName := ascii "service-accounts.json"
  pendingName := ascii ".service-accounts.pending"
  maxBytes := maxInputBytes
  decode := decodeRegistry
  validate := Registry.validate
  revision := Registry.revision
  marshal r := if r.revision ≤ maxUint64 then some (marshalRegistry r) else none
  validateTransition := none

/-- The directory, and the registry that the change under way has loaded. At most one handle is
open, so at most one change is under way. -/
structure Ledger where
  world : World
  loaded : Option Registry := none

/-- A new registry comes first, and each later one is made from the one before. -/
def May : Option Registry → Registry → Prop
  | none, next => ∃ first last, (new first last).2 = true ∧ next = (new first last).1
  | some r, next => ∃ call, apply r call = .ok next

/-- `Initialize` commits a new registry, `Create` and `SetState` one made from what they loaded.
What else happens, failures and interruptions included, is any event of the engine. -/
structure Acts (euid : Nat) (s : Ledger) (l : Event Registry) (t : Ledger) : Prop where
  step : Step codec euid s.world l t.world
  commits : ∀ i n next, l.call = some (.commit i n next) →
    n = 0 ∧ May none next ∨ ∃ r, s.loaded = some r ∧ May (some r) next
  loads : ∀ r, t.loaded = some r →
    (∃ i renamed, l = .returned (.load i) (.loaded (.ok r)) renamed) ∨
      s.loaded = some r ∧ l ≠ .powerLoss ∧ ∀ i n next, l.call ≠ some (.commit i n next)

/-- What is loaded is what the directory holds, and the directory's documents grow from a given
one. -/
structure Tracked (euid : Nat) (floor : Option Registry) (s : Ledger) : Prop where
  world : Invariant s.world
  current : ∀ r, s.loaded = some r → view codec euid s.world.machine.current = .ok (some r)
  engine : ∃ e, Refines codec euid s.world e ∧ e.Grows May floor

variable {euid : Nat} {s t u : Ledger} {l : Event Registry} {ls ks : List (Event Registry)}
  {r next : Registry} {doc : Option Registry}

theorem codec_roundTrips : codec.RoundTrips := by
  intro r data hvalid hdata _
  simp only [codec, Option.ite_none_right_eq_some, Option.some.injEq] at hdata
  obtain ⟨hbound, rfl⟩ := hdata
  exact (registry_fits hvalid (by unfold maxUint64 at hbound; omega)).2

/-- What can be read back has a revision, so only an empty directory can be initialized. -/
theorem view_revision {entry : Option Entry} (h : view codec euid entry = .ok (some r)) :
    r.revision ≠ 0 := by
  obtain ⟨data, hdata⟩ : ∃ data, codec.decode data = some r := by
    unfold view at h
    grind
  simp only [codec, decodeRegistry, Option.bind_eq_bind, Option.bind_eq_some_iff,
    Option.guard_eq_some', Option.some.injEq] at hdata
  obtain ⟨_, -, _, hvalid, rfl⟩ := hdata
  exact ((validate_iff _).mp hvalid).revision

theorem acts_obeys (hs : Tracked euid doc s) (h : Acts euid s l t) :
    Obeys codec euid May s.world l := by
  intro i n next hcall doc hview hadm
  rcases h.commits i n next hcall with ⟨rfl, hnew⟩ | ⟨r, hr, hmay⟩
  · cases doc with
    | none => exact hnew
    | some r => exact absurd hadm.current (view_revision hview)
  · cases (hs.current r hr).symm.trans hview
    exact hmay

theorem acts_tracked (hs : Tracked euid doc s) (h : Acts euid s l t) : Tracked euid doc t := by
  have hw := hs.world
  obtain ⟨e, he, hg⟩ := hs.engine
  obtain ⟨e', hreach, he'⟩ := step_refines codec_roundTrips hw he (acts_obeys hs h) h.step
  refine ⟨step_preserves_invariant hw h.step, fun r hr => ?_, e', he', hg.reaches hreach⟩
  rcases h.loads r hr with ⟨i, renamed, rfl⟩ | ⟨hr, hpower, hl⟩
  · rw [(step_current hw h.step nofun).resolve_right nofun]
    rcases load_result hw h.step with ⟨-, hr⟩ | ⟨-, -, -, hr⟩ | ⟨-, hr⟩
    · cases hr
    · cases hr
    · rw [← absentAllowed_present_view, ← hr]
      rfl
  · rw [(step_current hw h.step hpower).resolve_right fun ⟨_, _, _, _, hcall, _⟩ => hl _ _ _ hcall]
    exact hs.current r hr

theorem run_tracked (hs : Tracked euid doc s) (h : Execution (Acts euid) s ls t) :
    Tracked euid doc t := by
  induction h with
  | nil => exact hs
  | snoc _ hl ih => exact acts_tracked ih hl

theorem follows_run (h : Follows May (some r) doc) :
    ∃ r', doc = some r' ∧ Run r r' := by
  induction h with
  | refl => exact ⟨r, rfl, .refl r⟩
  | tail _ hstep ih =>
    obtain ⟨mid, rfl, hrun⟩ := ih
    obtain ⟨next, rfl, call, happly⟩ := hstep
    exact ⟨next, rfl, .tail hrun happly⟩

/-- Whatever happens after a registry was confirmed, power losses included, the one on disk came
from it by further changes, and every record is still there. -/
theorem confirmed_records_stay {w₀ : World} {i n : Nat} {renamed : Bool} (h₀ : w₀.Initial)
    (hshow : Shows codec euid w₀.machine doc doc) (hrun : Execution (Acts euid) ⟨w₀, none⟩ ls s)
    (hcommit : Acts euid s (.returned (.commit i n next) (.finished (.ok ())) renamed) t)
    (hrest : Execution (Acts euid) t ks u) :
    ∃ r, view codec euid u.world.machine.current = .ok (some r) ∧ Run next r ∧
      ∀ (k : Nat) (a : Account), next.accounts.items[k]? = some a →
        ∃ b, r.accounts.items[k]? = some b ∧ Keeps a b := by
  have h₀ : Tracked euid doc ⟨w₀, none⟩ := ⟨initial_invariant h₀, nofun, .closed doc doc,
    ⟨hshow, by simp [h₀.1]⟩, .refl, .refl⟩
  have hs := run_tracked h₀ hrun
  have ht := acts_tracked hs hcommit
  obtain ⟨hw, -, e, he, -⟩ := hs
  obtain ⟨-, -, -, ⟨husable, -⟩, -⟩ := commit_result hw hcommit.step
  obtain ⟨_, hdone, he'⟩ :=
    commit_refines codec_roundTrips hw he husable.1 husable.2.1 hcommit.step
  obtain rfl := hdone.of_ok
  obtain ⟨-, -, e', he', hdurable, hvisible⟩ :=
    run_tracked ⟨ht.world, ht.current, _, he', .refl, .refl⟩ hrest
  obtain ⟨r, hr, hrun⟩ := follows_run (hdurable.trans hvisible)
  exact ⟨r, hr ▸ he'.shows.visible, hrun, fun _ _ => run_keeps hrun⟩

def firstLedger : Registry := (new 1000 60000).1

def firstAccount : Account := ⟨ascii "a", ascii "alice", 1000, 1000, .disabled⟩

def secondLedger : Registry := ⟨formatName, 1, 2, 1000, 60000, some [firstAccount]⟩

def openedLedger : World := (serve codec 0 emptyDirectory (.openDir (ascii "/srv"))).2
def initializedLedger : World := (serve codec 0 openedLedger (.commit 0 0 firstLedger)).2
def loadedLedger : World := (serve codec 0 initializedLedger (.load 0)).2
def createdLedger : World := (serve codec 0 loadedLedger (.commit 0 1 secondLedger)).2

/-- `Initialize`, then `Create` with what it loads. The power goes as soon as `Create` has
returned, and the record is there afterwards. -/
theorem first_records_stay :
    ∃ r, view codec 0 (afterPowerLoss createdLedger).machine.current = .ok (some r) ∧
      Run secondLedger r ∧ ∃ b, r.accounts.items[0]? = some b ∧ Keeps firstAccount b := by
  have hinit : (serve codec 0 openedLedger (.commit 0 0 firstLedger)).1 =
      .finished (.ok ()) := by decide +kernel
  have hloaded : (serve codec 0 initializedLedger (.load 0)).1 = .loaded (.ok firstLedger) := by
    decide +kernel
  have hcreate : (serve codec 0 loadedLedger (.commit 0 1 secondLedger)).1 =
      .finished (.ok ()) := by decide +kernel
  have hopen : Acts 0 ⟨emptyDirectory, none⟩ _ ⟨openedLedger, none⟩ :=
    ⟨step_serve codec 0 emptyDirectory (.openDir (ascii "/srv")), by simp [Event.call], by simp⟩
  have hfirst : Acts 0 ⟨openedLedger, none⟩ _ ⟨initializedLedger, none⟩ :=
    ⟨hinit ▸ step_serve codec 0 openedLedger _, fun _ _ _ hcall => by
      cases hcall
      exact .inl ⟨rfl, _, _, by decide, rfl⟩, by simp⟩
  have hload : Acts 0 ⟨initializedLedger, none⟩ _ ⟨loadedLedger, some firstLedger⟩ :=
    ⟨hloaded ▸ step_serve codec 0 initializedLedger (.load 0), by simp [Event.call],
      fun r hr => .inl ⟨0, _, by rw [Option.some.inj hr]⟩⟩
  have hnew : Acts 0 ⟨loadedLedger, some firstLedger⟩ _ ⟨createdLedger, none⟩ :=
    ⟨hcreate ▸ step_serve codec 0 loadedLedger _, fun _ _ _ hcall => by
      cases hcall
      exact .inr ⟨firstLedger, rfl, .create 1 (ascii "a") (ascii "alice")
        ⟨some [], some [], some []⟩, by decide⟩, by simp⟩
  have hlost : Execution (Acts 0) ⟨createdLedger, none⟩ [_] ⟨afterPowerLoss createdLedger, none⟩ :=
    .snoc (.nil _) ⟨.powerLoss, by simp [Event.call], by simp⟩
  obtain ⟨r, hview, hchanged, hkept⟩ :=
    confirmed_records_stay ⟨rfl, rfl⟩ ⟨rfl, rfl, .inr rfl⟩
      (.snoc (.snoc (.snoc (.nil _) hopen) hfirst) hload) hnew hlost
  exact ⟨r, hview, hchanged, hkept 0 firstAccount rfl⟩

end ServiceAccountStore
