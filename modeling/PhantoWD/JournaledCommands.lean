import Mathlib.Logic.Relation
import PhantoWD.EffectProgram
import PhantoWD.RevisionEngine

/-!
An operation keeps a journal document in an engine, observes a backend and issues commands to
it. The log records, newest first, every commit with the document it replaced, every observation
and every command with the durable document at that moment. Calls are cut anywhere by the death
of the process.
-/
namespace JournaledCommands

open EffectProgram RevisionStore RevisionEngine

inductive Request (J Q O C : Type) : Type → Type where
  | attached : Request J Q O C Bool
  | load : Request J Q O C (Except StoreError J)
  | commit (expected : Nat) (next : J) : Request J Q O C (Except StoreError Unit)
  | cancelled : Request J Q O C Bool
  | observe (query : Q) : Request J Q O C (Option O)
  | command (c : C) : Request J Q O C Bool

inductive Record (J Q O C : Type) where
  | commit (before : Option J) (expected : Nat) (next : J) (result : Except StoreError Unit)
  | observed (query : Q) (o : O)
  | command (c : C) (durable : Option J)

structure World (J Q O C : Type) where
  engine : Engine J
  log : List (Record J Q O C)

variable {J Q O C : Type}

/-- The engine answers loads and commits; cancellation, observations and command results
are arbitrary. A failed observation leaves no record. -/
def environment (sch : Schema J) : Handler (Request J Q O C) (World J Q O C)
  | _, .attached, w, b, w' => b = w.engine.isOpen ∧ w' = w
  | _, .load, w, r, w' => Loads w.engine r ∧ w' = w
  | _, .commit expected next, w, r, w' =>
    Commits sch w.engine expected next r w'.engine ∧
      w'.log = .commit w.engine.visible expected next r :: w.log
  | _, .cancelled, w, _, w' => w' = w
  | _, .observe query, w, o, w' =>
    w' = match o with
      | none => w
      | some o => { w with log := .observed query o :: w.log }
  | _, .command c, w, _, w' => w' = { w with log := .command c w.engine.durable :: w.log }

def serve (sch : Schema J) (observe : List (Record J Q O C) → Q → O) :
    {β : Type} → Request J Q O C β → World J Q O C → β × World J Q O C
  | _, .attached, w => (w.engine.isOpen, w)
  | _, .load, w =>
    (match w.engine with
      | .ready none => .error .notInitialized
      | .ready (some doc) => .ok doc
      | .uncertain _ _ => .error .uncertain
      | .closed _ _ => .error .closed, w)
  | _, .commit expected next, w =>
    let record := Record.commit w.engine.visible expected next
    match w.engine with
    | .ready doc =>
      if expected ≠ GoText.maxUint64 ∧ sch.revision next = expected + 1 ∧
          sch.validate next = true ∧ sch.rank doc = expected then
        (.ok (), ⟨.ready (some next), record (.ok ()) :: w.log⟩)
      else (.error .conflict, ⟨w.engine, record (.error .conflict) :: w.log⟩)
    | .uncertain _ _ => (.error .uncertain, ⟨w.engine, record (.error .uncertain) :: w.log⟩)
    | .closed _ _ => (.error .closed, ⟨w.engine, record (.error .closed) :: w.log⟩)
  | _, .cancelled, w => (false, w)
  | _, .observe query, w =>
    (some (observe w.log query), { w with log := .observed query (observe w.log query) :: w.log })
  | _, .command c, w => (true, { w with log := .command c w.engine.durable :: w.log })

theorem serve_admitted (sch : Schema J) (observe : List (Record J Q O C) → Q → O) {β : Type}
    (r : Request J Q O C β) (w : World J Q O C) :
    environment sch r w (serve sch observe r w).1 (serve sch observe r w).2 := by
  obtain ⟨e, log⟩ := w
  cases r with
  | attached => exact ⟨rfl, rfl⟩
  | load =>
    refine ⟨?_, rfl⟩
    rcases e with doc | ⟨visible, durable⟩ | ⟨visible, durable⟩
    · cases doc with
      | none => exact .absent
      | some doc => exact .found
    · exact .uncertain
    · exact .closed
  | commit expected next =>
    rcases e with doc | ⟨visible, durable⟩ | ⟨visible, durable⟩
    · simp only [serve, environment]
      split_ifs with h
      · exact ⟨.done ⟨h.1, h.2.1, h.2.2.1, h.2.2.2⟩, rfl⟩
      · exact ⟨.refused (by simp) (by simp), rfl⟩
    · exact ⟨.uncertain, rfl⟩
    · exact ⟨.closed, rfl⟩
  | cancelled => rfl
  | observe query => rfl
  | command c => rfl

open Method

abbrev Operation (J Q O C ε : Type) := Method (Request J Q O C) Unit ε

variable {next : J} {expected : Nat} {r : Except StoreError Unit} {e : Engine J}
  {log : List (Record J Q O C)}

section Parts

variable {ε α : Type}

def requireEngine (store : StoreError → ε) : Operation J Q O C ε Unit := do
  let attached ← request .attached
  refuseIf (attached = false) (store .closed)

def loadJournal (store : StoreError → ε) : Operation J Q O C ε J := do
  match ← request .load with
  | .ok j => pure j
  | .error e => fail (store e)

def commitJournal (store : StoreError → ε) (expected : Nat) (next : J) :
    Operation J Q O C ε Unit := do
  match ← request (.commit expected next) with
  | .ok () => pure ()
  | .error e => fail (store e)

/-- `errors.Join(ErrReview, Commit(...))`: the call fails even if the commit succeeds. -/
def commitReview (joined : Option StoreError → ε) (expected : Nat) (next : J) :
    Operation J Q O C ε α := do
  match ← request (.commit expected next) with
  | .ok () => fail (joined none)
  | .error e => fail (joined (some e))

variable {sch : Schema J} {I : World J Q O C → Prop} {w : World J Q O C} {store : StoreError → ε}
  {P : Except ε α → Unit → World J Q O C → Prop} {s : Unit}

theorem meets_requireEngine_bind {f : Unit → Operation J Q O C ε α} (h : I w)
    (hclosed : P (.error (store .closed)) s w) (hf : Meets (environment sch) I P (f ()) s w) :
    Meets (environment sch) I P (requireEngine store >>= f) s w := by
  refine meets_bind.mpr (meets_request_bind.mpr ⟨h, ?_⟩)
  rintro attached u ⟨-, rfl⟩
  exact meets_refuseIf h (fun _ => ⟨h, hclosed⟩) fun _ => ⟨h, hf⟩

theorem meets_loadJournal_bind {f : J → Operation J Q O C ε α} (h : I w)
    (herr : ∀ e, P (.error (store e)) s w)
    (hf : ∀ j, w.engine = .ready (some j) → Meets (environment sch) I P (f j) s w) :
    Meets (environment sch) I P (loadJournal store >>= f) s w := by
  refine meets_bind.mpr (meets_request_bind.mpr ⟨h, ?_⟩)
  rintro loaded u ⟨hload, rfl⟩
  cases loaded with
  | error e => exact ⟨h, h, herr e⟩
  | ok j => exact ⟨h, h, hf j hload.of_ok⟩

theorem meets_commitJournal {P : Except ε Unit → Unit → World J Q O C → Prop} (h : I w)
    (herr : ∀ e u, environment sch (.commit expected next) w (.error e) u →
      I u ∧ P (.error (store e)) s u)
    (hok : ∀ u, environment sch (.commit expected next) w (.ok ()) u → I u ∧ P (.ok ()) s u) :
    Meets (environment sch) I P (commitJournal store expected next) s w := by
  refine meets_request_bind.mpr ⟨h, fun r u hu => ?_⟩
  cases r with
  | error e => exact herr e u hu
  | ok x => exact hok u hu

theorem meets_commitReview {joined : Option StoreError → ε} (h : I w)
    (hu : ∀ r u, environment sch (.commit expected next) w r u →
      I u ∧ ∀ e, P (.error (joined e)) s u) :
    Meets (environment sch) I P (commitReview joined expected next) s w := by
  refine meets_request_bind.mpr ⟨h, fun r u hr => ?_⟩
  obtain ⟨hI, hP⟩ := hu r u hr
  cases r with
  | error | ok => exact ⟨hI, hP _⟩

/-- The context is only read, so whatever holds before holds after. -/
theorem meets_cancelled_bind {f : Bool → Operation J Q O C ε α} (h : I w)
    (hf : ∀ cancelled, Meets (environment sch) I P (f cancelled) s w) :
    Meets (environment sch) I P (request .cancelled >>= f) s w := by
  refine meets_request_bind.mpr ⟨h, ?_⟩
  rintro cancelled u rfl
  exact hf cancelled

/-- A confirmed commit is admissible, and the engine and the log show it. -/
theorem meets_commitJournal_logged (h : I w)
    (hu : ∀ r u, environment sch (.commit expected next) w r u → I u) :
    Meets (environment sch) I (fun r _ u => r = .ok () →
      Admissible sch w.engine.visible expected next ∧
        u = ⟨.ready (some next), .commit w.engine.visible expected next (.ok ()) :: w.log⟩)
      (commitJournal store expected next) s w := by
  refine meets_commitJournal h (fun e u he => ⟨hu _ u he, by simp⟩) fun u ho => ⟨hu _ u ho, ?_⟩
  obtain ⟨hc, hlog⟩ := ho
  refine fun _ => ⟨hc.admissible, ?_⟩
  rw [← hc.of_ok, ← hlog]

abbrev Preserves (sch : Schema J) (I : World J Q O C → Prop) (m : Operation J Q O C ε α)
    (w : World J Q O C) : Prop :=
  Meets (environment sch) I (fun _ _ _ => True) m () w

variable {β : Type} {f : β → Operation J Q O C ε α}

theorem preserves_refuse {b : Prop} [Decidable b] {e : ε} {f : Unit → Operation J Q O C ε α}
    (h : I w) (hf : ¬ b → Preserves sch I (f ()) w) : Preserves sch I (refuseIf b e >>= f) w :=
  meets_refuseIf_bind h (fun _ => trivial) hf

theorem preserves_take {o : Option β} {e : ε} (h : I w)
    (hf : ∀ a, o = some a → Preserves sch I (f a) w) : Preserves sch I (ofOption o e >>= f) w :=
  meets_ofOption_bind h (fun _ => trivial) hf

theorem preserves_load {f : J → Operation J Q O C ε α} (h : I w)
    (hf : ∀ j, w.engine.visible = some j → Preserves sch I (f j) w) :
    Preserves sch I (loadJournal store >>= f) w :=
  meets_loadJournal_bind h (fun _ => trivial) fun j hready => hf j (by rw [hready]; rfl)

theorem preserves_commit (h : I w)
    (hu : ∀ r u, environment sch (.commit expected next) w r u → I u) :
    Preserves sch I (commitJournal store expected next) w :=
  (meets_commitJournal_logged h hu).mono (fun _ => id) fun _ _ _ _ _ => trivial

theorem preserves_seq {m : Operation J Q O C ε β}
    {Q' : Except ε β → Unit → World J Q O C → Prop}
    (hm : Meets (environment sch) I Q' m () w)
    (hf : ∀ a u, I u → Q' (.ok a) () u → Preserves sch I (f a) u) :
    Preserves sch I (m >>= f) w :=
  hm.seq (fun _ _ _ _ _ => trivial) fun a _ u hu hq => hf a u hu hq

end Parts

/-- Every record is allowed after the records before it. -/
def Traced (allowed : Record J Q O C → List (Record J Q O C) → Prop) :
    List (Record J Q O C) → Prop
  | [] => True
  | r :: rest => allowed r rest ∧ Traced allowed rest

theorem Traced.at {allowed : Record J Q O C → List (Record J Q O C) → Prop}
    {newer older : List (Record J Q O C)} {r : Record J Q O C}
    (h : Traced allowed (newer ++ r :: older)) : allowed r older := by
  induction newer with
  | nil => exact h.1
  | cons _ _ ih => exact ih h.2

def confirmed : List (Record J Q O C) → List J
  | [] => []
  | .commit _ _ next (.ok ()) :: rest => next :: confirmed rest
  | _ :: rest => confirmed rest

def issued : List (Record J Q O C) → List (Option J)
  | [] => []
  | .command _ durable :: rest => durable :: issued rest
  | _ :: rest => issued rest

def Extends (legal : Option J → J → Prop) : Option J → Option J → Prop :=
  Relation.ReflTransGen fun a b => ∃ n, b = some n ∧ legal a n

/-- What holds of the engine and its log at every moment. The visible document is at most
one transition ahead of the durable one, and everything confirmed is durable. -/
structure Sound (sch : Schema J) (legal : Option J → J → Prop)
    (allowed : Record J Q O C → List (Record J Q O C) → Prop) (w : World J Q O C) : Prop where
  traced : Traced allowed w.log
  reached : Extends legal none w.engine.durable
  ahead : w.engine.visible = w.engine.durable ∨
    ∃ n, w.engine.visible = some n ∧ legal w.engine.durable n
  published : ∀ n ∈ confirmed w.log, sch.revision n ≤ sch.rank w.engine.durable
  descending : (confirmed w.log).Pairwise fun a b => sch.revision b < sch.revision a

section Engine

variable {sch : Schema J} {legal : Option J → J → Prop}
  {allowed : Record J Q O C → List (Record J Q O C) → Prop} {w u : World J Q O C}

theorem Sound.extends (h : Sound sch legal allowed w) :
    Extends legal w.engine.durable w.engine.visible := by
  rcases h.ahead with hv | ⟨n, hv, hn⟩
  · rw [hv]
    exact .refl
  · exact .single ⟨n, hv, hn⟩

theorem Extends.rank_le (hrank : ∀ a n, legal a n → sch.revision n = sch.rank a + 1)
    {a b : Option J} (h : Extends legal a b) : sch.rank a ≤ sch.rank b := by
  induction h with
  | refl => exact Nat.le_refl _
  | tail _ hs ih =>
    obtain ⟨n, rfl, hn⟩ := hs
    rw [Schema.rank_some, hrank _ _ hn]
    exact Nat.le_succ_of_le ih

theorem Sound.cons (h : Sound sch legal allowed w) {r : Record J Q O C}
    (hr : allowed r w.log) (hc : confirmed (r :: w.log) = confirmed w.log) :
    Sound sch legal allowed { w with log := r :: w.log } :=
  ⟨⟨hr, h.traced⟩, h.reached, h.ahead, by rw [hc]; exact h.published,
    by rw [hc]; exact h.descending⟩

/-- Whatever a commit answers, the invariant survives it. -/
theorem Sound.commit (hrank : ∀ a n, legal a n → sch.revision n = sch.rank a + 1)
    (h : Sound sch legal allowed w)
    (hlegal : Admissible sch w.engine.visible expected next → legal w.engine.visible next)
    (hr : allowed (.commit w.engine.visible expected next r) w.log)
    (hu : environment sch (.commit expected next) w r u) : Sound sch legal allowed u := by
  obtain ⟨hc, hlog⟩ := hu
  obtain ⟨e, log⟩ := u
  obtain rfl : log = _ := hlog
  obtain ⟨e₀, log₀⟩ := w
  have quiet : (∀ x, r ≠ .ok x) →
      confirmed (.commit e₀.visible expected next r :: log₀) = confirmed log₀ := by
    intro hne
    cases r with
    | error => rfl
    | ok x => exact absurd rfl (hne x)
  have hbelow : ∀ n ∈ confirmed log₀, sch.revision n ≤ sch.rank e₀.visible := fun n hn =>
    Nat.le_trans (h.published n hn) (Extends.rank_le hrank h.extends)
  have unchanged : e.visible = e₀.visible → e.durable = e₀.durable → (∀ x, r ≠ .ok x) →
      Sound sch legal allowed ⟨e, .commit e₀.visible expected next r :: log₀⟩ := by
    intro hv hd hne
    constructor
    · exact ⟨hr, h.traced⟩
    · simpa only [hd] using h.reached
    · simpa only [hv, hd] using h.ahead
    · simpa only [quiet hne, hd] using h.published
    · simpa only [quiet hne] using h.descending
  cases hc with
  | closed | uncertain | refused | lost => exact unchanged rfl rfl (by simp)
  | @doubted doc durable _ _ hadm hd =>
    have hnext := hlegal hadm
    constructor
    · exact ⟨hr, h.traced⟩
    · rcases hd with rfl | rfl
      · exact h.reached
      · exact h.reached.tail ⟨next, rfl, hnext⟩
    · rcases hd with rfl | rfl
      · exact .inr ⟨next, rfl, hnext⟩
      · exact .inl rfl
    · rw [quiet (by simp)]
      rcases hd with rfl | rfl
      · exact h.published
      · intro n hn
        exact Nat.le_trans (h.published n hn)
          (Extends.rank_le hrank (.single ⟨next, rfl, hnext⟩))
    · rw [quiet (by simp)]
      exact h.descending
  | @done doc _ _ hadm =>
    have hnext := hlegal hadm
    constructor
    · exact ⟨hr, h.traced⟩
    · exact h.reached.tail ⟨next, rfl, hnext⟩
    · exact .inl rfl
    · intro n hn
      rcases List.mem_cons.mp hn with rfl | hn
      · exact Nat.le_refl _
      · exact Nat.le_trans (h.published n hn)
          (Extends.rank_le hrank (.single ⟨next, rfl, hnext⟩))
    · refine List.pairwise_cons.mpr ⟨fun n hn => ?_, h.descending⟩
      have hle := hbelow n hn
      rw [hrank _ _ hnext]
      exact Nat.lt_succ_of_le hle

theorem Sound.raised (hrank : ∀ a n, legal a n → sch.revision n = sch.rank a + 1)
    (h : Sound sch legal allowed w) (hv : e.visible = e.durable)
    (hext : Extends legal w.engine.durable e.durable) : Sound sch legal allowed ⟨e, w.log⟩ := by
  refine ⟨h.traced, h.reached.trans hext, .inl hv, fun n hn => ?_, h.descending⟩
  exact Nat.le_trans (h.published n hn) (Extends.rank_le hrank hext)

theorem Moves.visible {e' : Engine J} (h : Moves e e') : e'.visible = e.visible := by
  cases h with
  | opens => rfl
  | closes => rfl
  | settles => cases e <;> rfl

theorem Sound.moves (hrank : ∀ a n, legal a n → sch.revision n = sch.rank a + 1)
    (h : Sound sch legal allowed w) (hm : Moves w.engine e) :
    Sound sch legal allowed ⟨e, w.log⟩ ∧ Extends legal w.engine.durable e.durable := by
  obtain ⟨e₀, log⟩ := w
  cases hm with
  | opens => exact ⟨h.raised hrank rfl h.extends, h.extends⟩
  | closes => exact ⟨⟨h.traced, h.reached, h.ahead, h.published, h.descending⟩, .refl⟩
  | settles =>
    cases e₀ with
    | ready doc => exact ⟨h.raised hrank rfl .refl, .refl⟩
    | uncertain | closed => exact ⟨h.raised hrank rfl h.extends, h.extends⟩

theorem Commits.extends {e' : Engine J} (h : Commits sch e expected next r e')
    (hlegal : Admissible sch e.visible expected next → legal e.visible next) :
    Extends legal e.durable e'.durable ∧ Extends legal e.visible e'.visible := by
  cases h with
  | closed | uncertain | refused | lost => exact ⟨.refl, .refl⟩
  | doubted hadm hd =>
    have hstep : Extends legal _ (some next) := .single ⟨next, rfl, hlegal hadm⟩
    rcases hd with rfl | rfl
    · exact ⟨.refl, hstep⟩
    · exact ⟨hstep, hstep⟩
  | done hadm =>
    have hstep : Extends legal _ (some next) := .single ⟨next, rfl, hlegal hadm⟩
    exact ⟨hstep, hstep⟩

end Engine

variable {K A : Type}

inductive Event (K A : Type) where
  | returned (call : K) (answer : A)
  | killed (call : K)
  | moved
  | powerLoss
  deriving DecidableEq

inductive Step (sch : Schema J) (program : K → Program (Request J Q O C) A) :
    World J Q O C → Event K A → World J Q O C → Prop where
  | returned {w v call answer} : Runs (environment sch) (program call) w (some answer) v →
      Step sch program w (.returned call answer) v
  | killed {w v call} : Runs (environment sch) (program call) w none v →
      Step sch program w (.killed call) ⟨v.engine.close, v.log⟩
  | moved {w e} : Moves w.engine e → Step sch program w .moved ⟨e, w.log⟩
  | powerLoss {w} : Step sch program w .powerLoss ⟨w.engine.losePower, w.log⟩

theorem step_serve (sch : Schema J) (observe : List (Record J Q O C) → Q → O)
    (program : K → Program (Request J Q O C) A) (call : K) (w : World J Q O C) :
    Step sch program w (.returned call ((program call).run (serve sch observe) w).1)
      ((program call).run (serve sch observe) w).2 :=
  .returned (Program.runs_run (serve_admitted sch observe) _ _)

/-- Sound, and both documents came from the given ones by transitions. -/
structure Keeps (sch : Schema J) (legal : Option J → J → Prop)
    (allowed : Record J Q O C → List (Record J Q O C) → Prop) (w₀ w : World J Q O C) : Prop where
  sound : Sound sch legal allowed w
  durable : Extends legal w₀.engine.durable w.engine.durable
  visible : Extends legal w₀.engine.visible w.engine.visible

section Programs

variable {sch : Schema J} {legal : Option J → J → Prop}
  {allowed : Record J Q O C → List (Record J Q O C) → Prop} {w₀ w u : World J Q O C}

theorem Keeps.refl (h : Sound sch legal allowed w) : Keeps sch legal allowed w w :=
  ⟨h, .refl, .refl⟩

theorem Keeps.cons (h : Keeps sch legal allowed w₀ w) {r : Record J Q O C}
    (hr : allowed r w.log) (hc : confirmed (r :: w.log) = confirmed w.log) :
    Keeps sch legal allowed w₀ { w with log := r :: w.log } :=
  ⟨h.sound.cons hr hc, h.durable, h.visible⟩

theorem Keeps.commit (hrank : ∀ a n, legal a n → sch.revision n = sch.rank a + 1)
    (h : Keeps sch legal allowed w₀ w)
    (hlegal : Admissible sch w.engine.visible expected next → legal w.engine.visible next)
    (hr : allowed (.commit w.engine.visible expected next r) w.log)
    (hu : environment sch (.commit expected next) w r u) : Keeps sch legal allowed w₀ u := by
  obtain ⟨hd, hv⟩ := Commits.extends hu.1 hlegal
  exact ⟨h.sound.commit hrank hlegal hr hu, h.durable.trans hd, h.visible.trans hv⟩

/-- The first commit: the expected zero is refused where a journal is present. -/
theorem Keeps.first (hrank : ∀ a n, legal a n → sch.revision n = sch.rank a + 1)
    (h : Keeps sch legal allowed w₀ w) (hnone : legal none next)
    (hpos : ∀ j, w.engine.visible = some j → sch.revision j ≠ 0)
    (hr : (r = .ok () → legal w.engine.visible next) →
      allowed (.commit w.engine.visible 0 next r) w.log)
    (hu : environment sch (.commit 0 next) w r u) : Keeps sch legal allowed w₀ u := by
  have hlegal : Admissible sch w.engine.visible 0 next → legal w.engine.visible next := by
    intro hadm
    cases hvis : w.engine.visible with
    | none => exact hnone
    | some j =>
      have hcurrent := hadm.current
      rw [hvis, Schema.rank_some] at hcurrent
      exact absurd hcurrent (hpos j hvis)
  refine h.commit hrank hlegal (hr ?_) hu
  rintro rfl
  exact hlegal hu.1.admissible

theorem Keeps.observe (h : Keeps sch legal allowed w₀ w)
    (hobs : ∀ q o rest, allowed (.observed q o) rest) {query : Q} {o : Option O}
    (hu : environment sch (.observe query) w o u) :
    Keeps sch legal allowed w₀ u ∧ u.engine = w.engine ∧
      ∀ a, o = some a → u.log = .observed query a :: w.log := by
  cases o with
  | none =>
    obtain rfl := hu
    exact ⟨h, rfl, by simp⟩
  | some s =>
    obtain rfl := hu
    refine ⟨h.cons (hobs _ _ _) rfl, rfl, fun a ha => ?_⟩
    rw [Option.some.inj ha]

variable {program : K → Program (Request J Q O C) A}

/-- What one step does, given that every call keeps the log and the transitions. -/
theorem step_keeps (hrank : ∀ a n, legal a n → sch.revision n = sch.rank a + 1)
    (hprogram : ∀ call w, Sound sch legal allowed w →
      Safe (environment sch) (Keeps sch legal allowed w) (fun _ _ => True) (program call) w)
    (h : Sound sch legal allowed w) {l : Event K A} (hs : Step sch program w l u) :
    Sound sch legal allowed u ∧ Extends legal w.engine.durable u.engine.durable ∧
      (l ≠ .powerLoss → Extends legal w.engine.visible u.engine.visible) := by
  cases hs with
  | returned hrun =>
    have hk := ((hprogram _ w h).sound hrun).1
    exact ⟨hk.sound, hk.durable, fun _ => hk.visible⟩
  | killed hrun =>
    have hk := ((hprogram _ w h).sound hrun).1
    obtain ⟨hsound, hd⟩ := hk.sound.moves hrank (.closes _)
    exact ⟨hsound, hk.durable.trans hd, fun _ => hk.visible⟩
  | moved hm =>
    obtain ⟨hsound, hd⟩ := h.moves hrank hm
    refine ⟨hsound, hd, fun _ => ?_⟩
    rw [Moves.visible hm]
    exact .refl
  | powerLoss => exact ⟨h.raised hrank rfl .refl, .refl, fun h => absurd rfl h⟩

/-- Over a whole run the durable journal moves by transitions only. -/
theorem run_keeps (hrank : ∀ a n, legal a n → sch.revision n = sch.rank a + 1)
    (hprogram : ∀ call w, Sound sch legal allowed w →
      Safe (environment sch) (Keeps sch legal allowed w) (fun _ _ => True) (program call) w)
    (h : Sound sch legal allowed w) {ls : List (Event K A)}
    (hrun : Execution (Step sch program) w ls u) :
    Sound sch legal allowed u ∧ Extends legal w.engine.durable u.engine.durable := by
  induction hrun with
  | nil => exact ⟨h, .refl⟩
  | snoc _ hs ih =>
    obtain ⟨hsound, hd, -⟩ := step_keeps hrank hprogram ih.1 hs
    exact ⟨hsound, ih.2.trans hd⟩

end Programs

def Holds (P : J → Prop) (w : World J Q O C) : Prop :=
  (∀ j, w.engine.visible = some j → P j) ∧ ∀ j, w.engine.durable = some j → P j

section Holds

variable {sch : Schema J} {P : J → Prop} {w u : World J Q O C}

theorem Holds.of_engine (h : Holds P w) (he : u.engine = w.engine) : Holds P u := by
  unfold Holds
  rw [he]
  exact h

theorem Holds.commit (h : Holds P w) (hn : Admissible sch w.engine.visible expected next → P next)
    (hu : environment sch (.commit expected next) w r u) : Holds P u := by
  obtain ⟨hc, -⟩ := hu
  obtain ⟨e, log⟩ := u
  obtain ⟨e₀, log₀⟩ := w
  obtain ⟨hv, hd⟩ := h
  cases hc with
  | closed | uncertain | refused | lost => exact ⟨hv, hd⟩
  | doubted hadm hdur =>
    refine ⟨fun j hj => Option.some.inj hj ▸ hn hadm, fun j hj => ?_⟩
    rcases hdur with rfl | rfl
    · exact hv j hj
    · exact Option.some.inj hj ▸ hn hadm
  | done hadm =>
    exact ⟨fun j hj => Option.some.inj hj ▸ hn hadm, fun j hj => Option.some.inj hj ▸ hn hadm⟩

theorem Holds.observe (h : Holds P w) {query : Q} {o : Option O}
    (hu : environment sch (.observe query) w o u) :
    Holds P u ∧ u.engine = w.engine := by
  cases o with
  | none | some =>
    obtain rfl := hu
    exact ⟨h, rfl⟩

theorem Holds.moves (h : Holds P w) (hm : Moves w.engine e) : Holds P ⟨e, w.log⟩ := by
  obtain ⟨e₀, log⟩ := w
  obtain ⟨hv, hd⟩ := h
  cases hm with
  | opens => exact ⟨hv, hv⟩
  | closes => exact ⟨hv, hd⟩
  | settles =>
    cases e₀ with
    | ready doc => exact ⟨hv, hd⟩
    | uncertain | closed => exact ⟨hv, hv⟩

def Event.call : Event K A → Option K
  | .returned call _ => some call
  | .killed call => some call
  | .moved => none
  | .powerLoss => none

variable {program : K → Program (Request J Q O C) A} {admitted : K → World J Q O C → Prop}

/-- A property that every call keeps, if it is made where it is admitted, holds after every
step. -/
theorem step_holds
    (hprogram : ∀ call w, Holds P w → admitted call w →
      Safe (environment sch) (Holds P) (fun _ _ => True) (program call) w)
    (h : Holds P w) {l : Event K A} (hs : Step sch program w l u)
    (hl : ∀ call, l.call = some call → admitted call w) : Holds P u := by
  cases hs with
  | returned hrun => exact ((hprogram _ w h (hl _ rfl)).sound hrun).1
  | killed hrun => exact ((hprogram _ w h (hl _ rfl)).sound hrun).1.moves (.closes _)
  | moved hm => exact h.moves hm
  | powerLoss => exact ⟨h.2, h.2⟩

def Commits (w u : World J Q O C) : Prop :=
  u.engine.visible ≠ w.engine.visible ∨ u.engine.durable ≠ w.engine.durable

/-- A property that the calls of a run keep holds at its end; a call that commits nothing need not
be admitted. -/
theorem run_holds
    (hprogram : ∀ call w, Holds P w → admitted call w →
      Safe (environment sch) (Holds P) (fun _ _ => True) (program call) w)
    (h : Holds P w) {ls : List (Event K A)}
    (hrun : Execution (fun w l u => Step sch program w l u ∧
      ∀ call, l.call = some call → Commits w u → admitted call w) w ls u) : Holds P u := by
  refine hrun.invariant (I := Holds P) (fun w l u hw hs => ?_) h
  by_cases hcommits : Commits w u
  · exact step_holds hprogram hw hs.1 fun call hcall => hs.2 call hcall hcommits
  · rw [Commits, not_or, not_not, not_not] at hcommits
    unfold Holds
    rw [hcommits.1, hcommits.2]
    exact hw

end Holds

section Commands

variable {sch : Schema J} {allowed : Record J Q O C → List (Record J Q O C) → Prop}

/-- A command directly follows the confirmed commit of the document it is issued under. -/
def FollowsCommit (allowed : Record J Q O C → List (Record J Q O C) → Prop) : Prop :=
  ∀ c durable rest, allowed (.command c durable) rest → ∃ before expected next older,
    rest = .commit before expected next (.ok ()) :: older ∧ durable = some next

theorem issued_confirmed (hcmd : FollowsCommit allowed) (h : Traced allowed log) {d : Option J}
    (hd : d ∈ issued log) : ∃ n ∈ confirmed log, d = some n := by
  induction log with
  | nil => simp [issued] at hd
  | cons r rest ih =>
    have weaken : (∃ n ∈ confirmed rest, d = some n) → ∃ n ∈ confirmed (r :: rest), d = some n := by
      rintro ⟨n, hn, rfl⟩
      refine ⟨n, ?_, rfl⟩
      match r with
      | .commit _ _ _ (.ok ()) => exact List.mem_cons_of_mem _ hn
      | .commit _ _ _ (.error _) => exact hn
      | .observed _ _ => exact hn
      | .command _ _ => exact hn
    cases r with
    | commit | observed => exact weaken (ih h.2 hd)
    | command c durable =>
      rcases List.mem_cons.mp hd with rfl | hd
      · obtain ⟨before, expected, next, older, rfl, hdur⟩ := hcmd c _ rest h.1
        exact ⟨next, List.mem_cons_self, hdur⟩
      · exact weaken (ih h.2 hd)

/-- No two commands are issued under the same revision, over the whole log. -/
theorem issued_descending (hcmd : FollowsCommit allowed) (h : Traced allowed log)
    (hdesc : (confirmed log).Pairwise fun a b => sch.revision b < sch.revision a) :
    (issued log).Pairwise fun a b => sch.rank b < sch.rank a := by
  induction log with
  | nil => exact .nil
  | cons r rest ih =>
    cases r with
    | commit before expected next result =>
      refine ih h.2 ?_
      match result with
      | .ok () => exact (List.pairwise_cons.mp hdesc).2
      | .error _ => exact hdesc
    | observed query o => exact ih h.2 hdesc
    | command c durable =>
      refine List.pairwise_cons.mpr ⟨fun d hd => ?_, ih h.2 hdesc⟩
      obtain ⟨before, expected, next, older, rfl, rfl⟩ := hcmd c _ rest h.1
      have hd' : d ∈ issued older := hd
      obtain ⟨n, hn, rfl⟩ := issued_confirmed hcmd h.2.2 hd'
      exact (List.pairwise_cons.mp hdesc).1 n hn

def commandCount (kind : C → Bool) : List (Record J Q O C) → Nat
  | [] => 0
  | .command c _ :: rest => (if kind c then 1 else 0) + commandCount kind rest
  | _ :: rest => commandCount kind rest

/-- A kind of command that needs one fixed revision is issued at most once. -/
theorem commandCount_le_one (hcmd : FollowsCommit allowed) {kind : C → Bool} {revision : Nat}
    (hkind : ∀ c durable rest, Traced allowed (.command c durable :: rest) → kind c = true →
      sch.rank durable = revision)
    (h : Traced allowed log)
    (hdesc : (confirmed log).Pairwise fun a b => sch.revision b < sch.revision a) :
    commandCount kind log ≤ 1 := by
  have hissued := issued_descending hcmd h hdesc
  clear hdesc hcmd
  -- once issued at this revision, every older command was issued below it
  have below : ∀ l : List (Record J Q O C), Traced allowed l →
      (∀ d ∈ issued l, sch.rank d < revision) → commandCount kind l = 0 := by
    intro l hl hlow
    induction l with
    | nil => rfl
    | cons r rest ih =>
      cases r with
      | commit | observed => exact ih hl.2 hlow
      | command c durable =>
        have hrest := ih hl.2 fun d hd => hlow d (List.mem_cons_of_mem _ hd)
        have hlt := hlow durable List.mem_cons_self
        cases hk : kind c with
        | false => simpa [commandCount, hk] using hrest
        | true =>
          rw [hkind c durable rest hl hk] at hlt
          exact absurd hlt (Nat.lt_irrefl _)
  induction log with
  | nil => exact Nat.zero_le _
  | cons r rest ih =>
    cases r with
    | commit | observed => exact ih h.2 hissued
    | command c durable =>
      obtain ⟨hlow, hrest⟩ := List.pairwise_cons.mp hissued
      cases hk : kind c with
      | false => simpa [commandCount, hk] using ih h.2 hrest
      | true =>
        rw [hkind c durable rest h hk] at hlow
        simp [commandCount, hk, below rest h.2 hlow]

end Commands

end JournaledCommands
