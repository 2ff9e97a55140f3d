import PhantoWD.JournaledCommands

/-!
The engine of an operation is the open handle of a store. A site is a directory with the log of
the operation that runs on it, and the process can die inside a commit. Whatever holds of every
engine of the operation holds of an engine that describes the site.
-/
namespace JournaledStores

open EffectProgram RevisionStore RevisionEngine JournaledCommands
open RevisionHistory (Invariant)

variable {J Q O C K A : Type}

structure Site (J Q O C : Type) where
  store : RevisionHistory.World
  log : List (Record J Q O C)
  alive : Bool := true

def IsOpen (w : RevisionHistory.World) (i : Nat) : Prop :=
  (w.store i).ready = true ∧ (w.store i).closed = false

section Store

variable (c : Codec J) (euid : Nat)

/-- The store answers on its open handle, and the log takes the documents from the directory. A
call asks for the journal only once it has found the handle open. A commit that renamed before
the process died is recorded as uncertain. -/
inductive Answers : Handler (Request J Q O C) (Site J Q O C) where
  | attached {w log b} : (b = true ↔ ∃ i, IsOpen w i) →
      Answers .attached ⟨w, log, true⟩ b ⟨w, log, true⟩
  | load {w v log i r renamed} : IsOpen w i →
      RevisionHistory.Step c euid w (.returned (.load i) (.loaded r) renamed) v →
      Answers .load ⟨w, log, true⟩ r ⟨v, log, true⟩
  | commit {w v log i expected next r renamed before} : IsOpen w i →
      view c euid w.machine.current = .ok before →
      RevisionHistory.Step c euid w (.returned (.commit i expected next) (.finished r) renamed) v →
      Answers (.commit expected next) ⟨w, log, true⟩ r
        ⟨v, .commit before expected next r :: log, true⟩
  | dies {w v log i expected next before} : view c euid w.machine.current = .ok before →
      RevisionHistory.Step c euid w (.killed (.commit i expected next) true) v →
      Answers (.commit expected next) ⟨w, log, true⟩ (.error .uncertain)
        ⟨v, .commit before expected next (.error .uncertain) :: log, false⟩
  | cancelled {w log b} : Answers .cancelled ⟨w, log, true⟩ b ⟨w, log, true⟩
  | unobserved {w log query} : Answers (.observe query) ⟨w, log, true⟩ none ⟨w, log, true⟩
  | observed {w log query o} :
      Answers (.observe query) ⟨w, log, true⟩ (some o) ⟨w, .observed query o :: log, true⟩
  | command {w log cmd b durable} : view c euid w.machine.durable = .ok durable →
      Answers (.command cmd) ⟨w, log, true⟩ b ⟨w, .command cmd durable :: log, true⟩

/-- Calls run on the directory. The process dies inside a commit, or elsewhere before a rename;
between calls the directory is opened, closed, written back or loses power. -/
inductive SiteStep (program : K → Program (Request J Q O C) A) :
    Site J Q O C → Event K A → Site J Q O C → Prop where
  | returned {s w log call answer} :
      Runs (Answers c euid) (program call) s (some answer) ⟨w, log, true⟩ →
      SiteStep program s (.returned call answer) ⟨w, log, true⟩
  | died {s w log call} : Runs (Answers c euid) (program call) s none ⟨w, log, false⟩ →
      SiteStep program s (.killed call) ⟨w, log, true⟩
  | killed {s w v log call inside} :
      Runs (Answers c euid) (program call) s none ⟨w, log, true⟩ →
      RevisionHistory.Step c euid w (.killed inside false) v →
      SiteStep program s (.killed call) ⟨v, log, true⟩
  | moved {w v log l} : (∀ i expected next, l.call ≠ some (.commit i expected next)) →
      RevisionHistory.Step c euid w l v →
      SiteStep program ⟨w, log, true⟩ .moved ⟨v, log, true⟩

/-- The engine of the operation describes the directory; a process that died has closed it. -/
structure Tracks (s : Site J Q O C) (w : World J Q O C) : Prop where
  store : Invariant s.store
  engine : Refines c euid s.store (if s.alive then w.engine else w.engine.close)
  log : w.log = s.log

end Store

section Simulation

variable {c : Codec J} {euid : Nat} {program : K → Program (Request J Q O C) A}
  {s t : Site J Q O C} {w : World J Q O C} {I : World J Q O C → Prop}

theorem isOpen_iff {m : RevisionHistory.World} {e : Engine J} (h : Refines c euid m e) :
    e.isOpen = true ↔ ∃ i, IsOpen m i := by
  cases e with
  | ready doc =>
    obtain ⟨-, -, i, hr, hc, -⟩ := h
    simpa [Engine.isOpen] using ⟨i, hr, hc⟩
  | uncertain visible durable =>
    obtain ⟨-, i, hr, hc, -⟩ := h
    simpa [Engine.isOpen] using ⟨i, hr, hc⟩
  | closed visible durable =>
    simp only [Engine.isOpen, Bool.false_eq_true, false_iff]
    rintro ⟨i, hr, hc⟩
    rw [h.2 i _ (RevisionHistory.World.getElem?_of_ready hr)] at hc
    cases hc

/-- Each answer of a directory is an answer of its engine. -/
theorem answers_tracked (hcodec : c.RoundTrips) {β : Type} {r : Request J Q O C β} {b : β}
    (h : Answers c euid r s b t) (hw : Tracks c euid s w) :
    ∃ w', environment (schemaOf c) r w b w' ∧ Tracks c euid t w' := by
  obtain ⟨e, log⟩ := w
  obtain ⟨hinv, he, rfl⟩ := hw
  have visible : ∀ {m doc}, Refines c euid m e → view c euid m.machine.current = .ok doc →
      e.visible = doc := fun hm hdoc => Except.ok.inj (hm.shows.visible.symm.trans hdoc)
  cases h with
  | attached hb =>
    exact ⟨_, ⟨Bool.eq_iff_iff.mpr (hb.trans (isOpen_iff (e := e) he).symm), rfl⟩, hinv, he, rfl⟩
  | load hi hs =>
    obtain rfl := RevisionHistory.load_unchanged hinv hs
    exact ⟨_, ⟨load_refines hinv he hi.1 hi.2 hs, rfl⟩, hinv, he, rfl⟩
  | commit hi hdoc hs =>
    obtain ⟨e', hc, he'⟩ := commit_refines hcodec hinv (e := e) he hi.1 hi.2 hs
    obtain rfl := visible he hdoc
    exact ⟨⟨e', _⟩, ⟨hc, rfl⟩, RevisionHistory.step_preserves_invariant hinv hs, he', rfl⟩
  | dies hdoc hs =>
    obtain ⟨e', hc, he'⟩ := killed_refines hcodec hinv (e := e) he hs
    obtain rfl := visible he hdoc
    exact ⟨⟨e', _⟩, ⟨hc, rfl⟩, RevisionHistory.step_preserves_invariant hinv hs, he', rfl⟩
  | cancelled | unobserved | observed => exact ⟨_, rfl, hinv, he, rfl⟩
  | command hdoc =>
    obtain rfl := Except.ok.inj ((Refines.shows (e := e) he).durable.symm.trans hdoc)
    exact ⟨_, rfl, hinv, he, rfl⟩

theorem advances_keeps
    (hI : ∀ w l v, I w → Step (schemaOf c) program w l v → I v) {e e' : Engine J}
    {log : List (Record J Q O C)} (h : Relation.ReflTransGen (Advances c fun _ _ => False) e e')
    (he : I ⟨e, log⟩) : I ⟨e', log⟩ := by
  induction h with
  | refl => exact he
  | tail _ ha ih =>
    rcases ha with ⟨_, _, _, hc, hnever⟩ | hm | rfl
    · -- without an admissible document a commit leaves the engine as it is
      cases hc with
      | closed | uncertain | refused => exact ih
      | lost hadm | doubted hadm _ | done hadm => exact (hnever hadm).elim
    · exact hI _ _ _ ih (.moved hm)
    · exact hI _ _ _ ih .powerLoss

/-- What every step of the operation keeps is kept, at an engine that describes the site. -/
theorem siteStep_tracked (hcodec : c.RoundTrips)
    (hI : ∀ w l v, I w → Step (schemaOf c) program w l v → I v) {l : Event K A}
    (h : SiteStep c euid program s l t) (hw : I w) (hs : Tracks c euid s w) :
    ∃ w', I w' ∧ Tracks c euid t w' := by
  cases h with
  | returned hrun =>
    obtain ⟨w', hrun', ht⟩ := hrun.related (answers_tracked hcodec) hs
    exact ⟨w', hI _ _ _ hw (.returned hrun'), ht⟩
  | died hrun =>
    obtain ⟨w', hrun', ht⟩ := hrun.related (answers_tracked hcodec) hs
    exact ⟨_, hI _ _ _ hw (.killed hrun'), ht.store, ht.engine, ht.log⟩
  | killed hrun hkill =>
    obtain ⟨w', hrun', ht⟩ := hrun.related (answers_tracked hcodec) hs
    have hclosed := hI _ _ _ hw (.killed hrun')
    have hinv := RevisionHistory.step_preserves_invariant ht.store hkill
    obtain ⟨m, ho, rfl⟩ := RevisionHistory.killed_opening ht.store hkill
    rcases (Refines.shows (e := w'.engine) ht.engine).opening ho with hm | hm
    · exact ⟨_, hclosed, hinv, refines_dropHandles hm, ht.log⟩
    · exact ⟨_, hI _ _ _ hclosed (.moved (.settles _)), hinv, refines_dropHandles hm, ht.log⟩
  | moved hquiet hstep =>
    obtain ⟨e', hreach, he'⟩ := step_refines (e := w.engine) hcodec hs.store hs.engine
      (fun i expected next hcall => absurd hcall (hquiet i expected next)) hstep
    exact ⟨_, advances_keeps hI hreach hw, RevisionHistory.step_preserves_invariant hs.store hstep,
      he', hs.log⟩

/-- Every history of a site from a readable directory. -/
theorem site_tracked (hcodec : c.RoundTrips)
    (hI : ∀ w l v, I w → Step (schemaOf c) program w l v → I v) {m : RevisionHistory.World}
    {doc : Option J} (hm : m.Initial) (hshow : Shows c euid m.machine doc doc)
    (hw : I ⟨.closed doc doc, []⟩) {ls : List (Event K A)}
    (h : Execution (SiteStep c euid program) ⟨m, [], true⟩ ls s) :
    ∃ w, I w ∧ Tracks c euid s w := by
  refine h.invariant (I := fun s => ∃ w, I w ∧ Tracks c euid s w) ?_
    ⟨_, hw, RevisionHistory.initial_invariant hm, ⟨hshow, by simp [hm.1]⟩, rfl⟩
  rintro s l t ⟨w, hw, hs⟩ hstep
  exact siteStep_tracked hcodec hI hstep hw hs

end Simulation

end JournaledStores
