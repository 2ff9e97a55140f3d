import Mathlib.Logic.Relation
import PhantoWD.RevisionHistory

/-!
An engine is a document cell. After an uncertain commit the visible document and the one a power
loss would bring back can differ. Every history of the store is a history of engines.
-/
namespace RevisionEngine

open GoText EffectProgram RevisionStore RevisionHistory

variable {T : Type}

structure Schema (T : Type) where
  validate : T → Bool
  revision : T → Nat

def Schema.rank (sch : Schema T) : Option T → Nat
  | none => 0
  | some doc => sch.revision doc

@[simp] theorem Schema.rank_none (sch : Schema T) : sch.rank none = 0 := rfl

@[simp] theorem Schema.rank_some (sch : Schema T) (doc : T) :
    sch.rank (some doc) = sch.revision doc := rfl

inductive Engine (T : Type) where
  | ready (doc : Option T)
  | uncertain (visible durable : Option T)
  | closed (visible durable : Option T)
  deriving DecidableEq

def Engine.visible : Engine T → Option T
  | .ready doc => doc
  | .uncertain visible _ | .closed visible _ => visible

def Engine.durable : Engine T → Option T
  | .ready doc => doc
  | .uncertain _ durable | .closed _ durable => durable

def Engine.isOpen : Engine T → Bool
  | .closed _ _ => false
  | _ => true

def Engine.close (e : Engine T) : Engine T := .closed e.visible e.durable

def Engine.settle : Engine T → Engine T
  | .ready doc => .ready doc
  | .uncertain visible _ => .uncertain visible visible
  | .closed visible _ => .closed visible visible

structure Admissible (sch : Schema T) (current : Option T) (expected : Nat) (next : T) : Prop where
  bounded : expected ≠ maxUint64
  revision : sch.revision next = expected + 1
  valid : sch.validate next = true
  current : sch.rank current = expected

inductive Loads : Engine T → Except StoreError T → Prop where
  | closed {visible durable} : Loads (.closed visible durable) (.error .closed)
  | uncertain {visible durable} : Loads (.uncertain visible durable) (.error .uncertain)
  | absent : Loads (.ready none) (.error .notInitialized)
  | found {doc} : Loads (.ready (some doc)) (.ok doc)
  | failed {doc e} : e = .unsafeStorage ∨ e = .invalid ∨ e = .io → Loads (.ready doc) (.error e)

inductive Commits (sch : Schema T) :
    Engine T → Nat → T → Except StoreError Unit → Engine T → Prop where
  | closed {visible durable expected next} :
      Commits sch (.closed visible durable) expected next (.error .closed)
        (.closed visible durable)
  | uncertain {visible durable expected next} :
      Commits sch (.uncertain visible durable) expected next (.error .uncertain)
        (.uncertain visible durable)
  | refused {doc expected next e} : e ≠ .closed → e ≠ .uncertain →
      Commits sch (.ready doc) expected next (.error e) (.ready doc)
  | lost {doc expected next} : Admissible sch doc expected next →
      Commits sch (.ready doc) expected next (.error .uncertain) (.uncertain doc doc)
  | doubted {doc durable expected next} : Admissible sch doc expected next →
      durable = doc ∨ durable = some next →
      Commits sch (.ready doc) expected next (.error .uncertain) (.uncertain (some next) durable)
  | done {doc expected next} : Admissible sch doc expected next →
      Commits sch (.ready doc) expected next (.ok ()) (.ready (some next))

theorem Loads.of_ok {e : Engine T} {doc : T} (h : Loads e (.ok doc)) : e = .ready (some doc) := by
  cases h
  rfl

variable {expected i : Nat} {next : T} {e' : Engine T} {m : Machine} {doc : Option T}

theorem Commits.of_ok {sch : Schema T} {e : Engine T}
    (h : Commits sch e expected next (.ok ()) e') : e' = .ready (some next) := by
  cases h
  rfl

theorem Commits.admissible {sch : Schema T} {e : Engine T}
    (h : Commits sch e expected next (.ok ()) e') : Admissible sch e.visible expected next := by
  cases h
  assumption

inductive Moves : Engine T → Engine T → Prop where
  | opens {visible durable} : Moves (.closed visible durable) (.ready visible)
  | closes (e) : Moves e e.close
  | settles (e) : Moves e e.settle

def Engine.losePower (e : Engine T) : Engine T := .closed e.durable e.durable

section Refinement

variable (c : Codec T) (euid : Nat)

def schemaOf : Schema T := ⟨c.validate, c.revision⟩

/-- The machine shows these documents, now and after a power loss. -/
structure Shows (m : Machine) (visible durable : Option T) : Prop where
  visible : view c euid m.current = .ok visible
  durable : view c euid m.durable = .ok durable
  flushed : m.Flushed

/-- An engine describes a world through its open handle, if there is one. -/
def Refines (w : World) : Engine T → Prop
  | .ready doc => Shows c euid w.machine doc doc ∧ w.machine.Synced ∧
      ∃ i, (w.store i).Usable
  | .uncertain visible durable => Shows c euid w.machine visible durable ∧
      ∃ i, (w.store i).ready = true ∧ (w.store i).closed = false ∧ (w.store i).uncertain = true
  | .closed visible durable => Shows c euid w.machine visible durable ∧
      ∀ (i : Nat) (s : Store), w.handles[i]? = some s → s.closed = true

variable {c euid} {w v : World} {e : Engine T}

theorem Refines.shows (h : Refines c euid w e) : Shows c euid w.machine e.visible e.durable := by
  cases e <;> exact h.1

theorem Shows.opening {m' : Machine} {visible durable : Option T}
    (h : Shows c euid m visible durable) (ho : Opening m m') :
    Shows c euid m' visible durable ∨ Shows c euid m' visible visible := by
  obtain ⟨hf, hd⟩ := ho.settles h.flushed
  have hv : view c euid m'.current = .ok visible := ho.current ▸ h.visible
  rcases hd with hd | hd
  · exact .inl ⟨hv, hd ▸ h.durable, hf⟩
  · exact .inr ⟨hv, hd ▸ h.visible, hf⟩

theorem admits_admissible {data : Bytes} (h : Admits c euid m expected next data)
    (hview : view c euid m.current = .ok doc) : Admissible (schemaOf c) doc expected next := by
  obtain ⟨doc', hview', hrank⟩ := h.current
  rw [hview] at hview'
  obtain rfl := Except.ok.inj hview'
  refine ⟨h.bounded, h.revision, h.valid, ?_⟩
  rw [← hrank]
  cases doc <;> rfl

/-- After a rename either document may come back, but no third one. -/
theorem attempts_shows (hcodec : c.RoundTrips) {s : Store} {m' : Machine}
    (h : Attempts c euid s expected next m m') (hshow : Shows c euid m doc doc) :
    Admissible (schemaOf c) doc expected next ∧
      (Shows c euid m' doc doc ∨
        ∃ durable, (durable = doc ∨ durable = some next) ∧
          Shows c euid m' (some next) durable) := by
  obtain ⟨-, data, hadmits, hren⟩ := h
  have hfresh : view c euid (some (.fresh euid data)) = .ok (some next) :=
    view_fresh hcodec hadmits.valid hadmits.encoded hadmits.sized
  refine ⟨admits_admissible hadmits hshow.visible, ?_⟩
  rcases hren.outcome with ⟨hcur, hfl, hdur⟩ | ⟨hcur, hfl, hdur⟩
  · refine .inl ⟨hcur ▸ hshow.visible, hdur ▸ hshow.durable, ?_⟩
    unfold Machine.Flushed
    rw [hcur, hfl]
    exact hshow.flushed
  · rcases hdur with hdur | hdur
    · exact .inr ⟨doc, .inl rfl, hcur ▸ hfresh, hdur ▸ hshow.durable, .inl hfl⟩
    · exact .inr ⟨some next, .inr rfl, hcur ▸ hfresh, hdur ▸ hfresh, .inl hfl⟩

theorem Refines.of_open (hw : Invariant w) (h : Refines c euid w e)
    (hr : (w.store i).ready = true) (hc : (w.store i).closed = false) :
    ((w.store i).uncertain = false ∧ ∃ doc, e = .ready doc) ∨
      ((w.store i).uncertain = true ∧ ∃ visible durable, e = .uncertain visible durable) := by
  have hi := World.getElem?_of_ready hr
  have same : ∀ j, (w.store j).ready = true → (w.store j).closed = false →
      w.store j = w.store i := by
    intro j hjr hjc
    rw [hw.sole (World.getElem?_of_ready hjr) hi hjc hc]
  cases e with
  | ready doc =>
    obtain ⟨-, -, j, hj⟩ := h
    exact .inl ⟨same j hj.1 hj.2.1 ▸ hj.2.2, doc, rfl⟩
  | uncertain visible durable =>
    obtain ⟨-, j, hjr, hjc, hju⟩ := h
    exact .inr ⟨same j hjr hjc ▸ hju, visible, durable, rfl⟩
  | closed visible durable =>
    rw [h.2 i _ hi] at hc
    cases hc

theorem Refines.quiet (h : Refines c euid w e) (hq : Quiet w.machine m) :
    Refines c euid ⟨m, w.handles⟩ e := by
  have hs : Shows c euid m e.visible e.durable :=
    ⟨hq.current ▸ h.shows.visible, hq.durable ▸ h.shows.durable,
      (hq.opening.settles h.shows.flushed).1⟩
  cases e with
  | ready doc => exact ⟨hs, hq.opening.synced h.2.1, h.2.2⟩
  | uncertain | closed => exact ⟨hs, h.2⟩

theorem refines_dropHandles {visible durable : Option T} (h : Shows c euid m visible durable) :
    Refines c euid (dropHandles m w.handles) (.closed visible durable) :=
  ⟨⟨h.visible, h.durable, h.flushed⟩, fun _ _ hs => (aged_drop hs).1⟩

/-- A commit on the open handle answers as the engine does. -/
theorem commit_refines (hcodec : c.RoundTrips) (hw : Invariant w) (he : Refines c euid w e)
    {r : Except StoreError Unit} {renamed : Bool} (hready : (w.store i).ready = true)
    (hclosed : (w.store i).closed = false)
    (h : Step c euid w (.returned (.commit i expected next) (.finished r) renamed) v) :
    ∃ e', Commits (schemaOf c) e expected next r e' ∧ Refines c euid v e' := by
  obtain ⟨t, ht, hc⟩ := commit_result hw h
  obtain ⟨m, handles⟩ := v
  obtain rfl : handles = w.handles.set i t := ht
  have hi := World.getElem?_of_ready hready
  have hlt := (List.getElem?_eq_some_iff.mp hi).1
  have hstore : World.store ⟨m, w.handles.set i t⟩ i = t :=
    World.store_of_getElem? (List.getElem?_set_self hlt)
  have refused : t = w.store i → Quiet w.machine m →
      Refines c euid ⟨m, w.handles.set i t⟩ e := by
    rintro rfl hq
    rw [w.set_store]
    exact he.quiet hq
  rcases he.of_open hw hready hclosed with ⟨hu, doc, rfl⟩ | ⟨hu, visible, durable, rfl⟩
  · rcases r with err | ⟨⟩
    · cases err with
      | uncertain =>
        obtain ⟨rfl, ha⟩ : t = { w.store i with uncertain := true } ∧ _ := by
          simpa [Committed, hu] using hc
        obtain ⟨hadm, hs | ⟨durable, hd, hs⟩⟩ := attempts_shows hcodec ha he.1
        · exact ⟨_, .lost hadm, hs, i, by rw [hstore]; exact ⟨hready, hclosed, rfl⟩⟩
        · exact ⟨_, .doubted hadm hd, hs, i, by rw [hstore]; exact ⟨hready, hclosed, rfl⟩⟩
      | closed => simp [Committed, hready, hclosed] at hc
      | _ => exact ⟨_, .refused (by simp) (by simp), refused hc.1 hc.2.1⟩
    · obtain ⟨rfl, ha, ⟨_, hdata, hcur⟩, hsync⟩ := hc
      obtain ⟨hadm, -⟩ := attempts_shows hcodec ha he.1
      obtain ⟨-, data, hadmits, -⟩ := ha
      cases hadmits.encoded.symm.trans hdata
      have hview : view c euid m.current = .ok (some next) :=
        hcur ▸ view_fresh hcodec hadmits.valid hdata hadmits.sized
      exact ⟨_, .done hadm, ⟨hview, hsync.1.symm ▸ hview, hsync.2⟩, hsync, i, by
        rw [hstore]; exact ⟨hready, hclosed, hu⟩⟩
  · have unusable : ¬ (w.store i).Usable := fun h => by rw [Store.Usable, hu] at h; cases h.2.2
    rcases r with err | ⟨⟩
    · cases err with
      | uncertain =>
        obtain ⟨rfl, -, hq⟩ | ⟨-, ha⟩ := hc
        · exact ⟨_, .uncertain, refused rfl hq⟩
        · exact absurd ha.1 unusable
      | closed => simp [Committed, hready, hclosed] at hc
      | _ => exact absurd hc.2.2 unusable
    · exact absurd hc.2.1.1 unusable

/-- A load on the open handle answers as the engine does. -/
theorem load_refines (hw : Invariant w) (he : Refines c euid w e) {r : Except StoreError T}
    {renamed : Bool} (hready : (w.store i).ready = true) (hclosed : (w.store i).closed = false)
    (h : Step c euid w (.returned (.load i) (.loaded r) renamed) v) : Loads e r := by
  have hr := load_result hw h
  rcases he.of_open hw hready hclosed with ⟨hu, doc, rfl⟩ | ⟨hu, visible, durable, rfl⟩
  · obtain rfl : r = present (.ok doc) := by
      simpa [hready, hclosed, hu, Store.Usable, he.1.visible] using hr
    cases doc with
    | none => exact .absent
    | some doc => exact .found
  · obtain rfl : r = .error .uncertain := by simpa [hready, hclosed, hu, Store.Usable] using hr
    exact .uncertain

theorem killed_refines (hcodec : c.RoundTrips) (hw : Invariant w) (he : Refines c euid w e)
    (h : Step c euid w (.killed (.commit i expected next) true) v) :
    ∃ e', Commits (schemaOf c) e expected next (.error .uncertain) e' ∧
      Refines c euid v e'.close := by
  cases step_outcome hw h with
  | stays _ _ hquiet | opens _ _ hquiet => cases hquiet
  | diesPublishing ha =>
    obtain ⟨hu, -, -⟩ := ha.frame
    rcases he.of_open hw hu.1 hu.2.1 with ⟨-, doc, rfl⟩ | ⟨hunc, -⟩
    · obtain ⟨hadm, hs | ⟨durable, hd, hs⟩⟩ := attempts_shows hcodec ha he.1
      · exact ⟨_, .lost hadm, refines_dropHandles hs⟩
      · exact ⟨_, .doubted hadm hd, refines_dropHandles hs⟩
    · rw [hu.2.2] at hunc
      cases hunc

variable (c) in
/-- One engine step: a commit with any outcome, a move, or a power loss. What is admitted may
follow the document on display. -/
def Advances (may : Option T → T → Prop) (e e' : Engine T) : Prop :=
  (∃ expected next r, Commits (schemaOf c) e expected next r e' ∧
    (Admissible (schemaOf c) e.visible expected next → may e.visible next)) ∨
  Moves e e' ∨ e' = e.losePower

variable (c euid) in
/-- A commit is asked for with a document that may follow the current one. -/
def Obeys (may : Option T → T → Prop) (w : World) (l : Event T) : Prop :=
  ∀ i expected next, l.call = some (.commit i expected next) → ∀ doc,
    view c euid w.machine.current = .ok doc → Admissible (schemaOf c) doc expected next →
      may doc next

variable {may : Option T → T → Prop} {floor : Option T} {l : Event T}

theorem advances_close (h : Relation.ReflTransGen (Advances c may) e e') :
    Relation.ReflTransGen (Advances c may) e e'.close :=
  h.tail (.inr (.inl (.closes e')))

/-- Opening moves, as far as the engine can tell, at most to the settled engine. -/
theorem opening_refines (he : Refines c euid w e) (ho : Opening w.machine m) :
    ∃ e', Relation.ReflTransGen (Advances c may) e e' ∧ Refines c euid ⟨m, w.handles⟩ e' := by
  have hsettle : Relation.ReflTransGen (Advances c may) e e.settle :=
    .single (.inr (.inl (.settles e)))
  cases e with
  | ready doc => exact ⟨_, .refl, (he.1.opening ho).elim id id, ho.synced he.2.1, he.2.2⟩
  | uncertain | closed =>
    exact (he.1.opening ho).elim (⟨_, .refl, ·, he.2⟩) (⟨_, hsettle, ·, he.2⟩)

/-- Every step of a store is a few steps of its engine. -/
theorem step_refines (hcodec : c.RoundTrips) (hw : Invariant w) (he : Refines c euid w e)
    (hmay : Obeys c euid may w l) (h : Step c euid w l v) :
    ∃ e', Relation.ReflTransGen (Advances c may) e e' ∧ Refines c euid v e' := by
  have byCommit : ∀ {e' : Engine T} {i expected next r}, l.call = some (.commit i expected next) →
      Commits (schemaOf c) e expected next r e' → Relation.ReflTransGen (Advances c may) e e' :=
    fun hl hc => .single (.inl ⟨_, _, _, hc, hmay _ _ _ hl _ he.shows.visible⟩)
  cases step_outcome hw h with
  | stays ho _ _ => exact opening_refines he ho
  | @opens _ m t ho hopen _ =>
    have hclosed := fun i hr =>
      hw.closed_of_unlocked hopen.unlocked (@World.getElem?_of_ready w i hr)
    cases e with
    | ready doc =>
      obtain ⟨-, -, i, hr, hc, -⟩ := he
      exact absurd (hclosed i hr) (by simp [hc])
    | uncertain visible durable =>
      obtain ⟨-, i, hr, hc, -⟩ := he
      exact absurd (hclosed i hr) (by simp [hc])
    | closed visible durable =>
      have hv : view c euid m.current = .ok visible := ho.current ▸ he.1.visible
      have hnew : World.store ⟨m, w.handles ++ [t]⟩ w.handles.length = t :=
        World.store_of_getElem? (by simp)
      exact ⟨.ready visible, .single (.inr (.inl .opens)), ⟨hv, hopen.synced.1.symm ▸ hv,
        hopen.synced.2⟩, hopen.synced, _, by rw [hnew, hopen.store]; exact ⟨rfl, rfl, rfl⟩⟩
  | commits ha | doubts ha =>
    obtain ⟨e', hc, hr⟩ := commit_refines hcodec hw he ha.frame.1.1 ha.frame.1.2.1 h
    exact ⟨e', byCommit rfl hc, hr⟩
  | @closes i _ hr hc =>
    obtain ⟨e', hrun, href⟩ := opening_refines he (release_opening w.machine (w.store i).dir)
    refine ⟨e'.close, advances_close hrun, href.shows, fun j s hs => ?_⟩
    by_contra hopen
    have hage : Ages (w.store i) { w.store i with closed := true } :=
      ⟨rfl, rfl, fun _ => rfl, id⟩
    obtain rfl := hw.open_after_set hr hc hage hs (by simpa using hopen)
    exact hopen rfl
  | dies ho =>
    obtain ⟨e', hrun, href⟩ := opening_refines he ho
    exact ⟨e'.close, advances_close hrun, refines_dropHandles href.shows⟩
  | diesPublishing =>
    obtain ⟨e', hc, hr⟩ := killed_refines hcodec hw he h
    exact ⟨_, advances_close (byCommit rfl hc), hr⟩
  | losesPower hcur _ _ hs =>
    have hv : view c euid _ = .ok _ := hcur ▸ he.shows.durable
    exact ⟨_, .single (.inr (.inr rfl)), refines_dropHandles ⟨hv, hs.1.symm ▸ hv, hs.2⟩⟩

/-- Every history of a store from a readable directory is a history of its engine, with the rule
that its clients obey, and on an open handle the store answers as the engine does. -/
theorem store_simulates_engine (hcodec : c.RoundTrips) {w₀ : World} {ls : List (Event T)}
    (h₀ : w₀.Initial) (hshow : Shows c euid w₀.machine doc doc)
    (hrun : Execution (fun w l v => Step c euid w l v ∧ Obeys c euid may w l) w₀ ls w) :
    ∃ e, Relation.ReflTransGen (Advances c may) (.closed doc doc) e ∧ Refines c euid w e ∧
      ∀ i, (w.store i).ready = true → (w.store i).closed = false →
        (∀ r renamed v, Step c euid w (.returned (.load i) (.loaded r) renamed) v → Loads e r) ∧
        ∀ expected next r renamed v,
          Step c euid w (.returned (.commit i expected next) (.finished r) renamed) v →
            ∃ e', Commits (schemaOf c) e expected next r e' ∧ Refines c euid v e' := by
  have hreach : Invariant w ∧ ∃ e, Relation.ReflTransGen (Advances c may) (.closed doc doc) e ∧
      Refines c euid w e := by
    induction hrun with
    | nil => exact ⟨initial_invariant h₀, .closed doc doc, .refl, hshow, by simp [h₀.1]⟩
    | snoc _ hs ih =>
      obtain ⟨hw, e', hreach, href⟩ := ih
      obtain ⟨e'', hadv, href'⟩ := step_refines hcodec hw href hs.2 hs.1
      exact ⟨step_preserves_invariant hw hs.1, e'', hreach.trans hadv, href'⟩
  obtain ⟨hw, e, hreach, href⟩ := hreach
  exact ⟨e, hreach, href, fun i hr hc => ⟨fun r renamed v => load_refines hw href hr hc,
    fun expected next r renamed v => commit_refines hcodec hw href hr hc⟩⟩

def recoveredDirectory : World :=
  (serve unaryCodec 0 (afterPowerLoss firstCommitted) (.openDir (ascii "/srv"))).2

/-- The first commit survives a power loss: the engine reached by it answers the next load. -/
theorem first_store_simulates_engine :
    ∃ e, Relation.ReflTransGen (Advances unaryCodec fun doc n => n = doc.getD 0 + 1)
        (.closed none none) e ∧
      Refines unaryCodec 0 recoveredDirectory e ∧ Loads e (.ok 1) := by
  have hobeys : ∀ w l, Obeys unaryCodec 0 (fun doc n => n = doc.getD 0 + 1) w l := by
    intro w l i expected next _ doc _ hadmissible
    have hrevision : next = expected + 1 := hadmissible.revision
    have hrank := hadmissible.current
    cases doc with
    | none | some => exact hrevision.trans (congrArg (· + 1) hrank.symm)
  obtain ⟨e, hreach, href, hanswers⟩ := store_simulates_engine unaryCodec_roundTrips ⟨rfl, rfl⟩
    ⟨rfl, rfl, .inr rfl⟩ (.snoc (.snoc (.snoc (.snoc (.nil emptyDirectory)
      ⟨step_serve unaryCodec 0 _ (.openDir (ascii "/srv")), hobeys _ _⟩)
      ⟨step_serve unaryCodec 0 openedDirectory (.commit 0 0 1), hobeys _ _⟩)
      ⟨.powerLoss, hobeys _ _⟩)
      ⟨step_serve unaryCodec 0 (afterPowerLoss firstCommitted) (.openDir (ascii "/srv")),
        hobeys _ _⟩)
  exact ⟨e, hreach, href, (hanswers 1 rfl rfl).1 _ _ _ (step_serve unaryCodec 0 _ (.load 1))⟩

def Follows (may : Option T → T → Prop) : Option T → Option T → Prop :=
  Relation.ReflTransGen fun a b => ∃ next, b = some next ∧ may a next

/-- The durable document follows a given one, and the visible document follows the durable. -/
def Engine.Grows (may : Option T → T → Prop) (floor : Option T) (e : Engine T) : Prop :=
  Follows may floor e.durable ∧ Follows may e.durable e.visible

theorem Engine.Grows.advances (h : e.Grows may floor) (ha : Advances c may e e') :
    e'.Grows may floor := by
  obtain ⟨hfloor, hf⟩ := h
  rcases ha with ⟨_, next, _, hc, hmay⟩ | hm | rfl
  · have hnext := fun hadm => (.single ⟨next, rfl, hmay hadm⟩ : Follows may e.visible (some next))
    cases hc with
    | closed | uncertain | refused | lost => exact ⟨hfloor, hf⟩
    | doubted hadm hd =>
      rcases hd with rfl | rfl
      · exact ⟨hfloor, hnext hadm⟩
      · exact ⟨hfloor.trans (hnext hadm), .refl⟩
    | done hadm => exact ⟨hfloor.trans (hnext hadm), .refl⟩
  · cases hm with
    | opens => exact ⟨hfloor.trans hf, .refl⟩
    | closes => exact ⟨hfloor, hf⟩
    | settles => cases e <;> exact ⟨hfloor.trans hf, .refl⟩
  · exact ⟨hfloor, .refl⟩

theorem Engine.Grows.reaches (h : e.Grows may floor)
    (ha : Relation.ReflTransGen (Advances c may) e e') : e'.Grows may floor := by
  induction ha with
  | refl => exact h
  | tail _ hstep ih => exact ih.advances hstep

end Refinement

end RevisionEngine
