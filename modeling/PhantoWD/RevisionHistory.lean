import PhantoWD.RevisionStore

/-!
A world is the directory with every handle opened so far. Calls run to completion or are
cut by the death of the process, which drops its descriptors. A power loss additionally
falls back to the durable image.
-/
namespace RevisionHistory

open GoText EffectProgram RevisionStore

variable {T : Type} (c : Codec T) (euid : Nat)

inductive Call (T : Type) where
  | openDir (directory : Bytes)
  | load (handle : Nat)
  | commit (handle : Nat) (expected : Nat) (next : T)
  | close (handle : Nat)
  deriving DecidableEq

inductive Answer (T : Type) where
  | opened (result : Except StoreError Nat)
  | loaded (result : Except StoreError T)
  | finished (result : Except StoreError Unit)
  deriving DecidableEq

structure World where
  machine : Machine
  handles : List Store
  deriving DecidableEq

/-- The handle's state; an index that was never issued is the zero store. -/
def World.store (w : World) (i : Nat) : Store := w.handles.getD i {}

def invoke (w : World) : Call T → Program Sys (Answer T × List Store)
  | .openDir directory => do
    let (r, s) ← openWithCodec c euid directory {}
    match r with
    | .ok () => pure (.opened (.ok w.handles.length), w.handles ++ [s])
    | .error e => pure (.opened (.error e), w.handles)
  | .load i => do
    let (r, s) ← Store.load c euid (w.store i)
    pure (.loaded r, w.handles.set i s)
  | .commit i expected next => do
    let (r, s) ← Store.commit c euid expected next (w.store i)
    pure (.finished r, w.handles.set i s)
  | .close i => do
    let (r, s) ← Store.close (w.store i)
    pure (.finished r, w.handles.set i s)

/-- The process died: every descriptor is gone, and with it the lock. -/
def dropHandles (m : Machine) (handles : List Store) : World :=
  ⟨{ m with lock := none }, handles.map fun s => { s with closed := true }⟩

/-- One observable step. `renamed` records that the call issued its rename. -/
inductive Event (T : Type) where
  | returned (call : Call T) (answer : Answer T) (renamed : Bool)
  | killed (call : Call T) (renamed : Bool)
  | writeback
  | powerLoss

inductive Step : World → Event T → World → Prop where
  | returned {w m call answer handles} :
      Runs (system euid) (invoke c euid w call) w.machine (some (answer, handles)) m →
      Step w (.returned call answer (m.renames ≠ w.machine.renames)) ⟨m, handles⟩
  | killed {w m call} :
      Runs (system euid) (invoke c euid w call) w.machine none m →
      Step w (.killed call (m.renames ≠ w.machine.renames)) (dropHandles m w.handles)
  | writeback {w image} :
      Persists w.machine.currentFlushed w.machine.current image →
      Step w .writeback ⟨{ w.machine with durable := image }, w.handles⟩
  | powerLoss {w pending flushed} :
      Step w .powerLoss (dropHandles { w.machine with
        current := w.machine.durable, currentFlushed := true, pending := pending,
        pendingFlushed := flushed } w.handles)

def serve (w : World) (call : Call T) : Answer T × World :=
  let r := (invoke c euid w call).run (faultless euid) w.machine
  (r.1.1, ⟨r.2, r.1.2⟩)

theorem step_serve (w : World) (call : Call T) :
    Step c euid w (.returned call (serve c euid w call).1
      ((serve c euid w call).2.machine.renames ≠ w.machine.renames)) (serve c euid w call).2 :=
  .returned (Program.runs_run (faultless_admitted euid) _ _)

def Event.renamed : Event T → Bool
  | .returned _ _ renamed => renamed
  | .killed _ renamed => renamed
  | .writeback | .powerLoss => false

def Event.closes (i : Nat) : Event T → Bool
  | .returned (.close j) _ _ => i = j
  | .killed _ _ | .powerLoss => true
  | _ => false

def CallEffect (w : World) (m : Machine) : Call T → Prop
  | .openDir _ => Opening w.machine m
  | .load _ => m = w.machine
  | .commit i expected next =>
    Quiet w.machine m ∨ Attempts c euid (w.store i) expected next w.machine m
  | .close i => m = w.machine ∨ m = w.machine.release (w.store i).dir

def CallResult (w : World) (answer : Answer T) (handles : List Store) (m : Machine) :
    Call T → Prop
  | .openDir _ =>
    (∃ t, answer = .opened (.ok w.handles.length) ∧ handles = w.handles ++ [t] ∧
      Opened c euid w.machine t m) ∨
    (∃ e, answer = .opened (.error e) ∧ handles = w.handles ∧ m.lock = w.machine.lock)
  | .load i => ∃ r, answer = .loaded r ∧ handles = w.handles.set i (w.store i) ∧
      (((w.store i).ready = false ∨ (w.store i).closed = true) ∧ r = .error .closed ∨
        (w.store i).uncertain = true ∧ (w.store i).ready = true ∧ (w.store i).closed = false ∧
          r = .error .uncertain ∨
        (w.store i).Usable ∧ r = present (view c euid w.machine.current))
  | .commit i expected next => ∃ r t, answer = .finished r ∧ handles = w.handles.set i t ∧
      Committed c euid (w.store i) expected next w.machine r t m
  | .close i => ∃ r t, answer = .finished r ∧ handles = w.handles.set i t ∧
      (((w.store i).ready = false ∨ (w.store i).closed = true) ∧ t = w.store i ∧ m = w.machine ∨
        (w.store i).ready = true ∧ (w.store i).closed = false ∧
          t = { w.store i with closed := true } ∧ m = w.machine.release (w.store i).dir)

variable {w : World} {l : Event T} {j : Nat} {x : Store} {next : T}

section Runs

variable {c euid}

theorem invoke_spec (w : World) (call : Call T)
    (hfresh : w.machine.lock ≠ some w.machine.nextFd) :
    Safe (system euid) (fun m => CallEffect c euid w m call)
      (fun r m => CallResult c euid w r.1 r.2 m call) (invoke c euid w call) w.machine := by
  cases call with
  | openDir directory =>
    refine Safe.seq (open_spec w.machine directory hfresh) fun r m hm hr => ?_
    obtain ⟨r | r, t⟩ := r
    · exact ⟨hm, .inr ⟨r, rfl, rfl, hr⟩⟩
    · exact ⟨hm, .inl ⟨t, rfl, rfl, hr⟩⟩
  | load i =>
    refine Safe.seq (storeLoad_spec w.machine (w.store i)) fun r m hm hr => ?_
    obtain ⟨r, t⟩ := r
    obtain ⟨-, rfl, h⟩ := hr
    exact ⟨hm, r, rfl, rfl, h⟩
  | commit i expected next =>
    refine Safe.seq (commit_spec w.machine (w.store i) expected next) fun r m hm hr => ?_
    exact ⟨hm, r.1, r.2, rfl, rfl, hr⟩
  | close i =>
    refine Safe.seq (close_spec w.machine (w.store i)) fun r m hm hr => ?_
    exact ⟨hm, r.1, r.2, rfl, rfl, hr⟩

/-- Handles only age: the descriptor stays, and closing and uncertainty are permanent. -/
structure Ages (s t : Store) : Prop where
  dir : t.dir = s.dir
  ready : t.ready = s.ready
  closed : s.closed = true → t.closed = true
  uncertain : s.uncertain = true → t.uncertain = true

theorem Ages.refl (s : Store) : Ages s s := ⟨rfl, rfl, id, id⟩

/-- At most one handle is open, it holds the lock, and while it is certain of its document
a power loss cannot change it. -/
structure Invariant (w : World) : Prop where
  held : ∀ (i : Nat) (s : Store), w.handles[i]? = some s → s.closed = false →
    w.machine.lock = some s.dir
  issued : ∀ (i : Nat) (s : Store), w.handles[i]? = some s → s.dir < w.machine.nextFd
  locked : ∀ fd, w.machine.lock = some fd → fd < w.machine.nextFd
  distinct : ∀ (i j : Nat) (s t : Store), w.handles[i]? = some s → w.handles[j]? = some t →
    s.dir = t.dir → i = j
  settled : ∀ (i : Nat) (s : Store), w.handles[i]? = some s → s.Usable → w.machine.Synced

theorem Invariant.fresh (h : Invariant w) : w.machine.lock ≠ some w.machine.nextFd :=
  fun hl => absurd (h.locked _ hl) (Nat.lt_irrefl _)

variable {i : Nat}

variable {s : Store}

theorem World.store_of_getElem? (h : w.handles[i]? = some s) : w.store i = s := by
  simp [World.store, List.getD_eq_getElem?_getD, h]

theorem World.getElem?_of_ready (h : (w.store i).ready = true) :
    w.handles[i]? = some (w.store i) := by
  cases hi : w.handles[i]? with
  | none => simp [World.store, List.getD_eq_getElem?_getD, hi] at h
  | some s => rw [w.store_of_getElem? hi]

theorem World.set_store (w : World) (i : Nat) : w.handles.set i (w.store i) = w.handles := by
  refine List.ext_getElem? fun j => ?_
  by_cases hj : i = j
  · subst hj
    cases hi : w.handles[i]? with
    | none => simpa [List.getElem?_set] using hi
    | some s =>
      rw [List.getElem?_set_self (List.getElem?_eq_some_iff.mp hi).1, w.store_of_getElem? hi]
  · rw [List.getElem?_set_ne hj]

variable (c euid) in
inductive Outcome (w : World) : Event T → World → Prop where
  | stays {l : Event T} {m} : Opening w.machine m → m.lock = w.machine.lock → l.renamed = false →
      Outcome w l ⟨m, w.handles⟩
  | opens {l : Event T} {m t} : Opening w.machine m → Opened c euid w.machine t m →
      l.renamed = false → Outcome w l ⟨m, w.handles ++ [t]⟩
  | commits {i expected next m} : Attempts c euid (w.store i) expected next w.machine m →
      (∃ data, c.marshal next = some data ∧ m.current = some (.fresh euid data)) → m.Synced →
      Outcome w (.returned (.commit i expected next) (.finished (.ok ())) true)
        ⟨m, w.handles.set i (w.store i)⟩
  | doubts {i expected next m} : Attempts c euid (w.store i) expected next w.machine m →
      Outcome w (.returned (.commit i expected next) (.finished (.error .uncertain)) true)
        ⟨m, w.handles.set i { w.store i with uncertain := true }⟩
  | closes {i answer} : (w.store i).ready = true → (w.store i).closed = false →
      Outcome w (.returned (.close i) answer false)
        ⟨w.machine.release (w.store i).dir, w.handles.set i { w.store i with closed := true }⟩
  | dies {call m} : Opening w.machine m →
      Outcome w (.killed call false) (dropHandles m w.handles)
  | diesPublishing {i expected next m} :
      Attempts c euid (w.store i) expected next w.machine m →
      Outcome w (.killed (.commit i expected next) true) (dropHandles m w.handles)
  | losesPower {m} : m.current = w.machine.durable → m.nextFd = w.machine.nextFd →
      m.renames = w.machine.renames → m.Synced →
      Outcome w .powerLoss (dropHandles m w.handles)

variable {m : Machine}

private theorem returned_outcome {call : Call T} {answer : Answer T} {handles : List Store}
    (heff : CallEffect c euid w m call) (hres : CallResult c euid w answer handles m call) :
    Outcome c euid w (.returned call answer (m.renames ≠ w.machine.renames)) ⟨m, handles⟩ := by
  have quiet : ∀ {m : Machine}, m.renames = w.machine.renames →
      decide (m.renames ≠ w.machine.renames) = false := by simp
  cases call with
  | openDir directory =>
    obtain ⟨t, rfl, rfl, ho⟩ | ⟨e, rfl, rfl, hl⟩ := hres
    · exact .opens heff ho (quiet heff.renames)
    · exact .stays heff hl (quiet heff.renames)
  | load i =>
    obtain ⟨r, rfl, rfl, -⟩ := hres
    obtain rfl : m = w.machine := heff
    rw [w.set_store]
    exact .stays (.refl _) rfl (quiet rfl)
  | commit i expected next =>
    obtain ⟨r, t, rfl, rfl, hr⟩ := hres
    have refused : t = w.store i → Quiet w.machine m →
        Outcome c euid w (.returned (.commit i expected next) (.finished r)
          (m.renames ≠ w.machine.renames)) ⟨m, w.handles.set i t⟩ := by
      rintro rfl hq
      rw [w.set_store]
      exact .stays hq.opening hq.lock (quiet hq.renames)
    have issued : Attempts c euid (w.store i) expected next w.machine m →
        decide (m.renames ≠ w.machine.renames) = true := fun h => decide_eq_true h.renames
    rcases r with e | ⟨⟩
    · cases e with
      | uncertain =>
        obtain ⟨ht, -, hq⟩ | ⟨rfl, ha⟩ := hr
        · exact refused ht hq
        · rw [issued ha]
          exact .doubts ha
      | _ => exact refused hr.1 hr.2.1
    · obtain ⟨rfl, ha, hd, hs⟩ := hr
      rw [issued ha]
      exact .commits ha hd hs
  | close i =>
    obtain ⟨r, t, rfl, rfl, ⟨-, rfl, rfl⟩ | ⟨hready, hclosed, rfl, rfl⟩⟩ := hres
    · rw [w.set_store]
      exact .stays (.refl _) rfl (quiet rfl)
    · rw [quiet (release_opening _ _).renames]
      exact .closes hready hclosed

private theorem effect_cases {call : Call T} (heff : CallEffect c euid w m call) :
    Opening w.machine m ∨ ∃ i expected next, call = .commit i expected next ∧
      Attempts c euid (w.store i) expected next w.machine m := by
  cases call with
  | openDir directory => exact .inl heff
  | load i => exact .inl (Eq.subst (Eq.symm heff) (Opening.refl w.machine))
  | commit i expected next =>
    rcases heff with hq | ha
    · exact .inl hq.opening
    · exact .inr ⟨i, expected, next, rfl, ha⟩
  | close i =>
    obtain rfl | rfl := heff
    · exact .inl (.refl _)
    · exact .inl (release_opening _ _)

private theorem killed_outcome {call : Call T} (heff : CallEffect c euid w m call) :
    Outcome c euid w (.killed call (m.renames ≠ w.machine.renames))
      (dropHandles m w.handles) := by
  rcases effect_cases heff with ho | ⟨i, expected, next, rfl, ha⟩
  · rw [show decide (m.renames ≠ w.machine.renames) = false by simp [ho.renames]]
    exact .dies ho
  · rw [show decide (m.renames ≠ w.machine.renames) = true from decide_eq_true ha.renames]
    exact .diesPublishing ha

variable {v : World}

theorem step_outcome (hw : Invariant w) (h : Step c euid w l v) : Outcome c euid w l v := by
  cases h with
  | returned hr =>
    obtain ⟨heff, hres⟩ := (invoke_spec w _ hw.fresh).sound hr
    exact returned_outcome heff (hres _ rfl)
  | killed hr => exact killed_outcome ((invoke_spec w _ hw.fresh).sound hr).1
  | writeback hp =>
    exact .stays ⟨rfl, rfl, Nat.le_refl _, fun hf => ⟨hf, .inr (hf.image hp)⟩⟩ rfl rfl
  | powerLoss => exact .losesPower rfl rfl rfl ⟨rfl, .inl rfl⟩

variable {t : Store}

theorem aged_set (ht : Ages (w.store i) t) (hx : (w.handles.set i t)[j]? = some x) :
    ∃ s, w.handles[j]? = some s ∧ Ages s x := by
  by_cases hij : i = j
  · subst hij
    have hlt : i < w.handles.length := by
      simpa using (List.getElem?_eq_some_iff.mp hx).1
    rw [List.getElem?_set_self hlt] at hx
    obtain rfl := Option.some.inj hx
    have hs : w.handles[i]? = some w.handles[i] := List.getElem?_eq_getElem hlt
    exact ⟨_, hs, w.store_of_getElem? hs ▸ ht⟩
  · rw [List.getElem?_set_ne hij] at hx
    exact ⟨x, hx, .refl x⟩

theorem aged_drop (hx : (dropHandles m w.handles).handles[j]? = some x) :
    x.closed = true ∧ ∃ s, w.handles[j]? = some s ∧ Ages s x := by
  simp only [dropHandles, List.getElem?_map, Option.map_eq_some_iff] at hx
  obtain ⟨s, hs, rfl⟩ := hx
  exact ⟨rfl, s, hs, rfl, rfl, fun _ => rfl, id⟩

theorem Ages.open_of_open (h : Ages s t) (ht : t.closed = false) :
    s.closed = false := by
  cases hs : s.closed with
  | false => rfl
  | true => rw [h.closed hs] at ht; cases ht

/-- A step that only ages handles keeps the invariant if the open ones keep the lock. -/
theorem Invariant.of_aged (hw : Invariant w)
    (hage : ∀ (i : Nat) (t : Store), v.handles[i]? = some t →
      ∃ s, w.handles[i]? = some s ∧ Ages s t)
    (hfd : w.machine.nextFd ≤ v.machine.nextFd)
    (hlock : ∀ (i : Nat) (t : Store), v.handles[i]? = some t → t.closed = false →
      v.machine.lock = w.machine.lock)
    (hlocked : ∀ fd, v.machine.lock = some fd → w.machine.lock = some fd)
    (hsettled : ∀ (i : Nat) (t : Store), v.handles[i]? = some t → t.Usable → v.machine.Synced) :
    Invariant v := by
  constructor
  · intro i t ht hc
    obtain ⟨s, hs, ha⟩ := hage i t ht
    rw [hlock i t ht hc, ha.dir]
    exact hw.held i s hs (ha.open_of_open hc)
  · intro i t ht
    obtain ⟨s, hs, ha⟩ := hage i t ht
    rw [ha.dir]
    exact Nat.lt_of_lt_of_le (hw.issued i s hs) hfd
  · intro fd h
    exact Nat.lt_of_lt_of_le (hw.locked fd (hlocked fd h)) hfd
  · intro i j t u ht hu hd
    obtain ⟨s, hs, ha⟩ := hage i t ht
    obtain ⟨r, hr, hb⟩ := hage j u hu
    exact hw.distinct i j s r hs hr (by rw [← ha.dir, ← hb.dir, hd])
  · exact hsettled

theorem Invariant.dropHandles (hw : Invariant w) (hfd : w.machine.nextFd ≤ m.nextFd) :
    Invariant (dropHandles m w.handles) := by
  refine hw.of_aged (fun i t ht => (aged_drop ht).2) hfd ?_
    (by simp [RevisionHistory.dropHandles]) ?_
  · intro i t ht hc
    rw [(aged_drop ht).1] at hc
    cases hc
  · intro i t ht hu
    rw [Store.Usable, (aged_drop ht).1] at hu
    cases hu.2.1

theorem Invariant.sole (hw : Invariant w) (hs : w.handles[i]? = some s)
    (ht : w.handles[j]? = some t) (hc : s.closed = false) (hd : t.closed = false) : i = j := by
  have hi := hw.held i s hs hc
  have hj := hw.held j t ht hd
  exact hw.distinct i j s t hs ht (Option.some.inj (hi.symm.trans hj))

/-- After the open handle is updated, an open handle can only be the updated one. -/
theorem Invariant.open_after_set (hw : Invariant w) (hr : (w.store i).ready = true)
    (hc : (w.store i).closed = false) (hage : Ages (w.store i) t)
    (hx : (w.handles.set i t)[j]? = some x) (hopen : x.closed = false) : x = t := by
  have hi := World.getElem?_of_ready hr
  obtain ⟨s, hs, hst⟩ := aged_set hage hx
  obtain rfl := hw.sole hi hs hc (hst.open_of_open hopen)
  rw [List.getElem?_set_self (List.getElem?_eq_some_iff.mp hi).1] at hx
  exact (Option.some.inj hx).symm

theorem getElem?_snoc {handles : List Store} (hs : (handles ++ [t])[i]? = some s) :
    handles[i]? = some s ∨ (i = handles.length ∧ s = t) := by
  by_cases hi : i < handles.length
  · rw [List.getElem?_append_left hi] at hs
    exact .inl hs
  · rw [List.getElem?_append_right (by omega)] at hs
    obtain ⟨hlt, rfl⟩ := List.getElem?_eq_some_iff.mp hs
    simp only [List.length_cons, List.length_nil] at hlt
    exact .inr ⟨by omega, by simp⟩

theorem Invariant.closed_of_unlocked (hw : Invariant w) (h : w.machine.lock = none)
    (hs : w.handles[i]? = some s) : s.closed = true := by
  by_contra hc
  have hl := hw.held i s hs (by simpa using hc)
  rw [h] at hl
  cases hl

theorem Invariant.opened (hw : Invariant w) (hopen : Opened c euid w.machine t m) :
    Invariant ⟨m, w.handles ++ [t]⟩ := by
  have hdir : t.dir = w.machine.nextFd := by rw [hopen.store]
  constructor
  · intro i s hs hc
    rcases getElem?_snoc hs with h | ⟨-, rfl⟩
    · rw [hw.closed_of_unlocked hopen.unlocked h] at hc
      cases hc
    · rw [hdir]
      exact hopen.lock
  · intro i s hs
    rw [hopen.nextFd]
    rcases getElem?_snoc hs with h | ⟨-, rfl⟩
    · exact Nat.lt_succ_of_lt (hw.issued i s h)
    · rw [hdir]
      exact Nat.lt_succ_self _
  · intro fd hfd
    rw [hopen.lock] at hfd
    rw [hopen.nextFd, ← Option.some.inj hfd]
    exact Nat.lt_succ_self _
  · intro i j s r hs hr hd
    rcases getElem?_snoc hs with h | ⟨rfl, rfl⟩ <;> rcases getElem?_snoc hr with k | ⟨rfl, rfl⟩
    · exact hw.distinct i j s r h k hd
    · have := hw.issued i s h
      omega
    · have := hw.issued j r k
      omega
    · rfl
  · intro i s _ _
    exact hopen.synced

/-- No step opens a second handle or unsettles a certain one. -/
theorem step_preserves_invariant (hw : Invariant w) (h : Step c euid w l v) : Invariant v := by
  cases step_outcome hw h with
  | stays ho hl _ =>
    exact hw.of_aged (fun i t ht => ⟨t, ht, .refl t⟩) ho.nextFd (fun _ _ _ _ => hl)
      (fun fd h => hl ▸ h) fun i t ht hu => ho.synced (hw.settled i t ht hu)
  | opens _ hopen _ => exact hw.opened hopen
  | commits ha _ hs =>
    obtain ⟨-, hl, hfd⟩ := ha.frame
    rw [w.set_store]
    exact hw.of_aged (fun i t ht => ⟨t, ht, .refl t⟩) (Nat.le_of_eq hfd.symm) (fun _ _ _ _ => hl)
      (fun fd h => hl ▸ h) fun _ _ _ _ => hs
  | @doubts i _ _ _ ha =>
    obtain ⟨⟨hr, hc, -⟩, hl, hfd⟩ := ha.frame
    have hage : Ages (w.store i) { w.store i with uncertain := true } :=
      ⟨rfl, rfl, id, fun _ => rfl⟩
    refine hw.of_aged (fun j t ht => aged_set hage ht) (Nat.le_of_eq hfd.symm) (fun _ _ _ _ => hl)
      (fun fd h => hl ▸ h) fun j t ht hu => ?_
    obtain rfl := hw.open_after_set hr hc hage ht hu.2.1
    cases hu.2.2
  | @closes i _ hr hc =>
    have hage : Ages (w.store i) { w.store i with closed := true } :=
      ⟨rfl, rfl, fun _ => rfl, id⟩
    refine hw.of_aged (fun j t ht => aged_set hage ht) (release_opening _ _).nextFd ?_ ?_ ?_
    · intro j t ht hopen
      obtain rfl := hw.open_after_set hr hc hage ht hopen
      cases hopen
    · intro fd hfd
      dsimp only [Machine.release] at hfd
      split_ifs at hfd
      exact hfd
    · intro j t ht hu
      obtain rfl := hw.open_after_set hr hc hage ht hu.2.1
      cases hu.2.1
  | dies ho => exact hw.dropHandles ho.nextFd
  | diesPublishing ha => exact hw.dropHandles (Nat.le_of_eq ha.frame.2.2.symm)
  | losesPower _ hfd _ _ => exact hw.dropHandles (Nat.le_of_eq hfd.symm)

def World.Initial (w : World) : Prop := w.handles = [] ∧ w.machine.lock = none

theorem initial_invariant (h : w.Initial) : Invariant w := by
  constructor <;> simp [h.1, h.2]

theorem reachable_invariant {w₀ : World} {ls : List (Event T)} (h₀ : w₀.Initial)
    (h : Execution (Step c euid) w₀ ls w) : Invariant w :=
  h.invariant (fun _ _ _ hw hs => step_preserves_invariant hw hs) (initial_invariant h₀)

def Event.call : Event T → Option (Call T)
  | .returned call _ _ | .killed call _ => some call
  | .writeback | .powerLoss => none

theorem step_current (hw : Invariant w) (h : Step c euid w l v) (hl : l ≠ .powerLoss) :
    v.machine.current = w.machine.current ∨
      ∃ i expected next data, l.call = some (.commit i expected next) ∧ l.renamed = true ∧
        c.marshal next = some data ∧ v.machine.current = some (.fresh euid data) ∧
        Succeeds c w.machine.current next := by
  cases step_outcome hw h with
  | stays ho _ _ | opens ho _ _ => exact .inl ho.current
  | commits ha _ _ | doubts ha =>
    exact ha.publishes.imp id fun ⟨data, hd⟩ => ⟨_, _, _, data, rfl, rfl, hd⟩
  | closes _ _ => exact .inl (release_opening _ _).current
  | dies ho => exact .inl ho.current
  | diesPublishing ha =>
    exact ha.publishes.imp id fun ⟨data, hd⟩ => ⟨_, _, _, data, rfl, rfl, hd⟩
  | losesPower => exact absurd rfl hl

variable {expected : Nat} {renamed : Bool}

theorem commit_result {r : Except StoreError Unit} (hw : Invariant w)
    (h : Step c euid w (.returned (.commit i expected next) (.finished r) renamed) v) :
    ∃ t, v.handles = w.handles.set i t ∧
      Committed c euid (w.store i) expected next w.machine r t v.machine := by
  cases h with
  | returned hr =>
    obtain ⟨r', t, hr', ht, hc⟩ := ((invoke_spec w _ hw.fresh).sound hr).2 _ rfl
    cases hr'
    exact ⟨t, ht, hc⟩

variable {r : Except StoreError T}

theorem load_result (hw : Invariant w)
    (h : Step c euid w (.returned (.load i) (.loaded r) renamed) v) :
    ((w.store i).ready = false ∨ (w.store i).closed = true) ∧ r = .error .closed ∨
      (w.store i).uncertain = true ∧ (w.store i).ready = true ∧ (w.store i).closed = false ∧
        r = .error .uncertain ∨
      (w.store i).Usable ∧ r = present (view c euid w.machine.current) := by
  cases h with
  | returned hr =>
    obtain ⟨r', hr', -, hl⟩ := ((invoke_spec w _ hw.fresh).sound hr).2 _ rfl
    cases hr'
    exact hl

theorem load_unchanged (hw : Invariant w)
    (h : Step c euid w (.returned (.load i) (.loaded r) renamed) v) : v = w := by
  cases h with
  | returned hr =>
    obtain ⟨hm, hres⟩ := (invoke_spec w _ hw.fresh).sound hr
    obtain ⟨-, -, rfl, -⟩ := hres _ rfl
    rw [w.set_store, show _ = w.machine from hm]

/-- A process that dies in a call without having renamed leaves what opening may leave. -/
theorem killed_opening {call : Call T} (hw : Invariant w)
    (h : Step c euid w (.killed call false) v) :
    ∃ m, Opening w.machine m ∧ v = dropHandles m w.handles := by
  generalize hl : Event.killed call false = l at h
  cases h with
  | killed hr =>
    obtain ⟨rfl, hquiet⟩ := Event.killed.inj hl
    rcases effect_cases ((invoke_spec w call hw.fresh).sound hr).1 with ho | ⟨_, _, _, -, ha⟩
    · exact ⟨_, ho, rfl⟩
    · exact absurd ha.renames (of_decide_eq_false hquiet.symm)
  | _ => cases hl

theorem load_returns (hw : Invariant w) (i : Nat) :
    ∃ r x, Step c euid w (.returned (.load i) (.loaded r) false) x := by
  have hrun := Program.runs_run (faultless_admitted euid) (invoke c euid w (.load i)) w.machine
  obtain ⟨heff, hres⟩ := (invoke_spec w (.load i) hw.fresh).sound hrun
  obtain ⟨r, hr, -, -⟩ := hres _ rfl
  have hstep := step_serve c euid w (.load i)
  rw [show (serve c euid w (.load i)).1 = .loaded r from hr,
    show (serve c euid w (.load i)).2.machine = w.machine from heff] at hstep
  exact ⟨r, _, by simpa using hstep⟩

theorem refused_commit_current {e : StoreError} (hw : Invariant w)
    (h : Step c euid w (.returned (.commit i expected next) (.finished (.error e)) renamed) v)
    (he : e ≠ .uncertain) : v.machine.current = w.machine.current := by
  obtain ⟨t, -, hc⟩ := commit_result hw h
  cases e with
  | uncertain => exact absurd rfl he
  | _ => exact hc.2.1.current

/-- The document is published, survives a power loss, and no open handle doubts it. -/
structure Holds (entry : Entry) (w : World) : Prop where
  current : w.machine.current = some entry
  synced : w.machine.Synced
  certain : ∀ (i : Nat) (s : Store), w.handles[i]? = some s → s.closed = false →
    s.uncertain = false

theorem Holds.dropHandles {entry : Entry} (hcur : m.current = some entry) (hsync : m.Synced) :
    Holds entry (dropHandles m w.handles) := by
  refine ⟨hcur, hsync, fun i s hs hc => ?_⟩
  rw [(aged_drop hs).1] at hc
  cases hc

theorem step_preserves_holds {entry : Entry} (hw : Invariant w) (hh : Holds entry w)
    (h : Step c euid w l v) (hl : l.renamed = false) : Holds entry v := by
  cases step_outcome hw h with
  | stays ho _ _ => exact ⟨ho.current.trans hh.current, ho.synced hh.synced, hh.certain⟩
  | opens ho hopen _ =>
    refine ⟨ho.current.trans hh.current, hopen.synced, fun i s hs hc => ?_⟩
    rcases getElem?_snoc hs with hs | ⟨-, rfl⟩
    · exact hh.certain i s hs hc
    · rw [hopen.store]
  | commits _ _ _ => cases hl
  | doubts _ => cases hl
  | @closes i _ hr hc =>
    have hage : Ages (w.store i) { w.store i with closed := true } :=
      ⟨rfl, rfl, fun _ => rfl, id⟩
    have ho := release_opening w.machine (w.store i).dir
    refine ⟨ho.current.trans hh.current, ho.synced hh.synced, fun j s hs hopen => ?_⟩
    obtain rfl := hw.open_after_set hr hc hage hs hopen
    cases hopen
  | dies ho => exact .dropHandles (ho.current.trans hh.current) (ho.synced hh.synced)
  | diesPublishing _ => cases hl
  | losesPower hcur _ _ hs =>
    exact .dropHandles (hcur.trans (hh.synced.1.trans hh.current)) hs

theorem commit_holds (hw : Invariant w)
    (h : Step c euid w (.returned (.commit i expected next) (.finished (.ok ())) renamed) v) :
    ∃ data, c.validate next = true ∧ c.marshal next = some data ∧
      (data.length : Int) ≤ c.maxBytes ∧ Holds (.fresh euid data) v := by
  obtain ⟨t, ht, rfl, ⟨hu, data, hadmits, -⟩, ⟨data', hdata', hcur⟩, hsync⟩ := commit_result hw h
  obtain rfl : data = data' := Option.some.inj (hadmits.encoded.symm.trans hdata')
  refine ⟨data, hadmits.valid, hadmits.encoded, hadmits.sized, hcur, hsync, fun j s hj hc => ?_⟩
  rw [ht] at hj
  obtain rfl := hw.open_after_set hu.1 hu.2.1 (.refl _) hj hc
  exact hu.2.2

variable {ks : List (Event T)}

/-- A confirmed document is what every usable handle loads until the next rename. -/
theorem committed_document_stays (hcodec : c.RoundTrips) {u x : World} {renamed' : Bool}
    (hw : Invariant w)
    (hcommit : Step c euid w (.returned (.commit i expected next) (.finished (.ok ())) renamed) v)
    (hrun : Execution (Step c euid) v ks u) (hks : ∀ k ∈ ks, k.renamed = false)
    (hload : Step c euid u (.returned (.load j) (.loaded r) renamed') x) :
    r = .ok next ∨
      r = .error .closed ∧ ((u.store j).ready = false ∨ (u.store j).closed = true) := by
  obtain ⟨data, hvalid, hdata, hsize, hv⟩ := commit_holds hw hcommit
  obtain ⟨hu, hh⟩ := hrun.invariant_where (A := fun k => k.renamed = false)
    (I := fun z => Invariant z ∧ Holds (.fresh euid data) z)
    (fun _ _ _ hk hz hs =>
      ⟨step_preserves_invariant hz.1 hs, step_preserves_holds hz.1 hz.2 hs hk⟩)
    hks ⟨step_preserves_invariant hw hcommit, hv⟩
  rcases load_result hu hload with ⟨hc, hr⟩ | ⟨hunc, hready, hc, -⟩ | ⟨-, hr⟩
  · exact .inr ⟨hr, hc⟩
  · have := hh.certain j _ (World.getElem?_of_ready hready) hc
    rw [hunc] at this
    cases this
  · rw [hh.current, view_fresh hcodec hvalid hdata hsize] at hr
    exact .inl hr

/-- The handle is uncertain for good; if it is closed, one of the steps closed it. -/
def Doubtful (i : Nat) (ks : List (Event T)) (w : World) : Prop :=
  ∃ s, w.handles[i]? = some s ∧ s.ready = true ∧ s.uncertain = true ∧
    (s.closed = true → ∃ k ∈ ks, k.closes i = true)

theorem uncertain_commit_doubtful (hw : Invariant w)
    (h : Step c euid w (.returned (.commit i expected next) (.finished (.error .uncertain))
      renamed) v) :
    Doubtful (T := T) i [] v := by
  obtain ⟨t, ht, hc⟩ := commit_result hw h
  have hready : (w.store i).ready = true ∧ (w.store i).closed = false ∧ t.ready = true ∧
      t.closed = false ∧ t.uncertain = true := by
    obtain ⟨rfl, hs, -⟩ | ⟨rfl, hu, -⟩ := hc
    · exact ⟨hs.1, hs.2.1, hs⟩
    · exact ⟨hu.1, hu.2.1, hu.1, hu.2.1, rfl⟩
  obtain ⟨hr, -, hr', hc', hu'⟩ := hready
  refine ⟨t, ?_, hr', hu', by simp [hc']⟩
  have hlt := (List.getElem?_eq_some_iff.mp (World.getElem?_of_ready hr)).1
  rw [ht, List.getElem?_set_self hlt]

/-- A handle keeps its index and only ages. -/
theorem step_ages (hw : Invariant w) (h : Step c euid w l v) (hs : w.handles[i]? = some s) :
    ∃ t, v.handles[i]? = some t ∧ Ages s t ∧
      (t.closed = true → s.closed = true ∨ l.closes i = true) := by
  have hlt := (List.getElem?_eq_some_iff.mp hs).1
  have drop : ∀ m : Machine, l.closes i = true →
      ∃ t, (dropHandles m w.handles).handles[i]? = some t ∧
      Ages s t ∧ (t.closed = true → s.closed = true ∨ l.closes i = true) := by
    intro m hl
    refine ⟨{ s with closed := true }, by simp [dropHandles, hs], ?_, fun _ => .inr hl⟩
    exact ⟨rfl, rfl, fun _ => rfl, id⟩
  have update : ∀ (j : Nat) (t : Store), Ages (w.store j) t →
      (i = j → t.closed = true → s.closed = true ∨ l.closes i = true) →
      ∃ x, (w.handles.set j t)[i]? = some x ∧ Ages s x ∧
        (x.closed = true → s.closed = true ∨ l.closes i = true) := by
    intro j t ht hclosed
    by_cases hij : j = i
    · subst hij
      rw [w.store_of_getElem? hs] at ht
      exact ⟨t, List.getElem?_set_self hlt, ht, hclosed rfl⟩
    · exact ⟨s, by rw [List.getElem?_set_ne hij, hs], .refl s, .inl⟩
  cases step_outcome hw h with
  | stays _ _ _ => exact ⟨s, hs, .refl s, .inl⟩
  | opens _ _ _ => exact ⟨s, by rw [List.getElem?_append_left hlt, hs], .refl s, .inl⟩
  | commits _ _ _ => rw [w.set_store]; exact ⟨s, hs, .refl s, .inl⟩
  | @doubts j _ _ _ ha =>
    refine update j _ ⟨rfl, rfl, id, fun _ => rfl⟩ ?_
    rintro rfl hc
    rw [w.store_of_getElem? hs] at hc
    exact .inl hc
  | @closes j _ _ _ =>
    refine update j _ ⟨rfl, rfl, fun _ => rfl, id⟩ ?_
    rintro rfl -
    exact .inr (by simp [Event.closes])
  | dies _ | diesPublishing _ | losesPower _ _ _ _ => exact drop _ rfl

theorem doubtful_stays {u : World} (hv : Invariant v) (hd : Doubtful (T := T) i [] v)
    (hrun : Execution (Step c euid) v ks u) :
    Invariant u ∧ Doubtful i ks u := by
  induction hrun with
  | nil => exact ⟨hv, hd⟩
  | snoc _ hstep ih =>
    obtain ⟨hu, s, hs, hr, hunc, hclosed⟩ := ih
    obtain ⟨t, ht, hage, htc⟩ := step_ages hu hstep hs
    refine ⟨step_preserves_invariant hu hstep, t, ht, hage.ready.trans hr, hage.uncertain hunc, ?_⟩
    intro hc
    rcases htc hc with h | h
    · obtain ⟨k, hk, hkc⟩ := hclosed h
      exact ⟨k, List.mem_append_left _ hk, hkc⟩
    · exact ⟨_, List.mem_append_right _ List.mem_cons_self, h⟩

theorem Doubtful.load (hw : Invariant w) (hd : Doubtful i ks w)
    (h : Step c euid w (.returned (.load i) (.loaded r) renamed) v) :
    r = .error .uncertain ∨ r = .error .closed ∧ ∃ k ∈ ks, k.closes i = true := by
  obtain ⟨s, hs, hready, hunc, hclosed⟩ := hd
  have hr := load_result hw h
  rw [w.store_of_getElem? hs] at hr
  rcases hr with ⟨hc | hc, rfl⟩ | ⟨-, -, -, rfl⟩ | ⟨hu, -⟩
  · rw [hready] at hc; cases hc
  · exact .inr ⟨rfl, hclosed hc⟩
  · exact .inl rfl
  · rw [Store.Usable, hunc] at hu; cases hu.2.2

theorem Doubtful.commit {r : Except StoreError Unit} (hw : Invariant w) (hd : Doubtful i ks w)
    (h : Step c euid w (.returned (.commit i expected next) (.finished r) renamed) v) :
    r = .error .uncertain ∨ r = .error .closed ∧ ∃ k ∈ ks, k.closes i = true := by
  obtain ⟨s, hs, hready, hunc, hclosed⟩ := hd
  obtain ⟨t, -, hc⟩ := commit_result hw h
  rw [w.store_of_getElem? hs] at hc
  have unusable : ¬ s.Usable := fun hu => by rw [Store.Usable, hunc] at hu; cases hu.2.2
  rcases r with e | ⟨⟩
  · cases e with
    | uncertain => exact .inl rfl
    | closed =>
      obtain ⟨-, -, h | h⟩ := hc
      · rw [hready] at h; cases h
      · exact .inr ⟨rfl, hclosed h⟩
    | _ => exact absurd hc.2.2 unusable
  · exact absurd hc.2.1.1 unusable

end Runs

/-- From any directory, along any run and under any outcome of the system calls:
the current file changes only to the encoding of a commit that issued its rename, one
revision up; a confirmed document is what every usable handle loads until the next
rename, across kills and power losses; any other refusal than uncertainty leaves the file
alone; and uncertainty stays with the handle. -/
theorem commits_are_atomic_and_durable (hcodec : c.RoundTrips) {w₀ w v : World}
    {ls : List (Event T)} {l : Event T} (h₀ : w₀.Initial)
    (hrun : Execution (Step c euid) w₀ ls w) (hstep : Step c euid w l v) :
    (l ≠ .powerLoss → v.machine.current = w.machine.current ∨
      ∃ i expected next data, l.call = some (.commit i expected next) ∧ l.renamed = true ∧
        c.marshal next = some data ∧ v.machine.current = some (.fresh euid data) ∧
        Succeeds c w.machine.current next) ∧
    (∀ i expected next renamed,
      l = .returned (.commit i expected next) (.finished (.ok ())) renamed →
      ∀ ks u, Execution (Step c euid) v ks u → (∀ k ∈ ks, k.renamed = false) →
      ∀ j, ((u.store j).closed = false → (u.store j).ready = true →
          ∃ x, Step c euid u (.returned (.load j) (.loaded (.ok next)) false) x) ∧
        ∀ r renamed' x, Step c euid u (.returned (.load j) (.loaded r) renamed') x →
          r = .ok next ∨
            r = .error .closed ∧ ((u.store j).ready = false ∨ (u.store j).closed = true)) ∧
    (∀ i expected next e renamed,
      l = .returned (.commit i expected next) (.finished (.error e)) renamed →
      e ≠ .uncertain → v.machine.current = w.machine.current) ∧
    (∀ i expected next renamed,
      l = .returned (.commit i expected next) (.finished (.error .uncertain)) renamed →
      ∀ ks u, Execution (Step c euid) v ks u →
        (∀ r renamed' x, Step c euid u (.returned (.load i) (.loaded r) renamed') x →
          r = .error .uncertain ∨ r = .error .closed ∧ ∃ k ∈ ks, k.closes i = true) ∧
        (∀ expected' next' r renamed' x,
          Step c euid u (.returned (.commit i expected' next') (.finished r) renamed') x →
          r = .error .uncertain ∨ r = .error .closed ∧ ∃ k ∈ ks, k.closes i = true)) := by
  have hw := reachable_invariant h₀ hrun
  refine ⟨step_current hw hstep, ?_, ?_, ?_⟩
  · rintro i expected next renamed rfl ks u hks hquiet j
    refine ⟨fun hc hr => ?_, fun r renamed' x hload =>
      committed_document_stays hcodec hw hstep hks hquiet hload⟩
    have hu := hks.invariant (fun _ _ _ hz hs => step_preserves_invariant hz hs)
      (step_preserves_invariant hw hstep)
    obtain ⟨r, x, hload⟩ := load_returns hu j
    rcases committed_document_stays hcodec hw hstep hks hquiet hload with rfl | ⟨-, h | h⟩
    · exact ⟨x, hload⟩
    · rw [hr] at h; cases h
    · rw [hc] at h; cases h
  · rintro i expected next e renamed rfl he
    exact refused_commit_current hw hstep he
  · rintro i expected next renamed rfl ks u hks
    obtain ⟨hu, hd⟩ := doubtful_stays (step_preserves_invariant hw hstep)
      (uncertain_commit_doubtful hw hstep) hks
    exact ⟨fun r renamed' x hload => hd.load hu hload,
      fun expected' next' r renamed' x hcommit => hd.commit hu hcommit⟩

/-- Documents are numbers in unary; the revision is the number. -/
def unaryCodec : Codec Nat where
  currentName := ascii "current"
  pendingName := ascii "pending"
  maxBytes := 16
  decode data := some data.length
  validate _ := true
  revision n := n
  marshal n := some (List.replicate n 49)
  validateTransition := none

theorem unaryCodec_roundTrips : unaryCodec.RoundTrips := by
  intro x data _ hdata _
  obtain rfl := Option.some.inj hdata
  simp [unaryCodec]

def emptyDirectory : World :=
  ⟨⟨0o700, 0, none, 3, none, false, none, false, none, 0⟩, []⟩

def afterPowerLoss (w : World) : World :=
  dropHandles { w.machine with
    current := w.machine.durable, currentFlushed := true, pending := none,
    pendingFlushed := true } w.handles

def openedDirectory : World :=
  (serve unaryCodec 0 emptyDirectory (.openDir (ascii "/srv"))).2

def firstCommitted : World := (serve unaryCodec 0 openedDirectory (.commit 0 0 1)).2

theorem first_commit_loads_until_rename :
    (serve unaryCodec 0 openedDirectory (.commit 0 0 1)).1 = .finished (.ok ()) ∧
      ∀ ks u, Execution (Step unaryCodec 0) firstCommitted ks u →
        (∀ k ∈ ks, k.renamed = false) → ∀ j r renamed x,
        Step unaryCodec 0 u (.returned (.load j) (.loaded r) renamed) x →
        r = .ok 1 ∨
          r = .error .closed ∧ ((u.store j).ready = false ∨ (u.store j).closed = true) := by
  have hrun : Execution (Step unaryCodec 0) emptyDirectory [_] openedDirectory :=
    .snoc (.nil _) (step_serve unaryCodec 0 emptyDirectory (.openDir (ascii "/srv")))
  have hcommit := step_serve unaryCodec 0 openedDirectory (.commit 0 0 1)
  have hok : (serve unaryCodec 0 openedDirectory (.commit 0 0 1)).1 = .finished (.ok ()) := rfl
  rw [hok] at hcommit
  obtain ⟨-, hdurable, -, -⟩ :=
    commits_are_atomic_and_durable unaryCodec 0 unaryCodec_roundTrips ⟨rfl, rfl⟩ hrun hcommit
  exact ⟨hok, fun ks u hks hquiet j => (hdurable 0 0 1 _ rfl ks u hks hquiet j).2⟩

end RevisionHistory
