import Mathlib.Logic.Relation
import Mathlib.Tactic.SplitIfs

/-!
A program is a tree of typed requests. The environment answers each with any value its handler
admits and may change the world. A process can stop before any request, so safety is a predicate
that holds at every stopping point.
-/
namespace EffectProgram

inductive Program (R : Type → Type) (α : Type) : Type 1 where
  | pure (a : α) : Program R α
  | request {β : Type} (r : R β) (next : β → Program R α) : Program R α

variable {R S : Type → Type} {W V : Type} {α β : Type}

def Program.bind (p : Program R α) (f : α → Program R β) : Program R β :=
  match p with
  | .pure a => f a
  | .request r next => .request r fun b => (next b).bind f

instance : Monad (Program R) where
  pure := Program.pure
  bind := Program.bind

def Program.mapRequest (f : {β : Type} → R β → S β) : Program R α → Program S α
  | .pure a => .pure a
  | .request r next => .request (f r) fun b => (next b).mapRequest f

/-- The admissible answers to a request and their effect on the world. -/
def Handler (R : Type → Type) (W : Type) : Type 1 := {β : Type} → R β → W → β → W → Prop

/-- A run either returns a value or stops early; stopping is possible anywhere. -/
inductive Runs (H : Handler R W) {α : Type} : Program R α → W → Option α → W → Prop where
  | stop (p w) : Runs H p w none w
  | done (a w) : Runs H (.pure a) w (some a) w
  | request {β : Type} {r : R β} {next : β → Program R α} {b : β} {o : Option α} {w u v : W} :
      H r w b u → Runs H (next b) u o v → Runs H (.request r next) w o v

def Program.run (answer : {β : Type} → R β → W → β × W) : Program R α → W → α × W
  | .pure a, w => (a, w)
  | .request r next, w => (next (answer r w).1).run answer (answer r w).2

theorem Program.runs_run {H : Handler R W} {answer : {β : Type} → R β → W → β × W}
    (h : ∀ {β : Type} (r : R β) w, H r w (answer r w).1 (answer r w).2) (p : Program R α) (w : W) :
    Runs H p w (some (p.run answer w).1) (p.run answer w).2 := by
  induction p generalizing w with
  | pure a => exact .done a w
  | request r next ih => exact .request (h r w) (ih _ _)

def Safe (H : Handler R W) (I : W → Prop) (Q : α → W → Prop) : Program R α → W → Prop
  | .pure a, w => I w ∧ Q a w
  | .request r next, w => I w ∧ ∀ b u, H r w b u → Safe H I Q (next b) u

variable {o : Option α} {K : Handler S W} {r : R α} {τ δ L : Type} {b : β} {ls : List L}

section Rules

variable {H : Handler R W} {I : W → Prop} {Q : α → W → Prop} {p : Program R α} {w : W}

theorem Safe.here (h : Safe H I Q p w) : I w := by
  cases p with
  | pure | request => exact h.1

/-- A safe program keeps its invariant wherever it stops and meets its postcondition. -/
theorem Safe.sound (h : Safe H I Q p w) {v : W} (hr : Runs H p w o v) :
    I v ∧ ∀ a, o = some a → Q a v := by
  induction hr with
  | stop p w => exact ⟨h.here, by simp⟩
  | done a w => exact ⟨h.1, fun b hb => Option.some.inj hb ▸ h.2⟩
  | request hh _ ih => exact ih (h.2 _ _ hh)

/-- If one handler's answers are answers of another at related worlds, so are its runs. -/
theorem Runs.related {G : Handler R V} {rel : W → V → Prop}
    (hr : ∀ {γ : Type} {r : R γ} {w c u v}, H r w c u → rel w v → ∃ v', G r v c v' ∧ rel u v')
    {u : W} (h : Runs H p w o u) {v : V} (hv : rel w v) : ∃ v', Runs G p v o v' ∧ rel u v' := by
  induction h generalizing v with
  | stop p w => exact ⟨v, .stop p v, hv⟩
  | done a w => exact ⟨v, .done a v, hv⟩
  | request hstep _ ih =>
    obtain ⟨v₁, hg, hv₁⟩ := hr hstep hv
    obtain ⟨v₂, hrun, hv₂⟩ := ih hv₁
    exact ⟨v₂, .request hg hrun, hv₂⟩

theorem Safe.mono {J : W → Prop} {P : α → W → Prop} (h : Safe H I Q p w)
    (hI : ∀ v, I v → J v) (hQ : ∀ a v, I v → Q a v → P a v) : Safe H J P p w := by
  induction p generalizing w with
  | pure a => exact ⟨hI w h.1, hQ a w h.1 h.2⟩
  | request r next ih => exact ⟨hI w h.1, fun b u hu => ih b (h.2 b u hu)⟩

theorem safe_bind {P : β → W → Prop} {f : α → Program R β} :
    Safe H I P (p >>= f) w ↔ Safe H I (fun a v => Safe H I P (f a) v) p w := by
  change Safe H I P (p.bind f) w ↔ _
  induction p generalizing w with
  | pure a =>
    simp only [Program.bind, Safe]
    exact ⟨fun h => ⟨h.here, h⟩, fun h => h.2⟩
  | request r next ih =>
    simp only [Program.bind, Safe]
    exact and_congr_right fun _ => forall_congr' fun b => forall_congr' fun u =>
      imp_congr_right fun _ => ih b

theorem Safe.seq {P : β → W → Prop} {f : α → Program R β} (h : Safe H I Q p w)
    (hf : ∀ a v, I v → Q a v → Safe H I P (f a) v) : Safe H I P (p >>= f) w :=
  safe_bind.mpr (h.mono (fun _ => id) hf)

end Rules

def Handler.through (K : Handler S W) (f : {β : Type} → R β → S β) : Handler R W :=
  fun r w b u => K (f r) w b u

theorem safe_mapRequest {f : {β : Type} → R β → S β} {I : W → Prop} {Q : α → W → Prop}
    {p : Program R α} {w : W} : Safe K I Q (p.mapRequest f) w ↔ Safe (K.through f) I Q p w := by
  induction p generalizing w with
  | pure a => exact Iff.rfl
  | request r next ih =>
    exact and_congr_right fun _ => forall_congr' fun b => forall_congr' fun u =>
      imp_congr_right fun _ => ih b

theorem Runs.mapRequest {f : {β : Type} → R β → S β} {p : Program R α} {w u : W}
    (h : Runs (K.through f) p w o u) : Runs K (p.mapRequest f) w o u := by
  induction h with
  | stop p w => exact .stop _ w
  | done a w => exact .done a w
  | request hr _ ih => exact .request hr ih

/-!
A method reads and updates the receiver's private state, makes requests and may return
an error. An error keeps the state reached so far.
-/

def Method (R : Type → Type) (σ ε α : Type) : Type 1 := σ → Program R (Except ε α × σ)

namespace Method

variable {σ ε : Type}

def bind (m : Method R σ ε α) (f : α → Method R σ ε β) : Method R σ ε β := fun s =>
  (m s).bind fun
    | (.ok a, t) => f a t
    | (.error e, t) => .pure (.error e, t)

instance : Monad (Method R σ ε) where
  pure a := fun s => .pure (.ok a, s)
  bind := Method.bind

def fail (e : ε) : Method R σ ε α := fun s => .pure (.error e, s)

def refuseIf (refused : Prop) [Decidable refused] (e : ε) : Method R σ ε Unit :=
  if refused then fail e else pure ()

def ofOption (o : Option α) (e : ε) : Method R σ ε α :=
  match o with
  | some a => pure a
  | none => fail e

def get : Method R σ ε σ := fun s => .pure (.ok s, s)

def modify (f : σ → σ) : Method R σ ε Unit := fun s => .pure (.ok (), f s)

def request (r : R α) : Method R σ ε α := fun s => .request r fun a => .pure (.ok a, s)

def mapResult (g : Except ε α → Except ε β) (m : Method R σ ε α) : Method R σ ε β := fun s =>
  (m s).bind fun r => .pure (g r.1, r.2)

def attempt (m : Method R σ ε α) : Method R σ ε (Except ε α) := mapResult .ok m

def embed {τ δ : Type} (f : {β : Type} → R β → S β) (wrap : δ → ε) (read : σ → τ)
    (write : τ → σ → σ) (m : Method R τ δ α) : Method S σ ε α := fun s =>
  ((m (read s)).mapRequest f).bind fun r => .pure (r.1.mapError wrap, write r.2 s)

end Method

section MethodRules

variable {σ ε : Type} {H : Handler R W} {I : W → Prop} {Q : Except ε α → σ → W → Prop}
  {P : Except ε β → σ → W → Prop} {m : Method R σ ε α} {f : α → Method R σ ε β} {s : σ} {w : W}

/-- The invariant holds wherever the method stops and its result meets the postcondition. -/
def Meets (H : Handler R W) (I : W → Prop) (Q : Except ε α → σ → W → Prop)
    (m : Method R σ ε α) (s : σ) (w : W) : Prop :=
  Safe H I (fun r => Q r.1 r.2) (m s) w

def Continues (H : Handler R W) (I : W → Prop) (P : Except ε β → σ → W → Prop)
    (f : α → Method R σ ε β) : Except ε α → σ → W → Prop
  | .ok a, s, w => Meets H I P (f a) s w
  | .error e, s, w => P (.error e) s w

variable {a : α}

@[simp] theorem continues_ok :
    Continues H I P f (.ok a) s w ↔ Meets H I P (f a) s w := Iff.rfl

variable {e : ε}

@[simp] theorem continues_error :
    Continues H I P f (.error e) s w ↔ P (.error e) s w := Iff.rfl

@[simp] theorem meets_pure :
    Meets H I Q (pure a) s w ↔ I w ∧ Q (.ok a) s w := Iff.rfl

@[simp] theorem meets_fail :
    Meets H I Q (Method.fail e) s w ↔ I w ∧ Q (.error e) s w := Iff.rfl

@[simp] theorem meets_get {P : Except ε σ → σ → W → Prop} :
    Meets H I P Method.get s w ↔ I w ∧ P (.ok s) s w := Iff.rfl

@[simp] theorem meets_modify {P : Except ε Unit → σ → W → Prop} {g : σ → σ} :
    Meets H I P (Method.modify g) s w ↔ I w ∧ P (.ok ()) (g s) w := Iff.rfl

@[simp] theorem meets_request :
    Meets H I Q (Method.request r) s w ↔
      I w ∧ ∀ a u, H r w a u → I u ∧ Q (.ok a) s u := Iff.rfl

@[simp] theorem meets_ofOption :
    Meets H I Q (Method.ofOption o e) s w ↔
      I w ∧ ((∀ a, o = some a → Q (.ok a) s w) ∧ (o = none → Q (.error e) s w)) := by
  cases o <;> simp [Method.ofOption]

theorem Meets.mono {J : W → Prop} {Q' : Except ε α → σ → W → Prop} (h : Meets H I Q m s w)
    (hI : ∀ v, I v → J v) (hQ : ∀ r t v, I v → Q r t v → Q' r t v) : Meets H J Q' m s w :=
  Safe.mono h hI fun r v => hQ r.1 r.2 v

/-- What every request keeps holds throughout any program. -/
theorem Safe.stable (hI : ∀ {γ : Type} (r : R γ) (v : W) (c : γ) (u : W), H r v c u → I v → I u)
    (p : Program R α) (w : W) (h : I w) : Safe H I (fun _ _ => True) p w := by
  induction p generalizing w with
  | pure a => exact ⟨h, True.intro⟩
  | request r next ih => exact ⟨h, fun b u hu => ih b u (hI r w b u hu h)⟩

theorem meets_stable
    (hI : ∀ {γ : Type} (r : R γ) (v : W) (c : γ) (u : W), H r v c u → I v → I u) (h : I w) :
    Meets H I (fun _ _ _ => True) m s w :=
  Safe.stable hI (m s) w h

/-- Nothing is known about the method, but it only sees its own state. -/
theorem meets_anything : Meets H (fun _ => True) (fun _ _ _ => True) m s w :=
  meets_stable (fun _ _ _ _ _ h => h) trivial

theorem meets_bind :
    Meets H I P (m >>= f) s w ↔
      Meets H I (fun r t v => I v ∧ Continues H I P f r t v) m s w := by
  refine (safe_bind (p := m s)).trans ⟨fun h => ?_, fun h => ?_⟩
  · refine Safe.mono h (fun _ => id) fun r v hv hr => ?_
    obtain ⟨r | r, t⟩ := r
    · exact ⟨hv, hr.2⟩
    · exact ⟨hv, hr⟩
  · refine Safe.mono h (fun _ => id) fun r v _ hr => ?_
    obtain ⟨r | r, t⟩ := r
    · exact hr
    · exact hr.2

theorem Meets.seq (h : Meets H I Q m s w)
    (herr : ∀ e t v, I v → Q (.error e) t v → P (.error e) t v)
    (hok : ∀ a t v, I v → Q (.ok a) t v → Meets H I P (f a) t v) :
    Meets H I P (m >>= f) s w := by
  refine meets_bind.mpr (h.mono (fun _ => id) fun r t v hv hq => ⟨hv, ?_⟩)
  cases r with
  | error e => exact herr e t v hv hq
  | ok a => exact hok a t v hv hq

@[simp] theorem meets_pure_bind :
    Meets H I P (pure a >>= f) s w ↔ Meets H I P (f a) s w := Iff.rfl

@[simp] theorem meets_fail_bind :
    Meets H I P (Method.fail e >>= f) s w ↔ I w ∧ P (.error e) s w := Iff.rfl

@[simp] theorem meets_get_bind {f : σ → Method R σ ε β} :
    Meets H I P (Method.get >>= f) s w ↔ Meets H I P (f s) s w := Iff.rfl

@[simp] theorem meets_modify_bind {g : σ → σ} {f : Unit → Method R σ ε β} :
    Meets H I P (Method.modify g >>= f) s w ↔ Meets H I P (f ()) (g s) w := Iff.rfl

@[simp] theorem meets_request_bind :
    Meets H I P (Method.request r >>= f) s w ↔
      I w ∧ ∀ a u, H r w a u → Meets H I P (f a) s u := Iff.rfl

theorem meets_refuseIf {b : Prop} [Decidable b] {P : Except ε Unit → σ → W → Prop} (hI : I w)
    (herr : b → P (.error e) s w) (hok : ¬ b → P (.ok ()) s w) :
    Meets H I P (Method.refuseIf b e) s w := by
  unfold Method.refuseIf
  split_ifs with h
  · exact ⟨hI, herr h⟩
  · exact ⟨hI, hok h⟩

theorem meets_refuseIf_bind {b : Prop} [Decidable b] {f : Unit → Method R σ ε β} (hI : I w)
    (herr : b → P (.error e) s w) (hok : ¬ b → Meets H I P (f ()) s w) :
    Meets H I P (Method.refuseIf b e >>= f) s w := by
  unfold Method.refuseIf
  split_ifs with h
  · exact meets_fail_bind.mpr ⟨hI, herr h⟩
  · exact hok h

theorem meets_ofOption_bind (hI : I w) (herr : o = none → P (.error e) s w)
    (hok : ∀ a, o = some a → Meets H I P (f a) s w) :
    Meets H I P (Method.ofOption o e >>= f) s w := by
  cases o with
  | none => exact meets_fail_bind.mpr ⟨hI, herr rfl⟩
  | some a => exact hok a rfl

/-- A request that leaves the world alone. -/
theorem meets_ask_bind (hI : I w) (hr : ∀ a u, H r w a u → u = w)
    (hf : ∀ a, Meets H I P (f a) s w) : Meets H I P (Method.request r >>= f) s w := by
  refine meets_request_bind.mpr ⟨hI, fun a u hu => ?_⟩
  rw [hr a u hu]
  exact hf a

def MayFail (I : W → Prop) (P : Except ε β → σ → W → Prop) (s : σ) (w : W) : Prop :=
  I w ∧ ∀ e, P (.error e) s w

theorem meets_mayFail (hI : I w) (herr : ∀ e, Q (.error e) s w)
    (h : MayFail I Q s w → Meets H I Q m s w) : Meets H I Q m s w :=
  h ⟨hI, herr⟩

theorem MayFail.guard {b : Prop} [Decidable b] {f : Unit → Method R σ ε β} (h : MayFail I P s w)
    (hf : ¬ b → Meets H I P (f ()) s w) : Meets H I P (Method.refuseIf b e >>= f) s w :=
  meets_refuseIf_bind h.1 (fun _ => h.2 e) hf

theorem MayFail.take (h : MayFail I P s w) (hf : ∀ a, o = some a → Meets H I P (f a) s w) :
    Meets H I P (Method.ofOption o e >>= f) s w :=
  meets_ofOption_bind h.1 (fun _ => h.2 e) hf

theorem MayFail.observe {A : Except ε α → Prop} (h : MayFail I P s w)
    (hm : Meets H (· = w) (fun r t _ => t = s ∧ A r) m s w)
    (hf : ∀ a, A (.ok a) → Meets H I P (f a) s w) : Meets H I P (m >>= f) s w := by
  have hm' : Meets H I (fun r t v => v = w ∧ t = s ∧ A r) m s w :=
    hm.mono (fun v hv => hv ▸ h.1) fun r t v hv hr => ⟨hv, hr⟩
  refine hm'.seq ?_ ?_
  · rintro e t v _ ⟨rfl, rfl, _⟩
    exact h.2 e
  · rintro a t v _ ⟨rfl, rfl, ha⟩
    exact hf a ha

theorem MayFail.check {b : α → Prop} [DecidablePred b] (h : MayFail I P s w)
    (hr : ∀ a u, H r w a u → u = w) (hf : ∀ a, ¬ b a → Meets H I P (f a) s w) :
    Meets H I P (Method.request r >>= fun a => Method.refuseIf (b a) e >>= fun _ => f a) s w :=
  meets_ask_bind h.1 hr fun a => h.guard (hf a)

theorem meets_mapResult {g : Except ε α → Except ε β} :
    Meets H I P (m.mapResult g) s w ↔ Meets H I (fun r => P (g r)) m s w := by
  refine (safe_bind (p := m s)).trans ⟨fun h => ?_, fun h => ?_⟩
  · exact Safe.mono h (fun _ => id) fun _ _ _ hr => hr.2
  · exact Safe.mono h (fun _ => id) fun _ _ hv hr => ⟨hv, hr⟩

theorem meets_attempt_bind {f : Except ε α → Method R σ ε β} :
    Meets H I P (Method.attempt m >>= f) s w ↔
      Meets H I (fun r t v => I v ∧ Meets H I P (f r) t v) m s w :=
  meets_bind.trans meets_mapResult

theorem meets_embed {f : {β : Type} → R β → S β} {wrap : δ → ε} {read : σ → τ} {write : τ → σ → σ}
    {m : Method R τ δ α} :
    Meets K I Q (m.embed f wrap read write) s w ↔
      Meets (K.through f) I (fun r t => Q (r.mapError wrap) (write t s)) m (read s) w := by
  refine (safe_bind (p := (m (read s)).mapRequest f)).trans (safe_mapRequest.trans
    ⟨fun h => ?_, fun h => ?_⟩)
  · exact Safe.mono h (fun _ => id) fun _ _ _ hr => hr.2
  · exact Safe.mono h (fun _ => id) fun _ _ hv hr => ⟨hv, hr⟩

/-!
A frame bounds what a method does to the world and to its own state, so that a chain of steps
is followed without naming the states in between.
-/

/-- Bounds on the world at every stop, on the state after a success, and on the state after
any result. -/
structure Frame (σ W : Type) where
  world : W → W → Prop
  ok : σ → σ → Prop
  any : σ → σ → Prop
  world_refl : ∀ w, world w w
  world_trans : ∀ {w u v}, world w u → world u v → world w v
  ok_refl : ∀ s, ok s s
  ok_trans : ∀ {s t u}, ok s t → ok t u → ok s u
  any_of_ok : ∀ {s t}, ok s t → any s t
  any_trans : ∀ {s t u}, any s t → any t u → any s u

def Frame.ofWorld (L : W → W → Prop) (hr : ∀ w, L w w) (ht : ∀ {w u v}, L w u → L u v → L w v) :
    Frame σ W where
  world := L
  ok _ _ := True
  any _ _ := True
  world_refl := hr
  world_trans := ht
  ok_refl _ := trivial
  ok_trans _ _ := trivial
  any_of_ok _ := trivial
  any_trans _ _ := trivial

def Frame.silent : Frame σ W := .ofWorld Eq (fun _ => rfl) Eq.trans

def Within (H : Handler R W) (F : Frame σ W) (A : α → Prop) (m : Method R σ ε α) : Prop :=
  ∀ s w, Meets H (F.world w) (fun r t _ => F.any s t ∧ ∀ a, r = .ok a → F.ok s t ∧ A a) m s w

section Frames

variable {F : Frame σ W} {A : α → Prop} {B : β → Prop}

theorem within_pure {a : α} (h : A a) : Within H F A (pure a : Method R σ ε α) := by
  intro s w
  refine meets_pure.mpr ⟨F.world_refl w, F.any_of_ok (F.ok_refl s), ?_⟩
  intro b hb
  exact ⟨F.ok_refl s, Except.ok.inj hb ▸ h⟩

theorem within_fail {e : ε} : Within H F A (Method.fail e : Method R σ ε α) := by
  intro s w
  exact meets_fail.mpr ⟨F.world_refl w, F.any_of_ok (F.ok_refl s), by simp⟩

theorem Within.bind (hm : Within H F A m) (hf : ∀ a, A a → Within H F B (f a)) :
    Within H F B (m >>= f) := by
  intro s w
  refine (hm s w).seq ?_ ?_
  · rintro e t v _ ⟨hany, _⟩
    exact ⟨hany, by simp⟩
  · rintro a t v hv ⟨_, hok⟩
    obtain ⟨hst, ha⟩ := hok a rfl
    refine (hf a ha t v).mono (fun u hu => F.world_trans hv hu) ?_
    rintro r t' _ _ ⟨hany, hr⟩
    exact ⟨F.any_trans (F.any_of_ok hst) hany,
      fun b hb => ⟨F.ok_trans hst (hr b hb).1, (hr b hb).2⟩⟩

theorem within_get : Within H F (fun _ => True) (Method.get : Method R σ ε σ) := by
  intro s w
  exact meets_get.mpr ⟨F.world_refl w, F.any_of_ok (F.ok_refl s), fun _ _ => ⟨F.ok_refl s, trivial⟩⟩

theorem within_modify {g : σ → σ} (h : ∀ s, F.ok s (g s)) :
    Within H F (fun _ => True) (Method.modify g : Method R σ ε Unit) := by
  intro s w
  exact meets_modify.mpr ⟨F.world_refl w, F.any_of_ok (h s), fun _ _ => ⟨h s, trivial⟩⟩

theorem within_request (h : ∀ w a u, H r w a u → F.world w u) :
    Within H F (fun _ => True) (Method.request r : Method R σ ε α) := by
  intro s w
  refine meets_request.mpr ⟨F.world_refl w, fun a u hu => ⟨h w a u hu, ?_⟩⟩
  exact ⟨F.any_of_ok (F.ok_refl s), fun _ _ => ⟨F.ok_refl s, trivial⟩⟩

theorem within_refuseIf {b : Prop} [Decidable b] {e : ε} :
    Within H F (fun _ => ¬ b) (Method.refuseIf b e : Method R σ ε Unit) := by
  unfold Method.refuseIf
  split_ifs with hb
  · exact within_fail
  · exact within_pure hb

theorem within_ofOption {e : ε} :
    Within H F (fun a => o = some a) (Method.ofOption o e : Method R σ ε α) := by
  cases o with
  | none => exact within_fail
  | some a => exact within_pure rfl

/-- After a failed attempt the rest must not succeed. -/
theorem Within.attempt_bind {f : Except ε α → Method R σ ε β} (hm : Within H F A m)
    (hok : ∀ a, A a → Within H F B (f (.ok a)))
    (herr : ∀ e, Within H F (fun _ => False) (f (.error e))) :
    Within H F B (Method.attempt m >>= f) := by
  intro s w
  refine meets_attempt_bind.mpr ((hm s w).mono (fun _ => id) ?_)
  rintro (e | a) t v hv ⟨hany, hr⟩
  · refine ⟨hv, (herr e t v).mono (fun u hu => F.world_trans hv hu) ?_⟩
    rintro r t' _ _ ⟨hany', hr'⟩
    exact ⟨F.any_trans hany hany', fun b hb => (hr' b hb).2.elim⟩
  · obtain ⟨hst, ha⟩ := hr a rfl
    refine ⟨hv, (hok a ha t v).mono (fun u hu => F.world_trans hv hu) ?_⟩
    rintro r t' _ _ ⟨hany', hr'⟩
    exact ⟨F.any_trans hany hany', fun b hb => ⟨F.ok_trans hst (hr' b hb).1, (hr' b hb).2⟩⟩

theorem Within.embed {G : Frame τ W} {f : {β : Type} → R β → S β} {wrap : δ → ε} {read : σ → τ}
    {write : τ → σ → σ} {m : Method R τ δ α} (hm : Within (K.through f) G A m)
    (hw : ∀ w u, G.world w u → F.world w u) (h : ∀ s t, F.ok s (write t s)) :
    Within K F A (m.embed f wrap read write) := by
  intro s w
  refine meets_embed.mpr ((hm (read s) w).mono (hw w) ?_)
  rintro r t v _ ⟨_, hr⟩
  refine ⟨F.any_of_ok (h s t), ?_⟩
  intro a ha
  cases r with
  | error e => cases ha
  | ok x => exact ⟨h s t, Except.ok.inj ha ▸ (hr x rfl).2⟩

theorem Within.mono {G : Frame σ W} {C : α → Prop} (hm : Within H F A m)
    (hw : ∀ w u, F.world w u → G.world w u) (hok : ∀ s t, F.ok s t → G.ok s t)
    (hany : ∀ s t, F.any s t → G.any s t) (hA : ∀ a, A a → C a) : Within H G C m := by
  intro s w
  refine (hm s w).mono (hw w) ?_
  rintro r t v _ ⟨h, hr⟩
  exact ⟨hany s t h, fun a ha => ⟨hok s t (hr a ha).1, hA a (hr a ha).2⟩⟩

end Frames

/-!
The rules above are about every run. These build one run of a method that succeeds.
-/

theorem Runs.bind {p : Program R α} {g : α → Program R β} {u v : W} {o : Option β}
    (hp : Runs H p w (some a) u) (hg : Runs H (g a) u o v) : Runs H (p.bind g) w o v := by
  generalize hx : some a = x at hp
  induction hp with
  | stop p w => cases hx
  | done b w =>
    cases hx
    exact hg
  | request hr _ ih => exact .request hr (ih hg hx)

def Returns (H : Handler R W) (m : Method R σ ε α) (s : σ) (w : W) (a : α) (t : σ) (u : W) : Prop :=
  Runs H (m s) w (some (.ok a, t)) u

variable {t : σ} {u v : W}

theorem returns_pure : Returns H (pure a : Method R σ ε α) s w a s w := .done _ _

theorem Returns.bind {t' : σ} (hm : Returns H m s w a t u) (hf : Returns H (f a) t u b t' v) :
    Returns H (m >>= f) s w b t' v :=
  Runs.bind hm hf

theorem returns_get_bind {f : σ → Method R σ ε β} (hf : Returns H (f s) s w b t v) :
    Returns H (Method.get >>= f) s w b t v := hf

theorem returns_modify_bind {g : σ → σ} {f : Unit → Method R σ ε β}
    (hf : Returns H (f ()) (g s) w b t v) : Returns H (Method.modify g >>= f) s w b t v := hf

theorem returns_request_bind (a : α) (hr : H r w a u) (hf : Returns H (f a) s u b t v) :
    Returns H (Method.request r >>= f) s w b t v :=
  .request hr hf

theorem returns_refuseIf_bind {refused : Prop} [Decidable refused] {f : Unit → Method R σ ε β}
    (h : ¬ refused) (hf : Returns H (f ()) s w b t v) :
    Returns H (Method.refuseIf refused e >>= f) s w b t v := by
  unfold Method.refuseIf
  rw [if_neg h]
  exact hf

theorem returns_ofOption_bind (ho : o = some a) (hf : Returns H (f a) s w b t v) :
    Returns H (Method.ofOption o e >>= f) s w b t v := by
  subst ho
  exact hf

theorem returns_attempt_bind {f : Except ε α → Method R σ ε β} {t' : σ}
    (hm : Returns H m s w a t u) (hf : Returns H (f (.ok a)) t u b t' v) :
    Returns H (Method.attempt m >>= f) s w b t' v :=
  Returns.bind (m := Method.attempt m) (Runs.bind hm (.done _ _)) hf

theorem returns_embed {f : {β : Type} → R β → S β} {wrap : δ → ε} {read : σ → τ}
    {write : τ → σ → σ} {m : Method R τ δ α} {x : τ}
    (h : Returns (K.through f) m (read s) w a x u) :
    Returns K (m.embed f wrap read write) s w a (write x s) u :=
  Runs.bind (Runs.mapRequest h) (.done _ _)

end MethodRules

inductive Execution {L : Type} (step : W → L → W → Prop) : W → List L → W → Prop where
  | nil (w) : Execution step w [] w
  | snoc {w u v ls l} : Execution step w ls u → step u l v → Execution step w (ls ++ [l]) v

theorem Execution.invariant {step : W → L → W → Prop} {I : W → Prop}
    (hs : ∀ w l v, I w → step w l v → I v) {w v : W} (h : Execution step w ls v) (hw : I w) :
    I v := by
  induction h with
  | nil => exact hw
  | snoc _ hl ih => exact hs _ _ _ ih hl

theorem Execution.invariant_where {step : W → L → W → Prop} {A : L → Prop} {I : W → Prop}
    (hs : ∀ w l v, A l → I w → step w l v → I v) {w v : W} (h : Execution step w ls v)
    (hA : ∀ l ∈ ls, A l) (hw : I w) : I v := by
  induction h with
  | nil => exact hw
  | snoc _ hl ih =>
    refine hs _ _ _ (hA _ (by simp)) (ih fun l hm => hA l ?_) hl
    exact List.mem_append_left _ hm

/-- A simulation carries executions over, and the labels of the two runs explain each other. -/
theorem Execution.simulate {M X : Type} {step : W → L → W → Prop} {move : X → M → X → Prop}
    {image : W → X} {explains : L → M → Prop} {I : W → Prop}
    (hs : ∀ w l v, I w → step w l v → I v ∧ ∃ m, explains l m ∧ move (image w) m (image v))
    {w v : W} (h : Execution step w ls v) (hw : I w) :
    I v ∧ ∃ ms, Execution move (image w) ms (image v) ∧ (∀ l ∈ ls, ∃ m ∈ ms, explains l m) ∧
      ∀ m ∈ ms, ∃ l ∈ ls, explains l m := by
  induction h with
  | nil => exact ⟨hw, [], .nil _, by simp, by simp⟩
  | @snoc u v ls l _ hl ih =>
    obtain ⟨hu, ms, hrun, hlabel, hact⟩ := ih
    obtain ⟨hv, m, hm, hmove⟩ := hs _ _ _ hu hl
    refine ⟨hv, ms ++ [m], .snoc hrun hmove, ?_, ?_⟩
    · intro k hk
      rcases List.mem_append.mp hk with hk | hk
      · obtain ⟨n, hn, hkn⟩ := hlabel k hk
        exact ⟨n, List.mem_append_left _ hn, hkn⟩
      · rw [List.mem_singleton.mp hk]
        exact ⟨m, List.mem_append_right _ (List.mem_singleton_self m), hm⟩
    · intro n hn
      rcases List.mem_append.mp hn with hn | hn
      · obtain ⟨k, hk, hkn⟩ := hact n hn
        exact ⟨k, List.mem_append_left _ hk, hkn⟩
      · rw [List.mem_singleton.mp hn]
        exact ⟨l, List.mem_append_right _ (List.mem_singleton_self l), hm⟩

end EffectProgram
