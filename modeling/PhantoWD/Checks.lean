import Mathlib.Data.List.Basic

/-!
Validation code runs its checks one after another and returns the first refusal.
The rules below turn an accepted sequence into what each check established.
-/
namespace Checks

variable {ε α β σ : Type}

def refuseIf (p : Prop) [Decidable p] (e : ε) : Except ε Unit :=
  if p then .error e else .ok ()

variable {e : ε} {p : Prop} {x : Except ε α} {l : List α} {check : α → Except ε Bool}

@[simp] theorem refuseIf_ok [Decidable p] {u : Unit} : refuseIf p e = .ok u ↔ ¬p := by
  by_cases h : p <;> simp [refuseIf, h]

theorem ite_error_ok [Decidable p] {a : α} :
    (if p then .error e else x) = .ok a ↔ ¬p ∧ x = .ok a := by
  by_cases h : p <;> simp [h]

theorem bind_ok {x : Except ε α} {f : α → Except ε β} {b : β} :
    (x >>= f) = .ok b ↔ ∃ a, x = .ok a ∧ f a = .ok b := by
  cases x with
  | error | ok => simp [bind, Except.bind]

theorem bind_unit_ok {x : Except ε Unit} {f : Unit → Except ε β} {b : β} :
    (x >>= f) = .ok b ↔ x = .ok () ∧ f () = .ok b := by
  rw [bind_ok]
  constructor
  · rintro ⟨u, hx, hf⟩
    exact ⟨hx, hf⟩
  · rintro ⟨hx, hf⟩
    exact ⟨(), hx, hf⟩

theorem toOption_some {a : α} : x.toOption = some a ↔ x = .ok a := by
  cases x <;> simp [Except.toOption]

def forEach (check : α → Except ε Unit) : List α → Except ε Unit
  | [] => .ok ()
  | x :: rest => do
    check x
    forEach check rest

theorem forEach_ok {check : α → Except ε Unit} {u : Unit} :
    forEach check l = .ok u ↔ ∀ x ∈ l, check x = .ok () := by
  induction l with
  | nil => simp [forEach]
  | cons x rest ih => rw [forEach, bind_unit_ok, ih, List.forall_mem_cons]

def thread (turn : σ → α → Except ε σ) : σ → List α → Except ε σ
  | s, [] => .ok s
  | s, x :: rest => do
    let next ← turn s x
    thread turn next rest

theorem thread_cons_ok {turn : σ → α → Except ε σ} {s s' : σ} {x : α} {rest : List α} :
    thread turn s (x :: rest) = .ok s' ↔
      ∃ next, turn s x = .ok next ∧ thread turn next rest = .ok s' := by
  rw [thread, bind_ok]

def collect (turn : α → Except ε β) : List α → Except ε (List β)
  | [] => .ok []
  | x :: rest => do
    let y ← turn x
    let ys ← collect turn rest
    .ok (y :: ys)

theorem collect_ok {turn : α → Except ε β} {m : List β} :
    collect turn l = .ok m ↔
      (∀ x ∈ l, ∃ y, turn x = .ok y) ∧ m = l.filterMap fun x => (turn x).toOption := by
  induction l generalizing m with
  | nil => simp [collect, eq_comm]
  | cons x rest ih =>
    rw [collect, bind_ok, List.forall_mem_cons]
    cases hx : turn x with
    | error e => simp
    | ok y =>
      rw [List.filterMap_cons, hx]
      simp only [Except.ok.injEq, exists_eq_left', bind_ok, exists_eq', true_and, ih,
        Except.toOption]
      constructor
      · rintro ⟨ys, ⟨hall, rfl⟩, rfl⟩
        exact ⟨hall, rfl⟩
      · rintro ⟨hall, rfl⟩
        exact ⟨_, ⟨hall, rfl⟩, rfl⟩

def anyOf (check : α → Except ε Bool) : List α → Except ε Bool
  | [] => .ok false
  | x :: rest => do
    if ← check x then
      return true
    anyOf check rest

theorem anyOf_cons_ok {x : α} {rest : List α} {b : Bool} :
    anyOf check (x :: rest) = .ok b ↔
      check x = .ok true ∧ b = true ∨ check x = .ok false ∧ anyOf check rest = .ok b := by
  rw [anyOf, bind_ok]
  constructor
  · rintro ⟨found, hx, hrest⟩
    cases found with
    | true => exact .inl ⟨hx, by simpa [pure, Except.pure, eq_comm] using hrest⟩
    | false => exact .inr ⟨hx, by simpa using hrest⟩
  · rintro (⟨hx, rfl⟩ | ⟨hx, hrest⟩)
    · exact ⟨true, hx, rfl⟩
    · exact ⟨false, hx, by simpa using hrest⟩

theorem anyOf_true (h : anyOf check l = .ok true) : ∃ x ∈ l, check x = .ok true := by
  induction l with
  | nil => simp [anyOf] at h
  | cons x rest ih =>
    rcases anyOf_cons_ok.mp h with ⟨hx, -⟩ | ⟨-, hrest⟩
    · exact ⟨x, List.mem_cons_self, hx⟩
    · obtain ⟨y, hy, hcheck⟩ := ih hrest
      exact ⟨y, List.mem_cons_of_mem x hy, hcheck⟩

theorem anyOf_false : anyOf check l = .ok false ↔ ∀ x ∈ l, check x = .ok false := by
  induction l with
  | nil => simp [anyOf]
  | cons x rest ih => rw [anyOf_cons_ok, ih, List.forall_mem_cons]; simp

section Avoids

variable {bad : ε}

theorem bind_avoids {f : α → Except ε β} (hx : x ≠ .error bad) (hf : ∀ a, f a ≠ .error bad) :
    (x >>= f) ≠ .error bad := by
  cases x with
  | error e => simpa [bind, Except.bind] using hx
  | ok a => exact hf a

theorem refuseIf_avoids [Decidable p] (h : e ≠ bad) : refuseIf p e ≠ .error bad := by
  by_cases hp : p <;> simp [refuseIf, hp, h]

theorem check_avoids [Decidable p] {f : Unit → Except ε β} (h : e ≠ bad) (hf : f () ≠ .error bad) :
    (refuseIf p e >>= f) ≠ .error bad :=
  bind_avoids (refuseIf_avoids h) fun _ => hf

theorem forEach_avoids {check : α → Except ε Unit} (h : ∀ x, check x ≠ .error bad)
    (l : List α) : forEach check l ≠ .error bad := by
  induction l with
  | nil => simp [forEach]
  | cons x rest ih => exact bind_avoids (h x) fun _ => ih

theorem thread_avoids {turn : σ → α → Except ε σ} (h : ∀ s x, turn s x ≠ .error bad) (s : σ)
    (l : List α) : thread turn s l ≠ .error bad := by
  induction l generalizing s with
  | nil => simp [thread]
  | cons x rest ih => exact bind_avoids (h s x) ih

theorem anyOf_avoids (h : ∀ x, check x ≠ .error bad) (l : List α) : anyOf check l ≠ .error bad := by
  induction l with
  | nil => simp [anyOf]
  | cons x rest ih =>
    refine bind_avoids (h x) fun found => ?_
    cases found with
    | true => simp [pure, Except.pure]
    | false => simpa using ih

end Avoids

end Checks
