import Mathlib.Data.List.Basic
import Mathlib.Logic.Relation

/-!
A search that refuses a node standing on its own path, skips a node it has finished and stops at
the first target. An edge that fails its check matters only when the search gets to it.
-/
namespace DepthFirst

structure Graph (α κ ε : Type) where
  key : α → κ
  target : α → Except ε Bool
  edges : α → List (Except ε α)
  cycle : ε

/-- `unbounded` is not an answer: the recursion went deeper than it was allowed to. -/
inductive Result (κ ε : Type) where
  | unbounded
  | refused (e : ε)
  | found
  | exhausted (done : List κ)

variable {α κ ε : Type}

def each (visit : α → List κ → Result κ ε) : List (Except ε α) → List κ → Result κ ε
  | [], done => .exhausted done
  | .error e :: _, _ => .refused e
  | .ok x :: rest, done =>
    match visit x done with
    | .exhausted done' => each visit rest done'
    | r => r

namespace Graph

def visit [DecidableEq κ] (g : Graph α κ ε) : Nat → List κ → α → List κ → Result κ ε
  | 0, _, _, _ => .unbounded
  | depth + 1, path, x, done =>
    match g.target x with
    | .error e => .refused e
    | .ok true => .found
    | .ok false =>
      if g.key x ∈ path then .refused g.cycle
      else if g.key x ∈ done then .exhausted done
      else
        match each (g.visit depth (g.key x :: path)) (g.edges x) done with
        | .exhausted done' => .exhausted (g.key x :: done')
        | r => r

def Edge (g : Graph α κ ε) (x y : α) : Prop := .ok y ∈ g.edges x

def Reach (g : Graph α κ ε) : α → α → Prop := Relation.ReflTransGen g.Edge

end Graph

variable {x : α}

theorem not_self_of_acc {r : α → α → Prop} (h : Acc r x) : ¬r x x := by
  induction h with
  | intro x _ ih =>
    intro hx
    exact ih x hx hx

theorem no_cycle_of_acc {r : α → α → Prop} (h : Acc (Function.swap r) x) :
    ¬Relation.TransGen r x x := by
  intro hx
  exact not_self_of_acc h.transGen (Relation.TransGen.swap x x hx)

variable {done done' keys : List κ}

section Loop

variable {visit : α → List κ → Result κ ε}

theorem each_cons_ok (x : α) (rest : List (Except ε α)) (done : List κ) :
    each visit (.ok x :: rest) done =
      match visit x done with
      | .exhausted done' => each visit rest done'
      | r => r := rfl

variable {es : List (Except ε α)}

theorem each_bounded (h : ∀ x, .ok x ∈ es → ∀ done, visit x done ≠ .unbounded) (done : List κ) :
    each visit es done ≠ .unbounded := by
  induction es generalizing done with
  | nil => simp [each]
  | cons e rest ih =>
    cases e with
    | error e => simp [each]
    | ok x =>
      rw [each_cons_ok]
      have hx := h x (by simp) done
      have hrest := ih fun y hy => h y (List.mem_cons_of_mem _ hy)
      cases hv : visit x done with
      | unbounded => exact absurd hv hx
      | refused e => simp
      | found => simp
      | exhausted done' => exact hrest done'

theorem each_found (h : each visit es done = .found) : ∃ x d, .ok x ∈ es ∧ visit x d = .found := by
  induction es generalizing done with
  | nil => simp [each] at h
  | cons e rest ih =>
    cases e with
    | error e => simp [each] at h
    | ok x =>
      rw [each_cons_ok] at h
      cases hv : visit x done with
      | found => exact ⟨x, done, by simp, hv⟩
      | exhausted done' =>
        rw [hv] at h
        obtain ⟨y, d, hy, hd⟩ := ih h
        exact ⟨y, d, List.mem_cons_of_mem _ hy, hd⟩
      | unbounded | refused => simp [hv] at h

/-- A loop that visits every edge: the finished set keeps its invariant and grows, and every
edge led to a node that is finished now. -/
theorem each_exhausted {key : α → κ} {inv : List κ → Prop}
    (hv : ∀ x, .ok x ∈ es → ∀ d d', inv d → visit x d = .exhausted d' →
      inv d' ∧ d ⊆ d' ∧ key x ∈ d')
    (hi : inv done) (h : each visit es done = .exhausted done') :
    inv done' ∧ done ⊆ done' ∧ ∀ e ∈ es, ∃ y, e = .ok y ∧ key y ∈ done' := by
  induction es generalizing done with
  | nil =>
    simp only [each, Result.exhausted.injEq] at h
    subst h
    exact ⟨hi, List.Subset.refl done, by simp⟩
  | cons e rest ih =>
    cases e with
    | error e => simp [each] at h
    | ok x =>
      rw [each_cons_ok] at h
      cases hx : visit x done with
      | exhausted mid =>
        rw [hx] at h
        obtain ⟨hmid, hsub, hkey⟩ := hv x (by simp) done mid hi hx
        obtain ⟨hend, hsub', hall⟩ := ih (fun y hy => hv y (List.mem_cons_of_mem _ hy)) hmid h
        refine ⟨hend, List.Subset.trans hsub hsub', fun e he => ?_⟩
        rcases List.mem_cons.mp he with rfl | he
        · exact ⟨x, rfl, hsub' hkey⟩
        · exact hall e he
      | unbounded | refused | found => simp [hx] at h

theorem each_not_refused (hok : ∀ e ∈ es, ∃ y, e = .ok y)
    (hv : ∀ x, .ok x ∈ es → ∀ done e, visit x done ≠ .refused e) (done : List κ) (e : ε) :
    each visit es done ≠ .refused e := by
  induction es generalizing done with
  | nil => simp [each]
  | cons e' rest ih =>
    obtain ⟨x, rfl⟩ := hok e' (by simp)
    rw [each_cons_ok]
    have hrest := ih (fun e he => hok e (List.mem_cons_of_mem _ he))
      fun y hy => hv y (List.mem_cons_of_mem _ hy)
    cases hx : visit x done with
    | refused e' => exact absurd hx (hv x (by simp) done e')
    | unbounded => simp
    | found => simp
    | exhausted done' => exact hrest done'

end Loop

variable {g : Graph α κ ε}

/-- A set of nodes told apart by their keys and closed under edges. -/
structure Region (g : Graph α κ ε) (N : α → Prop) : Prop where
  key_inj : ∀ {x y}, N x → N y → g.key x = g.key y → x = y
  closed : ∀ {x y}, N x → g.Edge x y → N y

structure FinishedNode (g : Graph α κ ε) (done : List κ) (x : α) : Prop where
  target : g.target x = .ok false
  edges : ∀ e ∈ g.edges x, ∃ y, e = .ok y ∧ g.key y ∈ done
  acc : Acc (Function.swap g.Edge) x

def Finished (g : Graph α κ ε) (N : α → Prop) (done : List κ) : Prop :=
  ∀ x, N x → g.key x ∈ done → FinishedNode g done x

variable {N : α → Prop}

theorem finished_nil : Finished g N [] := fun _ _ h => by simp at h

theorem FinishedNode.mono (h : FinishedNode g done x) (hs : done ⊆ done') :
    FinishedNode g done' x where
  target := h.target
  edges := fun e he =>
    let ⟨y, hy, hk⟩ := h.edges e he
    ⟨y, hy, hs hk⟩
  acc := h.acc

theorem Finished.target_false (hN : Region g N) (hf : Finished g N done) {t : α} (hx : N x)
    (hk : g.key x ∈ done) (hr : g.Reach x t) : g.target t = .ok false := by
  induction hr using Relation.ReflTransGen.head_induction_on with
  | refl => exact (hf t hx hk).target
  | head hxy _ ih =>
    obtain ⟨y', he, hky⟩ := (hf _ hx hk).edges _ hxy
    cases he
    exact ih (hN.closed hx hxy) hky

variable [DecidableEq κ]

/-- Everything a visit can do. -/
theorem visit_cases (g : Graph α κ ε) (depth : Nat) (path : List κ) (x : α) (done : List κ) :
    (∃ e, g.target x = .error e ∧ g.visit (depth + 1) path x done = .refused e) ∨
    (g.target x = .ok true ∧ g.visit (depth + 1) path x done = .found) ∨
    (g.target x = .ok false ∧ g.key x ∈ path ∧
      g.visit (depth + 1) path x done = .refused g.cycle) ∨
    (g.target x = .ok false ∧ g.key x ∉ path ∧ g.key x ∈ done ∧
      g.visit (depth + 1) path x done = .exhausted done) ∨
    (g.target x = .ok false ∧ g.key x ∉ path ∧ g.key x ∉ done ∧
      g.visit (depth + 1) path x done =
        match each (g.visit depth (g.key x :: path)) (g.edges x) done with
        | .exhausted done' => .exhausted (g.key x :: done')
        | r => r) := by
  cases ht : g.target x with
  | error e => exact .inl ⟨e, rfl, by simp [Graph.visit, ht]⟩
  | ok b =>
    cases b with
    | true => exact .inr (.inl ⟨rfl, by simp [Graph.visit, ht]⟩)
    | false =>
      by_cases hp : g.key x ∈ path
      · exact .inr (.inr (.inl ⟨rfl, hp, by simp [Graph.visit, ht, hp]⟩))
      by_cases hd : g.key x ∈ done
      · exact .inr (.inr (.inr (.inl ⟨rfl, hp, hd, by simp [Graph.visit, ht, hp, hd]⟩)))
      · exact .inr (.inr (.inr (.inr ⟨rfl, hp, hd, by simp [Graph.visit, ht, hp, hd]⟩)))

def fresh (keys path : List κ) : List κ := keys.filter fun k => k ∉ path

variable {path : List κ}

theorem fresh_cons_lt {k : κ} (hk : k ∈ keys) (hp : k ∉ path) :
    (fresh keys (k :: path)).length < (fresh keys path).length := by
  have hsub : (fresh keys (k :: path)) = (fresh keys path).filter fun k' => k' ≠ k := by
    simp only [fresh, List.filter_filter, List.mem_cons, not_or]
    congr 1
    funext k'
    by_cases h : k' = k <;> simp [h]
  rw [hsub]
  exact List.length_filter_lt_length_iff_exists.mpr ⟨k, by simp [fresh, hk, hp], by simp⟩

variable {depth : Nat}

theorem fresh_nil_lt (h : keys.length < depth) : (fresh keys ([] : List κ)).length < depth :=
  Nat.lt_of_le_of_lt (List.length_filter_le _ _) h

/-- A path never repeats a key, so the recursion is no deeper than the keys that have edges. -/
theorem visit_bounded (hN : ∀ {x y}, N x → g.Edge x y → N y)
    (hkeys : ∀ {x y}, N x → g.Edge x y → g.key x ∈ keys) (h : (fresh keys path).length < depth)
    (hx : N x) (done : List κ) : g.visit depth path x done ≠ .unbounded := by
  induction depth generalizing path x done with
  | zero => omega
  | succ depth ih =>
    rcases visit_cases g depth path x done with
      ⟨e, -, hv⟩ | ⟨-, hv⟩ | ⟨-, -, hv⟩ | ⟨-, -, -, hv⟩ | ⟨-, hp, -, hv⟩
    · simp [hv]
    · simp [hv]
    · simp [hv]
    · simp [hv]
    · have heach : each (g.visit depth (g.key x :: path)) (g.edges x) done ≠ .unbounded := by
        refine each_bounded (fun y hy d => ih ?_ (hN hx hy) d) done
        have := fresh_cons_lt (hkeys hx hy) hp
        omega
      rw [hv]
      cases he : each (g.visit depth (g.key x :: path)) (g.edges x) done with
      | unbounded => exact absurd he heach
      | refused e => simp
      | found => simp
      | exhausted done' => simp

theorem visit_found (h : g.visit depth path x done = .found) :
    ∃ t, g.Reach x t ∧ g.target t = .ok true := by
  induction depth generalizing path x done with
  | zero => simp [Graph.visit] at h
  | succ depth ih =>
    rcases visit_cases g depth path x done with
      ⟨e, -, hv⟩ | ⟨ht, -⟩ | ⟨-, -, hv⟩ | ⟨-, -, -, hv⟩ | ⟨-, -, -, hv⟩
    · simp [hv] at h
    · exact ⟨x, Relation.ReflTransGen.refl, ht⟩
    · simp [hv] at h
    · simp [hv] at h
    · rw [hv] at h
      cases he : each (g.visit depth (g.key x :: path)) (g.edges x) done with
      | found =>
        obtain ⟨y, d, hy, hyd⟩ := each_found he
        obtain ⟨t, hreach, ht⟩ := ih hyd
        exact ⟨t, Relation.ReflTransGen.head hy hreach, ht⟩
      | unbounded | refused | exhausted => simp [he] at h

/-- A visit that finds nothing adds its node and keeps the finished set closed. -/
theorem visit_exhausted (hN : Region g N) (hx : N x) (hf : Finished g N done)
    (h : g.visit depth path x done = .exhausted done') :
    Finished g N done' ∧ done ⊆ done' ∧ g.key x ∈ done' := by
  induction depth generalizing path x done done' with
  | zero => simp [Graph.visit] at h
  | succ depth ih =>
    rcases visit_cases g depth path x done with
      ⟨e, -, hv⟩ | ⟨-, hv⟩ | ⟨-, -, hv⟩ | ⟨-, -, hd, hv⟩ | ⟨ht, -, -, hv⟩
    · simp [hv] at h
    · simp [hv] at h
    · simp [hv] at h
    · rw [hv, Result.exhausted.injEq] at h
      subst h
      exact ⟨hf, List.Subset.refl done, hd⟩
    · rw [hv] at h
      cases he : each (g.visit depth (g.key x :: path)) (g.edges x) done with
      | exhausted mid =>
        rw [he] at h
        simp only [Result.exhausted.injEq] at h
        subst h
        obtain ⟨hmid, hsub, hedges⟩ := each_exhausted
          (fun y hy d d' hd hyd => ih (hN.closed hx hy) hd hyd) hf he
        have hgrow : mid ⊆ g.key x :: mid := List.subset_cons_self _ _
        -- every edge of `x` ends in the finished set, so `x` is as well founded as its targets
        have hnode : FinishedNode g (g.key x :: mid) x := by
          constructor
          · exact ht
          · intro e he
            obtain ⟨y, hy, hk⟩ := hedges e he
            exact ⟨y, hy, hgrow hk⟩
          · constructor
            intro y hy
            obtain ⟨y', hyy, hk⟩ := hedges _ hy
            cases hyy
            exact (hmid y (hN.closed hx hy) hk).acc
        refine ⟨fun y hy hk => ?_, List.Subset.trans hsub hgrow, by simp⟩
        rcases List.mem_cons.mp hk with hk | hk
        · rw [hN.key_inj hy hx hk]
          exact hnode
        · exact (hmid y hy hk).mono hgrow
      | unbounded | refused | found => simp [he] at h

structure WellFormed (g : Graph α κ ε) (N : α → Prop) : Prop extends Region g N where
  target_ok : ∀ {x}, N x → ∃ b, g.target x = .ok b
  edges_ok : ∀ {x}, N x → g.target x = .ok false → ∀ e ∈ g.edges x, ∃ y, e = .ok y
  acc : ∀ {x}, N x → Acc (Function.swap g.Edge) x

/-- The path leads to the node, so meeting it again would be a cycle. -/
theorem visit_not_refused (hN : WellFormed g N) (hx : N x)
    (hpath : ∀ k ∈ path, ∃ a, N a ∧ g.key a = k ∧ Relation.TransGen g.Edge a x) (done : List κ)
    (e : ε) : g.visit depth path x done ≠ .refused e := by
  induction depth generalizing path x done e with
  | zero => simp [Graph.visit]
  | succ depth ih =>
    rcases visit_cases g depth path x done with
      ⟨e', ht, -⟩ | ⟨-, hv⟩ | ⟨-, hp, -⟩ | ⟨-, -, -, hv⟩ | ⟨ht, hp, -, hv⟩
    · obtain ⟨b, hb⟩ := hN.target_ok hx
      rw [hb] at ht
      cases ht
    · simp [hv]
    · -- an ancestor with the key of `x` would be `x`, on a cycle
      obtain ⟨a, ha, hk, hpath⟩ := hpath _ hp
      rw [hN.key_inj ha hx hk] at hpath
      exact absurd hpath (no_cycle_of_acc (hN.acc hx))
    · simp [hv]
    · have heach : each (g.visit depth (g.key x :: path)) (g.edges x) done ≠ .refused e := by
        refine each_not_refused (hN.edges_ok hx ht) (fun y hy d e => ?_) done e
        have hstep : g.Edge x y := hy
        refine ih (hN.closed hx hstep) (fun k hk => ?_) d e
        rcases List.mem_cons.mp hk with rfl | hk
        · exact ⟨x, hx, rfl, Relation.TransGen.single hstep⟩
        · obtain ⟨a, ha, hka, hax⟩ := hpath k hk
          exact ⟨a, ha, hka, hax.tail hstep⟩
      rw [hv]
      cases he : each (g.visit depth (g.key x :: path)) (g.edges x) done with
      | refused e' =>
        intro h
        simp only [Result.refused.injEq] at h
        exact heach (h ▸ he)
      | unbounded => simp
      | found => simp
      | exhausted done' => simp

/-- On a well-formed region the search answers, and finds a target exactly when one is below. -/
theorem search_answers (hN : WellFormed g N) (hkeys : ∀ {x y}, N x → g.Edge x y → g.key x ∈ keys)
    (hd : keys.length < depth) (hx : N x) :
    (g.visit depth [] x [] = .found ∧ ∃ t, g.Reach x t ∧ g.target t = .ok true) ∨
    ((∃ done, g.visit depth [] x [] = .exhausted done) ∧
      ∀ t, g.Reach x t → g.target t = .ok false) := by
  cases h : g.visit depth [] x [] with
  | unbounded => exact absurd h (visit_bounded hN.closed hkeys (fresh_nil_lt hd) hx [])
  | refused e => exact absurd h (visit_not_refused hN hx (by simp) [] e)
  | found => exact .inl ⟨rfl, visit_found h⟩
  | exhausted done =>
    obtain ⟨hf, -, hk⟩ := visit_exhausted hN.toRegion hx finished_nil h
    exact .inr ⟨⟨done, rfl⟩, fun t ht => hf.target_false hN.toRegion hx hk ht⟩

end DepthFirst
