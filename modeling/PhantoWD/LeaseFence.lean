import Mathlib.Data.List.Nodup
import Mathlib.Data.List.Perm.Basic
import PhantoWD.EffectProgram

/-!
A resource has a current revision and issues claims on it. It moves to another revision, or is
disposed of, only while no claim is live, so a live claim always meets the revision it was
issued at.
-/
namespace LeaseFence

open EffectProgram (Execution)

structure Claim (V : Type) where
  revision : V
  released : Bool := false
  deriving DecidableEq

/-- A resource with every claim issued so far, numbered in order. -/
structure Fence (V : Type) where
  revision : V
  claims : List (Claim V)
  frozen : Bool
  closed : Bool

inductive Act (V : Type) where
  | issue (claim : Nat) (revision : V)
  | use (claim : Nat) (revision : V)
  | release (claim : Nat)
  | read (revision : V)
  | advance (revision : V)
  | dispose
  | refuse
  deriving DecidableEq

variable {V : Type}

def Fence.Live (f : Fence V) (i : Nat) : Prop :=
  ∃ c, f.claims[i]? = some c ∧ c.released = false

def Fence.live (f : Fence V) : List Nat :=
  (List.range f.claims.length).filter fun i => (f.claims[i]?).any fun c => !c.released

def Fence.Serving (f : Fence V) : Prop := f.frozen = false ∧ f.closed = false

/-- The acts a resource allows. A refused act may freeze it; an advance that went wrong leaves
another revision behind, but only in a frozen resource without live claims. -/
inductive Move (limit : Nat) : Fence V → Act V → Fence V → Prop where
  | issue {f : Fence V} : f.Serving → f.live.length < limit →
      Move limit f (.issue f.claims.length f.revision)
        { f with claims := f.claims ++ [⟨f.revision, false⟩] }
  | use {f : Fence V} {i : Nat} : f.Serving → f.Live i → Move limit f (.use i f.revision) f
  | release {f : Fence V} {i : Nat} {c : Claim V} : f.claims[i]? = some c →
      Move limit f (.release i) { f with claims := f.claims.set i ⟨c.revision, true⟩ }
  | read {f : Fence V} : f.Serving → Move limit f (.read f.revision) f
  | advance {f : Fence V} {v : V} : f.Serving → f.live = [] →
      Move limit f (.advance v) { f with revision := v }
  | lose {f : Fence V} {v : V} : f.live = [] →
      Move limit f .refuse { f with revision := v, frozen := true }
  | dispose {f : Fence V} {frozen : Bool} : f.live = [] → (f.frozen = true → frozen = true) →
      Move limit f .dispose { f with frozen := frozen, closed := true }
  | refuse {f : Fence V} {frozen : Bool} : (f.frozen = true → frozen = true) →
      Move limit f .refuse { f with frozen := frozen }

section Live

variable {f : Fence V} {i : Nat}

theorem mem_live : i ∈ f.live ↔ f.Live i := by
  constructor
  · intro h
    have hany := List.of_mem_filter h
    cases hc : f.claims[i]? with
    | none => simp [hc] at hany
    | some c => exact ⟨c, hc, by simpa [hc] using hany⟩
  · rintro ⟨c, hc, hr⟩
    have hlt : i < f.claims.length := (List.getElem?_eq_some_iff.mp hc).1
    apply List.mem_filter.mpr
    exact ⟨List.mem_range.mpr hlt, by simp [hc, hr]⟩

theorem nodup_live (f : Fence V) : f.live.Nodup := List.Nodup.filter _ List.nodup_range

theorem live_eq_nil : f.live = [] ↔ ∀ i, ¬ f.Live i := by
  rw [List.eq_nil_iff_forall_not_mem]
  exact forall_congr' fun i => not_congr mem_live

theorem length_live_le {ids : List Nat} (h : ∀ i, f.Live i → i ∈ ids) :
    f.live.length ≤ ids.length := by
  apply List.Subperm.length_le
  apply List.subperm_of_subset (nodup_live f)
  intro i hi
  exact h i (mem_live.mp hi)

theorem length_live_eq {ids : List Nat} (hn : ids.Nodup) (h : ∀ i, i ∈ ids ↔ f.Live i) :
    f.live.length = ids.length := by
  apply List.Perm.length_eq
  apply (List.perm_ext_iff_of_nodup (nodup_live f) hn).mpr
  intro i
  rw [mem_live, h i]

end Live

/-- Live claims are on the current revision and within the limit. -/
structure Guarded (limit : Nat) (f : Fence V) : Prop where
  bounded : f.live.length ≤ limit
  current : ∀ (i : Nat) (c : Claim V), f.claims[i]? = some c → c.released = false →
    c.revision = f.revision

/-- Later states remember every claim, its release and a freeze. -/
structure Remembers (f g : Fence V) : Prop where
  claims : ∀ (i : Nat) (c : Claim V), f.claims[i]? = some c →
    ∃ d, g.claims[i]? = some d ∧ d.revision = c.revision ∧ (c.released = true → d.released = true)
  frozen : f.frozen = true → g.frozen = true

section Moves

variable {limit : Nat} {f g h : Fence V} {a : Act V} {i : Nat}

theorem Remembers.refl (f : Fence V) : Remembers f f :=
  ⟨fun _ c hc => ⟨c, hc, rfl, id⟩, id⟩

theorem Remembers.trans (hf : Remembers f g) (hg : Remembers g h) : Remembers f h := by
  constructor
  · intro i c hc
    obtain ⟨d, hd, hrev, hrel⟩ := hf.claims i c hc
    obtain ⟨e, he, hrev', hrel'⟩ := hg.claims i d hd
    exact ⟨e, he, hrev'.trans hrev, fun hr => hrel' (hrel hr)⟩
  · intro hfr
    exact hg.frozen (hf.frozen hfr)

theorem Move.remembers (hm : Move limit f a g) : Remembers f g := by
  cases hm with
  | issue _ _ =>
    constructor
    · intro i c hc
      have hlt : i < f.claims.length := (List.getElem?_eq_some_iff.mp hc).1
      exact ⟨c, by rw [List.getElem?_append_left hlt, hc], rfl, id⟩
    · exact id
  | @release j d hd =>
    constructor
    · intro i c hc
      by_cases hij : j = i
      · subst hij
        obtain rfl : c = d := Option.some.inj (hc.symm.trans hd)
        have hlt : j < f.claims.length := (List.getElem?_eq_some_iff.mp hc).1
        exact ⟨⟨c.revision, true⟩, List.getElem?_set_self hlt, rfl, fun _ => rfl⟩
      · exact ⟨c, by rw [List.getElem?_set_ne hij, hc], rfl, id⟩
    · exact id
  | use | read => exact .refl f
  | advance _ _ => exact ⟨(Remembers.refl f).claims, id⟩
  | lose _ => exact ⟨(Remembers.refl f).claims, fun _ => rfl⟩
  | dispose _ hfr | refuse hfr => exact ⟨(Remembers.refl f).claims, hfr⟩

theorem claim_of_issue {c d : Claim V} (hd : (f.claims ++ [c])[i]? = some d) :
    f.claims[i]? = some d ∨ i = f.claims.length ∧ d = c := by
  by_cases hlt : i < f.claims.length
  · rw [List.getElem?_append_left hlt] at hd
    exact .inl hd
  · have hle := (List.getElem?_eq_some_iff.mp hd).1
    simp only [List.length_append, List.length_singleton] at hle
    obtain rfl : i = f.claims.length := by omega
    simp only [List.getElem?_concat_length, Option.some.injEq] at hd
    exact .inr ⟨rfl, hd.symm⟩

theorem claim_of_release {j : Nat} {c d : Claim V}
    (hd : (f.claims.set j ⟨c.revision, true⟩)[i]? = some d) (hr : d.released = false) :
    f.claims[i]? = some d := by
  by_cases hij : j = i
  · subst hij
    have hlt := (List.getElem?_eq_some_iff.mp hd).1
    rw [List.length_set] at hlt
    rw [List.getElem?_set_self hlt] at hd
    cases hd
    cases hr
  · rwa [List.getElem?_set_ne hij] at hd

theorem live_issue_iff {v : V} :
    Fence.Live { f with claims := f.claims ++ [⟨v, false⟩] } i ↔
      f.Live i ∨ i = f.claims.length := by
  constructor
  · rintro ⟨c, hc, hr⟩
    rcases claim_of_issue hc with hc | ⟨hi, _⟩
    · exact .inl ⟨c, hc, hr⟩
    · exact .inr hi
  · rintro (⟨c, hc, hr⟩ | rfl)
    · have hlt : i < f.claims.length := (List.getElem?_eq_some_iff.mp hc).1
      exact ⟨c, by rw [List.getElem?_append_left hlt, hc], hr⟩
    · exact ⟨⟨v, false⟩, List.getElem?_concat_length, rfl⟩

theorem live_release_iff {j : Nat} {c : Claim V} :
    Fence.Live { f with claims := f.claims.set j ⟨c.revision, true⟩ } i ↔ f.Live i ∧ i ≠ j := by
  constructor
  · rintro ⟨d, hd, hr⟩
    refine ⟨⟨d, claim_of_release hd hr, hr⟩, ?_⟩
    rintro rfl
    have hlt := (List.getElem?_eq_some_iff.mp hd).1
    rw [List.length_set] at hlt
    rw [List.getElem?_set_self hlt] at hd
    cases hd
    cases hr
  · rintro ⟨⟨d, hd, hr⟩, hij⟩
    exact ⟨d, by rw [List.getElem?_set_ne (Ne.symm hij), hd], hr⟩

theorem release_again {c : Claim V} (hc : f.claims[i]? = some c) (hr : c.released = true) :
    { f with claims := f.claims.set i ⟨c.revision, true⟩ } = f := by
  obtain ⟨hlt, hget⟩ := List.getElem?_eq_some_iff.mp hc
  have hself : (⟨c.revision, true⟩ : Claim V) = f.claims[i] := by
    rw [hget, ← hr]
  rw [hself, List.set_getElem_self]

/-- No act leaves a live claim behind on another revision. -/
theorem Move.guarded (hm : Move limit f a g) (hf : Guarded limit f) : Guarded limit g := by
  have hempty : ∀ g : Fence V, g.claims = f.claims → f.live = [] → Guarded limit g := by
    intro g hc hnone
    have hdead : ∀ i, ¬ g.Live i := by
      intro i hi
      apply live_eq_nil.mp hnone i
      simpa [Fence.Live, hc] using hi
    constructor
    · rw [live_eq_nil.mpr hdead]
      exact Nat.zero_le limit
    · intro i c hi hr
      exact absurd ⟨c, hi, hr⟩ (hdead i)
  cases hm with
  | issue hs hlt =>
    constructor
    · have hle : (Fence.live { f with claims := f.claims ++ [⟨f.revision, false⟩] }).length ≤
          (f.live ++ [f.claims.length]).length := by
        apply length_live_le
        rintro i ⟨c, hc, hr⟩
        rcases claim_of_issue hc with hc | ⟨rfl, _⟩
        · exact List.mem_append_left _ (mem_live.mpr ⟨c, hc, hr⟩)
        · exact List.mem_append_right _ (List.mem_singleton_self _)
      simp only [List.length_append, List.length_singleton] at hle
      omega
    · intro i c hc hr
      rcases claim_of_issue hc with hc | ⟨_, rfl⟩
      · exact hf.current i c hc hr
      · rfl
  | @release j d hd =>
    constructor
    · refine Nat.le_trans (length_live_le ?_) hf.bounded
      rintro i ⟨c, hc, hr⟩
      exact mem_live.mpr ⟨c, claim_of_release hc hr, hr⟩
    · intro i c hc hr
      exact hf.current i c (claim_of_release hc hr) hr
  | use _ _ => exact hf
  | read _ => exact hf
  | advance _ hnone | lose hnone | dispose hnone _ => exact hempty _ rfl hnone
  | refuse _ => exact ⟨hf.bounded, hf.current⟩

theorem Move.promises (hm : Move limit f a g) :
    (∀ i v, a = .issue i v → ∃ c, g.claims[i]? = some c ∧ c.revision = v) ∧
      ∀ i, a = .release i → ∃ c, g.claims[i]? = some c ∧ c.released = true := by
  cases hm with
  | issue _ _ =>
    constructor
    · intro i v ha
      cases ha
      exact ⟨_, List.getElem?_concat_length, rfl⟩
    · intro i ha
      cases ha
  | @release j d hd =>
    constructor
    · intro i v ha
      cases ha
    · intro i ha
      cases ha
      have hlt : j < f.claims.length := (List.getElem?_eq_some_iff.mp hd).1
      exact ⟨_, List.getElem?_set_self hlt, rfl⟩
  | _ => simp

end Moves

section Runs

variable {limit : Nat} {f g : Fence V} {a : Act V} {acts : List (Act V)}

theorem run_guarded (h : Execution (Move limit) f acts g) (hf : Guarded limit f) :
    Guarded limit g :=
  h.invariant (fun _ _ _ hw hm => hm.guarded hw) hf

theorem run_remembers (h : Execution (Move limit) f acts g) : Remembers f g := by
  induction h with
  | nil => exact .refl f
  | snoc _ hm ih => exact ih.trans hm.remembers

theorem issued_revision (h : Execution (Move limit) f acts g) {i : Nat} {v : V}
    (hi : .issue i v ∈ acts) : ∃ c, g.claims[i]? = some c ∧ c.revision = v := by
  induction h with
  | nil => cases hi
  | snoc _ hm ih =>
    rcases List.mem_append.mp hi with hi | hi
    · obtain ⟨c, hc, hv⟩ := ih hi
      obtain ⟨d, hd, hrev, _⟩ := hm.remembers.claims i c hc
      exact ⟨d, hd, hrev.trans hv⟩
    · exact hm.promises.1 i v (List.mem_singleton.mp hi).symm

theorem released_stays (h : Execution (Move limit) f acts g) {i : Nat}
    (hi : .release i ∈ acts) : ∃ c, g.claims[i]? = some c ∧ c.released = true := by
  induction h with
  | nil => cases hi
  | snoc _ hm ih =>
    rcases List.mem_append.mp hi with hi | hi
    · obtain ⟨c, hc, hr⟩ := ih hi
      obtain ⟨d, hd, _, hrel⟩ := hm.remembers.claims i c hc
      exact ⟨d, hd, hrel hr⟩
    · exact hm.promises.2 i (List.mem_singleton.mp hi).symm

theorem claim_issued (h : Execution (Move limit) f acts g) (hf : f.claims = []) {i : Nat}
    {c : Claim V} (hc : g.claims[i]? = some c) : .issue i c.revision ∈ acts := by
  induction h generalizing c with
  | nil => simp [hf] at hc
  | snoc _ hm ih =>
    apply List.mem_append.mpr
    cases hm with
    | issue _ _ =>
      rcases claim_of_issue hc with hc | ⟨rfl, rfl⟩
      · exact .inl (ih hc)
      · exact .inr (List.mem_singleton_self _)
    | @release j d hd =>
      by_cases hij : j = i
      · subst hij
        have hlt := (List.getElem?_eq_some_iff.mp hd).1
        rw [List.getElem?_set_self hlt] at hc
        cases hc
        have hissue := ih hd
        exact .inl hissue
      · rw [List.getElem?_set_ne hij] at hc
        exact .inl (ih hc)
    | _ => exact .inl (ih hc)

theorem live_of_use {i : Nat} {v : V} (h : Move limit f (.use i v) g) : f.Live i := by
  cases h with
  | use _ hl => exact hl

/-- A claim is used at the revision it was issued at, and never after its release. -/
theorem use_of_run (h : Execution (Move limit) f acts g) (hf : Guarded limit f) {k : Fence V}
    {i : Nat} {v : V} (hu : Move limit g (.use i v) k) :
    (∀ e, .issue i e ∈ acts → v = e) ∧ .release i ∉ acts := by
  cases hu with
  | use hs hl =>
    obtain ⟨c, hc, hr⟩ := hl
    constructor
    · intro e he
      obtain ⟨d, hd, rfl⟩ := issued_revision h he
      obtain rfl : c = d := Option.some.inj (hc.symm.trans hd)
      exact ((run_guarded h hf).current i c hc hr).symm
    · intro hrel
      obtain ⟨d, hd, hreleased⟩ := released_stays h hrel
      obtain rfl : c = d := Option.some.inj (hc.symm.trans hd)
      rw [hr] at hreleased
      cases hreleased

def Act.Serves : Act V → Prop
  | .issue _ _ | .use _ _ | .read _ | .advance _ => True
  | .release _ | .dispose | .refuse => False

theorem Move.serving (hm : Move limit f a g) (ha : a.Serves) : f.Serving := by
  cases hm with
  | issue hs _ => exact hs
  | use hs _ => exact hs
  | read hs => exact hs
  | advance hs _ => exact hs
  | release _ => cases ha
  | lose _ => cases ha
  | dispose _ _ => cases ha
  | refuse _ => cases ha

end Runs

end LeaseFence
