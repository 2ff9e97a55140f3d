import Mathlib.Data.Finset.Card
import Mathlib.Data.List.Forall2
import Mathlib.Data.List.Nodup
import Mathlib.Data.List.Pairwise
import Mathlib.Data.List.Perm.Basic
import Mathlib.Data.List.Sort

/-!
A list read as a map, sorted by its keys, and put into another order. A sort is known only by
what it promises: a permutation in ascending order of the keys, with no promise for entries
whose keys are equal.
-/
namespace KeyedLists

variable {α β κ : Type}

section Maps

variable [DecidableEq κ] {key : α → κ} {l l' : List α} {k : κ}

/-- A map filled from a list: of several entries under one key the last one stays. -/
def lookup (key : α → κ) (l : List α) (k : κ) : Option α := l.reverse.find? fun a => key a = k

theorem lookup_some {a : α} (h : lookup key l k = some a) : a ∈ l ∧ key a = k := by
  constructor
  · exact List.mem_reverse.mp (List.mem_of_find?_eq_some h)
  · simpa using List.find?_some h

theorem lookup_none : lookup key l k = none ↔ ∀ a ∈ l, key a ≠ k := by
  simp [lookup, List.find?_eq_none]

theorem lookup_iff (hn : (l.map key).Nodup) {a : α} :
    lookup key l k = some a ↔ a ∈ l ∧ key a = k := by
  constructor
  · exact lookup_some
  · rintro ⟨ha, hk⟩
    cases hfound : lookup key l k with
    | none => exact absurd hk (lookup_none.mp hfound a ha)
    | some b =>
      obtain ⟨hb, hkb⟩ := lookup_some hfound
      rw [List.inj_on_of_nodup_map hn hb ha (hkb.trans hk.symm)]

theorem lookup_mem (hn : (l.map key).Nodup) {a : α} (ha : a ∈ l) :
    lookup key l (key a) = some a :=
  (lookup_iff hn).mpr ⟨ha, rfl⟩

/-- A map does not remember the order it was filled in. -/
theorem lookup_perm (hp : l.Perm l') (hn : (l.map key).Nodup) :
    lookup key l k = lookup key l' k := by
  have hn' : (l'.map key).Nodup := (hp.map key).nodup_iff.mp hn
  apply Option.ext
  intro a
  rw [lookup_iff hn, lookup_iff hn', hp.mem_iff]

end Maps

theorem nodup_filterMap {key : α → κ} {key' : β → κ} {f : α → Option β} {l : List α}
    (hf : ∀ a b, f a = some b → key' b = key a) (hn : (l.map key).Nodup) :
    ((l.filterMap f).map key').Nodup := by
  refine List.Nodup.sublist ?_ hn
  clear hn
  induction l with
  | nil => exact .slnil
  | cons a rest ih =>
    rw [List.filterMap_cons]
    cases hfa : f a with
    | none => exact .cons _ ih
    | some b =>
      rw [List.map_cons, List.map_cons, hf a b hfa]
      exact .cons_cons _ ih

def Fresh (key : α → κ) (seen : List κ) (l : List α) : Prop :=
  (∀ a ∈ l, key a ∉ seen) ∧ (l.map key).Nodup

section Fresh

variable {key : α → κ} {seen : List κ} {l : List α}

theorem fresh_nil : Fresh key seen [] := ⟨by simp, by simp⟩

theorem fresh_cons {a : α} :
    Fresh key seen (a :: l) ↔ key a ∉ seen ∧ Fresh key (key a :: seen) l := by
  unfold Fresh
  rw [List.forall_mem_cons, List.map_cons, List.nodup_cons]
  constructor
  · rintro ⟨⟨hnew, hall⟩, hhead, hnodup⟩
    refine ⟨hnew, fun b hb => ?_, hnodup⟩
    rw [List.mem_cons, not_or]
    exact ⟨fun heq => hhead (heq ▸ List.mem_map_of_mem hb), hall b hb⟩
  · rintro ⟨hnew, hall, hnodup⟩
    refine ⟨⟨hnew, fun b hb => ?_⟩, ?_, hnodup⟩
    · exact fun hmem => hall b hb (List.mem_cons_of_mem _ hmem)
    · intro hmem
      obtain ⟨b, hb, heq⟩ := List.mem_map.mp hmem
      exact hall b hb (heq ▸ List.mem_cons_self)

theorem fresh_start : Fresh key [] l ↔ (l.map key).Nodup := by
  simp [Fresh]

def saw (key : α → κ) (seen : List κ) (l : List α) : List κ :=
  l.foldl (fun seen a => key a :: seen) seen

theorem saw_append {m : List α} : saw key seen (l ++ m) = saw key (saw key seen l) m :=
  List.foldl_append

theorem saw_eq : saw key seen l = (l.map key).reverse ++ seen := by
  induction l generalizing seen with
  | nil => rfl
  | cons a rest ih =>
    rw [saw, List.foldl_cons, ← saw, ih]
    simp

/-- A loop that compares each entry with what it kept of the earlier ones compares all pairs. -/
theorem apart_cons {β : Type} {f : α → β} {R : β → α → Prop} {P : α → Prop} {kept : List β}
    {a : α} :
    ((∀ x ∈ a :: l, P x ∧ ∀ o ∈ kept, R o x) ∧ (a :: l).Pairwise fun x y => R (f x) y) ↔
      (P a ∧ ∀ o ∈ kept, R o a) ∧ (∀ x ∈ l, P x ∧ ∀ o ∈ kept ++ [f a], R o x) ∧
        l.Pairwise fun x y => R (f x) y := by
  simp only [List.forall_mem_cons, List.pairwise_cons, List.mem_append, List.mem_singleton, or_imp,
    forall_and, forall_eq]
  tauto

theorem saw_mem_iff (k : κ) : k ∈ saw key seen l ↔ k ∈ l.map key ∨ k ∈ seen := by
  simp [saw_eq]

theorem fresh_append {m : List α} :
    Fresh key seen (l ++ m) ↔ Fresh key seen l ∧ Fresh key (saw key seen l) m := by
  induction l generalizing seen with
  | nil => simp [fresh_nil, saw]
  | cons a rest ih =>
    rw [List.cons_append, fresh_cons, fresh_cons, ih, and_assoc]
    rfl

end Fresh

section Latest

variable {β : Type} [DecidableEq κ] [DecidableEq β]

/-- A loop that compares every entry with the latest one under its key. -/
def agrees (seen : κ → Option β) : List (κ × β) → Bool
  | [] => true
  | (k, v) :: rest =>
    (seen k).all (· = v) && agrees (fun j => if j = k then some v else seen j) rest

/-- Comparing with the latest entry is comparing all pairs. -/
theorem agrees_iff {seen : κ → Option β} {l : List (κ × β)} :
    agrees seen l = true ↔ (∀ p ∈ l, ∀ v, seen p.1 = some v → v = p.2) ∧
      l.Pairwise fun p q => p.1 = q.1 → p.2 = q.2 := by
  induction l generalizing seen with
  | nil => simp [agrees]
  | cons p rest ih =>
    obtain ⟨k, v⟩ := p
    have hhead : (seen k).all (fun w => decide (w = v)) = true ↔
        ∀ w, seen k = some w → w = v := by
      cases seen k <;> simp
    rw [agrees, Bool.and_eq_true, ih, List.forall_mem_cons, List.pairwise_cons, hhead]
    constructor
    · rintro ⟨hnow, hseen, hpairs⟩
      refine ⟨⟨hnow, fun q hq w hw => ?_⟩, fun q hq heq => ?_, hpairs⟩
      · by_cases hk : q.1 = k
        · rw [hk] at hw
          rw [hnow w hw]
          exact hseen q hq v (if_pos hk)
        · exact hseen q hq w (by rw [if_neg hk, hw])
      · exact hseen q hq v (if_pos heq.symm)
    · rintro ⟨⟨hnow, hall⟩, hlater, hpairs⟩
      refine ⟨hnow, fun q hq w hw => ?_, hpairs⟩
      by_cases hk : q.1 = k
      · rw [if_pos hk] at hw
        rw [← Option.some.inj hw]
        exact hlater q hq hk.symm
      · rw [if_neg hk] at hw
        exact hall q hq w hw

theorem agrees_start {l : List (κ × β)} :
    agrees (fun _ => none) l = true ↔ ∀ p ∈ l, ∀ q ∈ l, p.1 = q.1 → p.2 = q.2 := by
  rw [agrees_iff]
  constructor
  · rintro ⟨-, hpairs⟩ p hp q hq
    have hsymm : Std.Symm fun p q : κ × β => p.1 = q.1 → p.2 = q.2 :=
      ⟨fun _ _ h heq => (h heq.symm).symm⟩
    exact hpairs.forall_of_forall (fun _ _ _ => rfl) hp hq
  · intro h
    refine ⟨fun p hp v hv => (nomatch hv), ?_⟩
    exact List.pairwise_of_forall_mem_list fun p hp q hq => h p hp q hq

end Latest

section Entries

variable {R : α → β → Prop} {l : List α} {m : List β}

theorem lookup_iff_mem [BEq κ] [LawfulBEq κ] {m : List (κ × β)} (hn : (m.map Prod.fst).Nodup)
    {k : κ} {v : β} : m.lookup k = some v ↔ (k, v) ∈ m := by
  rw [List.lookup_eq_some_iff]
  constructor
  · rintro ⟨before, after, rfl, -⟩
    simp
  · intro h
    obtain ⟨before, after, rfl⟩ := List.append_of_mem h
    rw [List.map_append, List.map_cons] at hn
    refine ⟨before, after, rfl, fun p hp => bne_iff_ne.mpr fun heq => ?_⟩
    exact List.disjoint_of_nodup_append hn (List.mem_map_of_mem hp) (heq ▸ List.mem_cons_self)

theorem one_lt_length_iff (hn : l.Nodup) : 1 < l.length ↔ ∃ a ∈ l, ∃ b ∈ l, a ≠ b := by
  classical
  rw [← List.toFinset_card_of_nodup hn, Finset.one_lt_card]
  simp only [List.mem_toFinset]

theorem nodup_append_cons {x : α} {seen rest : List α} (h : (seen ++ x :: rest).Nodup) :
    x ∉ seen ∧ (seen ++ [x] ++ rest).Nodup := by
  refine ⟨fun hmem => ?_, by simpa using h⟩
  exact (List.nodup_append.mp h).2.2 x hmem x List.mem_cons_self rfl

theorem forall₂_zip (h : List.Forall₂ R l m) {a : α} (ha : a ∈ l) :
    ∃ b, (a, b) ∈ l.zip m ∧ R a b := by
  induction h with
  | nil => cases ha
  | cons hab _ ih =>
    rcases List.mem_cons.mp ha with rfl | ha
    · exact ⟨_, List.mem_cons_self, hab⟩
    · obtain ⟨b, hb, hr⟩ := ih ha
      exact ⟨b, List.mem_cons_of_mem _ hb, hr⟩

theorem forall₂_mem_right (h : List.Forall₂ R l m) {b : β} (hb : b ∈ m) : ∃ a ∈ l, R a b := by
  obtain ⟨a, hzip, hr⟩ := forall₂_zip h.flip hb
  exact ⟨a, (List.of_mem_zip hzip).2, hr⟩

theorem mapM_forall₂ {f : α → Option β} (h : l.mapM f = some m) :
    List.Forall₂ (fun a b => f a = some b) l m := by
  induction l generalizing m with
  | nil =>
    rw [List.mapM_nil] at h
    cases h
    exact .nil
  | cons a rest ih =>
    rw [List.mapM_cons] at h
    simp only [Option.bind_eq_bind, Option.bind_eq_some_iff, Option.pure_def,
      Option.some.injEq] at h
    obtain ⟨b, hb, more, hmore, rfl⟩ := h
    exact .cons hb (ih hmore)

end Entries

structure SortFunc (le : κ → κ → Prop) where
  run : ∀ {α : Type}, (α → κ) → List α → List α
  perm : ∀ {α : Type} (key : α → κ) (l : List α), (run key l).Perm l
  sorted : ∀ {α : Type} (key : α → κ) (l : List α),
    (run key l).Pairwise fun a b => le (key a) (key b)

section Sorting

variable {le : κ → κ → Prop} {key : α → κ} {l l' : List α}

theorem SortFunc.mem_run (s : SortFunc le) {a : α} : a ∈ s.run key l ↔ a ∈ l :=
  (s.perm key l).mem_iff

/-- Where keys tell entries apart, all sorts of all orders agree. -/
theorem SortFunc.run_congr (s s' : SortFunc le) (hle : ∀ a b, le a b → le b a → a = b)
    (hp : l.Perm l') (hkey : ∀ a ∈ l, ∀ b ∈ l, key a = key b → a = b) :
    s.run key l = s'.run key l' := by
  have hperm : (s.run key l).Perm (s'.run key l') :=
    (s.perm key l).trans (hp.trans (s'.perm key l').symm)
  refine hperm.eq_of_pairwise ?_ (s.sorted key l) (s'.sorted key l')
  intro a b ha hb hab hba
  apply hkey a (s.mem_run.mp ha) b (hp.mem_iff.mpr (s'.mem_run.mp hb))
  exact hle _ _ hab hba

theorem SortFunc.run_map {β : Type} (s : SortFunc le) (hle : ∀ a b, le a b → le b a → a = b)
    {f : β → α} {l : List β} (hn : (l.map fun b => key (f b)).Nodup) :
    s.run key (l.map f) = (s.run (fun b => key (f b)) l).map f := by
  have hperm : (s.run key (l.map f)).Perm ((s.run (fun b => key (f b)) l).map f) :=
    (s.perm key (l.map f)).trans ((s.perm _ l).symm.map f)
  refine hperm.eq_of_pairwise ?_ (s.sorted key (l.map f)) ?_
  · intro a b ha hb hab hba
    obtain ⟨x, hx, rfl⟩ := List.mem_map.mp (s.mem_run.mp ha)
    obtain ⟨y, hy, rfl⟩ := List.mem_map.mp hb
    rw [List.inj_on_of_nodup_map hn hx (s.mem_run.mp hy) (hle _ _ hab hba)]
  · exact List.pairwise_map.mpr (s.sorted _ l)

theorem SortFunc.run_keys (s : SortFunc le) (hle : ∀ a b, le a b → le b a → a = b) :
    (s.run key l).map key = s.run id (l.map key) := by
  have hperm : ((s.run key l).map key).Perm (s.run id (l.map key)) :=
    ((s.perm key l).map key).trans (s.perm id (l.map key)).symm
  refine hperm.eq_of_pairwise (fun a b _ _ => hle a b) ?_ (s.sorted id (l.map key))
  exact List.pairwise_map.mpr (s.sorted key l)

def SortFunc.insertion (le : κ → κ → Prop) [DecidableRel le] (htotal : ∀ a b, le a b ∨ le b a)
    (htrans : ∀ a b c, le a b → le b c → le a c) : SortFunc le where
  run key l := l.insertionSort fun a b => le (key a) (key b)
  perm key l := List.perm_insertionSort _ l
  sorted key l := by
    have : Std.Total fun a b => le (key a) (key b) := ⟨fun a b => htotal _ _⟩
    have : IsTrans _ fun a b => le (key a) (key b) := ⟨fun a b c => htrans _ _ _⟩
    exact List.pairwise_insertionSort _ l

end Sorting

/-- The entries of `l`, in another order and each replaced by a related one. -/
def Reorders (R : α → α → Prop) (l l' : List α) : Prop := ∃ m, l.Perm m ∧ List.Forall₂ R m l'

section Reordering

variable {R : α → α → Prop} {l l' : List α}

theorem Reorders.of_perm (hrefl : ∀ a, R a a) (h : l.Perm l') : Reorders R l l' :=
  ⟨l', h, List.forall₂_same.mpr fun a _ => hrefl a⟩

theorem Reorders.length_eq (h : Reorders R l l') : l.length = l'.length := by
  obtain ⟨m, hperm, hrel⟩ := h
  exact hperm.length_eq.trans hrel.length_eq

theorem Reorders.exists_left (h : Reorders R l l') {b : α} (hb : b ∈ l') : ∃ a ∈ l, R a b := by
  obtain ⟨m, hperm, hrel⟩ := h
  obtain ⟨a, ha, hab⟩ := forall₂_mem_right hrel hb
  exact ⟨a, hperm.mem_iff.mpr ha, hab⟩

theorem Reorders.symm (hsymm : ∀ a b, R a b → R b a) (h : Reorders R l l') :
    Reorders R l' l := by
  obtain ⟨m, hperm, hrel⟩ := h
  have hflip : List.Forall₂ R l' m := (List.forall₂_iff_get.mpr
    ⟨hrel.length_eq.symm, fun i h₁ h₂ => hsymm _ _ (hrel.get h₂ h₁)⟩)
  have hcomp : Relation.Comp (List.Forall₂ R) List.Perm l' l := ⟨m, hflip, hperm.symm⟩
  rw [List.forall₂_comp_perm_eq_perm_comp_forall₂] at hcomp
  exact hcomp

theorem Reorders.forall (h : Reorders R l l') {P Q : α → Prop}
    (hP : ∀ a b, R a b → P a → Q b) (hl : ∀ a ∈ l, P a) : ∀ b ∈ l', Q b := by
  intro b hb
  obtain ⟨a, ha, hab⟩ := h.exists_left hb
  exact hP a b hab (hl a ha)

theorem Reorders.filterMap_perm (h : Reorders R l l') {f g : α → Option β}
    (hf : ∀ a ∈ l, ∀ b, R a b → f a = g b) : (l.filterMap f).Perm (l'.filterMap g) := by
  obtain ⟨m, hperm, hrel⟩ := h
  have hmap : m.filterMap f = l'.filterMap g := by
    replace hf : ∀ a ∈ m, ∀ b, R a b → f a = g b := fun a ha => hf a (hperm.mem_iff.mpr ha)
    clear hperm
    induction hrel with
    | nil => rfl
    | cons hab _ ih =>
      rw [List.forall_mem_cons] at hf
      rw [List.filterMap_cons, List.filterMap_cons, hf.1 _ hab, ih hf.2]
  exact hmap ▸ hperm.filterMap f

theorem Reorders.map_perm_of_mem (h : Reorders R l l') {f g : α → β}
    (hf : ∀ a ∈ l, ∀ b, R a b → f a = g b) : (l.map f).Perm (l'.map g) := by
  rw [← List.filterMap_eq_map, ← List.filterMap_eq_map]
  exact h.filterMap_perm fun a ha b hab => congrArg some (hf a ha b hab)

theorem Reorders.map_perm (h : Reorders R l l') {f g : α → β} (hf : ∀ a b, R a b → f a = g b) :
    (l.map f).Perm (l'.map g) :=
  h.map_perm_of_mem fun a _ => hf a

theorem Reorders.flatMap_perm (h : Reorders R l l') {f : α → List β}
    (hf : ∀ a b, R a b → (f a).Perm (f b)) : (l.flatMap f).Perm (l'.flatMap f) := by
  obtain ⟨m, hperm, hrel⟩ := h
  refine (hperm.flatMap_right f).trans ?_
  clear hperm
  induction hrel with
  | nil => exact .refl _
  | cons hab _ ih => exact (hf _ _ hab).append ih

theorem Reorders.pairwise (h : Reorders R l l') {S : α → α → Prop}
    (hsymm : ∀ a b, S a b → S b a) (hS : ∀ a a' b b', R a a' → R b b' → S a b → S a' b')
    (hl : l.Pairwise S) : l'.Pairwise S := by
  obtain ⟨m, hperm, hrel⟩ := h
  have hm : m.Pairwise S := (hperm.pairwise_iff fun {a b} hab => hsymm a b hab).mp hl
  clear hperm hl
  induction hrel with
  | nil => exact .nil
  | cons hab hrest ih =>
    obtain ⟨hhead, htail⟩ := List.pairwise_cons.mp hm
    refine List.pairwise_cons.mpr ⟨?_, ih htail⟩
    intro b' hb'
    obtain ⟨b, hb, hbb⟩ := (show Reorders R _ _ from ⟨_, .refl _, hrest⟩).exists_left hb'
    exact hS _ _ _ _ hab hbb (hhead b hb)

end Reordering

end KeyedLists
