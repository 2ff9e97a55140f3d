import PhantoWD.GoJson
import PhantoWD.KeyedLists

/-!
A scanner goes by the spelling of keys, a decoder that matches field names folds letter case.
What an object without repeated spellings may still bind twice is a field with two case
variants.
-/
namespace JsonKeys

open GoText GoJson

mutual
def uniqueValue (limit : Option Nat) (depth : Nat) : Value → Bool
  | .arr items => limit.all (depth ≤ ·) && uniqueElements limit (depth + 1) items
  | .obj members => limit.all (depth ≤ ·) && uniqueMembers limit (depth + 1) [] members
  | _ => limit.all (depth ≤ ·)
def uniqueElements (limit : Option Nat) (depth : Nat) : Elements → Bool
  | .nil => true
  | .cons value items => uniqueValue limit depth value && uniqueElements limit depth items
def uniqueMembers (limit : Option Nat) (depth : Nat) (seen : List Bytes) : Members → Bool
  | .nil => true
  | .cons key value members =>
    key ∉ seen && uniqueValue limit depth value && uniqueMembers limit depth (key :: seen) members
end

variable {limit : Option Nat} {depth : Nat}

theorem uniqueMembers_nodup {seen : List Bytes} (members : Members)
    (h : uniqueMembers limit depth seen members = true) :
    (members.toList.map Prod.fst).Nodup ∧ ∀ m ∈ members.toList, m.1 ∉ seen := by
  -- Structural on the members; the keys seen so far are what the tail avoids.
  match members with
  | .nil => simp [Members.toList]
  | .cons key value rest =>
    simp only [uniqueMembers, Bool.and_eq_true, decide_eq_true_eq] at h
    obtain ⟨hnodup, havoid⟩ := uniqueMembers_nodup rest h.2
    constructor
    · rw [Members.toList, List.map_cons, List.nodup_cons]
      refine ⟨?_, hnodup⟩
      intro hmem
      obtain ⟨m, hm, heq⟩ := List.mem_map.mp hmem
      exact havoid m hm (heq ▸ List.mem_cons_self)
    · intro m hm
      rcases List.mem_cons.mp hm with rfl | hm
      · exact h.1.1
      · exact fun hs => havoid m hm (List.mem_cons_of_mem key hs)

theorem uniqueValue_nodup {members : Members} (h : uniqueValue limit depth (.obj members) = true) :
    (members.toList.map Prod.fst).Nodup := by
  rw [uniqueValue, Bool.and_eq_true] at h
  exact (uniqueMembers_nodup members h.2).1

theorem uniqueMembers_value {seen : List Bytes} (members : Members)
    (h : uniqueMembers limit depth seen members = true) :
    ∀ m ∈ members.toList, uniqueValue limit depth m.2 = true := by
  match members with
  | .nil => simp [Members.toList]
  | .cons key value rest =>
    simp only [uniqueMembers, Bool.and_eq_true] at h
    intro m hm
    rcases List.mem_cons.mp hm with rfl | hm
    · exact h.1.2
    · exact uniqueMembers_value rest h.2 m hm

theorem uniqueValue_member {members : Members} (h : uniqueValue limit depth (.obj members) = true) :
    ∀ m ∈ members.toList, uniqueValue limit (depth + 1) m.2 = true := by
  rw [uniqueValue, Bool.and_eq_true] at h
  exact uniqueMembers_value members h.2

theorem equalFold_trans {s t u : Bytes} (h : equalFold s t = true) (h' : equalFold t u = true) :
    equalFold s u = true := by
  simp only [equalFold, decide_eq_true_eq] at h h' ⊢
  exact h.trans h'

variable {names : List Bytes}

theorem fieldOf_folds {key name : Bytes} (h : fieldOf names key = some name) :
    name ∈ names ∧ equalFold key name = true := by
  rw [fieldOf] at h
  split_ifs at h with hexact
  · cases h
    exact ⟨hexact, equalFold_refl key⟩
  · exact ⟨List.mem_of_find?_eq_some h, List.find?_some h⟩

def Distinct (names : List Bytes) : Prop := ∀ a ∈ names, ∀ b ∈ names, equalFold a b = true → a = b

instance (names : List Bytes) : Decidable (Distinct names) :=
  inferInstanceAs (Decidable (∀ a ∈ names, ∀ b ∈ names, equalFold a b = true → a = b))

theorem fieldOf_eq_iff (hd : Distinct names) {k k' n n' : Bytes} (h : fieldOf names k = some n)
    (h' : fieldOf names k' = some n') : n = n' ↔ equalFold k k' = true := by
  obtain ⟨hn, hf⟩ := fieldOf_folds h
  obtain ⟨hn', hf'⟩ := fieldOf_folds h'
  constructor
  · rintro rfl
    exact equalFold_trans hf (equalFold_symm hf')
  · intro heq
    exact hd n hn n' hn' (equalFold_trans (equalFold_symm hf) (equalFold_trans heq hf'))

def CaseVariants (members : List (Bytes × Value)) : Prop :=
  ∃ m ∈ members, ∃ m' ∈ members, m.1 ≠ m'.1 ∧ equalFold m.1 m'.1 = true

instance (members : List (Bytes × Value)) : Decidable (CaseVariants members) :=
  inferInstanceAs (Decidable
    (∃ m ∈ members, ∃ m' ∈ members, m.1 ≠ m'.1 ∧ equalFold m.1 m'.1 = true))

def BoundTwice (names : List Bytes) (members : List (Bytes × Value)) : Prop :=
  ∃ name ∈ names, 1 < (bound names name members).length

instance (names : List Bytes) (members : List (Bytes × Value)) :
    Decidable (BoundTwice names members) :=
  inferInstanceAs (Decidable (∃ name ∈ names, 1 < (bound names name members).length))

theorem pair_of_filter {α : Type} {p : α → Bool} {l : List α} (h : 1 < (l.filter p).length)
    (hn : l.Nodup) : ∃ a ∈ l, ∃ b ∈ l, a ≠ b ∧ p a = true ∧ p b = true := by
  obtain ⟨a, ha, b, hb, hne⟩ := (KeyedLists.one_lt_length_iff (hn.filter p)).mp h
  rw [List.mem_filter] at ha hb
  exact ⟨a, ha.1, b, hb.1, hne, ha.2, hb.2⟩

theorem filter_of_pair {α : Type} {p : α → Bool} {l : List α} {a b : α} (ha : a ∈ l) (hb : b ∈ l)
    (hne : a ≠ b) (hpa : p a = true) (hpb : p b = true) : 1 < (l.filter p).length := by
  classical
  refine Nat.lt_of_lt_of_le (Finset.one_lt_card.mpr ⟨a, ?_, b, ?_, hne⟩) (List.toFinset_card_le _)
  · exact List.mem_toFinset.mpr (List.mem_filter.mpr ⟨ha, hpa⟩)
  · exact List.mem_toFinset.mpr (List.mem_filter.mpr ⟨hb, hpb⟩)

variable {members : List (Bytes × Value)}

theorem nodup_of_keys (h : (members.map Prod.fst).Nodup) :
    members.Nodup := List.Nodup.of_map _ h

def selecting (names : List Bytes) (members : List (Bytes × Value)) : List (Bytes × Value) :=
  members.filter fun m => (fieldOf names m.1).isSome

theorem variants_of_boundTwice (hn : (members.map Prod.fst).Nodup) (h : BoundTwice names members) :
    CaseVariants (selecting names members) := by
  obtain ⟨name, _, hlen⟩ := h
  rw [bound, List.length_map] at hlen
  obtain ⟨m, hm, m', hm', hne, hp, hp'⟩ := pair_of_filter hlen (nodup_of_keys hn)
  have hkey : m.1 ≠ m'.1 := fun heq => hne (List.inj_on_of_nodup_map hn hm hm' heq)
  obtain ⟨_, hfold⟩ := fieldOf_folds (of_decide_eq_true hp)
  obtain ⟨_, hfold'⟩ := fieldOf_folds (of_decide_eq_true hp')
  refine ⟨m, List.mem_filter.mpr ⟨hm, ?_⟩, m', List.mem_filter.mpr ⟨hm', ?_⟩, hkey,
    equalFold_trans hfold (equalFold_symm hfold')⟩
  · rw [of_decide_eq_true hp]
    rfl
  · rw [of_decide_eq_true hp']
    rfl

theorem boundTwice_of_variants (hd : Distinct names) (h : CaseVariants (selecting names members)) :
    BoundTwice names members := by
  obtain ⟨m, hm, m', hm', hkey, hfold⟩ := h
  obtain ⟨hm, hs⟩ := List.mem_filter.mp hm
  obtain ⟨hm', hs'⟩ := List.mem_filter.mp hm'
  obtain ⟨n, hn⟩ := Option.isSome_iff_exists.mp hs
  obtain ⟨n', hn'⟩ := Option.isSome_iff_exists.mp hs'
  have heq : n = n' := (fieldOf_eq_iff hd hn hn').mpr hfold
  refine ⟨n, (fieldOf_folds hn).1, ?_⟩
  rw [bound, List.length_map]
  refine filter_of_pair hm hm' (fun h => hkey (congrArg Prod.fst h)) ?_ ?_
  · simpa using hn
  · simpa [heq] using hn'

/-- Among members that all select fields, a field is bound twice exactly by case variants. -/
theorem boundTwice_iff (hd : Distinct names) (hn : (members.map Prod.fst).Nodup)
    (hk : ∀ m ∈ members, (fieldOf names m.1).isSome = true) :
    BoundTwice names members ↔ CaseVariants members := by
  have hall : selecting names members = members := List.filter_eq_self.mpr hk
  constructor
  · intro h
    exact hall ▸ variants_of_boundTwice hn h
  · intro h
    exact boundTwice_of_variants hd (hall.symm ▸ h)

end JsonKeys
