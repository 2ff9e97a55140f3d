import Mathlib.Data.List.Basic

/-!
Text is written as lines that each end in a terminator, and a line as fields with separators
between them. Where the parts are free of the terminator or separator, splitting gives back
exactly what was written.
-/
namespace TextFields

variable {α : Type} [DecidableEq α] {sep : α}

def unlines (sep : α) (lines : List (List α)) : List α := lines.flatMap (· ++ [sep])

omit [DecidableEq α] in
@[simp] theorem unlines_nil : unlines sep ([] : List (List α)) = [] := rfl

omit [DecidableEq α] in
@[simp] theorem unlines_cons (line : List α) (rest : List (List α)) :
    unlines sep (line :: rest) = line ++ sep :: unlines sep rest := by
  simp [unlines]

omit [DecidableEq α] in
theorem unlines_append (first second : List (List α)) :
    unlines sep (first ++ second) = unlines sep first ++ unlines sep second :=
  List.flatMap_append

omit [DecidableEq α] in
theorem unlines_flatMap {β : Type} (f : β → List (List α)) (l : List β) :
    unlines sep (l.flatMap f) = l.flatMap fun b => unlines sep (f b) := by
  induction l with
  | nil => rfl
  | cons b rest ih => rw [List.flatMap_cons, unlines_append, ih, List.flatMap_cons]

theorem splitOn_append_cons {first : List α} (h : sep ∉ first) (rest : List α) :
    (first ++ sep :: rest).splitOn sep = first :: rest.splitOn sep := by
  apply List.splitOnP_append_cons_of_forall_mem
  · intro a ha
    simpa using fun heq : a = sep => h (heq ▸ ha)
  · simp

/-- The text after the last terminator is empty. -/
theorem splitOn_unlines {lines : List (List α)} (h : ∀ line ∈ lines, sep ∉ line) :
    (unlines sep lines).splitOn sep = lines ++ [[]] := by
  induction lines with
  | nil => simp
  | cons line rest ih =>
    rw [List.forall_mem_cons] at h
    rw [unlines_cons, splitOn_append_cons h.1, ih h.2]
    rfl

omit [DecidableEq α] in
theorem intercalate_cons (first : List α) (parts : List (List α)) :
    [sep].intercalate (first :: parts) = first ++ parts.flatMap (sep :: ·) := by
  induction parts generalizing first with
  | nil => simp
  | cons p rest ih => rw [List.intercalate_cons_cons, ih, List.flatMap_cons]; simp

theorem splitOn_cons_flatMap {first : List α} {parts : List (List α)} (hfirst : sep ∉ first)
    (h : ∀ p ∈ parts, sep ∉ p) :
    (first ++ parts.flatMap (sep :: ·)).splitOn sep = first :: parts := by
  rw [← intercalate_cons]
  exact List.splitOn_intercalate sep (List.forall_mem_cons.mpr ⟨hfirst, h⟩) (by simp)

def fields (sep : α) (line : List α) : List (List α) := (line.splitOn sep).filter (· ≠ [])

theorem fields_intercalate {parts : List (List α)} (h : ∀ p ∈ parts, p ≠ [] ∧ sep ∉ p) :
    fields sep ([sep].intercalate parts) = parts := by
  cases parts with
  | nil => simp [fields]
  | cons p rest =>
    rw [fields, List.splitOn_intercalate sep (fun q hq => (h q hq).2) (by simp),
      List.filter_eq_self]
    intro q hq
    simpa using (h q hq).1

def cut (sep : α) (line : List α) : Option (List α × List α) :=
  if sep ∈ line then some (line.takeWhile (· ≠ sep), (line.dropWhile (· ≠ sep)).tail) else none

theorem cut_append {first : List α} (h : sep ∉ first) (rest : List α) :
    cut sep (first ++ sep :: rest) = some (first, rest) := by
  have hfirst : ∀ a ∈ first, decide (a ≠ sep) = true := by
    intro a ha
    simpa using fun heq : a = sep => h (heq ▸ ha)
  rw [cut, if_pos (by simp), List.takeWhile_append_of_pos hfirst,
    List.dropWhile_append_of_pos hfirst]
  simp

omit [DecidableEq α] in
theorem mapM_some {β γ : Type} {read : β → Option γ} {write : α → β} {meaning : α → γ}
    {l : List α} (h : ∀ a ∈ l, read (write a) = some (meaning a)) :
    (l.map write).mapM read = some (l.map meaning) := by
  induction l with
  | nil => rfl
  | cons a rest ih =>
    rw [List.forall_mem_cons] at h
    rw [List.map_cons, List.mapM_cons, h.1, ih h.2]
    rfl

end TextFields
