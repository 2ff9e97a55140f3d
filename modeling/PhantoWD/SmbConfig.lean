import PhantoWD.ShareDocument

/-!
`Build` renders share sections for review. Only its refusals decide whether a policy is
accepted: values Samba would interpret, path elements with outer white space, and shares
whose resolved paths overlap on one volume.
-/
namespace SmbConfig

open GoText ShareConfig

inductive BuildError where
  | policy
  | size
  | isolated
  | value (share : Nat)
  | whitespace (share : Nat)
  | overlap
  deriving DecidableEq

def unsafeValue (s : Bytes) : Bool := containsAny s (ascii "%\"#;=[]")

def overlaps (a b : Bytes) : Bool := a == b || below a b || below b a

def mountPath (volumeID : Bytes) : Bytes := joinRooted volumeMountRoot volumeID

def placeShares (isolated : Bool) (i : Nat) (placed : List (Bytes × Bytes)) :
    List Share → Except BuildError (List (Bytes × Bytes))
  | [] => .ok placed
  | s :: rest =>
    let resolved := joinRooted (mountPath s.volumeID) s.relativePath
    if isolated && s.relativePath == ascii "." then .error .isolated
    else if unsafeValue s.name || unsafeValue s.relativePath then .error (.value i)
    else if (split s.relativePath 0x2f).any fun part => !trimmed part then .error (.whitespace i)
    else if placed.any fun p => p.1 == s.volumeID && overlaps p.2 resolved then .error .overlap
    else placeShares isolated (i + 1) (placed ++ [(s.volumeID, resolved)]) rest

def build (c : Config) (isolated : Bool) : Except BuildError (List (Bytes × Bytes)) :=
  match c.validate with
  | .error _ => .error .policy
  | .ok () =>
    if maxInputBytes < c.marshal.length then .error .size
    else placeShares isolated 0 [] c.shares.items

theorem build_ok {c : Config} {isolated : Bool} {placed : List (Bytes × Bytes)}
    (h : build c isolated = .ok placed) :
    c.validate = .ok () ∧ c.marshal.length ≤ maxInputBytes := by
  rw [build] at h
  cases hv : c.validate with
  | error e => simp [hv] at h
  | ok u =>
    rw [hv] at h
    by_cases hlen : maxInputBytes < c.marshal.length
    · simp [hlen] at h
    · exact ⟨rfl, Nat.not_lt.mp hlen⟩

def Apart (placed : List (Bytes × Bytes)) : Prop :=
  placed.Pairwise fun p q => p.1 = q.1 → overlaps p.2 q.2 = false

theorem placeShares_apart {isolated : Bool} {i : Nat} {placed out : List (Bytes × Bytes)}
    {shares : List Share} (h : placeShares isolated i placed shares = .ok out)
    (hp : Apart placed) : Apart out := by
  induction shares generalizing i placed with
  | nil =>
    simp only [placeShares, Except.ok.injEq] at h
    exact h ▸ hp
  | cons s rest ih =>
    rw [placeShares] at h
    split_ifs at h with _ _ _ hoverlap
    refine ih h ?_
    rw [Apart, List.pairwise_append]
    refine ⟨hp, List.pairwise_singleton _ _, ?_⟩
    intro p hmem q hq heq
    rw [List.mem_singleton] at hq
    subst hq
    rw [Bool.not_eq_true, List.any_eq_false] at hoverlap
    simpa [heq] using hoverlap p hmem

theorem build_apart {c : Config} {isolated : Bool} {placed : List (Bytes × Bytes)}
    (h : build c isolated = .ok placed) : Apart placed := by
  obtain ⟨hv, hlen⟩ := build_ok h
  rw [build, hv] at h
  simp only [if_neg (Nat.not_lt.mpr hlen)] at h
  exact placeShares_apart h .nil

end SmbConfig
