import PhantoWD.JsonRoundTrip
import PhantoWD.KeyedLists
import Mathlib.Data.List.Sort

/-!
The owner of an isolated service prints its credentials into an argument vector, and the C
helper reads them back before it drops its privileges. The helper's two arrays are modelled with
their bounds.
-/
namespace LauncherArguments

open GoText GoJson KeyedLists

structure Credentials where
  uid : UInt32
  gid : UInt32
  supplementaryGIDs : List UInt32
  deriving DecidableEq

/-- Durations are nanoseconds; `ready` says whether the probe is set. -/
structure Spec where
  executable : Bytes
  args : List Bytes
  runAs : Option Credentials
  ready : Bool
  readyTimeout : Int
  probeInterval : Int
  stopTimeout : Int
  deriving DecidableEq

def maxReadyTimeout : Int := 30 * 10 ^ 9
def maxProbePeriod : Int := 10 ^ 9
def maxStopTimeout : Int := 15 * 10 ^ 9

def checkGIDs (seen : List UInt32) : List UInt32 → Bool
  | [] => true
  | gid :: rest =>
    if 60000 < gid then false
    else if seen.contains gid then false
    else checkGIDs (gid :: seen) rest

def validCredentials : Option Credentials → Bool
  | none => true
  | some c =>
    if 60000 < c.uid ∨ 60000 < c.gid ∨ 32 < c.supplementaryGIDs.length then false
    else checkGIDs [] c.supplementaryGIDs

def validateSpec (spec : Spec) : Bool :=
  if spec.executable.head? ≠ some 0x2f ∨ pathClean spec.executable ≠ spec.executable ∨
      0 ∈ spec.executable ∨ !spec.ready ∨ spec.readyTimeout ≤ 0 ∨
      maxReadyTimeout < spec.readyTimeout ∨ spec.probeInterval < 10 ^ 7 ∨
      maxProbePeriod < spec.probeInterval ∨ spec.stopTimeout ≤ 0 ∨
      maxStopTimeout < spec.stopTimeout ∨ 64 < spec.args.length ∨
      !validCredentials spec.runAs then false
  else !spec.args.any fun arg => 4096 < arg.length || arg.contains 0

def sortedGIDs (gids : List UInt32) : List UInt32 := gids.insertionSort (· ≤ ·)

def isolatedSpec (spec : Spec) : Option Spec :=
  match spec.runAs with
  | none => none
  | some c =>
    if !validateSpec spec ∨ 63 < spec.args.length ∨ c.uid < 1000 ∨ c.gid < 1000 then none
    else if spec.args.any (· == []) then none
    else if c.supplementaryGIDs.any (· < 1000) then none
    else
      let gids := sortedGIDs c.supplementaryGIDs
      some { spec with runAs := some { c with supplementaryGIDs := gids } }

def isolatedGroups (groups : List UInt32) : Bytes :=
  if groups = [] then ascii "-"
  else [0x2c].intercalate (groups.map fun group => formatUint group.toNat)

/-- The argument vector of `isolatedLaunch.start`. A string with a NUL byte cannot be passed. -/
def startArgs (spec : Spec) : Option (List Bytes) :=
  match spec.runAs with
  | none => none
  | some c =>
    let argv := [ascii "trusted-service-launcher", ascii "v1", formatUint c.uid.toNat,
      formatUint c.gid.toNat, isolatedGroups c.supplementaryGIDs, ascii "--", spec.executable] ++
      spec.args
    if argv.any (·.contains 0) then none else some argv

def maxGroups : Nat := 32
def maxArgs : Nat := 64

inductive Fault where
  | outside
  | unfinished
  deriving DecidableEq

def store (memory : Bytes) (i : Nat) (b : UInt8) : Except Fault Bytes :=
  if i < memory.length then .ok (memory.set i b) else .error .outside

def readString (memory : Bytes) (start : Nat) : Except Fault Bytes :=
  let bytes := memory.drop start
  if 0 ∈ bytes then .ok (bytes.takeWhile (· ≠ 0)) else .error .outside

def strcpy (memory text : Bytes) : Except Fault Bytes :=
  if text.length < memory.length then .ok (text ++ 0 :: memory.drop (text.length + 1))
  else .error .outside

def append (out : List Nat) (id : Nat) : Except Fault (List Nat) :=
  if out.length < maxGroups then .ok (out ++ [id]) else .error .outside

def accumulate (result : Nat) : Bytes → Option Nat
  | [] => some result
  | b :: rest =>
    if b < 0x30 ∨ 0x39 < b then none
    else accumulate ((result * 10 + (b.toNat - 0x30)) % 2 ^ 32) rest

def number (text : Bytes) : Option Nat :=
  if text = [] ∨ 5 < text.length ∨ (text.head? = some 0x30 ∧ 1 < text.length) then none
  else
    match accumulate 0 text with
    | none => none
    | some result => if result < 1000 ∨ 60000 < result then none else some result

/-- The `while` loop of `groups`; each turn but the first follows an accepted group. -/
def groupsLoop : Nat → Bytes → Nat → List Nat → Except Fault (Option (List Nat))
  | 0, _, _, _ => .error .unfinished
  | turns + 1, copy, part, out => do
    let text ← readString copy part
    let comma := if 0x2c ∈ text then some (part + text.idxOf 0x2c) else none
    let copy ← match comma with
      | some i => store copy i 0
      | none => .ok copy
    let token ← readString copy part
    if out.length = maxGroups then .ok none
    else
      match number token with
      | none => .ok none
      | some id =>
        if out.getLast?.any (id ≤ ·) then .ok none
        else do
          let out ← append out id
          match comma with
          | some i => groupsLoop turns copy (i + 1) out
          | none => .ok (some out)

/-- `groups`, with the contents its uninitialised buffer happens to have. -/
def groups (copy text : Bytes) : Except Fault (Option (List Nat)) :=
  if maxGroups * 6 < text.length then .ok none
  else if text = ascii "-" then .ok (some [])
  else do
    let copy ← strcpy copy text
    groupsLoop (maxGroups + 1) copy 0 []

structure Launch where
  uid : Nat
  gid : Nat
  list : List Nat
  exec : List Bytes
  deriving DecidableEq

def main (copy : Bytes) : List Bytes → Except Fault (Option Launch)
  | _ :: version :: uid :: gid :: list :: dashes :: command =>
    if command = [] ∨ maxArgs < command.length ∨ version ≠ ascii "v1" then .ok none
    else
      match number uid, number gid with
      | some uid, some gid => do
        match ← groups copy list with
        | none => .ok none
        | some list =>
          if dashes ≠ ascii "--" ∨ command.any (fun arg => arg == [] || 4096 < arg.length) then
            .ok none
          else .ok (some ⟨uid, gid, list, command⟩)
      | _, _ => .ok none
  | _ => .ok none

variable {text : Bytes}

theorem formatUint_foldl (hdigits : text.all isDigit = true) (hhead : text.head? ≠ some 0x30)
    (hne : text ≠ []) :
    formatUint (text.foldl (fun n b => 10 * n + (b.toNat - 0x30)) 0) = text := by
  have hdigit : ∀ b ∈ text, 0x30 ≤ b.toNat ∧ b.toNat ≤ 0x39 := by
    simpa [isDigit] using hdigits
  have hback : (text.map fun b => b.toNat - 0x30).map (fun d => (0x30 + d).toUInt8) = text := by
    rw [List.map_map]
    refine (List.map_congr_left fun b hb => ?_).trans (List.map_id _)
    obtain ⟨hlow, -⟩ := hdigit b hb
    rw [Function.comp_apply, Nat.add_sub_cancel' hlow, id]
    simp
  have hsmall : ∀ d ∈ (text.map fun b => b.toNat - 0x30).reverse, d < 10 := by
    intro d hd
    obtain ⟨b, hb, rfl⟩ := List.mem_map.mp (List.mem_reverse.mp hd)
    have := hdigit b hb
    omega
  have hvalue := foldl_digits (text.map fun b => b.toNat - 0x30).reverse hsmall
  rw [List.reverse_reverse, hback] at hvalue
  rw [hvalue]
  obtain ⟨b, rest, rfl⟩ := List.exists_cons_of_ne_nil hne
  have hb : b.toNat - 0x30 ≠ 0 := by
    intro hzero
    obtain ⟨hlow, -⟩ := hdigit b List.mem_cons_self
    apply hhead
    rw [List.head?_cons, Option.some.injEq]
    apply UInt8.toNat_inj.mp
    change b.toNat = 0x30
    omega
  have hlast : ∀ h : ((b :: rest).map fun b => b.toNat - 0x30).reverse ≠ [],
      ((b :: rest).map fun b => b.toNat - 0x30).reverse.getLast h ≠ 0 := by
    intro h
    simpa using hb
  have hround := Nat.digits_ofDigits 10 (by decide) _ hsmall hlast
  have hpos : Nat.ofDigits 10 ((b :: rest).map fun b => b.toNat - 0x30).reverse ≠ 0 := by
    intro hzero
    rw [hzero] at hround
    simp at hround
  rw [formatUint, if_neg hpos, hround, List.reverse_reverse, hback]

/-- No digit of a short text wraps around. -/
theorem accumulate_iff {n m : Nat} (hroom : (n + 1) * 10 ^ text.length ≤ 2 ^ 32) :
    accumulate n text = some m ↔
      text.all isDigit = true ∧ m = text.foldl (fun n b => 10 * n + (b.toNat - 0x30)) n := by
  induction text generalizing n with
  | nil => simp [accumulate, eq_comm]
  | cons b rest ih =>
    rw [accumulate, List.all_cons, List.foldl_cons, Bool.and_eq_true]
    have hdigit : isDigit b = true ↔ ¬(b < 0x30 ∨ 0x39 < b) := by
      simp only [isDigit, Bool.and_eq_true, decide_eq_true_eq, UInt8.lt_iff_toNat_lt, not_or,
        Nat.not_lt]
      rfl
    by_cases hbad : b < 0x30 ∨ 0x39 < b
    · simp [hbad, hdigit]
    · have hrange : 0x30 ≤ b.toNat ∧ b.toNat ≤ 0x39 := by simpa [isDigit] using hdigit.mpr hbad
      have hpow : 0 < 10 ^ rest.length := Nat.pow_pos (by decide)
      have hstep : (10 * n + (b.toNat - 0x30) + 1) * 10 ^ rest.length ≤ 2 ^ 32 := by
        refine Nat.le_trans ?_ hroom
        rw [List.length_cons, Nat.pow_succ', ← Nat.mul_assoc]
        exact Nat.mul_le_mul_right _ (by omega)
      have hlt : 10 * n + (b.toNat - 0x30) < 2 ^ 32 :=
        Nat.lt_of_lt_of_le (Nat.lt_succ_self _)
          (Nat.le_trans (Nat.le_mul_of_pos_right _ hpow) hstep)
      rw [if_neg hbad, Nat.mul_comm n, Nat.mod_eq_of_lt hlt, ih hstep, hdigit]
      simp only [hbad, not_false_eq_true, true_and]

/-- `number` accepts the canonical spellings of its range. -/
theorem number_iff {n : Nat} :
    number text = some n ↔ text = formatUint n ∧ 1000 ≤ n ∧ n ≤ 60000 := by
  constructor
  · intro h
    rw [number, Option.ite_none_left_eq_some, not_or, not_or, Nat.not_lt] at h
    obtain ⟨⟨hne, hshort, hzero⟩, h⟩ := h
    cases hacc : accumulate 0 text with
    | none => simp [hacc] at h
    | some m =>
      rw [hacc] at h
      simp only [Option.ite_none_left_eq_some, not_or, Nat.not_lt, Option.some.injEq] at h
      obtain ⟨hrange, rfl⟩ := h
      have hroom : (0 + 1) * 10 ^ text.length ≤ 2 ^ 32 :=
        Nat.le_trans (Nat.mul_le_mul_left _ (Nat.pow_le_pow_right (by decide) hshort)) (by decide)
      obtain ⟨hdigits, rfl⟩ := (accumulate_iff hroom).mp hacc
      refine ⟨(formatUint_foldl hdigits (fun hhead => ?_) hne).symm, hrange⟩
      -- a lone zero is below the range
      have hone : text = [0x30] := by
        obtain ⟨b, rest, rfl⟩ := List.exists_cons_of_ne_nil hne
        obtain rfl : b = 0x30 := Option.some.inj hhead
        cases rest with
        | nil => rfl
        | cons c rest => simp at hzero
      rw [hone] at hrange
      simp at hrange
  · rintro ⟨rfl, hrange⟩
    have hshort : (formatUint n).length ≤ 5 := length_formatUint (by decide) (by omega)
    have hroom : (0 + 1) * 10 ^ (formatUint n).length ≤ 2 ^ 32 :=
      Nat.le_trans (Nat.mul_le_mul_left _ (Nat.pow_le_pow_right (by decide) hshort)) (by decide)
    have hacc := (accumulate_iff hroom).mpr ⟨formatUint_digits n, (foldl_formatUint n).symm⟩
    obtain ⟨b, t, hf, -, -, hzero⟩ := formatUint_cons n
    rw [number, Option.ite_none_left_eq_some, hacc]
    refine ⟨?_, if_neg (by omega)⟩
    simp only [not_or, Nat.not_lt, not_and]
    refine ⟨by simp [hf], hshort, fun hhead => ?_⟩
    rw [hf] at hhead ⊢
    rw [hzero (Option.some.inj hhead)]
    simp

theorem readString_append {done tail : Bytes} (h : 0 ∉ text) :
    readString (done ++ text ++ 0 :: tail) done.length = .ok text := by
  have hall : ∀ b ∈ text, decide (b ≠ 0) = true := fun b hb => by
    simpa using fun heq : b = 0 => h (heq ▸ hb)
  rw [readString, List.append_assoc, List.drop_left, if_pos (by simp),
    List.takeWhile_append_of_pos hall, List.takeWhile_cons_of_neg (by simp), List.append_nil]

theorem store_append {done tail : Bytes} {b c : UInt8} :
    store (done ++ b :: tail) done.length c = .ok (done ++ c :: tail) := by
  rw [store, if_pos (by simp), List.set_append_right _ _ (Nat.le_refl _), Nat.sub_self,
    List.set_cons_zero]

def accepted (out : List Nat) : List Bytes → Option (List Nat)
  | [] => some out
  | token :: rest =>
    if out.length = maxGroups then none
    else
      match number token with
      | none => none
      | some id => if out.getLast?.any (id ≤ ·) then none else accepted (out ++ [id]) rest

theorem turn_eq {out : List Nat} {token : Bytes} {rest : List Bytes}
    {next : Nat → Except Fault (Option (List Nat))}
    (hnext : ∀ id, out.length ≠ maxGroups → next id = .ok (accepted (out ++ [id]) rest)) :
    (if out.length = maxGroups then .ok none
      else
        match number token with
        | none => .ok none
        | some id => if out.getLast?.any (id ≤ ·) then .ok none else next id) =
      Except.ok (accepted out (token :: rest)) := by
  rw [accepted]
  by_cases hfull : out.length = maxGroups
  · simp only [if_pos hfull]
  · simp only [if_neg hfull]
    cases number token with
    | none => rfl
    | some id =>
      by_cases hlast : out.getLast?.any (id ≤ ·) = true
      · simp only [if_pos hlast]
      · simp only [if_neg hlast, hnext id hfull]

/-- The loop overwrites one comma at a time and stays inside both arrays. -/
theorem groupsLoop_eq {turns : Nat} {done tail : Bytes} {out : List Nat} (hnul : 0 ∉ text)
    (hout : out.length ≤ maxGroups) (hturns : maxGroups < out.length + turns) :
    groupsLoop turns (done ++ text ++ 0 :: tail) done.length out =
      .ok (accepted out (split text 0x2c)) := by
  induction turns generalizing done text out with
  | zero => omega
  | succ turns ih =>
    have hnext (id : Nat) (hroom : out.length ≠ maxGroups) :
        append out id = .ok (out ++ [id]) := if_pos (by omega)
    rw [groupsLoop, readString_append hnul]
    by_cases hcomma : 0x2c ∈ text
    · obtain ⟨token, rest, rfl, hfirst⟩ := List.eq_append_cons_of_mem hcomma
      have htoken : 0 ∉ token := fun hmem => hnul (List.mem_append_left _ hmem)
      have hrest : 0 ∉ rest := fun hmem => hnul (by simp [hmem])
      have hindex : (token ++ 0x2c :: rest).idxOf 0x2c = token.length := by
        rw [List.idxOf_append_of_notMem hfirst, List.idxOf_cons_self, Nat.add_zero]
      have hstore : store (done ++ (token ++ 0x2c :: rest) ++ 0 :: tail)
          (done.length + token.length) 0 = .ok (done ++ token ++ 0 :: (rest ++ 0 :: tail)) := by
        have := @store_append (done ++ token) (rest ++ 0 :: tail) 0x2c 0
        simpa using this
      have hsplit : split (token ++ 0x2c :: rest) 0x2c = token :: split rest 0x2c := by
        rw [split, List.splitOn_append_cons_self, List.splitOn_eq_singleton hfirst]
        rfl
      simp only [bind, Except.bind, if_pos hcomma, hindex, hstore, readString_append htoken, hsplit]
      refine turn_eq fun id hfull => ?_
      rw [hnext id hfull]
      have hroom : (out ++ [id]).length = out.length + 1 := List.length_append
      have hmore := @ih rest (done ++ token ++ [0]) (out ++ [id]) hrest (by omega) (by omega)
      simpa [Nat.add_assoc] using hmore
    · have hsplit : split text 0x2c = [text] := List.splitOn_eq_singleton hcomma
      simp only [bind, Except.bind, if_neg hcomma, readString_append hnul, hsplit]
      refine turn_eq fun id hfull => ?_
      rw [hnext id hfull]
      rfl

theorem pairwise_snoc {out : List Nat} {id : Nat} (h : out.Pairwise (· < ·)) :
    (out ++ [id]).Pairwise (· < ·) ↔ out.getLast?.any (id ≤ ·) = false := by
  rw [← List.isChain_iff_pairwise] at h ⊢
  rw [List.isChain_append]
  cases hlast : out.getLast? <;> simp [h]

theorem accepted_iff {out all : List Nat} {parts : List Bytes} (hsorted : out.Pairwise (· < ·))
    (hroom : out.length ≤ maxGroups) :
    accepted out parts = some all ↔
      ∃ ids : List Nat, parts = ids.map formatUint ∧ all = out ++ ids ∧
        (∀ id ∈ ids, 1000 ≤ id ∧ id ≤ 60000) ∧ (out ++ ids).Pairwise (· < ·) ∧
        (out ++ ids).length ≤ maxGroups := by
  induction parts generalizing out with
  | nil =>
    rw [accepted, Option.some.injEq]
    constructor
    · rintro rfl
      exact ⟨[], rfl, by simp, by simp, by simpa using hsorted, by simpa using hroom⟩
    · rintro ⟨ids, hids, rfl, -⟩
      rw [List.map_eq_nil_iff.mp hids.symm, List.append_nil]
  | cons token rest ih =>
    rw [accepted, Option.ite_none_left_eq_some]
    constructor
    · rintro ⟨hfull, h⟩
      cases hnumber : number token with
      | none => simp [hnumber] at h
      | some id =>
        simp only [hnumber, Option.ite_none_left_eq_some, Bool.not_eq_true] at h
        obtain ⟨rfl, hrange⟩ := number_iff.mp hnumber
        have hnext := (pairwise_snoc hsorted).mpr h.1
        obtain ⟨ids, rfl, hall, hranges, hpairs, hlen⟩ := (ih hnext (by
          rw [List.length_append, List.length_singleton]
          omega)).mp h.2
        rw [List.append_assoc] at hall hpairs hlen
        exact ⟨id :: ids, rfl, hall, List.forall_mem_cons.mpr ⟨hrange, hranges⟩, hpairs, hlen⟩
    · rintro ⟨ids, hids, hall, hranges, hpairs, hlen⟩
      cases ids with
      | nil => cases hids
      | cons id ids =>
        obtain ⟨rfl, rfl⟩ := List.cons.inj hids
        obtain ⟨hrange, hranges⟩ := List.forall_mem_cons.mp hranges
        rw [List.append_cons] at hall hpairs hlen
        have hnext : (out ++ [id]).Pairwise (· < ·) := (List.pairwise_append.mp hpairs).1
        have hfit : (out ++ [id]).length ≤ maxGroups := by
          rw [List.length_append] at hlen
          omega
        rw [number_iff.mpr ⟨rfl, hrange⟩]
        refine ⟨?_, ?_⟩
        · rw [List.length_append, List.length_singleton] at hfit
          omega
        · simp only [(pairwise_snoc hsorted).mp hnext, Bool.false_eq_true, if_false]
          exact (ih hnext hfit).mpr ⟨ids, rfl, hall, hranges, hpairs, hlen⟩

theorem comma_notMem_formatUint (n : Nat) : 0x2c ∉ formatUint n := by
  intro hmem
  have := List.all_eq_true.mp (formatUint_digits n) _ hmem
  revert this
  decide

theorem length_joined {ids : List Nat} (h : ∀ id ∈ ids, id ≤ 60000) :
    ([0x2c].intercalate (ids.map formatUint)).length ≤ 6 * ids.length := by
  induction ids with
  | nil => simp
  | cons id rest ih =>
    have hid : (formatUint id).length ≤ 5 :=
      length_formatUint (by decide) (by have := h id List.mem_cons_self; omega)
    have hrest := ih fun n hn => h n (List.mem_cons_of_mem _ hn)
    cases rest with
    | nil => simpa using Nat.le_trans hid (by decide)
    | cons next rest =>
      simp only [List.map_cons, List.intercalate_cons_cons, List.length_append, List.length_cons,
        List.length_nil] at hrest ⊢
      omega

/-- The lists of groups the helper accepts, and how they are spelled. -/
def Spells (text : Bytes) (ids : List Nat) : Prop :=
  text = ascii "-" ∧ ids = [] ∨
    ids ≠ [] ∧ text = [0x2c].intercalate (ids.map formatUint) ∧ ids.Pairwise (· < ·) ∧
      ids.length ≤ maxGroups ∧ ∀ id ∈ ids, 1000 ≤ id ∧ id ≤ 60000

theorem split_eq_iff {ids : List Nat} :
    split text 0x2c = ids.map formatUint ↔
      ids ≠ [] ∧ text = [0x2c].intercalate (ids.map formatUint) := by
  constructor
  · intro h
    have hback : [0x2c].intercalate (split text 0x2c) = text := List.intercalate_splitOn 0x2c
    refine ⟨?_, by rw [← h, hback]⟩
    rintro rfl
    exact List.splitOn_ne_nil _ _ h
  · rintro ⟨hne, rfl⟩
    refine List.splitOn_intercalate 0x2c (fun l hl => ?_) (by simpa using hne)
    obtain ⟨n, -, rfl⟩ := List.mem_map.mp hl
    exact comma_notMem_formatUint n

/-- No input overruns an array, and only spelled lists are accepted. -/
theorem groups_spec {copy : Bytes} (hcopy : copy.length = maxGroups * 6 + 1) (hnul : 0 ∉ text) :
    ∃ r, groups copy text = .ok r ∧ ∀ ids, r = some ids ↔ Spells text ids := by
  rw [groups]
  by_cases hlong : maxGroups * 6 < text.length
  · refine ⟨none, if_pos hlong, fun ids => ?_⟩
    simp only [reduceCtorEq, false_iff]
    rintro (⟨rfl, -⟩ | ⟨-, rfl, -, hcount, hrange⟩)
    · revert hlong
      decide
    · have := length_joined fun id hid => (hrange id hid).2
      omega
  · rw [if_neg hlong]
    by_cases hdash : text = ascii "-"
    · refine ⟨some [], if_pos hdash, fun ids => ?_⟩
      rw [Option.some.injEq]
      constructor
      · rintro rfl
        exact .inl ⟨hdash, rfl⟩
      · rintro (⟨-, rfl⟩ | ⟨hne, htext, -⟩)
        · rfl
        · have hsplit := split_eq_iff.mpr ⟨hne, htext⟩
          rw [hdash, show split (ascii "-") 0x2c = [ascii "-"] by decide] at hsplit
          obtain ⟨id, rest, rfl⟩ := List.exists_cons_of_ne_nil hne
          have hdigits := formatUint_digits id
          rw [← (List.cons.inj hsplit).1] at hdigits
          cases hdigits
    · have hstrcpy : strcpy copy text = .ok ([] ++ text ++ 0 :: copy.drop (text.length + 1)) :=
        if_pos (by omega)
      rw [if_neg hdash, hstrcpy]
      refine ⟨_, groupsLoop_eq hnul (Nat.zero_le _) (by decide), fun ids => ?_⟩
      rw [accepted_iff .nil (Nat.zero_le _)]
      constructor
      · rintro ⟨ids, hsplit, rfl, hranges, hpairs, hlen⟩
        obtain ⟨hne, htext⟩ := split_eq_iff.mp hsplit
        exact .inr ⟨hne, htext, hpairs, hlen, hranges⟩
      · rintro (⟨hbad, -⟩ | ⟨hne, htext, hpairs, hlen, hranges⟩)
        · exact absurd hbad hdash
        · exact ⟨ids, split_eq_iff.mpr ⟨hne, htext⟩, rfl, hranges, hpairs, hlen⟩

theorem checkGIDs_iff {seen gids : List UInt32} :
    checkGIDs seen gids = true ↔ (∀ gid ∈ gids, gid ≤ 60000) ∧ Fresh id seen gids := by
  induction gids generalizing seen with
  | nil => simp [checkGIDs, fresh_nil]
  | cons gid rest ih =>
    rw [checkGIDs, List.forall_mem_cons, fresh_cons]
    by_cases hbig : 60000 < gid
    · simp [hbig, UInt32.not_le.mpr hbig]
    · by_cases hseen : gid ∈ seen
      · simp [hseen]
      · simp [hbig, hseen, ih, UInt32.not_lt.mp hbig]

structure Accepted (spec : Spec) (c : Credentials) : Prop where
  runAs : spec.runAs = some c
  rooted : spec.executable.head? = some 0x2f
  executable : 0 ∉ spec.executable
  counted : spec.args.length ≤ 63
  args : ∀ arg ∈ spec.args, arg ≠ [] ∧ arg.length ≤ 4096 ∧ 0 ∉ arg
  uid : 1000 ≤ c.uid.toNat ∧ c.uid.toNat ≤ 60000
  gid : 1000 ≤ c.gid.toNat ∧ c.gid.toNat ≤ 60000
  few : c.supplementaryGIDs.length ≤ maxGroups
  gids : ∀ gid ∈ c.supplementaryGIDs, 1000 ≤ gid.toNat ∧ gid.toNat ≤ 60000
  distinct : c.supplementaryGIDs.Nodup

theorem isolatedSpec_some {spec fixed : Spec} (h : isolatedSpec spec = some fixed) :
    ∃ c, Accepted spec c ∧ fixed = { spec with runAs := some { c with
      supplementaryGIDs := sortedGIDs c.supplementaryGIDs } } := by
  rw [isolatedSpec] at h
  cases hrun : spec.runAs with
  | none => simp [hrun] at h
  | some c =>
    simp only [hrun, Option.ite_none_left_eq_some, Option.some.injEq, not_or, Bool.not_eq_true,
      Bool.not_eq_true', Bool.not_eq_false, List.any_eq_false, beq_iff_eq, decide_eq_true_eq,
      Nat.not_lt, UInt32.not_lt] at h
    obtain ⟨⟨hvalid, hargs, huid, hgid⟩, hnonempty, hgids, rfl⟩ := h
    simp only [validateSpec, hrun, validCredentials, Bool.if_false_left, Bool.and_eq_true,
      Bool.not_eq_true', Bool.not_eq_false, decide_eq_false_iff_not, not_or, Decidable.not_not,
      List.any_eq_false, Bool.or_eq_true, decide_eq_true_eq, ne_eq, Nat.not_lt, UInt32.not_lt,
      List.contains_eq_mem, checkGIDs_iff, fresh_start, List.map_id] at hvalid
    obtain ⟨⟨hrooted, -, hnul, -, -, -, -, -, -, -, -, ⟨hmaxUID, hmaxGID, hfew⟩, hmaxGIDs,
      hdistinct⟩, hplain⟩ := hvalid
    exact ⟨c, ⟨hrun, hrooted, hnul, hargs, fun arg ha => ⟨hnonempty arg ha, hplain arg ha⟩,
      ⟨huid, hmaxUID⟩, ⟨hgid, hmaxGID⟩, hfew, fun gid hg => ⟨hgids gid hg, hmaxGIDs gid hg⟩,
      hdistinct⟩, rfl⟩

def groupsOf (c : Credentials) : List Nat :=
  (sortedGIDs c.supplementaryGIDs).map UInt32.toNat

theorem groupsOf_perm (c : Credentials) :
    (groupsOf c).Perm (c.supplementaryGIDs.map UInt32.toNat) :=
  (List.perm_insertionSort _ _).map _

theorem Accepted.ascending {spec : Spec} {c : Credentials} (h : Accepted spec c) :
    (groupsOf c).Pairwise (· < ·) := by
  have hsorted : (groupsOf c).Pairwise (· ≤ ·) :=
    List.pairwise_map.mpr (List.pairwise_insertionSort _ _)
  have hnodup : (groupsOf c).Nodup := by
    rw [(groupsOf_perm c).nodup_iff]
    exact h.distinct.map fun a b hab => UInt32.toNat_inj.mp hab
  exact hsorted.imp₂ (fun a b hle hne => Nat.lt_of_le_of_ne hle hne) hnodup

theorem Accepted.spells {spec : Spec} {c : Credentials} (h : Accepted spec c) :
    Spells (isolatedGroups (sortedGIDs c.supplementaryGIDs))
      (groupsOf c) := by
  have hlen : (groupsOf c).length = c.supplementaryGIDs.length := by
    simpa using (groupsOf_perm c).length_eq
  rw [isolatedGroups]
  by_cases hnil : sortedGIDs c.supplementaryGIDs = []
  · rw [if_pos hnil]
    exact .inl ⟨rfl, by rw [groupsOf, hnil, List.map_nil]⟩
  · refine .inr ⟨by simpa [groupsOf] using hnil, ?_, h.ascending, hlen ▸ h.few, fun id hid => ?_⟩
    · rw [if_neg hnil, groupsOf, List.map_map]
      rfl
    · obtain ⟨gid, hgid, rfl⟩ := List.mem_map.mp ((groupsOf_perm c).mem_iff.mp hid)
      exact h.gids gid hgid

theorem nul_notMem_formatUint (n : Nat) : 0 ∉ formatUint n := by
  intro hmem
  have := List.all_eq_true.mp (formatUint_digits n) _ hmem
  revert this
  decide

theorem Spells.nul_notMem {ids : List Nat} (h : Spells text ids) : 0 ∉ text := by
  rcases h with ⟨rfl, -⟩ | ⟨-, rfl, -⟩
  · decide
  · intro hmem
    rcases mem_of_intercalate hmem with hbad | ⟨l, hl, hmem⟩
    · cases hbad
    · obtain ⟨n, -, rfl⟩ := List.mem_map.mp hl
      exact nul_notMem_formatUint n hmem

/-- The launcher reads back what the owner printed, and its group list is nothing but a canonical
ascending one. -/
theorem launcher_reads_the_spec (copy : Bytes) (hcopy : copy.length = maxGroups * 6 + 1) :
    (∀ spec fixed, isolatedSpec spec = some fixed → spec.executable.length ≤ 4096 →
      ∃ c argv gids, spec.runAs = some c ∧ startArgs fixed = some argv ∧
        main copy argv =
          .ok (some ⟨c.uid.toNat, c.gid.toNat, gids, spec.executable :: spec.args⟩) ∧
        gids.Pairwise (· < ·) ∧ gids.Perm (c.supplementaryGIDs.map UInt32.toNat)) ∧
    ∀ text, 0 ∉ text → ∃ r, groups copy text = .ok r ∧ ∀ ids, r = some ids ↔ Spells text ids := by
  refine ⟨fun spec fixed h hshort => ?_, fun text => groups_spec hcopy⟩
  obtain ⟨c, hc, rfl⟩ := isolatedSpec_some h
  have hspells := hc.spells
  obtain ⟨r, hgroups, hr⟩ := groups_spec hcopy hspells.nul_notMem
  obtain rfl := (hr _).mpr hspells
  have huid := number_iff.mpr ⟨rfl, hc.uid⟩
  have hgid := number_iff.mpr ⟨rfl, hc.gid⟩
  have hexecutable : spec.executable ≠ [] := by
    intro hnil
    simpa [hnil] using hc.rooted
  refine ⟨c, _, groupsOf c, hc.runAs, if_neg ?_, ?_, hc.ascending, groupsOf_perm c⟩
  · have hfixed : 0 ∉ ascii "trusted-service-launcher" ∧ 0 ∉ ascii "v1" ∧ 0 ∉ ascii "--" := by
      decide +kernel
    simpa [hfixed, nul_notMem_formatUint, hspells.nul_notMem, hc.executable] using
      fun arg ha => (hc.args arg ha).2.2
  · have hcounted : ¬maxArgs < (spec.executable :: spec.args).length :=
      Nat.not_lt.mpr (Nat.succ_le_succ hc.counted)
    have hplain : ((spec.executable :: spec.args).any fun arg => arg == [] || 4096 < arg.length) =
        false := by
      simp only [List.any_eq_false, List.forall_mem_cons, Bool.or_eq_true, beq_iff_eq,
        decide_eq_true_eq, not_or, Nat.not_lt]
      exact ⟨⟨hexecutable, hshort⟩, fun arg ha => ⟨(hc.args arg ha).1, (hc.args arg ha).2.1⟩⟩
    simp only [List.cons_append, List.nil_append, main, reduceCtorEq, hcounted, ne_eq,
      not_true_eq_false, or_self, if_false, huid, hgid, hgroups, bind, Except.bind, hplain,
      Bool.false_eq_true]

theorem sample_service_launched :
    ∃ argv gids, startArgs ⟨ascii "/usr/sbin/smbd", [ascii "--foreground"],
        some ⟨1001, 1002, [1003, 2000]⟩, true, 10 ^ 9, 10 ^ 8, 10 ^ 9⟩ = some argv ∧
      main (List.replicate 193 0) argv = .ok (some ⟨1001, 1002, gids,
        [ascii "/usr/sbin/smbd", ascii "--foreground"]⟩) ∧ gids.Perm [2000, 1003] := by
  have haccepted : isolatedSpec ⟨ascii "/usr/sbin/smbd", [ascii "--foreground"],
      some ⟨1001, 1002, [2000, 1003]⟩, true, 10 ^ 9, 10 ^ 8, 10 ^ 9⟩ =
        some ⟨ascii "/usr/sbin/smbd", [ascii "--foreground"],
          some ⟨1001, 1002, [1003, 2000]⟩, true, 10 ^ 9, 10 ^ 8, 10 ^ 9⟩ := by decide +kernel
  obtain ⟨c, argv, gids, hc, hargs, hmain, -, hperm⟩ :=
    (launcher_reads_the_spec (List.replicate 193 0) List.length_replicate).1 _ _ haccepted
      (by decide)
  obtain rfl := Option.some.inj hc
  exact ⟨argv, gids, hargs, hmain, hperm⟩

end LauncherArguments
