import PhantoWD.JsonRoundTrip

/-!
Every private document passes through one screen: a byte limit, valid UTF-8 without unpaired
surrogate escapes, no nulls, no duplicate keys, bounded nesting and exactly the required
top-level fields.
-/
namespace ConfigJson

open GoText GoJson

def pairedLow : Bytes → Option Bytes
  | 0x5c :: 0x75 :: rest => do
    let (low, rest) ← hex4 rest
    if low < 0xdc00 ∨ 0xdfff < low then none else some rest
  | _ => none

/-- What follows a `\u` escape that stands alone or is properly paired. -/
def afterUnicode (s : Bytes) : Option Bytes := do
  let (unit, rest) ← hex4 s
  if 0xdc00 ≤ unit ∧ unit ≤ 0xdfff then none
  else if 0xd800 ≤ unit ∧ unit ≤ 0xdbff then pairedLow rest
  else some rest

def surrogateScan : Nat → Bool → Bytes → Bool
  | _, _, [] => true
  | 0, _, _ :: _ => false
  | fuel + 1, inString, b :: rest =>
    if b = 0x22 then surrogateScan fuel (!inString) rest
    else if inString = false ∨ b ≠ 0x5c then surrogateScan fuel inString rest
    else match rest with
      | [] => false
      | c :: rest =>
        if c ≠ 0x75 then surrogateScan fuel inString rest
        else match afterUnicode rest with
          | none => false
          | some rest => surrogateScan fuel inString rest

def validSurrogates (data : Bytes) : Bool := surrogateScan data.length false data

mutual
/-- `scanValue` over the token stream of one value; `keys` is the closed key set, if any. -/
def scanValue (maxDepth : Nat) (keys : Option (List Bytes)) (depth : Nat) : Value → Bool
  | .null => false
  | .bool _ => depth ≤ maxDepth
  | .num _ => depth ≤ maxDepth
  | .str _ => depth ≤ maxDepth
  | .arr items => depth ≤ maxDepth && scanElements maxDepth keys (depth + 1) items
  | .obj members => depth ≤ maxDepth && scanMembers maxDepth keys (depth + 1) [] members
def scanElements (maxDepth : Nat) (keys : Option (List Bytes)) (depth : Nat) : Elements → Bool
  | .nil => true
  | .cons value items =>
    scanValue maxDepth keys depth value && scanElements maxDepth keys depth items
def scanMembers (maxDepth : Nat) (keys : Option (List Bytes)) (depth : Nat) (seen : List Bytes) :
    Members → Bool
  | .nil => true
  | .cons key value members =>
    key ∉ seen && keys.all (key ∈ ·) && scanValue maxDepth keys depth value &&
      scanMembers maxDepth keys depth (key :: seen) members
end

def scanned (data : Bytes) (maxBytes maxDepth : Nat) (keys : Option (List Bytes)) :
    Option Value := do
  if maxBytes < data.length ∨ validString data = false ∨ validSurrogates data = false then none
  else
    let value ← parse data
    if scanValue maxDepth keys 0 value then some value else none

def decodeValue (data : Bytes) (maxBytes maxDepth : Nat) (keys : List Bytes) : Option Value :=
  if maxBytes = 0 ∨ maxDepth = 0 then none else scanned data maxBytes maxDepth (some keys)

/-- The top-level members stand for the raw messages of the source. -/
def decodeEnvelope (data : Bytes) (maxBytes maxDepth : Nat) (required : List Bytes) :
    Option (List (Bytes × Value)) := do
  if maxBytes = 0 ∨ maxDepth = 0 ∨ required = [] ∨ 32 < required.length ∨
      [] ∈ required ∨ ¬ required.Nodup then none
  else
    match ← scanned data maxBytes maxDepth none with
    | .obj members =>
      if members.toList.length ≠ required.length ∨
          (members.toList.any fun m => m.1 ∉ required) = true then none
      else some members.toList
    | _ => none

variable {maxBytes maxDepth : Nat}

theorem decodeEnvelope_spec {data : Bytes} {required : List Bytes} {fields : List (Bytes × Value)}
    (h : decodeEnvelope data maxBytes maxDepth required = some fields) :
    data.length ≤ maxBytes ∧ structMembers data = some fields ∧ ∀ m ∈ fields, m.1 ∈ required := by
  unfold decodeEnvelope at h
  split_ifs at h
  simp only [Option.bind_eq_bind, Option.bind_eq_some_iff] at h
  obtain ⟨value, hscan, h⟩ := h
  unfold scanned at hscan
  split_ifs at hscan with hlimit
  obtain ⟨parsed, hparse, hscan⟩ := Option.bind_eq_some_iff.mp hscan
  split_ifs at hscan
  cases hscan
  have hlen : data.length ≤ maxBytes := by
    by_contra hn
    exact hlimit (.inl (by omega))
  cases value with
  | obj members =>
    simp only at h
    split_ifs at h with hkeys
    cases h
    refine ⟨hlen, by simp [structMembers, hparse], fun m hm => ?_⟩
    by_contra hn
    exact hkeys (.inr (List.any_eq_true.mpr ⟨m, hm, by simpa using hn⟩))
  | null | bool | num | str | arr => simp at h

def Passes (s : Bytes) (q q' : Bool) : Prop :=
  ∀ rest, (∀ fuel, rest.length ≤ fuel → surrogateScan fuel q' rest = true) →
    ∀ fuel, (s ++ rest).length ≤ fuel → surrogateScan fuel q (s ++ rest) = true

theorem passes_nil (q : Bool) : Passes [] q q :=
  fun _ hrest fuel hf => hrest fuel hf

variable {s : Bytes} {q : Bool} {b : UInt8} {v : Value}

theorem Passes.append {t : Bytes} {q' q'' : Bool} (hs : Passes s q q') (ht : Passes t q' q'') :
    Passes (s ++ t) q q'' := by
  intro rest hrest fuel hf
  rw [List.append_assoc] at hf ⊢
  exact hs (t ++ rest) (ht rest hrest) fuel hf

theorem passes_quote (q : Bool) : Passes [0x22] q (!q) := by
  intro rest hrest fuel hf
  obtain ⟨fuel, rfl⟩ : ∃ k, fuel = k + 1 := ⟨fuel - 1, by simp at hf; omega⟩
  simpa [surrogateScan] using hrest fuel (by simpa using hf)

theorem passes_byte (hq : b ≠ 0x22) (hb : q = false ∨ b ≠ 0x5c) : Passes [b] q q := by
  intro rest hrest fuel hf
  obtain ⟨fuel, rfl⟩ : ∃ k, fuel = k + 1 := ⟨fuel - 1, by simp at hf; omega⟩
  have hnext := hrest fuel (by simpa using hf)
  simpa [surrogateScan, hq, hb] using hnext

theorem passes_all (h : ∀ b ∈ s, b ≠ 0x22 ∧ b ≠ 0x5c) : Passes s q q := by
  induction s with
  | nil => exact passes_nil q
  | cons b rest ih =>
    obtain ⟨hq, hb⟩ := h b (by simp)
    exact (passes_byte hq (.inr hb)).append (ih fun c hc => h c (by simp [hc]))

theorem passes_escape {c : UInt8} (hc : c ≠ 0x75) : Passes [0x5c, c] true true := by
  intro rest hrest fuel hf
  obtain ⟨fuel, rfl⟩ : ∃ k, fuel = k + 1 := ⟨fuel - 1, by simp at hf; omega⟩
  have hnext := hrest fuel (by simp at hf; omega)
  simpa [surrogateScan, hc] using hnext

theorem passes_unicode {digits : Bytes} {unit : Nat}
    (hread : ∀ rest, hex4 (digits ++ rest) = some (unit, rest))
    (hunit : unit < 0xd800) : Passes (0x5c :: 0x75 :: digits) true true := by
  intro rest hrest fuel hf
  obtain ⟨fuel, rfl⟩ : ∃ k, fuel = k + 1 := ⟨fuel - 1, by simp at hf; omega⟩
  have hnext := hrest fuel (by simp at hf; omega)
  have hlow : ¬ (0xdc00 ≤ unit ∧ unit ≤ 0xdfff) := by omega
  have hhigh : ¬ (0xd800 ≤ unit ∧ unit ≤ 0xdbff) := by omega
  simpa [surrogateScan, afterUnicode, hread, hlow, hhigh] using hnext

theorem hex4_byte {n : Nat} (hn : n < 0x100) (rest : Bytes) :
    hex4 ([0x30, 0x30, hexChar (n / 16), hexChar (n % 16)] ++ rest) = some (n, rest) := by
  have h0 : hexDigit 0x30 = some 0 := rfl
  have hunit : n / 16 * 16 + n % 16 = n := by omega
  simp [hex4, h0, hexDigit_hexChar (show n / 16 < 16 by omega),
    hexDigit_hexChar (show n % 16 < 16 by omega), hunit]

theorem passes_piece {e t : Bytes} (h : Piece e t) : Passes e true true := by
  cases h with
  | @copied b h =>
    obtain ⟨hq, hb, _⟩ := plain_spec h
    exact passes_byte hq (.inr hb)
  | @escaped b h hb =>
    unfold escaped
    split_ifs with hq
    · exact passes_escape (by rcases hq with rfl | rfl <;> decide)
    · exact passes_escape (by decide)
    · exact passes_escape (by decide)
    · exact passes_escape (by decide)
    · exact passes_escape (by decide)
    · exact passes_escape (by decide)
    · exact passes_unicode (hex4_byte (by omega)) (by omega)
  | @separator r chunk hr h =>
    rcases hr with rfl | rfl
    · exact @passes_unicode (ascii "2028") 0x2028 (fun _ => rfl) (by decide)
    · exact @passes_unicode (ascii "2029") 0x2029 (fun _ => rfl) (by decide)
  | wide h =>
    refine passes_all fun b hb => ?_
    have hhigh := h.high b hb
    constructor <;> rintro rfl <;> exact absurd hhigh (by decide)

theorem passes_quoted (h : validString s = true) : Passes (quoted s) false false := by
  have hbody : ∀ {e t : Bytes}, Pieces e t → Passes e true true := by
    intro e t hp
    induction hp with
    | nil => exact passes_nil true
    | cons h _ ih => exact (passes_piece h).append ih
  exact ((passes_quote false).append (hbody (quoteBody_pieces h))).append (passes_quote true)

theorem passes_literal (h : (s.all fun b => b != 0x22 && b != 0x5c) = true) : Passes s q q := by
  refine passes_all fun b hb => ?_
  simpa using List.all_eq_true.mp h b hb

theorem passes_outside (hq : b ≠ 0x22) : Passes [b] false false :=
  passes_byte hq (.inl rfl)

mutual
/-- No rendered value trips the surrogate screen. -/
theorem passes_value (v : Value) (h : v.Encodable) : Passes v.render false false := by
  cases v with
  | null => exact passes_literal rfl
  | bool b => cases b <;> exact passes_literal rfl
  | num literal =>
    obtain ⟨n, rfl⟩ := h
    refine passes_all fun b hb => ?_
    have hd := List.all_eq_true.mp (formatUint_digits n) b hb
    exact ⟨isDigit_ne hd rfl, isDigit_ne hd rfl⟩
  | str text => exact passes_quoted h
  | arr items =>
    cases items with
    | nil => exact passes_literal rfl
    | cons value items =>
      have hopen : Passes [0x5b] false false := passes_outside (by decide)
      exact (hopen.append (passes_value value h.1)).append (passes_elements items h.2)
  | obj members =>
    cases members with
    | nil => exact passes_literal rfl
    | cons key value members =>
      have hopen : Passes [0x7b] false false := passes_outside (by decide)
      have hcolon : Passes [0x3a] false false := passes_outside (by decide)
      have hmember := (hopen.append (passes_quoted h.1)).append
        (hcolon.append (passes_value value h.2.1))
      simpa [Value.render] using hmember.append (passes_members members h.2.2)
theorem passes_elements (items : Elements) (h : items.Encodable) :
    Passes items.render false false := by
  cases items with
  | nil => exact passes_literal rfl
  | cons value items =>
    have hcomma : Passes [0x2c] false false := passes_outside (by decide)
    exact (hcomma.append (passes_value value h.1)).append (passes_elements items h.2)
theorem passes_members (members : Members) (h : members.Encodable) :
    Passes members.render false false := by
  cases members with
  | nil => exact passes_literal rfl
  | cons key value members =>
    have hcomma : Passes [0x2c] false false := passes_outside (by decide)
    have hcolon : Passes [0x3a] false false := passes_outside (by decide)
    have hmember := (hcomma.append (passes_quoted h.1)).append
      (hcolon.append (passes_value value h.2.1))
    simpa [Members.render] using hmember.append (passes_members members h.2.2)
end

theorem Passes.validSurrogates (h : Passes s false false) : validSurrogates s = true := by
  have hend : ∀ fuel, ([] : Bytes).length ≤ fuel → surrogateScan fuel false [] = true := by
    intro fuel _
    cases fuel <;> rfl
  have hscan := h [] hend s.length (by simp)
  rwa [List.append_nil] at hscan

theorem isSpace_ascii (h : isSpace b = true) : b.toNat < 0x80 ∧ b ≠ 0x22 ∧ b ≠ 0x5c := by
  simp only [isSpace, Bool.or_eq_true, decide_eq_true_eq] at h
  rcases h with ((rfl | rfl) | rfl) | rfl <;> decide

theorem scanned_render_space (h : v.Encodable) {tail : Bytes} (ht : tail.all isSpace = true)
    (hv : (∃ literal, v = .num literal) → Stops tail) {keys : Option (List Bytes)}
    (hlen : (v.render ++ tail).length ≤ maxBytes) (hscan : scanValue maxDepth keys 0 v = true) :
    scanned (v.render ++ tail) maxBytes maxDepth keys = some v := by
  have htail := List.all_eq_true.mp ht
  have hutf : validString (v.render ++ tail) = true := by
    rw [validString_append (v.render_valid h)]
    exact validString_ascii fun b hb => (isSpace_ascii (htail b hb)).1
  have hspace : Passes tail false false :=
    passes_all fun b hb => (isSpace_ascii (htail b hb)).2
  have hsur := ((passes_value v h).append hspace).validSurrogates
  have hlimit : ¬ (maxBytes < (v.render ++ tail).length ∨
      validString (v.render ++ tail) = false ∨ validSurrogates (v.render ++ tail) = false) := by
    simp only [hutf, hsur, Bool.true_eq_false, or_self, or_false]
    omega
  rw [scanned, if_neg hlimit, parse_render_space h ht hv]
  simp [hscan]

theorem scanned_render (h : v.Encodable) {keys : Option (List Bytes)}
    (hlen : v.render.length ≤ maxBytes) (hscan : scanValue maxDepth keys 0 v = true) :
    scanned v.render maxBytes maxDepth keys = some v := by
  have hlen' : (v.render ++ []).length ≤ maxBytes := by simpa using hlen
  have hstops : (∃ literal, v = .num literal) → Stops [] := fun _ => trivial
  have hspace := scanned_render_space h rfl hstops hlen' hscan
  rwa [List.append_nil] at hspace

theorem decodeValue_render (h : v.Encodable) {keys : List Bytes}
    (hstatic : ¬ (maxBytes = 0 ∨ maxDepth = 0)) (hlen : v.render.length ≤ maxBytes)
    (hscan : scanValue maxDepth (some keys) 0 v = true) :
    decodeValue v.render maxBytes maxDepth keys = some v := by
  rw [decodeValue, if_neg hstatic, scanned_render h hlen hscan]

theorem decodeEnvelope_render {members : Members} (h : (Value.obj members).Encodable)
    {required : List Bytes} (hlen : (Value.obj members).render.length ≤ maxBytes)
    (hstatic : ¬ (maxBytes = 0 ∨ maxDepth = 0 ∨ required = [] ∨ 32 < required.length ∨
      [] ∈ required ∨ ¬ required.Nodup)) (hscan : scanValue maxDepth none 0 (.obj members) = true)
    (hkeys : members.toList.map Prod.fst = required) :
    decodeEnvelope (Value.obj members).render maxBytes maxDepth required =
      some members.toList := by
  have hmem : ¬ (members.toList.length ≠ required.length ∨
      (members.toList.any fun m => m.1 ∉ required) = true) := by
    rintro (hl | ha)
    · exact hl (by simp [← hkeys])
    · obtain ⟨m, hm, hn⟩ := List.any_eq_true.mp ha
      have hin : m.1 ∈ required := hkeys ▸ List.mem_map_of_mem hm
      simp [hin] at hn
  unfold decodeEnvelope
  rw [if_neg hstatic, scanned_render h hlen hscan]
  exact if_neg hmem

end ConfigJson
