import Mathlib.Data.Nat.Digits.Lemmas
import PhantoWD.GoText

/-!
Strict RFC 8259 syntax with the decoder's substitutions: an ill-formed byte or an unpaired
surrogate escape becomes U+FFFD. Numbers keep their literal. A document is rendered compactly
with the HTML-safe escapes of the standard encoder.
-/
namespace GoJson

open GoText

mutual
inductive Value where
  | null
  | bool (b : Bool)
  | num (literal : Bytes)
  | str (text : Bytes)
  | arr (items : Elements)
  | obj (members : Members)
  deriving DecidableEq
inductive Elements where
  | nil
  | cons (head : Value) (tail : Elements)
  deriving DecidableEq
inductive Members where
  | nil
  | cons (key : Bytes) (value : Value) (tail : Members)
  deriving DecidableEq
end

def Members.toList : Members → List (Bytes × Value)
  | .nil => []
  | .cons key value tail => (key, value) :: tail.toList

def Members.ofList : List (Bytes × Value) → Members
  | [] => .nil
  | (key, value) :: tail => .cons key value (.ofList tail)

@[simp] theorem Members.toList_ofList (l : List (Bytes × Value)) :
    (Members.ofList l).toList = l := by
  induction l with
  | nil => rfl
  | cons m tail ih => simp [Members.ofList, Members.toList, ih]

def Elements.toList : Elements → List Value
  | .nil => []
  | .cons head tail => head :: tail.toList

def Elements.ofList : List Value → Elements
  | [] => .nil
  | head :: tail => .cons head (.ofList tail)

@[simp] theorem Elements.toList_ofList (l : List Value) : (Elements.ofList l).toList = l := by
  induction l with
  | nil => rfl
  | cons v tail ih => simp [Elements.ofList, Elements.toList, ih]

def isSpace (b : UInt8) : Bool := b = 0x20 || b = 0x09 || b = 0x0a || b = 0x0d

def isDigit (b : UInt8) : Bool := 0x30 ≤ b.toNat && b.toNat ≤ 0x39

def skipSpace (s : Bytes) : Bytes := s.dropWhile isSpace

def hexDigit (b : UInt8) : Option Nat :=
  if isDigit b then some (b.toNat - 0x30)
  else if 0x61 ≤ b.toNat ∧ b.toNat ≤ 0x66 then some (b.toNat - 0x61 + 10)
  else if 0x41 ≤ b.toNat ∧ b.toNat ≤ 0x46 then some (b.toNat - 0x41 + 10)
  else none

def hex4 : Bytes → Option (Nat × Bytes)
  | a :: b :: c :: d :: rest => do
    let a ← hexDigit a
    let b ← hexDigit b
    let c ← hexDigit c
    let d ← hexDigit d
    some (((a * 16 + b) * 16 + c) * 16 + d, rest)
  | _ => none

def encodeRune (r : Rune) : Bytes :=
  if r < 0x80 then [r.toUInt8]
  else if r < 0x800 then [(0xc0 + r / 0x40).toUInt8, (0x80 + r % 0x40).toUInt8]
  else if r < 0x10000 then
    [(0xe0 + r / 0x1000).toUInt8, (0x80 + r / 0x40 % 0x40).toUInt8, (0x80 + r % 0x40).toUInt8]
  else
    [(0xf0 + r / 0x40000).toUInt8, (0x80 + r / 0x1000 % 0x40).toUInt8,
      (0x80 + r / 0x40 % 0x40).toUInt8, (0x80 + r % 0x40).toUInt8]

def lowSurrogate : Bytes → Option (Nat × Bytes)
  | 0x5c :: 0x75 :: rest => do
    let (low, rest) ← hex4 rest
    if 0xdc00 ≤ low ∧ low ≤ 0xdfff then some (low, rest) else none
  | _ => none

/-- The rune of a `\u` escape; an unpaired surrogate is replaced. -/
def unicodeEscape (s : Bytes) : Option (Rune × Bytes) := do
  let (unit, rest) ← hex4 s
  if 0xd800 ≤ unit ∧ unit ≤ 0xdbff then
    match lowSurrogate rest with
    | some (low, rest) => some (0x10000 + (unit - 0xd800) * 0x400 + (low - 0xdc00), rest)
    | none => some (runeError, rest)
  else if 0xdc00 ≤ unit ∧ unit ≤ 0xdfff then some (runeError, rest)
  else some (unit, rest)

def escape : Bytes → Option (Bytes × Bytes)
  | [] => none
  | b :: rest =>
    if b = 0x22 ∨ b = 0x5c ∨ b = 0x2f then some ([b], rest)
    else if b = 0x62 then some ([0x08], rest)
    else if b = 0x66 then some ([0x0c], rest)
    else if b = 0x6e then some ([0x0a], rest)
    else if b = 0x72 then some ([0x0d], rest)
    else if b = 0x74 then some ([0x09], rest)
    else if b = 0x75 then (unicodeEscape rest).map fun (r, rest) => (encodeRune r, rest)
    else none

def character : Bytes → Option (Bytes × Bytes)
  | [] => none
  | b :: rest =>
    if b = 0x5c then escape rest
    else if b.toNat < 0x20 then none
    else if b.toNat < 0x80 then some ([b], rest)
    else
      let d := decodeRune (b :: rest)
      if d.2.2 then some ((b :: rest).take d.2.1, (b :: rest).drop d.2.1)
      else some (encodeRune runeError, rest)

def stringBody : Nat → Bytes → Option (Bytes × Bytes)
  | 0, _ => none
  | fuel + 1, s =>
    if s.head? = some 0x22 then some ([], s.tail)
    else do
      let (text, rest) ← character s
      let (more, rest) ← stringBody fuel rest
      some (text ++ more, rest)

def intPart : Bytes → Option (Bytes × Bytes)
  | [] => none
  | b :: rest =>
    if b = 0x30 then some ([b], rest)
    else if isDigit b then some (b :: rest.takeWhile isDigit, rest.dropWhile isDigit)
    else none

def digits (s : Bytes) : Option (Bytes × Bytes) :=
  if s.takeWhile isDigit = [] then none else some (s.takeWhile isDigit, s.dropWhile isDigit)

def fraction (s : Bytes) : Option (Bytes × Bytes) :=
  if s.head? = some 0x2e then
    (digits s.tail).map fun (ds, rest) => (0x2e :: ds, rest)
  else some ([], s)

def exponent (s : Bytes) : Option (Bytes × Bytes) :=
  if s.head? = some 0x65 ∨ s.head? = some 0x45 then
    let signed := s.tail.head? = some 0x2b ∨ s.tail.head? = some 0x2d
    let mark := if signed then s.take 2 else s.take 1
    (digits (s.drop mark.length)).map fun (ds, rest) => (mark ++ ds, rest)
  else some ([], s)

def number (s : Bytes) : Option (Bytes × Bytes) := do
  let sign := if s.head? = some 0x2d then [0x2d] else []
  let (whole, rest) ← intPart (s.drop sign.length)
  let (frac, rest) ← fraction rest
  let (exp, rest) ← exponent rest
  some (sign ++ whole ++ frac ++ exp, rest)

def keyword (word : Bytes) (value : Value) (s : Bytes) : Option (Value × Bytes) :=
  if word.isPrefixOf s then some (value, s.drop word.length) else none

def scalar (s : Bytes) : Option (Value × Bytes) :=
  if s.head? = some 0x22 then
    (stringBody s.length s.tail).map fun (text, rest) => (.str text, rest)
  else if s.head? = some 0x74 then keyword (ascii "true") (.bool true) s
  else if s.head? = some 0x66 then keyword (ascii "false") (.bool false) s
  else if s.head? = some 0x6e then keyword (ascii "null") .null s
  else (number s).map fun (literal, rest) => (.num literal, rest)

def member (parse : Bytes → Option (Value × Bytes)) (s : Bytes) :
    Option (Bytes × Value × Bytes) := do
  let s := skipSpace s
  if s.head? = some 0x22 then
    let (key, rest) ← stringBody s.length s.tail
    let rest := skipSpace rest
    if rest.head? = some 0x3a then
      let (value, rest) ← parse rest.tail
      some (key, value, rest)
    else none
  else none

mutual
def parseValue : Nat → Bytes → Option (Value × Bytes)
  | 0, _ => none
  | fuel + 1, s =>
    let s := skipSpace s
    if s.head? = some 0x7b then
      if (skipSpace s.tail).head? = some 0x7d then some (.obj .nil, (skipSpace s.tail).tail)
      else do
        let (key, value, rest) ← member (parseValue fuel) s.tail
        let (members, rest) ← parseMembers fuel rest
        some (.obj (.cons key value members), rest)
    else if s.head? = some 0x5b then
      if (skipSpace s.tail).head? = some 0x5d then some (.arr .nil, (skipSpace s.tail).tail)
      else do
        let (value, rest) ← parseValue fuel s.tail
        let (items, rest) ← parseElements fuel rest
        some (.arr (.cons value items), rest)
    else scalar s
def parseElements : Nat → Bytes → Option (Elements × Bytes)
  | 0, _ => none
  | fuel + 1, s =>
    let s := skipSpace s
    if s.head? = some 0x5d then some (.nil, s.tail)
    else if s.head? = some 0x2c then do
      let (value, rest) ← parseValue fuel s.tail
      let (items, rest) ← parseElements fuel rest
      some (.cons value items, rest)
    else none
def parseMembers : Nat → Bytes → Option (Members × Bytes)
  | 0, _ => none
  | fuel + 1, s =>
    let s := skipSpace s
    if s.head? = some 0x7d then some (.nil, s.tail)
    else if s.head? = some 0x2c then do
      let (key, value, rest) ← member (parseValue fuel) s.tail
      let (members, rest) ← parseMembers fuel rest
      some (.cons key value members, rest)
    else none
end

def parse (s : Bytes) : Option Value := do
  let (value, rest) ← parseValue (s.length + 1) s
  if skipSpace rest = [] then some value else none

def plain (b : UInt8) : Bool :=
  0x20 ≤ b.toNat && b.toNat < 0x80 && b ≠ 0x22 && b ≠ 0x5c && b ≠ 0x3c && b ≠ 0x3e && b ≠ 0x26

def escaped (b : UInt8) : Bytes :=
  if b = 0x22 ∨ b = 0x5c then [0x5c, b]
  else if b = 0x08 then ascii "\\b"
  else if b = 0x0c then ascii "\\f"
  else if b = 0x0a then ascii "\\n"
  else if b = 0x0d then ascii "\\r"
  else if b = 0x09 then ascii "\\t"
  else ascii "\\u00" ++ [hexChar (b.toNat / 16), hexChar (b.toNat % 16)]

def quoteBody : Nat → Bytes → Bytes
  | _, [] => []
  | 0, _ :: _ => []
  | fuel + 1, b :: rest =>
    if plain b then b :: quoteBody fuel rest
    else if b.toNat < 0x80 then escaped b ++ quoteBody fuel rest
    else
      let d := decodeRune (b :: rest)
      if d.2.2 = false then ascii "\\ufffd" ++ quoteBody fuel rest
      else if d.1 = 0x2028 ∨ d.1 = 0x2029 then
        ascii "\\u202" ++ [hexChar (d.1 % 16)] ++ quoteBody fuel (rest.drop (d.2.1 - 1))
      else (b :: rest).take d.2.1 ++ quoteBody fuel (rest.drop (d.2.1 - 1))

def quoted (s : Bytes) : Bytes := 0x22 :: quoteBody s.length s ++ [0x22]

def formatUint (n : Nat) : Bytes :=
  if n = 0 then [0x30] else (Nat.digits 10 n).reverse.map fun d => (0x30 + d).toUInt8

def formatInt (n : Int) : Bytes :=
  if n < 0 then 0x2d :: formatUint n.natAbs else formatUint n.toNat

def parseUint (s : Bytes) : Option Nat :=
  let n := s.foldl (fun n b => 10 * n + (b.toNat - 0x30)) 0
  if s ≠ [] ∧ s.all isDigit = true ∧ n < 2 ^ 64 then some n else none

def parseInt (s : Bytes) : Option Int :=
  if s.head? = some 0x2d then do
    let n ← parseUint s.tail
    if n ≤ 2 ^ 63 then some (-(n : Int)) else none
  else do
    let n ← parseUint s
    if n < 2 ^ 63 then some (n : Int) else none

mutual
def Value.render : Value → Bytes
  | .null => ascii "null"
  | .bool true => ascii "true"
  | .bool false => ascii "false"
  | .num literal => literal
  | .str text => quoted text
  | .arr .nil => ascii "[]"
  | .arr (.cons value items) => 0x5b :: value.render ++ items.render
  | .obj .nil => [0x7b, 0x7d]
  | .obj (.cons key value members) =>
    0x7b :: quoted key ++ 0x3a :: value.render ++ members.render
def Elements.render : Elements → Bytes
  | .nil => [0x5d]
  | .cons value items => 0x2c :: value.render ++ items.render
def Members.render : Members → Bytes
  | .nil => [0x7d]
  | .cons key value members => 0x2c :: quoted key ++ 0x3a :: value.render ++ members.render
end

/-!
`json.Unmarshal` visits the members in order. A key selects the field of that exact name, or
else the first whose name it folds to. Null leaves a field as it is.
-/

def fieldOf (names : List Bytes) (key : Bytes) : Option Bytes :=
  if key ∈ names then some key else names.find? (equalFold key)

def bound (names : List Bytes) (name : Bytes) (members : List (Bytes × Value)) : List Value :=
  (members.filter fun m => fieldOf names m.1 = some name).map Prod.snd

def bindString (values : List Value) : Option Bytes :=
  values.foldlM (fun old v => match v with
    | .str text => some text
    | .null => some old
    | _ => none) []

def bindUint (values : List Value) : Option Nat :=
  values.foldlM (fun old v => match v with
    | .num literal => parseUint literal
    | .null => some old
    | _ => none) 0

def bindInt (values : List Value) : Option Int :=
  values.foldlM (fun old v => match v with
    | .num literal => parseInt literal
    | .null => some old
    | _ => none) 0

def asString : Value → Option Bytes
  | .str text => some text
  | _ => none

def asBool : Value → Option Bool
  | .bool b => some b
  | _ => none

def asUint (bits : Nat) : Value → Option Nat
  | .num literal => (parseUint literal).filter (· < 2 ^ bits)
  | _ => none

def asSlice {α : Type} (one : Value → Option α) : Value → Option (List α)
  | .arr items => items.toList.mapM one
  | _ => none

def bindPointer {α : Type} (one : Value → Option α) (values : List Value) : Option (Option α) :=
  values.foldlM (fun _ v => if v = .null then some none else (one v).map some) none

theorem guard_bind {α : Type} {p : Prop} [Decidable p] {f : Unit → Option α} {a : α} :
    (guard p : Option Unit).bind f = some a ↔ p ∧ f () = some a := by
  by_cases h : p
  · simp [guard, h]
  · simp [guard, h]

def structMembers (data : Bytes) : Option (List (Bytes × Value)) :=
  match parse data with
  | some (.obj members) => some members.toList
  | some .null => some []
  | _ => none

/-- `DisallowUnknownFields`: every key selects a field. -/
def knownFields (names : List Bytes) (members : List (Bytes × Value)) : Bool :=
  members.all fun m => (fieldOf names m.1).isSome

theorem bound_exact {names keys : List Bytes} {name : Bytes} {members : List (Bytes × Value)}
    (hk : ∀ m ∈ members, m.1 ∈ keys)
    (hf : ∀ k ∈ keys, fieldOf names k = some name ↔ k = name) :
    bound names name members = (members.filter fun m => m.1 = name).map Prod.snd := by
  unfold bound
  congr 1
  refine List.filter_congr fun m hm => ?_
  simp [hf m.1 (hk m hm)]

theorem fieldOf_exact {names : List Bytes} {key : Bytes} (h : key ∈ names) :
    fieldOf names key = some key := if_pos h

end GoJson
