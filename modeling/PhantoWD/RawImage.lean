import Mathlib.Data.Nat.Digits.Lemmas
import PhantoWD.GoText

/-!
A probe is a computation that asks a medium for byte ranges. Its result depends on the medium
alone, and the ranges it asked for are kept in order.
-/
namespace RawImage

open GoText

def ofBytes : Bytes → Nat
  | [] => 0
  | b :: bs => b.toNat + 256 * ofBytes bs

def toBytes : Nat → Nat → Bytes
  | 0, _ => []
  | width + 1, n => (n % 256).toUInt8 :: toBytes width (n / 256)

theorem ofBytes_lt (b : Bytes) : ofBytes b < 256 ^ b.length := by
  induction b with
  | nil => simp [ofBytes]
  | cons x xs ih =>
    have hx : x.toNat < 256 := x.toNat_lt
    rw [ofBytes, List.length_cons, pow_succ]
    omega

@[simp] theorem length_toBytes (width n : Nat) : (toBytes width n).length = width := by
  induction width generalizing n with
  | zero => rfl
  | succ width ih => rw [toBytes, List.length_cons, ih]

theorem ofBytes_toBytes (width n : Nat) : ofBytes (toBytes width n) = n % 256 ^ width := by
  induction width generalizing n with
  | zero => rw [toBytes, ofBytes, pow_zero, Nat.mod_one]
  | succ width ih =>
    have hbyte : ((n % 256).toUInt8).toNat = n % 256 :=
      Nat.mod_eq_of_lt (Nat.mod_lt n (by decide))
    rw [toBytes, ofBytes, ih, hbyte, pow_succ', Nat.mod_mul]

def window (data : Bytes) (offset width : Nat) : Bytes := (data.drop offset).take width

theorem length_window_le (data : Bytes) (offset width : Nat) :
    (window data offset width).length ≤ width := by
  simp [window]

variable {width b a : Nat} {data : Bytes} {size : Int64}

@[simp] theorem length_window {offset : Nat} (h : offset + width ≤ data.length) :
    (window data offset width).length = width := by
  simp only [window, List.length_take, List.length_drop]
  omega

def wordAt (data : Bytes) (offset width : Nat) : Nat := ofBytes (window data offset width)

theorem wordAt_lt (data : Bytes) (offset width : Nat) : wordAt data offset width < 256 ^ width :=
  calc wordAt data offset width < 256 ^ (window data offset width).length := ofBytes_lt _
    _ ≤ 256 ^ width := Nat.pow_le_pow_right (by decide) (length_window_le data offset width)

def allZero (data : Bytes) : Bool := data.all (· == 0)

def formatHex (width n : Nat) : Bytes :=
  let digits := (Nat.digits 16 n).reverse.map hexChar
  List.replicate (max 1 width - digits.length) 0x30 ++ digits

theorem length_formatHex {n : Nat} (hw : 0 < width) (h : n < 16 ^ width) :
    (formatHex width n).length = width := by
  have hdigits := (Nat.digits_length_le_iff (by decide : 1 < 16) n).mpr h
  simp only [formatHex, List.length_append, List.length_replicate, List.length_map,
    List.length_reverse]
  omega

def hexValue (b : UInt8) : Nat := if b.toNat < 0x3a then b.toNat - 0x30 else b.toNat - 0x57

theorem hexValue_hexChar {d : Nat} (h : d < 16) : hexValue (hexChar d) = d := by
  interval_cases d <;> rfl

theorem ofDigits_formatHex (width n : Nat) :
    Nat.ofDigits 16 ((formatHex width n).reverse.map hexValue) = n := by
  have hdigits : (Nat.digits 16 n).map (fun d => hexValue (hexChar d)) = Nat.digits 16 n := by
    conv_rhs => rw [← List.map_id (Nat.digits 16 n)]
    apply List.map_congr_left
    intro d hd
    exact hexValue_hexChar (Nat.digits_lt_base (by decide) hd)
  have hzero : hexValue 0x30 = 0 := rfl
  simp only [formatHex, List.reverse_append, List.map_append, List.map_reverse,
    List.reverse_reverse, List.map_map, List.reverse_replicate, List.map_replicate, hzero]
  rw [Nat.ofDigits_append_replicate_zero]
  exact (congrArg (Nat.ofDigits 16) hdigits).trans (Nat.ofDigits_digits 16 n)

theorem formatHex_injective {m n : Nat} (h : formatHex width m = formatHex width n) : m = n := by
  rw [← ofDigits_formatHex width m, h, ofDigits_formatHex]

def add64 (a b : Nat) : Nat := (a + b) % 2 ^ 64

def sub64 (a b : Nat) : Nat := (a + (2 ^ 64 - b)) % 2 ^ 64

def mul64 (a b : Nat) : Nat := (a * b) % 2 ^ 64

theorem add64_eq (h : a + b < 2 ^ 64) : add64 a b = a + b := Nat.mod_eq_of_lt h

theorem mul64_eq (h : a * b < 2 ^ 64) : mul64 a b = a * b := Nat.mod_eq_of_lt h

theorem sub64_eq (hb : b ≤ a) (ha : a < 2 ^ 64) : sub64 a b = a - b := by
  unfold sub64
  omega

/-- Arithmetic on words that is right whenever the exact result is a word. Nothing is known of
the other results, so what holds of every such arithmetic never depends on a wrap. -/
structure Words where
  add : Nat → Nat → Nat
  sub : Nat → Nat → Nat
  mul : Nat → Nat → Nat
  add_eq {a b : Nat} : a + b < 2 ^ 64 → add a b = a + b
  sub_eq {a b : Nat} : b ≤ a → a < 2 ^ 64 → sub a b = a - b
  mul_eq {a b : Nat} : a * b < 2 ^ 64 → mul a b = a * b

def Words.machine : Words where
  add := add64
  sub := sub64
  mul := mul64
  add_eq := add64_eq
  sub_eq := sub64_eq
  mul_eq := mul64_eq

def crcBit (crc : Nat) : Nat := if crc % 2 = 1 then (crc / 2) ^^^ 0xedb88320 else crc / 2

def crcByte (crc : Nat) (b : UInt8) : Nat :=
  (List.range 8).foldl (fun c _ => crcBit c) (crc ^^^ b.toNat)

def crc32 (data : Bytes) : Nat := data.foldl crcByte 0xffffffff ^^^ 0xffffffff

example : crc32 (ascii "123456789") = 0xcbf43926 := by decide +kernel

structure Image where
  byte : Nat → UInt8
  failing : Nat → Nat → Bool

def Image.slice (image : Image) (offset length : Nat) : Bytes :=
  (List.range length).map fun i => image.byte (offset + i)

/-- A readable medium of zeros, with some stretches of bytes written on it. -/
def Image.written (stretches : List (Nat × Bytes)) : Image where
  byte i := match stretches.find? fun s => s.1 ≤ i && i < s.1 + s.2.length with
    | some s => s.2.getD (i - s.1) 0
    | none => 0
  failing _ _ := false

@[simp] theorem Image.length_slice (image : Image) (offset length : Nat) :
    (image.slice offset length).length = length := by
  simp [Image.slice]

abbrev Extent := Nat × Nat

def Extent.inside (size : Nat) (e : Extent) : Prop := e.1 + e.2 ≤ size

def Probe (ε α : Type) : Type := Image → Except ε α × List Extent

namespace Probe

variable {ε α β : Type}

def result (m : Probe ε α) (image : Image) : Except ε α := (m image).1

def reads (m : Probe ε α) (image : Image) : List Extent := (m image).2

def fail (e : ε) : Probe ε α := fun _ => (.error e, [])

def read (offset length : Nat) (e : ε) : Probe ε Bytes := fun image =>
  (if image.failing offset length then .error e else .ok (image.slice offset length),
    [(offset, length)])

protected def bind (m : Probe ε α) (f : α → Probe ε β) : Probe ε β := fun image =>
  match (m image).1 with
  | .error e => (.error e, (m image).2)
  | .ok a => ((f a image).1, (m image).2 ++ (f a image).2)

instance : Monad (Probe ε) where
  pure a := fun _ => (.ok a, [])
  bind := Probe.bind

variable {image : Image}

@[simp] theorem result_pure (a : α) : (pure a : Probe ε α).result image = .ok a := rfl

@[simp] theorem reads_pure (a : α) : (pure a : Probe ε α).reads image = [] := rfl

@[simp] theorem result_fail (e : ε) : (fail e : Probe ε α).result image = .error e := rfl

@[simp] theorem reads_fail (e : ε) : (fail e : Probe ε α).reads image = [] := rfl

@[simp] theorem reads_read (offset length : Nat) (e : ε) :
    (read offset length e).reads image = [(offset, length)] := rfl

variable {offset length : Nat}

theorem result_read {e : ε} :
    (read offset length e).result image = .ok data ↔
      image.failing offset length = false ∧ data = image.slice offset length := by
  unfold result read
  cases h : image.failing offset length
  · simp [eq_comm]
  · simp

section Bind

variable {m : Probe ε α} {f : α → Probe ε β}

theorem bind_ok {a : α} (h : m.result image = .ok a) :
    (m >>= f).result image = (f a).result image ∧
      (m >>= f).reads image = m.reads image ++ (f a).reads image := by
  change (Probe.bind m f image).1 = (f a image).1 ∧
    (Probe.bind m f image).2 = (m image).2 ++ (f a image).2
  rw [result] at h
  simp [Probe.bind, h]

theorem bind_error {e : ε} (h : m.result image = .error e) :
    (m >>= f).result image = .error e ∧ (m >>= f).reads image = m.reads image := by
  change (Probe.bind m f image).1 = _ ∧ (Probe.bind m f image).2 = (m image).2
  rw [result] at h
  simp [Probe.bind, h]

theorem result_bind {b : β} : (m >>= f).result image = .ok b ↔
    ∃ a, m.result image = .ok a ∧ (f a).result image = .ok b := by
  cases h : m.result image with
  | error e => simp [bind_error h]
  | ok a => simp [bind_ok h]

theorem bind_congr {g : α → Probe ε β}
    (h : ∀ a, m.result image = .ok a → f a image = g a image) :
    (m >>= f) image = (m >>= g) image := by
  cases hm : m.result image with
  | error e =>
    apply Prod.ext
    · exact (bind_error (f := f) hm).1.trans (bind_error (f := g) hm).1.symm
    · exact (bind_error (f := f) hm).2.trans (bind_error (f := g) hm).2.symm
  | ok a =>
    have hfg := h a hm
    apply Prod.ext
    · refine (bind_ok (f := f) hm).1.trans (Eq.trans ?_ (bind_ok (f := g) hm).1.symm)
      unfold result
      rw [hfg]
    · refine (bind_ok (f := f) hm).2.trans (Eq.trans ?_ (bind_ok (f := g) hm).2.symm)
      unfold reads
      rw [hfg]

theorem mem_reads_bind {r : Extent} : r ∈ (m >>= f).reads image ↔
    r ∈ m.reads image ∨ ∃ a, m.result image = .ok a ∧ r ∈ (f a).reads image := by
  cases h : m.result image with
  | error e => simp [bind_error h]
  | ok a => simp [bind_ok h]

end Bind

/-- Every range the probe asks of the medium satisfies `P`. -/
def Asks (m : Probe ε α) (image : Image) (P : Extent → Prop) : Prop :=
  ∀ r ∈ m.reads image, P r

variable {P : Extent → Prop}

theorem asks_pure (a : α) : (pure a : Probe ε α).Asks image P := by
  simp [Asks]

theorem asks_fail (e : ε) : (fail e : Probe ε α).Asks image P := by
  simp [Asks]

theorem asks_read {e : ε} (h : P (offset, length)) :
    (read offset length e).Asks image P := by
  simpa [Asks] using h

theorem asks_bind {m : Probe ε α} {f : α → Probe ε β} (hm : m.Asks image P)
    (hf : ∀ a, m.result image = .ok a → (f a).Asks image P) : (m >>= f).Asks image P := by
  intro r hr
  rcases mem_reads_bind.mp hr with hr | ⟨a, ha, hr⟩
  · exact hm r hr
  · exact hf a ha r hr

theorem asks_ite {c : Prop} [Decidable c] {m n : Probe ε α} (hm : c → m.Asks image P)
    (hn : ¬ c → n.Asks image P) : (if c then m else n).Asks image P := by
  by_cases h : c
  · rw [if_pos h]
    exact hm h
  · rw [if_neg h]
    exact hn h

theorem asks_stop {c : Prop} [Decidable c] {a : α} {n : Probe ε α} (hn : ¬ c → n.Asks image P) :
    (if c then pure a else n).Asks image P :=
  asks_ite (fun _ => asks_pure a) hn

def failIf (c : Prop) [Decidable c] (e : ε) : Probe ε Unit := if c then fail e else pure ()

section FailIf

variable {c : Prop} [Decidable c] {e : ε}

@[simp] theorem result_failIf {u : Unit} : (failIf c e).result image = .ok u ↔ ¬ c := by
  unfold failIf
  by_cases h : c
  · simp [h]
  · simp [h]

end FailIf

def readAt (size : Int64) (offset length : Nat) (outOfBounds refused : ε) : Probe ε Bytes :=
  if size.toInt < 0 ∨ size.toInt.toNat < offset ∨ 2 ^ 63 - 1 < offset ∨
      size.toInt.toNat - offset < length then
    fail outOfBounds
  else read offset length refused

variable {outOfBounds refused : ε}

theorem readAt_eq (h : ((offset + length : Nat) : Int) ≤ size.toInt) :
    readAt size offset length outOfBounds refused = read offset length refused := by
  have hsize := size.toInt_lt
  unfold readAt
  rw [if_neg (by omega)]

theorem asks_readAt :
    (readAt size offset length outOfBounds refused).Asks image
      (Extent.inside size.toInt.toNat) := by
  apply asks_ite
  · exact fun _ => asks_fail _
  · intro h
    apply asks_read
    unfold Extent.inside
    omega

theorem result_readAt
    (h : (readAt size offset length outOfBounds refused).result image = .ok data) :
    data = image.slice offset length := by
  unfold readAt at h
  split at h
  · simp at h
  · exact (result_read.mp h).2

/-- Two probes ask the same of the medium; both fail, or their answers are related. -/
def Matches {δ : Type} (R : α → β → Prop) (m : Probe ε α) (n : Probe δ β) (image : Image) :
    Prop :=
  m.reads image = n.reads image ∧
    ((∃ e e', m.result image = .error e ∧ n.result image = .error e') ∨
      ∃ a b, m.result image = .ok a ∧ n.result image = .ok b ∧ R a b)

section Matching

variable {δ α' β' : Type} {R : α → β → Prop}

theorem matches_pure {a : α} {b : β} (h : R a b) :
    Matches R (pure a : Probe ε α) (pure b : Probe δ β) image :=
  ⟨rfl, .inr ⟨a, b, rfl, rfl, h⟩⟩

theorem matches_read (offset length : Nat) (e : ε) (e' : δ) :
    Matches Eq (read offset length e) (read offset length e') image := by
  refine ⟨rfl, ?_⟩
  unfold result read
  cases image.failing offset length
  · exact .inr ⟨_, _, rfl, rfl, rfl⟩
  · exact .inl ⟨e, e', rfl, rfl⟩

theorem matches_readAt {offset length : Nat} {e₁ e₂ : ε} {e₁' e₂' : δ} :
    Matches Eq (readAt size offset length e₁ e₂) (readAt size offset length e₁' e₂') image := by
  unfold readAt
  split
  · exact ⟨rfl, .inl ⟨e₁, e₁', rfl, rfl⟩⟩
  · exact matches_read offset length e₂ e₂'

theorem matches_bind {R' : α' → β' → Prop} {m : Probe ε α} {n : Probe δ β}
    {f : α → Probe ε α'} {g : β → Probe δ β'} (h : Matches R m n image)
    (hfg : ∀ a b, m.result image = .ok a → R a b → Matches R' (f a) (g b) image) :
    Matches R' (m >>= f) (n >>= g) image := by
  obtain ⟨hreads, ⟨e, e', hm, hn⟩ | ⟨a, b, hm, hn, hab⟩⟩ := h
  · unfold Matches
    rw [(bind_error hm).1, (bind_error hm).2, (bind_error hn).1, (bind_error hn).2]
    exact ⟨hreads, .inl ⟨e, e', rfl, rfl⟩⟩
  · obtain ⟨hreads', hresult⟩ := hfg a b hm hab
    unfold Matches
    rw [(bind_ok hm).1, (bind_ok hm).2, (bind_ok hn).1, (bind_ok hn).2, hreads, hreads']
    exact ⟨rfl, hresult⟩

theorem matches_ite {c d : Prop} [Decidable c] [Decidable d] {m m' : Probe ε α}
    {n n' : Probe δ β} (hcd : c ↔ d) (hpos : c → Matches R m n image)
    (hneg : ¬ c → Matches R m' n' image) :
    Matches R (if c then m else m') (if d then n else n') image := by
  by_cases h : c
  · rw [if_pos h, if_pos (hcd.mp h)]
    exact hpos h
  · rw [if_neg h, if_neg (mt hcd.mpr h)]
    exact hneg h

end Matching

end Probe
end RawImage
