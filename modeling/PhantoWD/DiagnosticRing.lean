import Mathlib.Data.List.Rotate
import PhantoWD.GoText

/-!
What a service prints goes into a ring of fixed capacity. Every slice expression that Go bounds
is one that can fail here, so a result is also a proof that no index left its buffer.
-/
namespace DiagnosticRing

open GoText

def copySlice (data : Bytes) (low high : Nat) (source : Bytes) : Option Bytes :=
  if low ≤ high ∧ high ≤ data.length then
    let copied := source.take (high - low)
    some (data.take low ++ copied ++ data.drop (low + copied.length))
  else none

structure Ring where
  data : Bytes
  start : Nat := 0
  length : Nat := 0
  dropped : UInt64 := 0
  deriving DecidableEq

def maxDiagnostics : Nat := 32 * 1024

def newRing (capacity : Nat) : Ring := { data := List.replicate capacity 0 }

def newDiagnosticRing : Ring := newRing maxDiagnostics

def Ring.makeRoom (b : Ring) (needed : Nat) : Ring :=
  if 0 < needed then
    { b with
      start := (b.start + needed) % b.data.length
      length := b.length - needed
      dropped := b.dropped + .ofNat needed }
  else b

def Ring.append (b : Ring) (value : Bytes) : Option Ring := do
  let finish := (b.start + b.length) % b.data.length
  let first := min value.length (b.data.length - finish)
  let data ← copySlice b.data finish (finish + first) (← slice value 0 first)
  let data ← copySlice data 0 (value.length - first) (← slice value first value.length)
  some { b with data, length := b.length + value.length }

def Ring.write (b : Ring) (value : Bytes) : Option (Nat × Ring) :=
  if b.data.length ≤ value.length then do
    let last ← slice value (value.length - b.data.length) value.length
    let data ← copySlice b.data 0 b.data.length last
    some (value.length, {
      data
      start := 0
      length := b.data.length
      dropped := b.dropped + .ofNat (b.length + value.length - b.data.length) })
  else do
    let b ← (b.makeRoom (b.length + value.length - b.data.length)).append value
    some (value.length, b)

def Ring.snapshot (b : Ring) : Option Bytes := do
  let first := min b.length (b.data.length - b.start)
  let head ← slice b.data b.start (b.start + first)
  let tail ← slice b.data 0 (b.length - first)
  some (head ++ tail)

def Ring.status (b : Ring) : Nat × Bool := (b.length, 0 < b.dropped)

def Ring.writeAll (b : Ring) : List Bytes → Option (List Nat × Ring)
  | [] => some ([], b)
  | value :: rest => do
    let (n, b) ← b.write value
    let (ns, b) ← b.writeAll rest
    some (n :: ns, b)

/-- The bytes a ring of this capacity keeps of what was written, oldest first. -/
def kept (capacity : Nat) (written : Bytes) : Bytes := written.drop (written.length - capacity)

/-- Seen from its start, the ring begins with its content. -/
structure Shows (c : Nat) (content : Bytes) (b : Ring) : Prop where
  capacity : b.data.length = c
  start : b.start < c
  length : b.length = content.length
  view : ∃ unused, b.data.rotate b.start = content ++ unused

variable {c first : Nat} {content written value data : Bytes} {b : Ring}

theorem length_kept : (kept c written).length = min written.length c := by
  rw [kept, List.length_drop]
  omega

theorem kept_append : kept c (written ++ value) = kept c (kept c written ++ value) := by
  rw [kept, kept, List.length_append, List.length_append, length_kept, kept,
    ← List.drop_append_of_le_length (by omega), List.drop_drop]
  congr 1
  omega

theorem copySlice_append {before old after new : Bytes} {low high : Nat}
    (h : old.length = new.length) (hlow : before.length = low)
    (hhigh : before.length + new.length = high) :
    copySlice (before ++ (old ++ after)) low high new = some (before ++ (new ++ after)) := by
  subst hlow hhigh
  have hafter : (before ++ (old ++ after)).drop (before.length + new.length) = after := by
    rw [← List.append_assoc, ← h, ← List.length_append, List.drop_left]
  rw [copySlice, if_pos ⟨Nat.le_add_right _ _, by simp [h]⟩, Nat.add_sub_cancel_left,
    List.take_length]
  simp only [List.take_left, hafter, List.append_assoc]

theorem shows_new (hc : 1 ≤ c) : Shows c [] (newRing c) where
  capacity := List.length_replicate
  start := hc
  length := rfl
  view := ⟨_, rfl⟩

theorem Shows.fits (h : Shows c content b) : content.length ≤ c := by
  obtain ⟨unused, hview⟩ := h.view
  have hlength := congrArg List.length hview
  rw [List.length_rotate, h.capacity, List.length_append] at hlength
  omega

theorem makeRoom_shows {needed : Nat} (h : Shows c content b) (hn : needed ≤ content.length) :
    Shows c (content.drop needed) (b.makeRoom needed) ∧
      (b.makeRoom needed).dropped = b.dropped + .ofNat needed := by
  rw [Ring.makeRoom]
  split
  next hpos =>
    refine ⟨⟨h.capacity, ?_, by rw [List.length_drop, h.length], ?_⟩, rfl⟩
    · rw [h.capacity]
      exact Nat.mod_lt _ (Nat.zero_lt_of_lt h.start)
    · obtain ⟨unused, hview⟩ := h.view
      obtain ⟨front, back, rfl, rfl⟩ := exists_append hn
      rw [List.rotate_mod, ← List.rotate_rotate, hview, List.append_assoc,
        List.rotate_append_length_eq, List.drop_left, List.append_assoc]
      exact ⟨_, rfl⟩
  next hzero =>
    obtain rfl : needed = 0 := by omega
    exact ⟨h, (UInt64.add_zero _).symm⟩

/-- Two copies around the end of a buffer, seen from where they begin. -/
theorem copy_around {finish : Nat} (hf : finish ≤ data.length) (hv : value.length ≤ data.length)
    (hfirst : first = min value.length (data.length - finish)) :
    ∃ around copied,
      (slice value 0 first >>= copySlice data finish (finish + first)) = some around ∧
      (slice value first value.length >>= copySlice around 0 (value.length - first)) =
        some copied ∧
      copied.length = data.length ∧
      copied.rotate finish = value ++ (data.rotate finish).drop value.length := by
  obtain ⟨front, back, rfl, rfl⟩ := exists_append hf
  obtain ⟨x, y, rfl, rfl⟩ : ∃ x y, value = x ++ y ∧ x.length = first := exists_append (by omega)
  have hx : slice (x ++ y) 0 x.length = some x := @slice_append [] x y _ _ rfl (Nat.zero_add _)
  have hy : slice (x ++ y) x.length (x ++ y).length = some y := by
    have hlast := @slice_append x y [] _ _ rfl rfl
    rwa [List.append_nil, ← List.length_append] at hlast
  rw [List.length_append, List.length_append] at hfirst hv
  rw [hx, hy, List.rotate_append_length_eq]
  simp only [Option.bind_eq_bind, Option.bind_some]
  by_cases hfits : y = []
  · -- the second copy has nothing left to do
    subst hfits
    obtain ⟨old, after, rfl, hold⟩ := @exists_append back x.length (by simp at hfirst; omega)
    refine ⟨_, _, copySlice_append hold rfl rfl, @copySlice_append [] [] _ [] _ _ rfl rfl (by simp),
      by simp [hold], ?_⟩
    simp [List.rotate_append_length_eq, ← hold]
  · have hpos := List.length_pos_iff.mpr hfits
    have hback : back.length = x.length := by omega
    obtain ⟨old, after, rfl, hold⟩ := @exists_append front y.length (by omega)
    have hlast := @copySlice_append (old ++ after) back [] x _ _ hback rfl rfl
    have hfront := @copySlice_append [] old (after ++ x) y 0 ((x ++ y).length - x.length) hold rfl
      (by simp)
    rw [List.append_nil, List.append_nil] at hlast
    rw [List.nil_append, List.nil_append, ← List.append_assoc] at hfront
    refine ⟨_, _, hlast, hfront, by simp [hold, hback], ?_⟩
    have hover : (back ++ (old ++ after)).drop (x ++ y).length = after := by
      rw [← List.append_assoc, List.length_append, ← hback, ← hold, ← List.length_append,
        List.drop_left]
    rw [hover, ← List.append_assoc, List.length_append, hold, ← List.length_append,
      List.rotate_append_length_eq, List.append_assoc]

theorem append_shows (h : Shows c content b) (hv : content.length + value.length ≤ c) :
    ∃ b', b.append value = some b' ∧ Shows c (content ++ value) b' ∧ b'.dropped = b.dropped := by
  obtain rfl := h.capacity
  obtain ⟨unused, hview⟩ := h.view
  have hroom : content.length + unused.length = b.data.length := by
    rw [← List.length_rotate b.data b.start, hview, List.length_append]
  obtain ⟨around, copied, hlast, hfront, hlength, hcopied⟩ := @copy_around _ value b.data
    ((b.start + b.length) % b.data.length) (Nat.mod_lt _ (Nat.zero_lt_of_lt h.start)).le (by omega)
    rfl
  refine ⟨{ b with data := copied, length := b.length + value.length }, ?_, ⟨hlength, h.start,
    by rw [List.length_append, h.length], unused.drop value.length, ?_⟩, rfl⟩
  · simp only [Option.bind_eq_bind] at hlast hfront
    simp only [Ring.append, Option.bind_eq_bind]
    rw [← Option.bind_assoc, hlast, Option.bind_some, ← Option.bind_assoc, hfront, Option.bind_some]
  · -- rotating both sides on over the content shows them equal
    apply List.rotate_injective content.length
    rw [← hlength, List.rotate_mod, hlength, List.rotate_mod, h.length, ← List.rotate_rotate,
      ← List.rotate_rotate, hview, List.rotate_append_length_eq,
      List.drop_append_of_le_length (by omega), ← List.append_assoc] at hcopied
    dsimp only
    rw [hcopied, List.append_assoc content, List.rotate_append_length_eq, List.append_assoc]

/-- What one write does to the content. -/
theorem write_shows (h : Shows c content b) :
    ∃ b', b.write value = some (value.length, b') ∧ Shows c (kept c (content ++ value)) b' ∧
      b'.dropped = b.dropped + .ofNat (content.length + value.length - c) := by
  obtain rfl := h.capacity
  have hfits := h.fits
  rw [Ring.write, h.length]
  split
  next hwhole =>
    -- the value alone fills the ring
    obtain ⟨front, last, rfl, hfront⟩ := exists_append (Nat.sub_le value.length b.data.length)
    rw [List.length_append] at hwhole hfront ⊢
    have hlast : b.data.length = last.length := by omega
    have hslice := @slice_append front last [] _ _ hfront rfl
    have hcopy := @copySlice_append [] b.data [] last 0 b.data.length hlast rfl (by simp [hlast])
    have hkept : kept b.data.length (content ++ (front ++ last)) = last := by
      rw [kept, ← List.append_assoc, List.length_append, hlast, Nat.add_sub_cancel, List.drop_left]
    rw [List.append_nil] at hslice
    rw [List.nil_append, List.nil_append, List.append_nil, List.append_nil] at hcopy
    rw [hkept, hslice]
    simp only [Option.bind_eq_bind, Option.bind_some, hcopy]
    exact ⟨_, rfl, ⟨hlast.symm, Nat.zero_lt_of_lt h.start, hlast, [], by simp⟩, rfl⟩
  next hpart =>
    obtain ⟨hroom, hdropped⟩ := makeRoom_shows h
      (show content.length + value.length - b.data.length ≤ content.length by omega)
    obtain ⟨b', happend, hshows, hsame⟩ := @append_shows _ _ value _ hroom (by
      rw [List.length_drop]
      omega)
    refine ⟨b', by rw [happend]; rfl, ?_, hsame.trans hdropped⟩
    rwa [kept, List.length_append, List.drop_append_of_le_length (by omega)]

/-- A snapshot is the content, oldest byte first. -/
theorem snapshot_shows (h : Shows c content b) : b.snapshot = some content := by
  obtain ⟨unused, hview⟩ := h.view
  obtain ⟨front, back, hdata, hfront⟩ := exists_append (h.capacity ▸ h.start.le)
  rw [hdata, ← hfront, List.rotate_append_length_eq] at hview
  rw [Ring.snapshot, h.length, hdata, ← hfront, List.length_append, Nat.add_sub_cancel_left]
  obtain ⟨x, y, rfl, hx⟩ := exists_append (Nat.min_le_left content.length back.length)
  obtain ⟨x', more, rfl, hx'⟩ := @exists_append back x.length (hx ▸ Nat.min_le_right _ _)
  rw [List.append_assoc, List.append_assoc] at hview
  obtain ⟨rfl, hrest⟩ := List.append_inj hview hx'
  obtain ⟨tail, rfl⟩ : ∃ tail, front = y ++ tail := by
    by_cases hy : y = []
    · exact ⟨front, by rw [hy, List.nil_append]⟩
    · -- the content goes on from the beginning of the buffer
      have hpos := List.length_pos_iff.mpr hy
      rw [List.length_append, List.length_append] at hx
      rw [List.eq_nil_of_length_eq_zero (show more.length = 0 by omega), List.nil_append] at hrest
      exact ⟨unused, hrest⟩
  have hhead := @slice_append (y ++ tail) x' more _ _ rfl rfl
  have htail := @slice_append [] y (tail ++ (x' ++ more)) 0 ((x' ++ y).length - x'.length) rfl
    (by simp)
  rw [List.nil_append, ← List.append_assoc] at htail
  rw [← hx, hhead, htail]
  rfl

theorem writeAll_shows (writes : List Bytes) (h : Shows c (kept c written) b)
    (hdropped : b.dropped = .ofNat (written.length - c)) :
    ∃ b', b.writeAll writes = some (writes.map List.length, b') ∧
      Shows c (kept c (written ++ writes.flatten)) b' ∧
      b'.dropped = .ofNat ((written ++ writes.flatten).length - c) := by
  induction writes generalizing written b with
  | nil =>
    rw [List.flatten_nil, List.append_nil]
    exact ⟨b, rfl, h, hdropped⟩
  | cons value rest ih =>
    obtain ⟨mid, hwrite, hshows, hmore⟩ := @write_shows _ _ value _ h
    rw [← kept_append] at hshows
    obtain ⟨b', hrest, hfinal, htotal⟩ := ih hshows (by
      rw [hmore, hdropped, ← UInt64.ofNat_add, length_kept, List.length_append]
      congr 1
      omega)
    rw [List.flatten_cons, ← List.append_assoc]
    refine ⟨b', ?_, hfinal, htotal⟩
    simp [Ring.writeAll, hwrite, hrest]

theorem newRing_shows (hc : 1 ≤ c) (writes : List Bytes) :
    ∃ b, (newRing c).writeAll writes = some (writes.map List.length, b) ∧
      Shows c (kept c writes.flatten) b ∧ b.dropped = .ofNat (writes.flatten.length - c) := by
  have hnew : Shows c (kept c []) (newRing c) := by
    rw [kept, List.drop_nil]
    exact shows_new hc
  exact writeAll_shows writes hnew (by simp [newRing])

/-- A ring of the service ends with the last 32 KiB of what an owned process printed. -/
theorem newDiagnosticRing_keeps (writes : List Bytes) :
    ∃ b, newDiagnosticRing.writeAll writes = some (writes.map List.length, b) ∧
      b.snapshot = some (kept maxDiagnostics writes.flatten) := by
  obtain ⟨b, hrun, hshows, -⟩ := newRing_shows (show 1 ≤ maxDiagnostics by decide) writes
  exact ⟨b, hrun, snapshot_shows hshows⟩

/-- However it was written to, a ring keeps the last bytes. -/
theorem ring_keeps_last (c : Nat) (hc : 1 ≤ c) (writes : List Bytes) :
    ∃ b, (newRing c).writeAll writes = some (writes.map List.length, b) ∧
      b.snapshot = some (kept c writes.flatten) ∧
      (writes.flatten.length < 2 ^ 64 →
        b.dropped.toNat = writes.flatten.length - (kept c writes.flatten).length ∧
        b.status = ((kept c writes.flatten).length, decide (c < writes.flatten.length))) := by
  obtain ⟨b, hrun, hshows, hdropped⟩ := newRing_shows hc writes
  refine ⟨b, hrun, snapshot_shows hshows, fun hsmall => ?_⟩
  have hcount : b.dropped.toNat = writes.flatten.length - c := by
    rw [hdropped, UInt64.toNat_ofNat_of_lt' ((Nat.sub_le _ _).trans_lt hsmall)]
  constructor
  · rw [hcount, length_kept]
    omega
  · rw [Ring.status, hshows.length]
    congr 2
    rw [UInt64.lt_iff_toNat_lt, hcount, UInt64.toNat_zero, Nat.sub_pos_iff_lt]

/-- Three writes into four bytes: kept beside each other, around the end, and half overwritten. -/
theorem sample_ring_keeps_last :
    ∃ b, (newRing 4).writeAll [ascii "ab", ascii "cde", ascii "fg"] = some ([2, 3, 2], b) ∧
      b.snapshot = some (ascii "defg") ∧ b.dropped.toNat = 3 ∧ b.status = (4, true) := by
  obtain ⟨b, hrun, hsnapshot, hdropped⟩ :=
    ring_keeps_last 4 (by decide) [ascii "ab", ascii "cde", ascii "fg"]
  exact ⟨b, hrun, hsnapshot, hdropped (by decide)⟩

end DiagnosticRing
