import PhantoWD.GoText
import Mathlib.Data.List.Infix
import Mathlib.Data.List.Count

/-!
A capture of the serial line is cut into the three frame lengths of the stock receive parser.
What the decoder emits and counts is described from the bytes of the stream alone.
-/
namespace McuFraming

open GoText

def frameStart : UInt8 := 0xfa
def frameEnd : UInt8 := 0xfb
def maxFrame : Nat := 15

def validLengths : List Nat := [7, 13, 15]

structure Selector where
  name : String
  template : Vector UInt8 4
  deriving DecidableEq

def receiveSelectors : List Selector := [
  ⟨"RSec", #v[0x01, 0x00, 0x01, 0x01]⟩, ⟨"RMin", #v[0x01, 0x01, 0x01, 0x01]⟩,
  ⟨"RHour", #v[0x01, 0x02, 0x01, 0x01]⟩, ⟨"RDOW", #v[0x01, 0x03, 0x01, 0x01]⟩,
  ⟨"RDOM", #v[0x01, 0x04, 0x01, 0x01]⟩, ⟨"RMon", #v[0x01, 0x05, 0x01, 0x01]⟩,
  ⟨"RYear", #v[0x01, 0x06, 0x01, 0x01]⟩, ⟨"RAiSecond", #v[0x01, 0x07, 0x01, 0x01]⟩,
  ⟨"RAiMinute", #v[0x01, 0x08, 0x01, 0x01]⟩, ⟨"RAiHour", #v[0x01, 0x09, 0x01, 0x01]⟩,
  ⟨"RAiDateDay", #v[0x01, 0x0a, 0x01, 0x01]⟩, ⟨"RAi2Minute", #v[0x01, 0x0b, 0x01, 0x01]⟩,
  ⟨"RAi2Hour", #v[0x01, 0x0c, 0x01, 0x01]⟩, ⟨"RAi2DateDay", #v[0x01, 0x0d, 0x01, 0x01]⟩,
  ⟨"RRtcControl", #v[0x01, 0x0e, 0x01, 0x01]⟩, ⟨"RRtcStatus", #v[0x01, 0x0f, 0x01, 0x01]⟩,
  ⟨"RDateAndTime", #v[0x01, 0x00, 0x03, 0x07]⟩, ⟨"RMDateAndTime", #v[0x01, 0x00, 0x05, 0x07]⟩,
  ⟨"MCUVer", #v[0x03, 0x05, 0x00, 0x01]⟩, ⟨"RTCAlarm", #v[0x20, 0x00, 0x00, 0x00]⟩,
  ⟨"ACK", #v[0x30, 0x00, 0x00, 0x00]⟩, ⟨"PWR", #v[0x21, 0x00, 0x00, 0x00]⟩,
  ⟨"RST", #v[0x22, 0x00, 0x00, 0x00]⟩, ⟨"RST2", #v[0x52, 0x00, 0x00, 0x00]⟩,
  ⟨"PWRPush", #v[0x23, 0x00, 0x00, 0x00]⟩, ⟨"RSTPush", #v[0x24, 0x00, 0x00, 0x00]⟩,
  ⟨"FUNCPush", #v[0x25, 0x00, 0x00, 0x00]⟩, ⟨"FUNC2Push", #v[0x27, 0x00, 0x00, 0x00]⟩,
  ⟨"PWRRelease", #v[0x2a, 0x00, 0x00, 0x00]⟩, ⟨"RSTRelease", #v[0x2b, 0x00, 0x00, 0x00]⟩,
  ⟨"FUNCRelease", #v[0x2c, 0x00, 0x00, 0x00]⟩, ⟨"FUNC2Release", #v[0x2d, 0x00, 0x00, 0x00]⟩,
  ⟨"UsbBackupPush", #v[0x26, 0x00, 0x00, 0x00]⟩, ⟨"GetThemister", #v[0x03, 0x08, 0x00, 0x00]⟩,
  ⟨"PWR_LOST", #v[0x40, 0x00, 0x00, 0x01]⟩, ⟨"APR_STAT", #v[0x41, 0x00, 0x00, 0x01]⟩,
  ⟨"WOL_STAT", #v[0x42, 0x00, 0x00, 0x01]⟩, ⟨"PWR2", #v[0x57, 0x00, 0x00, 0x00]⟩]

structure DecodedFrame where
  rawHex : Bytes
  length : Nat
  dispatchKey : Vector UInt8 3
  names : List String
  templateFourth : List UInt8
  known : Bool
  checksumStatus : String
  deriving DecidableEq

inductive DecodeError where
  | unsupportedLength (length : Nat)
  | invalidBoundary
  | interrupted
  deriving DecidableEq

def byteAt (frame : Bytes) (i : Nat) : UInt8 := frame.getD i 0

def matchesReceiveHandler (selector : Selector) (frame : Bytes) : Bool :=
  let template := selector.template
  if frame.length = 13 then false
  else if (frame.length == 15) != (selector.name == "MCUVer") then false
  else match selector.name with
  | "GetThemister" =>
    template[0] == byteAt frame 1 && template[1] == byteAt frame 2 &&
      (byteAt frame 3 == 1 || byteAt frame 3 == 2)
  | "PWR_LOST" | "APR_STAT" | "WOL_STAT" => template[0] == byteAt frame 1
  | _ =>
    template[0] == byteAt frame 1 && template[1] == byteAt frame 2 &&
      template[2] == byteAt frame 3

/-- The decoded fields so far stand beside an error. -/
def decodeReceive (frame : Bytes) : DecodedFrame × Option DecodeError :=
  let decoded : DecodedFrame :=
    ⟨[], frame.length, #v[0, 0, 0], [], [], false, "unknown-not-validated"⟩
  if frame.length ∉ validLengths then (decoded, some (.unsupportedLength frame.length))
  else
    let decoded := { decoded with rawHex := hexEncode frame }
    if frame.head? ≠ some frameStart ∨ frame.getLast? ≠ some frameEnd then
      (decoded, some .invalidBoundary)
    else if frameStart ∈ frame.tail.dropLast then (decoded, some .interrupted)
    else
      let selected := receiveSelectors.filter (matchesReceiveHandler · frame)
      ({ decoded with
          dispatchKey := #v[byteAt frame 1, byteAt frame 2, byteAt frame 3]
          names := selected.map Selector.name
          templateFourth := selected.map (·.template[3])
          known := selected.length != 0 }, none)

structure StreamStats where
  bytes : UInt64 := 0
  noiseBytes : UInt64 := 0
  frames : UInt64 := 0
  malformed : UInt64 := 0
  truncated : UInt64 := 0
  known : UInt64 := 0
  unknown : UInt64 := 0
  deriving DecidableEq

structure StreamDecoder where
  buffer : Bytes := []
  stats : StreamStats := {}
  deriving DecidableEq

def StreamStats.countFrame (stats : StreamStats) (frame : DecodedFrame) : StreamStats :=
  if frame.known then { stats with frames := stats.frames + 1, known := stats.known + 1 }
  else { stats with frames := stats.frames + 1, unknown := stats.unknown + 1 }

def StreamDecoder.complete (decoder : StreamDecoder) (buffer : Bytes) :
    StreamDecoder × List DecodedFrame :=
  match decodeReceive buffer with
  | (frame, none) => ({ buffer := [], stats := decoder.stats.countFrame frame }, [frame])
  | (_, some _) => ({ decoder with buffer := [] }, [])

def StreamDecoder.pushByte (decoder : StreamDecoder) (value : UInt8) :
    StreamDecoder × List DecodedFrame :=
  let stats := decoder.stats
  if value = frameStart then
    if decoder.buffer ≠ [] then
      ({ buffer := [value], stats := { stats with malformed := stats.malformed + 1 } }, [])
    else ({ decoder with buffer := [value] }, [])
  else if decoder.buffer = [] then
    ({ decoder with stats := { stats with noiseBytes := stats.noiseBytes + 1 } }, [])
  else
    let buffer := decoder.buffer ++ [value]
    if buffer.length ∈ validLengths ∧ value = frameEnd then decoder.complete buffer
    else if maxFrame ≤ buffer.length then
      ({ buffer := [], stats := { stats with malformed := stats.malformed + 1 } }, [])
    else ({ decoder with buffer := buffer }, [])

def StreamDecoder.pushLoop : StreamDecoder → Bytes → StreamDecoder × List DecodedFrame
  | decoder, [] => (decoder, [])
  | decoder, value :: data =>
    let (next, frames) := decoder.pushByte value
    let (last, more) := next.pushLoop data
    (last, frames ++ more)

def StreamDecoder.push (decoder : StreamDecoder) (data : Bytes) :
    StreamDecoder × List DecodedFrame :=
  let stats := decoder.stats
  let counted := { stats with bytes := stats.bytes + UInt64.ofNat data.length }
  { decoder with stats := counted }.pushLoop data

def StreamDecoder.finalize (decoder : StreamDecoder) : StreamDecoder :=
  let stats := decoder.stats
  if decoder.buffer ≠ [] then
    { buffer := [], stats := { stats with truncated := stats.truncated + 1 } }
  else decoder

def StreamDecoder.pushAll : StreamDecoder → List Bytes → StreamDecoder × List DecodedFrame
  | decoder, [] => (decoder, [])
  | decoder, data :: chunks =>
    let (next, frames) := decoder.push data
    let (last, more) := next.pushAll chunks
    (last, frames ++ more)

def capture (chunks : List Bytes) : StreamStats × List DecodedFrame :=
  let (decoder, frames) := StreamDecoder.pushAll {} chunks
  (decoder.finalize.stats, frames)

def Started (u : Bytes) : Prop := u.head? = some frameStart ∧ frameStart ∉ u.tail

/-- No legal length so far has an end marker in its last place. -/
def Unended (u : Bytes) : Prop :=
  ∀ n ∈ validLengths, n ≤ u.length → u[n - 1]? ≠ some frameEnd

/-- A frame: it ends at the first end marker in the last place of a legal length. -/
def Segment (u : Bytes) : Prop :=
  Started u ∧ u.length ∈ validLengths ∧ u.getLast? = some frameEnd ∧ Unended u.dropLast

def Open (u : Bytes) : Prop := Started u ∧ u.length < maxFrame ∧ Unended u

instance : DecidablePred Started := fun _ => inferInstanceAs (Decidable (_ ∧ _))
instance : DecidablePred Unended := fun _ => inferInstanceAs (Decidable (∀ n ∈ _, _))
instance : DecidablePred Segment := fun _ => inferInstanceAs (Decidable (_ ∧ _))
instance : DecidablePred Open := fun _ => inferInstanceAs (Decidable (_ ∧ _))

def segments (stream : Bytes) : List Bytes :=
  stream.inits.flatMap fun p => p.tails.filter fun u => Segment u

/-- The byte at `k` neither starts a segment nor stands in one that was open before it. -/
def Outside (stream : Bytes) (k : Nat) : Prop :=
  stream[k]? ≠ some frameStart ∧ ∀ u ∈ (stream.take k).tails, ¬ Open u

instance (stream : Bytes) : DecidablePred (Outside stream) :=
  fun _ => inferInstanceAs (Decidable (_ ∧ _))

def noise (stream : Bytes) : Nat := (List.range stream.length).countP fun k => Outside stream k

def lastStart : Bytes → Bytes
  | [] => []
  | b :: p =>
    if frameStart ∈ p then lastStart p else if b = frameStart then b :: p else []

variable {p : Bytes}

theorem lastStart_nil_of_not_mem (h : frameStart ∉ p) : lastStart p = [] := by
  cases p with
  | nil => rfl
  | cons b p =>
    have hp : frameStart ∉ p := fun hm => h (List.mem_cons_of_mem b hm)
    have hb : b ≠ frameStart := fun hb => h (hb ▸ List.mem_cons_self)
    rw [lastStart, if_neg hp, if_neg hb]

theorem lastStart_marker (p : Bytes) : lastStart (p ++ [frameStart]) = [frameStart] := by
  induction p with
  | nil => rfl
  | cons b p ih => rw [List.cons_append, lastStart, if_pos (by simp), ih]

variable {b : UInt8}

theorem lastStart_append (hb : b ≠ frameStart) (h : frameStart ∈ p) :
    lastStart (p ++ [b]) = lastStart p ++ [b] := by
  have hmem (q : Bytes) : frameStart ∈ q ++ [b] ↔ frameStart ∈ q := by
    simp [Ne.symm hb]
  induction p with
  | nil => cases h
  | cons a p ih =>
    by_cases hp : frameStart ∈ p
    · rw [List.cons_append, lastStart, if_pos ((hmem p).mpr hp), ih hp, lastStart, if_pos hp]
    · have ha : a = frameStart := by
        rcases List.mem_cons.mp h with ha | hm
        · exact ha.symm
        · exact absurd hm hp
      rw [List.cons_append, lastStart, if_neg (fun hm => hp ((hmem p).mp hm)), if_pos ha,
        lastStart, if_neg hp, if_pos ha, List.cons_append]

/-- Only the stretch from the last start marker on can start at a marker and hold no other. -/
theorem filter_tails {Q : Bytes → Prop} [DecidablePred Q] (hQ : ∀ u, Q u → Started u)
    (p : Bytes) :
    (p.tails.filter fun u => Q u) = if Q (lastStart p) then [lastStart p] else [] := by
  have hnil : ¬ Q [] := by
    intro h
    cases (hQ [] h).1
  induction p with
  | nil => simp [lastStart, hnil]
  | cons b p ih =>
    rw [List.tails_cons]
    by_cases hp : frameStart ∈ p
    · have hno : ¬ Q (b :: p) := fun h => (hQ _ h).2 hp
      rw [List.filter_cons_of_neg (by simpa using hno), ih, lastStart, if_pos hp]
    · have hrest : (p.tails.filter fun u => Q u) = [] := by
        rw [ih, lastStart_nil_of_not_mem hp, if_neg hnil]
      rw [lastStart, if_neg hp]
      by_cases hb : b = frameStart
      · rw [if_pos hb, List.filter_cons, hrest]
        simp only [decide_eq_true_eq]
      · have hno : ¬ Q (b :: p) := fun h => hb (Option.some.inj (hQ _ h).1)
        rw [if_neg hb, if_neg hnil, List.filter_cons_of_neg (by simpa using hno), hrest]

theorem unended_append (u : Bytes) (b : UInt8) :
    Unended (u ++ [b]) ↔ Unended u ∧ ¬ (u.length + 1 ∈ validLengths ∧ b = frameEnd) := by
  have hlast : (u ++ [b])[u.length + 1 - 1]? = some b := by simp
  have hpos : ∀ n ∈ validLengths, 0 < n := by decide
  constructor
  · intro h
    constructor
    · intro n hn hle
      have hlt : n - 1 < u.length := by have := hpos n hn; omega
      have := h n hn (by rw [List.length_append]; omega)
      rwa [List.getElem?_append_left hlt] at this
    · rintro ⟨hn, rfl⟩
      exact h _ hn (by simp) hlast
  · rintro ⟨hu, hno⟩ n hn hle
    rw [List.length_append, List.length_singleton] at hle
    rcases Nat.lt_or_eq_of_le hle with hlt | rfl
    · have hlt' : n - 1 < u.length := by have := hpos n hn; omega
      rw [List.getElem?_append_left hlt']
      exact hu n hn (by omega)
    · rw [hlast]
      exact fun he => hno ⟨hn, Option.some.inj he⟩

variable {u : Bytes}

theorem started_append (h : Started u) (hb : b ≠ frameStart) :
    Started (u ++ [b]) := by
  obtain ⟨v, rfl⟩ := List.head?_eq_some_iff.mp h.1
  have hv : frameStart ∉ v := h.2
  exact ⟨rfl, by simp [hv, Ne.symm hb]⟩

theorem segment_append (h : Started u) (hb : b ≠ frameStart) :
    Segment (u ++ [b]) ↔ u.length + 1 ∈ validLengths ∧ b = frameEnd ∧ Unended u := by
  simp [Segment, started_append h hb]

theorem open_append (h : Started u) (hb : b ≠ frameStart) :
    Open (u ++ [b]) ↔ u.length + 1 < maxFrame ∧ Unended u ∧
      ¬ (u.length + 1 ∈ validLengths ∧ b = frameEnd) := by
  simp only [Open, started_append h hb, true_and, unended_append, List.length_append,
    List.length_singleton]

def pending (p : Bytes) : Bytes := if Open (lastStart p) then lastStart p else []

def completed (p : Bytes) : List Bytes := if Segment (lastStart p) then [lastStart p] else []

theorem pending_of_open (h : pending p ≠ []) :
    pending p = lastStart p ∧ Open (lastStart p) ∧ frameStart ∈ p := by
  unfold pending at *
  by_cases ho : Open (lastStart p)
  · refine ⟨if_pos ho, ho, ?_⟩
    by_contra hp
    rw [lastStart_nil_of_not_mem hp] at ho
    cases ho.1.1
  · exact absurd (if_neg ho) h

theorem pending_eq_nil : pending p = [] ↔ ¬ Open (lastStart p) := by
  unfold pending
  by_cases ho : Open (lastStart p)
  · simp only [ho, if_true, not_true_eq_false, iff_false]
    intro hn
    rw [hn] at ho
    cases ho.1.1
  · simp [ho]

theorem pending_marker (p : Bytes) :
    pending (p ++ [frameStart]) = [frameStart] ∧ completed (p ++ [frameStart]) = [] := by
  unfold pending completed
  rw [lastStart_marker]
  exact ⟨if_pos (by decide), if_neg (by decide)⟩

theorem segments_append (p : Bytes) (b : UInt8) :
    segments (p ++ [b]) = segments p ++ completed (p ++ [b]) := by
  have hinits : (p ++ [b]).inits = p.inits ++ [p ++ [b]] := by
    simp [List.inits_append]
  have hcompleted : ((p ++ [b]).tails.filter fun u => Segment u) = completed (p ++ [b]) :=
    filter_tails (fun _ h => h.1) _
  rw [segments, hinits, List.flatMap_append, ← segments, List.flatMap_singleton, hcompleted]

theorem outside_last (p : Bytes) (b : UInt8) :
    Outside (p ++ [b]) p.length ↔ b ≠ frameStart ∧ pending p = [] := by
  have hfilter : (p.tails.filter fun u => Open u) = [] ↔ pending p = [] := by
    rw [filter_tails fun _ h => h.1, pending_eq_nil]
    by_cases ho : Open (lastStart p) <;> simp [ho]
  have htails : (∀ u ∈ p.tails, ¬ Open u) ↔ pending p = [] := by
    rw [← hfilter, List.filter_eq_nil_iff]
    simp only [decide_eq_true_eq]
  unfold Outside
  rw [List.take_left, htails]
  simp

theorem noise_append (p : Bytes) (b : UInt8) :
    noise (p ++ [b]) = noise p + if b ≠ frameStart ∧ pending p = [] then 1 else 0 := by
  have hearlier : ∀ k ∈ List.range p.length, Outside (p ++ [b]) k ↔ Outside p k := by
    intro k hk
    have hk : k < p.length := List.mem_range.mp hk
    unfold Outside
    rw [List.getElem?_append_left hk, List.take_append_of_le_length (Nat.le_of_lt hk)]
  unfold noise
  rw [List.length_append, List.length_singleton, List.range_succ, List.countP_append,
    List.countP_singleton]
  congr 1
  · apply List.countP_congr
    intro k hk
    simp [hearlier k hk]
  · simp only [decide_eq_true_eq, outside_last]

theorem Segment.decodes (h : Segment u) : (decodeReceive u).2 = none := by
  obtain ⟨⟨hhead, htail⟩, hlen, hlast, _⟩ := h
  have hinner : frameStart ∉ u.tail.dropLast := fun hm => htail (List.dropLast_subset _ hm)
  simp [decodeReceive, hlen, hhead, hlast, hinner]

def knownFrame (u : Bytes) : Bool := (decodeReceive u).1.known

def Counted (frames : List Bytes) (stats : StreamStats) : Prop :=
  stats.frames = UInt64.ofNat frames.length ∧
    stats.known = UInt64.ofNat (frames.countP knownFrame) ∧
    stats.unknown = UInt64.ofNat (frames.countP (!knownFrame ·))

/-- The state after the bytes `p`, described from them alone. -/
structure Accounts (p : Bytes) (d : StreamDecoder) : Prop where
  buffer : d.buffer = pending p
  outside : d.stats.noiseBytes = UInt64.ofNat (noise p)
  frames : Counted (segments p) d.stats
  malformed : ∃ m, d.stats.malformed = UInt64.ofNat m ∧
    p.count frameStart = (segments p).length + m + if pending p = [] then 0 else 1
  truncated : d.stats.truncated = 0

theorem ofNat_succ (n : Nat) : UInt64.ofNat n + 1 = UInt64.ofNat (n + 1) := by
  rw [UInt64.ofNat_add]
  rfl

theorem Counted.countFrame {frames : List Bytes} {stats : StreamStats} (h : Counted frames stats)
    (u : Bytes) : Counted (frames ++ [u]) (stats.countFrame (decodeReceive u).1) := by
  obtain ⟨hframes, hknown, hunknown⟩ := h
  unfold Counted StreamStats.countFrame
  cases hk : (decodeReceive u).1.known with
  | true | false => simp [knownFrame, hk, hframes, hknown, hunknown]

theorem countFrame_others (stats : StreamStats) (frame : DecodedFrame) :
    (stats.countFrame frame).bytes = stats.bytes ∧
      (stats.countFrame frame).noiseBytes = stats.noiseBytes ∧
      (stats.countFrame frame).malformed = stats.malformed ∧
      (stats.countFrame frame).truncated = stats.truncated := by
  unfold StreamStats.countFrame
  split_ifs <;> exact ⟨rfl, rfl, rfl, rfl⟩

theorem complete_segment (h : Segment u) (d : StreamDecoder) :
    d.complete u = ({ buffer := [], stats := d.stats.countFrame (decodeReceive u).1 },
      [(decodeReceive u).1]) := by
  have hnone := h.decodes
  rcases hd : decodeReceive u with ⟨frame, failure⟩
  rw [hd] at hnone
  subst hnone
  simp only [StreamDecoder.complete, hd]

theorem count_append (p : Bytes) (hb : b ≠ frameStart) :
    (p ++ [b]).count frameStart = p.count frameStart := by
  simp [List.count_append, hb]

theorem segments_of_completed (h : completed (p ++ [b]) = []) :
    segments (p ++ [b]) = segments p := by
  rw [segments_append, h, List.append_nil]

variable {d : StreamDecoder}

theorem Accounts.marker (h : Accounts p d) :
    Accounts (p ++ [frameStart]) (d.pushByte frameStart).1 ∧ (d.pushByte frameStart).2 = [] := by
  obtain ⟨hpending, hcompleted⟩ := pending_marker p
  have hsegments := segments_of_completed hcompleted
  have hnoise : noise (p ++ [frameStart]) = noise p := by
    simp [noise_append]
  have hcount : (p ++ [frameStart]).count frameStart = p.count frameStart + 1 := by
    simp [List.count_append]
  obtain ⟨m, hm, hsum⟩ := h.malformed
  have hframes : Counted (segments (p ++ [frameStart])) d.stats := by
    rw [hsegments]
    exact h.frames
  have hquiet : d.stats.noiseBytes = UInt64.ofNat (noise (p ++ [frameStart])) := by
    rw [hnoise, h.outside]
  by_cases hp : pending p = []
  · have hpush : d.pushByte frameStart = ({ d with buffer := [frameStart] }, []) := by
      simp [StreamDecoder.pushByte, h.buffer, hp]
    rw [hpush]
    refine ⟨⟨hpending.symm, hquiet, hframes, ⟨m, hm, ?_⟩, h.truncated⟩, rfl⟩
    rw [hcount, hsegments, hpending, hsum, if_pos hp, if_neg (List.cons_ne_nil _ _)]
  · -- the marker cuts the open segment short
    have hpush : (d.pushByte frameStart).1.buffer = [frameStart] ∧
        (d.pushByte frameStart).1.stats = { d.stats with malformed := d.stats.malformed + 1 } ∧
        (d.pushByte frameStart).2 = [] := by
      simp [StreamDecoder.pushByte, h.buffer, hp]
    obtain ⟨hbuffer, hstats, hnone⟩ := hpush
    refine ⟨⟨hbuffer.trans hpending.symm, ?_, ?_, ⟨m + 1, ?_, ?_⟩, ?_⟩, hnone⟩
    · rw [hstats]
      exact hquiet
    · rw [hstats]
      exact hframes
    · rw [hstats]
      simp only [hm, ofNat_succ]
    · rw [hcount, hsegments, hpending, hsum, if_neg hp, if_neg (List.cons_ne_nil _ _)]
      omega
    · rw [hstats]
      exact h.truncated

theorem pushByte_inside (hb : b ≠ frameStart) (hd : d.buffer ≠ []) :
    d.pushByte b =
      if d.buffer.length + 1 ∈ validLengths ∧ b = frameEnd then d.complete (d.buffer ++ [b])
      else if maxFrame ≤ d.buffer.length + 1 then
        ({ buffer := [], stats := { d.stats with malformed := d.stats.malformed + 1 } }, [])
      else ({ d with buffer := d.buffer ++ [b] }, []) := by
  simp [StreamDecoder.pushByte, hb, hd]

/-- A byte inside an open segment closes it as a frame, gives it up, or extends it. -/
theorem Accounts.extend (h : Accounts p d) (hb : b ≠ frameStart) (hp : pending p ≠ []) :
    Accounts (p ++ [b]) (d.pushByte b).1 ∧
      (d.pushByte b).2 = (completed (p ++ [b])).map fun u => (decodeReceive u).1 := by
  obtain ⟨heq, ⟨hstarted, hshort, hunended⟩, hmem⟩ := pending_of_open hp
  have hbuffer : d.buffer = lastStart p := h.buffer.trans heq
  have hnoise : d.stats.noiseBytes = UInt64.ofNat (noise (p ++ [b])) := by
    rw [noise_append, if_neg fun hc => hp hc.2, Nat.add_zero, h.outside]
  obtain ⟨m, hm, hsum⟩ := h.malformed
  rw [if_neg hp] at hsum
  have hsegment := segment_append hstarted hb
  have hopen := open_append hstarted hb
  rw [← lastStart_append hb hmem] at hsegment hopen
  rw [pushByte_inside hb (h.buffer ▸ hp), hbuffer, ← lastStart_append hb hmem]
  by_cases hend : (lastStart p).length + 1 ∈ validLengths ∧ b = frameEnd
  · have hs : Segment (lastStart (p ++ [b])) := hsegment.mpr ⟨hend.1, hend.2, hunended⟩
    have hcompleted : completed (p ++ [b]) = [lastStart (p ++ [b])] := if_pos hs
    have hpending : pending (p ++ [b]) = [] :=
      pending_eq_nil.mpr fun ho => (hopen.mp ho).2.2 hend
    have hlist : segments (p ++ [b]) = segments p ++ [lastStart (p ++ [b])] := by
      rw [segments_append, hcompleted]
    rw [if_pos hend, complete_segment hs, hcompleted]
    obtain ⟨_, hn, hmal, htrunc⟩ :=
      countFrame_others d.stats (decodeReceive (lastStart (p ++ [b]))).1
    refine ⟨⟨hpending.symm, hn.trans hnoise, ?_, ⟨m, hmal.trans hm, ?_⟩,
      htrunc.trans h.truncated⟩, rfl⟩
    · rw [hlist]
      exact h.frames.countFrame _
    · rw [count_append p hb, hsum, hlist, hpending, if_pos rfl, List.length_append,
        List.length_singleton]
      omega
  · have hno : ¬ Segment (lastStart (p ++ [b])) := fun hs =>
      hend ⟨(hsegment.mp hs).1, (hsegment.mp hs).2.1⟩
    have hcompleted : completed (p ++ [b]) = [] := if_neg hno
    have hlist := segments_of_completed hcompleted
    have hframes : Counted (segments (p ++ [b])) d.stats := by
      rw [hlist]
      exact h.frames
    rw [if_neg hend, hcompleted]
    by_cases hlong : maxFrame ≤ (lastStart p).length + 1
    · have hpending : pending (p ++ [b]) = [] :=
        pending_eq_nil.mpr fun ho => Nat.not_lt.mpr hlong (hopen.mp ho).1
      rw [if_pos hlong]
      refine ⟨⟨hpending.symm, hnoise, hframes, ⟨m + 1, ?_, ?_⟩, h.truncated⟩, rfl⟩
      · rw [← ofNat_succ, ← hm]
      · rw [count_append p hb, hsum, hlist, hpending, if_pos rfl]
        omega
    · have ho : Open (lastStart (p ++ [b])) :=
        hopen.mpr ⟨Nat.not_le.mp hlong, hunended, hend⟩
      have hpending : pending (p ++ [b]) = lastStart (p ++ [b]) := if_pos ho
      have hne : pending (p ++ [b]) ≠ [] := fun hn => pending_eq_nil.mp hn ho
      rw [if_neg hlong]
      refine ⟨⟨hpending.symm, hnoise, hframes, ⟨m, hm, ?_⟩, h.truncated⟩, rfl⟩
      rw [count_append p hb, hsum, hlist, if_neg hne]

theorem toNat_ofNat {n : Nat} {stream : Bytes} (hn : n ≤ stream.length)
    (h : stream.length < 2 ^ 64) : (UInt64.ofNat n).toNat = n :=
  UInt64.toNat_ofNat_of_lt' (Nat.lt_of_le_of_lt hn h)

theorem finalize_stats (d : StreamDecoder) (h : d.stats.truncated = 0) :
    d.finalize.stats =
      { d.stats with truncated := UInt64.ofNat (if d.buffer = [] then 0 else 1) } := by
  unfold StreamDecoder.finalize
  by_cases hd : d.buffer = []
  · simp [hd, ← h]
  · simp [hd, h]

/-- The final counters as natural numbers: every start marker opened a segment with one fate. -/
structure Totals (stream : Bytes) (stats : StreamStats) (malformed truncated : Nat) : Prop where
  starts : stream.count frameStart = (segments stream).length + malformed + truncated
  frames : Counted (segments stream) stats
  malformed : stats.malformed = UInt64.ofNat malformed
  truncated : stats.truncated = UInt64.ofNat truncated
  outside : stats.noiseBytes = UInt64.ofNat (noise stream)

theorem Accounts.finalize {stream : Bytes} (h : Accounts stream d) :
    ∃ malformed truncated, Totals stream d.finalize.stats malformed truncated := by
  obtain ⟨m, hm, hsum⟩ := h.malformed
  refine ⟨m, if pending stream = [] then 0 else 1, ?_⟩
  rw [finalize_stats d h.truncated, h.buffer]
  exact ⟨hsum, h.frames, hm, rfl, h.outside⟩

theorem length_eq_countP (frames : List Bytes) :
    frames.length = frames.countP knownFrame + frames.countP (!knownFrame ·) := by
  rw [List.length_eq_countP_add_countP knownFrame]
  congr 2
  funext u
  cases knownFrame u <;> rfl

theorem noise_le_length (stream : Bytes) : noise stream ≤ stream.length :=
  Nat.le_trans List.countP_le_length (Nat.le_of_eq List.length_range)

section Totals

variable {stream : Bytes} {stats : StreamStats} {malformed truncated : Nat}

theorem Totals.exact (h : Totals stream stats malformed truncated)
    (hshort : stream.length < 2 ^ 64) :
    stream.count frameStart =
        stats.frames.toNat + stats.malformed.toNat + stats.truncated.toNat ∧
      stats.frames.toNat = stats.known.toNat + stats.unknown.toNat ∧
      stats.noiseBytes.toNat = noise stream := by
  obtain ⟨hframes, hknown, hunknown⟩ := h.frames
  have hstarts := h.starts
  have hle : stream.count frameStart ≤ stream.length := List.count_le_length
  have hkinds := length_eq_countP (segments stream)
  rw [hframes, hknown, hunknown, h.malformed, h.truncated, h.outside,
    toNat_ofNat (noise_le_length stream) hshort, toNat_ofNat (by omega) hshort,
    toNat_ofNat (by omega) hshort, toNat_ofNat (by omega) hshort, toNat_ofNat (by omega) hshort,
    toNat_ofNat (by omega) hshort]
  exact ⟨hstarts, hkinds, rfl⟩

end Totals

end McuFraming
