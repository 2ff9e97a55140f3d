import PhantoWD.GptInspection
import PhantoWD.PartitionTable

/-!
The lab inspector and the metadata probe test a header and its array in different orders and
with differently arranged bounds. Each accepts a copy exactly when it is stored intact and its
geometry meets the reader's own conditions.
-/
namespace GptCopies

open GoText
open RawImage
open GptInspection
open PartitionTable (GptCopy readGptCopy guidText hexBytes result_rejectIf result_readExact
  result_field)

variable {w o : Nat} {data t s : Bytes} {primary : Bool} {size : Int64}

theorem window_window {a v : Nat} (h : o + v ≤ w) :
    window (window data a w) o v = window data (a + o) v := by
  simp only [window, List.drop_take, List.take_take, List.drop_drop]
  rw [Nat.min_eq_left (by omega)]

theorem wordAt_window {v : Nat} (h : o + v ≤ w) :
    wordAt (window data 0 w) o v = wordAt data o v := by
  rw [wordAt, wordAt, window_window h, Nat.zero_add]

theorem window_append (a w v : Nat) :
    window data a w ++ window data (a + w) v = window data a (w + v) := by
  simp only [window, ← List.drop_drop, List.take_add]

theorem window_all (h : data.length ≤ w) : window data 0 w = data := by
  simp [window, List.take_of_length_le h]

theorem ofBytes_injective (hlen : s.length = t.length) (h : ofBytes s = ofBytes t) : s = t := by
  induction s generalizing t with
  | nil => exact (List.length_eq_zero_iff.mp hlen.symm).symm
  | cons b rest ih =>
    cases t with
    | nil => simp at hlen
    | cons c rest' =>
      have hb := b.toNat_lt
      have hc := c.toNat_lt
      rw [ofBytes, ofBytes] at h
      have hbc : b = c := UInt8.toNat_inj.mp (by omega)
      rw [hbc, ih (by simpa using hlen) (by omega)]

theorem formatHex_byte {n : Nat} (h : n < 256) :
    formatHex 2 n = [hexChar (n / 16), hexChar (n % 16)] := by
  rcases Nat.eq_zero_or_pos n with rfl | hpos
  · rfl
  by_cases hsmall : n < 16
  · have hdigits : Nat.digits 16 n = [n] := Nat.digits_of_lt 16 n (by omega) hsmall
    have hdiv : n / 16 = 0 := Nat.div_eq_of_lt hsmall
    have hmod : n % 16 = n := Nat.mod_eq_of_lt hsmall
    simp only [formatHex, hdigits, hdiv, hmod]
    rfl
  · have hdigits : Nat.digits 16 n = [n % 16, n / 16] := by
      rw [Nat.digits_def' (by decide) hpos,
        Nat.digits_of_lt 16 (n / 16) (by omega) (by omega)]
    simp only [formatHex, hdigits]
    rfl

theorem hexEncode_eq (s : Bytes) : hexEncode s = hexBytes s := by
  unfold hexEncode hexBytes
  congr 1
  funext b
  exact (formatHex_byte b.toNat_lt).symm

/-- Both readers write a GUID in the same way. -/
theorem formatGUID_eq (guid : Bytes) : formatGUID guid = guidText guid := by
  simp only [formatGUID, guidText, hexEncode_eq]

theorem hexBytes_injective (h : hexBytes s = hexBytes t) : s = t := by
  induction s generalizing t with
  | nil =>
    cases t with
    | nil => rfl
    | cons c rest =>
      have := congrArg List.length h
      rw [PartitionTable.hexBytes_length, PartitionTable.hexBytes_length] at this
      simp at this
  | cons b rest ih =>
    cases t with
    | nil =>
      have := congrArg List.length h
      rw [PartitionTable.hexBytes_length, PartitionTable.hexBytes_length] at this
      simp at this
    | cons c rest' =>
      rw [hexBytes, hexBytes, List.flatMap_cons, List.flatMap_cons] at h
      have hlen : (formatHex 2 b.toNat).length = (formatHex 2 c.toNat).length := by
        rw [length_formatHex (by decide) b.toNat_lt, length_formatHex (by decide) c.toNat_lt]
      obtain ⟨hhead, htail⟩ := List.append_inj h hlen
      rw [UInt8.toNat_inj.mp (formatHex_injective hhead), ih htail]

theorem window_eq_of_wordAt (hs : o + w ≤ s.length) (ht : o + w ≤ t.length)
    (h : wordAt s o w = wordAt t o w) : window s o w = window t o w :=
  ofBytes_injective (by rw [length_window hs, length_window ht]) h

theorem length_wordHex (s : Bytes) (o : Nat) {d : Nat} (hd : 0 < d) (hw : 256 ^ w = 16 ^ d) :
    (formatHex d (wordAt s o w)).length = d :=
  length_formatHex hd (hw ▸ wordAt_lt s o w)

theorem guidText_length (h : s.length = 16) : (guidText s).length = 36 := by
  have h8 := length_wordHex s 0 (w := 4) (d := 8) (by decide) (by decide)
  have h4 := length_wordHex s 4 (w := 2) (d := 4) (by decide) (by decide)
  have h4' := length_wordHex s 6 (w := 2) (d := 4) (by decide) (by decide)
  have hdash : (ascii "-").length = 1 := by decide
  simp only [guidText, List.length_append, h8, h4, h4', hdash, PartitionTable.hexBytes_length,
    length_window (show 8 + 2 ≤ s.length by omega),
    length_window (show 10 + 6 ≤ s.length by omega)]

/-- No two identifiers are written alike. -/
theorem guidText_injective (hs : s.length = 16) (ht : t.length = 16) (h : guidText s = guidText t) :
    s = t := by
  have hlen : ∀ {o w d : Nat}, 0 < d → 256 ^ w = 16 ^ d →
      (formatHex d (wordAt s o w)).length = (formatHex d (wordAt t o w)).length := by
    intro o w d hd hw
    rw [length_wordHex s o hd hw, length_wordHex t o hd hw]
  have hwin : ∀ {o w : Nat}, o + w ≤ 16 →
      (hexBytes (window s o w)).length = (hexBytes (window t o w)).length := by
    intro o w how
    rw [PartitionTable.hexBytes_length, PartitionTable.hexBytes_length, length_window (by omega),
      length_window (by omega)]
  simp only [guidText, List.append_assoc] at h
  obtain ⟨h0, h⟩ := List.append_inj h (hlen (by decide) (by decide))
  obtain ⟨-, h⟩ := List.append_inj h rfl
  obtain ⟨h4, h⟩ := List.append_inj h (hlen (by decide) (by decide))
  obtain ⟨-, h⟩ := List.append_inj h rfl
  obtain ⟨h6, h⟩ := List.append_inj h (hlen (by decide) (by decide))
  obtain ⟨-, h⟩ := List.append_inj h rfl
  obtain ⟨h8, h⟩ := List.append_inj h (hwin (by decide))
  obtain ⟨-, h10⟩ := List.append_inj h rfl
  have w0 := window_eq_of_wordAt (by omega) (by omega) (formatHex_injective h0)
  have w4 := window_eq_of_wordAt (by omega) (by omega) (formatHex_injective h4)
  have w6 := window_eq_of_wordAt (by omega) (by omega) (formatHex_injective h6)
  have w8 := hexBytes_injective h8
  have w10 := hexBytes_injective h10
  have hsplit : ∀ {u : Bytes}, u.length = 16 →
      u = window u 0 4 ++ window u 4 2 ++ window u 6 2 ++ window u 8 2 ++ window u 10 6 := by
    intro u hu
    have e1 : window u 0 4 ++ window u 4 2 = window u 0 6 := window_append 0 4 2
    have e2 : window u 0 6 ++ window u 6 2 = window u 0 8 := window_append 0 6 2
    have e3 : window u 0 8 ++ window u 8 2 = window u 0 10 := window_append 0 8 2
    have e4 : window u 0 10 ++ window u 10 6 = window u 0 16 := window_append 0 10 6
    rw [e1, e2, e3, e4, window_all (by omega)]
  rw [hsplit hs, hsplit ht, w0, w4, w6, w8, w10]

section Copy

variable {image : Image} {buffer : Bytes}

theorem lbaOffset_iff {lba sectorSize offset : Nat} :
    (PartitionTable.lbaOffset lba sectorSize).result image = .ok offset ↔
      lba ≤ maxUint64 / sectorSize ∧ offset = lba * sectorSize := by
  simp only [PartitionTable.lbaOffset, Probe.result_bind, result_rejectIf, Probe.result_pure,
    Except.ok.injEq, not_lt, exists_and_left, exists_const]
  refine and_congr_right fun hle => ?_
  have hmul := PartitionTable.mul_le_of_le_div hle
  unfold maxUint64 at hmul
  rw [mul64_eq (by omega), eq_comm]

structure ProbeGeometry (h : GptHeader) (sectors lba alternate : Nat) : Prop where
  alternate : h.backupLBA = alternate
  identified : allZero h.diskGUID = false
  low : 2 ≤ h.firstUsableLBA
  ordered : h.firstUsableLBA ≤ h.lastUsableLBA
  high : h.lastUsableLBA < sectors - 1
  outside : ¬(h.firstUsableLBA ≤ lba ∧ lba ≤ h.lastUsableLBA)
  nonempty : 0 < h.entryCount
  slots : h.entryCount ≤ PartitionTable.gptMaxEntrySlots
  standard : h.entrySize = PartitionTable.gptEntrySize
  starts : h.entriesLBA < sectors
  fits : arraySectors h ≤ sectors - h.entriesLBA
  primary : lba = 1 → 2 ≤ h.entriesLBA ∧ h.entriesLBA + arraySectors h ≤ h.firstUsableLBA
  backup : lba ≠ 1 → h.lastUsableLBA < h.entriesLBA ∧ h.entriesLBA + arraySectors h ≤ lba

def copyOf (h : GptHeader) : GptCopy where
  revision := h.revision
  headerSize := h.headerSize
  firstUsable := h.firstUsableLBA
  lastUsable := h.lastUsableLBA
  diskGuid := h.diskGUID
  entriesLba := h.entriesLBA
  entryCount := h.entryCount
  entrySize := h.entrySize
  entriesCrc := h.entriesCRC
  entries := h.entries
  entriesSectors := arraySectors h

theorem probe_fields (buffer : Bytes) :
    let header := window buffer 0 PartitionTable.gptHeaderMinSize
    window header 0 8 = window buffer 0 8 ∧ window header 56 16 = window buffer 56 16 ∧
      (∀ o v, o + v ≤ 92 → wordAt header o v = wordAt buffer o v) := by
  refine ⟨?_, ?_, fun o v h => wordAt_window h⟩
  · rw [window_window (by decide)]
  · rw [window_window (by decide)]

/-- The probe's tests, one by one, come to its geometry on a stored copy. -/
theorem probe_copy_iff {sectors lba alternate : Nat} (hs : sectors < 2 ^ 54) (hlba : lba < sectors)
    (hbuffer : sectorAt image lba = buffer) {copy : GptCopy} :
    (readGptCopy (512 * sectors) 512 sectors lba alternate).result image = .ok copy ↔
      copy = copyOf (headerOf image buffer) ∧ Stored image lba buffer ∧
        ProbeGeometry (headerOf image buffer) sectors lba alternate := by
  have hlen : buffer.length = 512 := by
    rw [← hbuffer, sectorAt, Image.length_slice]
    rfl
  obtain ⟨hw0, hw56, hword⟩ := probe_fields buffer
  have hsector : image.slice (lba * 512) 512 = buffer := by
    rw [← hbuffer]
    rfl
  have hmax : maxUint64 = 2 ^ 64 - 1 := rfl
  have hmax' : maxInt64 = 2 ^ 63 - 1 := rfl
  have harray : arraySectors (headerOf image buffer) =
      (wordAt buffer 80 4 * wordAt buffer 84 4 + 512 - 1) / 512 := rfl
  simp only [readGptCopy, Probe.result_bind, result_rejectIf, lbaOffset_iff, result_readExact,
    result_field, Probe.result_pure, Except.ok.injEq]
  constructor
  · rintro ⟨_, -, _, ⟨-, rfl⟩, data, ⟨-, -, -, hreadable, hdata⟩, header, ⟨-, hheader⟩, _, hsig, _,
      hhead, _, hcrc, _, hfields, _, -, _, hplace, _, hprimary, _, hbackup, _, ⟨-, rfl⟩, entries,
      ⟨-, -, -, hlisted, hentries⟩, _, hsum, hcopy⟩
    rw [hsector] at hdata
    subst hdata hheader hentries
    simp (disch := decide) only [hword, hw0, hw56] at hsig hhead hcrc hfields hplace
    simp (disch := decide) only [hword, hw56] at hprimary hbackup hlisted hsum hcopy
    push Not at hhead hfields hplace
    obtain ⟨hrevision, hsmall, hlarge, hreserved, hcurrent, halternate⟩ := hhead
    obtain ⟨hguid, hlow, hordered, hhigh, houtside, hcount, hslots, hstandard⟩ := hfields
    obtain ⟨hnonempty, hstarts, hfits⟩ := hplace
    rw [add64_eq (by omega)] at hprimary hbackup
    refine ⟨hcopy.symm, ?_, ?_⟩
    · exact ⟨hreadable, not_not.mp hsig, hrevision, hsmall, hlarge, not_not.mp hcrc, hreserved,
        hcurrent, hlisted, not_not.mp hsum⟩
    · constructor
      · exact halternate
      · exact Bool.eq_false_iff.mpr hguid
      · exact hlow
      · exact hordered
      · exact hhigh
      · exact fun h => absurd h.2 (Nat.not_le.mpr (houtside h.1))
      · exact Nat.pos_of_ne_zero hcount
      · exact hslots
      · exact hstandard
      · exact hstarts
      · exact hfits
      · intro hone
        rw [harray]
        change 2 ≤ wordAt data 72 8 ∧ wordAt data 72 8 + _ ≤ wordAt data 40 8
        omega
      · intro hone
        rw [harray]
        change wordAt data 48 8 < wordAt data 72 8 ∧ wordAt data 72 8 + _ ≤ lba
        omega
  · rintro ⟨rfl, hstored, hg⟩
    have hstandard : wordAt buffer 84 4 = 128 := hg.standard
    have hslots : wordAt buffer 80 4 ≤ 4096 := hg.slots
    have hcount : 0 < wordAt buffer 80 4 := hg.nonempty
    have hstarts : wordAt buffer 72 8 < sectors := hg.starts
    have hfits := hg.fits
    have hprimary := hg.primary
    have hbackup := hg.backup
    rw [harray] at hfits hprimary hbackup
    change _ ≤ sectors - wordAt buffer 72 8 at hfits
    change lba = 1 → 2 ≤ wordAt buffer 72 8 ∧ wordAt buffer 72 8 + _ ≤ wordAt buffer 40 8
      at hprimary
    change lba ≠ 1 → wordAt buffer 48 8 < wordAt buffer 72 8 ∧ wordAt buffer 72 8 + _ ≤ lba
      at hbackup
    refine ⟨(), by decide, lba * 512, ⟨by omega, rfl⟩, buffer,
      ⟨by omega, by omega, by decide, hstored.readable, hsector.symm⟩, _,
      ⟨by rw [hlen]; decide, rfl⟩, ?_⟩
    simp (disch := decide) only [hword, hw0, hw56]
    rw [add64_eq (by omega)]
    refine ⟨(), not_not.mpr hstored.signature, (), ?_, (), not_not.mpr hstored.sum, (), ?_, (), ?_,
      (), ?_, (), ?_, (), ?_, _, ⟨by omega, rfl⟩, (headerOf image buffer).entries,
      ⟨by omega, by omega, le_refl _, hstored.listed, rfl⟩, (), not_not.mpr hstored.array, rfl⟩
    · push Not
      exact ⟨hstored.revision, hstored.small, hstored.large, hstored.reserved, hstored.current,
        hg.alternate⟩
    · push Not
      exact ⟨Bool.eq_false_iff.mp hg.identified, hg.low, hg.ordered, hg.high,
        fun h => Nat.not_le.mp fun h' => hg.outside ⟨h, h'⟩, hcount.ne', hslots, hstandard⟩
    · rw [hstandard]
      unfold PartitionTable.gptMaxEntryBytes
      omega
    · rw [hstandard] at hfits ⊢
      omega
    · rintro ⟨hone, hbad⟩
      have := hprimary hone
      omega
    · rintro ⟨hone, hbad⟩
      have := hbackup hone
      omega

end Copy

section Geometry

variable {h p b : GptHeader} {sectors lba : Nat}

structure LabPair (p b : GptHeader) (sectors : Nat) : Prop where
  primary : validHeaderGeometry p sectors 1 true = true
  primaryBytes : p.entryCount * p.entrySize ≤ maximumArrayBytes
  backup : validHeaderGeometry b sectors (sectors - 1) false = true
  backupBytes : b.entryCount * b.entrySize ≤ maximumArrayBytes
  agree : headersAgree p b sectors = true

structure ProbePair (p b : GptHeader) (sectors : Nat) : Prop where
  primary : ProbeGeometry p sectors 1 (sectors - 1)
  backup : ProbeGeometry b sectors (sectors - 1) 1
  agree : ¬PartitionTable.copiesDiffer (copyOf p) (copyOf b)

theorem arraySectors_standard (hsize : h.entrySize = 128) :
    arraySectors h = (h.entryCount * 128 + 511) / 512 := by
  unfold arraySectors logicalSectorBytes
  rw [hsize]
  rfl

theorem copiesDiffer_iff : ¬PartitionTable.copiesDiffer (copyOf p) (copyOf b) ↔
    p.firstUsableLBA = b.firstUsableLBA ∧ p.lastUsableLBA = b.lastUsableLBA ∧
      p.headerSize = b.headerSize ∧ p.revision = b.revision ∧ p.entryCount = b.entryCount ∧
      p.entrySize = b.entrySize ∧ p.entriesCRC = b.entriesCRC ∧ p.diskGUID = b.diskGUID ∧
      p.entries = b.entries ∧
      PartitionTable.rangesOverlap p.entriesLBA (add64 p.entriesLBA (arraySectors p))
        b.entriesLBA (add64 b.entriesLBA (arraySectors b)) = false := by
  unfold PartitionTable.copiesDiffer
  push Not
  simp only [copyOf, ne_eq, Bool.not_eq_true]

theorem LabPair.probe (h68 : 68 ≤ sectors) (hs : sectors < 2 ^ 54) (hlab : LabPair p b sectors)
    (hsize : p.entrySize = 128) : ProbePair p b sectors := by
  obtain ⟨hp, -, hpalt, hplow, hpend⟩ := (labGeometry_iff (by omega)).mp hlab.primary
  obtain ⟨hb, -, hbalt, hbend, hbhigh⟩ := (labGeometry_iff (by omega)).mp hlab.backup
  have hagree := hlab.agree
  simp only [headersAgree, decide_eq_true_eq] at hagree
  obtain ⟨-, -, -, -, hrevision, hheader, hfirst, hlast, hguid, hcount, hentry, hcrc, harray⟩ :=
    hagree
  have hslots := hp.slots
  have hbslots := hb.slots
  unfold maximumEntries at hslots hbslots
  have := hp.low
  have := hp.ordered
  have := hp.array
  have := hb.array
  have := hb.starts
  have := hp.starts
  constructor
  · exact ⟨hpalt, hp.identified, hp.low, hp.ordered, by omega, by omega, hp.nonempty,
      by unfold PartitionTable.gptMaxEntrySlots; omega, hsize, hp.starts, hp.fits,
      fun _ => ⟨hplow, hpend⟩, fun hne => absurd rfl hne⟩
  · exact ⟨hbalt, hb.identified, hb.low, hb.ordered, by omega, by omega, hb.nonempty,
      by unfold PartitionTable.gptMaxEntrySlots; omega, hentry ▸ hsize, hb.starts, hb.fits,
      fun hone => by omega, fun _ => ⟨hbhigh, hbend⟩⟩
  · refine copiesDiffer_iff.mpr ⟨hfirst, hlast, hheader, hrevision, hcount, hentry, hcrc, hguid,
      harray, ?_⟩
    -- the primary array ends before the usable sectors, the backup array starts after them
    rw [PartitionTable.rangesOverlap, add64_eq (by omega), add64_eq (by omega)]
    simp only [decide_eq_false_iff_not]
    omega

theorem ProbePair.lab (h68 : 68 ≤ sectors) (hs : sectors < 2 ^ 54) (hprobe : ProbePair p b sectors)
    (hp : p.revision = 0x00010000 ∧ p.currentLBA = 1)
    (hb : b.revision = 0x00010000 ∧ b.currentLBA = sectors - 1) (hcount : p.entryCount ≤ 128) :
    LabPair p b sectors := by
  have hpg := hprobe.primary
  have hbg := hprobe.backup
  obtain ⟨hfirst, hlast, hheader, hrevision, hcounts, hentry, hcrc, hguid, harray, -⟩ :=
    copiesDiffer_iff.mp hprobe.agree
  have hpsize : p.entrySize = 128 := hpg.standard
  have hbsize : b.entrySize = 128 := hbg.standard
  have hparray := arraySectors_standard hpsize
  have hbarray := arraySectors_standard hbsize
  have hpcount := hpg.nonempty
  have hbcount := hbg.nonempty
  have hphigh := hpg.high
  have hbhigh := hbg.high
  have hplab : LabGeometry p sectors 1 := by
    refine ⟨hp.1, hp.2, by have := hpg.alternate; omega, hpg.low, hpg.ordered, by omega,
      hpg.identified, hpcount, hcount, ?_, ?_, ?_, by omega, hpg.starts, hpg.fits⟩
    all_goals simp [hpsize, minimumEntryBytes, maximumEntryBytes]
  have hblab : LabGeometry b sectors (sectors - 1) := by
    refine ⟨hb.1, hb.2, by have := hbg.alternate; omega, hbg.low, hbg.ordered, by omega,
      hbg.identified, hbcount, by rw [← hcounts]; exact hcount, ?_, ?_, ?_, by omega, hbg.starts,
      hbg.fits⟩
    all_goals simp [hbsize, minimumEntryBytes, maximumEntryBytes]
  obtain ⟨hplow, hpend⟩ := hpg.primary rfl
  obtain ⟨hbstart, hbend⟩ := hbg.backup (by omega)
  constructor
  · exact (labGeometry_iff (by omega)).mpr ⟨hplab, rfl, hpg.alternate, hplow, hpend⟩
  · rw [hpsize]
    unfold maximumArrayBytes
    omega
  · exact (labGeometry_iff (by omega)).mpr ⟨hblab, rfl, hbg.alternate, hbend, hbstart⟩
  · rw [hbsize, ← hcounts]
    unfold maximumArrayBytes
    omega
  · simp only [headersAgree, decide_eq_true_eq]
    exact ⟨hp.2, hpg.alternate, hb.2, hbg.alternate, hrevision, hheader, hfirst, hlast, hguid,
      hcounts, hentry, hcrc, harray⟩

end Geometry

end GptCopies
