import PhantoWD.GptCopies

/-!
The lab inspector and the metadata probe read the same format. The probe asks for more: a plain
protective record, entries of the standard size, slots that are empty all through, and at least
sixty-eight sectors. On an image that gives it those, both accept the same tables.
-/
namespace GptAgreement

open GoText
open RawImage
open GptInspection
open GptCopies
open PartitionTable (PartitionEntry Table parseGpt readGptCopy countProtective guidText
  formatGptGuid addGptEntry addGptEntries textCapacity readExact
  result_rejectIf result_readExact result_field result_multiplyU64
  result_addPartition conflicts_eq_false)

section Protective

variable {mbr : Bytes} {sectors : Nat}

def slotOf (mbr : Bytes) (i : Nat) : Bytes := window mbr (446 + i * 16) 16

def PlainSlot (mbr : Bytes) (i : Nat) : Prop :=
  if (slotOf mbr i).getD 4 0 = 0xee then (slotOf mbr i).getD 0 0 = 0
  else allZero (slotOf mbr i) = true

instance (mbr : Bytes) (i : Nat) : Decidable (PlainSlot mbr i) := by
  unfold PlainSlot
  infer_instance

def protectiveSlots (mbr : Bytes) (slots : List Nat) : Nat :=
  slots.countP fun i => (slotOf mbr i).getD 4 0 = 0xee

theorem protectiveSlots_cons_ne {i : Nat} (rest : List Nat)
    (h : (slotOf mbr i).getD 4 0 ≠ 0xee) :
    protectiveSlots mbr (i :: rest) = protectiveSlots mbr rest :=
  List.countP_cons_of_neg (by simpa only [decide_eq_true_eq] using h)

theorem protectiveSlots_cons_eq {i : Nat} (rest : List Nat)
    (h : (slotOf mbr i).getD 4 0 = 0xee) :
    protectiveSlots mbr (i :: rest) = protectiveSlots mbr rest + 1 :=
  List.countP_cons_of_pos (by simpa only [decide_eq_true_eq] using h)

def Covers (entry : Bytes) (sectors : Nat) : Prop :=
  wordAt entry 8 4 = 1 ∧ wordAt entry 12 4 = min (sectors - 1) (2 ^ 32 - 1)

theorem getD_of_allZero {s : Bytes} (h : allZero s = true) (i : Nat) : s.getD i 0 = 0 := by
  rw [allZero, List.all_eq_true] at h
  rcases hi : s[i]? with _ | b
  · simp [List.getD, hi]
  · have hb := h b (List.mem_of_getElem? hi)
    simpa [List.getD, hi] using hb

theorem ofBytes_of_allZero {s : Bytes} (h : allZero s = true) : ofBytes s = 0 := by
  induction s with
  | nil => rfl
  | cons b rest ih =>
    simp only [allZero, List.all_cons, Bool.and_eq_true, beq_iff_eq] at h ih
    rw [ofBytes, ih h.2, h.1]
    rfl

theorem wordAt_of_allZero {s : Bytes} (h : allZero s = true) (o w : Nat) : wordAt s o w = 0 := by
  apply ofBytes_of_allZero
  rw [allZero, List.all_eq_true] at h ⊢
  intro b hb
  exact h b (List.mem_of_mem_drop (List.mem_of_mem_take hb))

def LabSlot (mbr : Bytes) (sectors i : Nat) : Prop :=
  let entry := slotOf mbr i
  (entry.getD 4 0 = 0 ∧ wordAt entry 8 4 = 0 ∧ wordAt entry 12 4 = 0) ∨
    (entry.getD 4 0 = 0xee ∧ Covers entry sectors ∧
      (entry.getD 0 0 = 0 ∨ entry.getD 0 0 = 0x80))

theorem labSlot_protective {i : Nat} (htype : (slotOf mbr i).getD 4 0 = 0xee) :
    LabSlot mbr sectors i ↔ Covers (slotOf mbr i) sectors ∧
      ((slotOf mbr i).getD 0 0 = 0 ∨ (slotOf mbr i).getD 0 0 = 0x80) := by
  have hne : ¬(slotOf mbr i).getD 4 0 = 0 := by
    rw [htype]
    decide
  unfold LabSlot
  constructor
  · rintro (hempty | ⟨-, h⟩)
    · exact absurd hempty.1 hne
    · exact h
  · exact fun h => .inr ⟨htype, h⟩

theorem scanProtective_iff (slots : List Nat) (count : Nat) :
    scanProtective mbr sectors slots count = .valid ↔
      (∀ i ∈ slots, LabSlot mbr sectors i) ∧ count + protectiveSlots mbr slots = 1 := by
  induction slots generalizing count with
  | nil => simp [scanProtective, protectiveSlots]
  | cons i rest ih =>
    have hslot : window mbr (446 + i * 16) 16 = slotOf mbr i := rfl
    simp only [scanProtective, hslot]
    by_cases hempty : (slotOf mbr i).getD 4 0 = 0 ∧ wordAt (slotOf mbr i) 8 4 = 0 ∧
        wordAt (slotOf mbr i) 12 4 = 0
    · have hne : (slotOf mbr i).getD 4 0 ≠ 0xee := by
        rw [hempty.1]
        decide
      rw [if_pos hempty, ih, protectiveSlots_cons_ne rest hne, List.forall_mem_cons]
      exact ⟨fun h => ⟨⟨.inl hempty, h.1⟩, h.2⟩, fun h => ⟨h.1.2, h.2⟩⟩
    rw [if_neg hempty]
    by_cases htype : (slotOf mbr i).getD 4 0 = 0xee
    · have hcount := protectiveSlots_cons_eq rest htype
      rw [if_neg (not_not.mpr htype)]
      have hchecks : LabSlot mbr sectors i ↔ ¬(wordAt (slotOf mbr i) 8 4 ≠ 1 ∨
          wordAt (slotOf mbr i) 12 4 ≠ min (sectors - 1) (2 ^ 32 - 1) ∨
          ((slotOf mbr i).getD 0 0 ≠ 0 ∧ (slotOf mbr i).getD 0 0 ≠ 0x80)) := by
        rw [labSlot_protective htype, Covers]
        push Not
        rw [and_assoc, or_iff_not_imp_left]
      by_cases hbad : LabSlot mbr sectors i
      · rw [if_neg (hchecks.mp hbad), ih, hcount, List.forall_mem_cons]
        constructor
        · exact fun h => ⟨⟨hbad, h.1⟩, by omega⟩
        · exact fun h => ⟨h.1.2, by omega⟩
      · rw [if_pos (not_not.mp (mt hchecks.mpr hbad)), List.forall_mem_cons]
        simp [hbad]
    · rw [if_pos htype, List.forall_mem_cons]
      have hrefused : ¬LabSlot mbr sectors i := by
        rintro (h | h)
        · exact hempty h
        · exact htype h.1
      simp [hrefused]

def ProbeSlot (mbr : Bytes) (sectors i : Nat) : Prop :=
  if (slotOf mbr i).getD 4 0 = 0 then allZero (slotOf mbr i) = true
  else (slotOf mbr i).getD 4 0 = 0xee ∧ (slotOf mbr i).getD 0 0 = 0 ∧
    Covers (slotOf mbr i) sectors

theorem countProtective_iff {image : Image} (h68 : 68 ≤ sectors) (hmbr : mbr.length = 512)
    (slots : List Nat) (hslots : ∀ i ∈ slots, i < 4) {count total : Nat} :
    (countProtective mbr (sectors - 1) slots count).result image = .ok total ↔
      (∀ i ∈ slots, ProbeSlot mbr sectors i) ∧ total = count + protectiveSlots mbr slots := by
  induction slots generalizing count with
  | nil => simp [countProtective, protectiveSlots, eq_comm]
  | cons i rest ih =>
    have hi : 446 + i * 16 + 16 ≤ mbr.length := by
      have := hslots i (by simp)
      omega
    have hrest : ∀ j ∈ rest, j < 4 := fun j hj => hslots j (List.mem_cons_of_mem _ hj)
    have hfield : ∀ {entry}, (PartitionTable.field mbr (446 + i * 16) 16).result image =
        .ok entry ↔ entry = slotOf mbr i := by
      intro entry
      rw [result_field]
      exact and_iff_right hi
    simp only [countProtective, Probe.result_bind, hfield, exists_eq_left, List.forall_mem_cons]
    by_cases hempty : (slotOf mbr i).getD 4 0 = 0
    · have hne : (slotOf mbr i).getD 4 0 ≠ 0xee := by
        rw [hempty]
        decide
      rw [if_pos hempty, Probe.result_bind, ProbeSlot, if_pos hempty,
        protectiveSlots_cons_ne rest hne]
      simp only [result_rejectIf, Bool.not_eq_false, exists_and_left, exists_const, ih hrest,
        and_assoc]
    · rw [if_neg hempty, Probe.result_bind, ProbeSlot, if_neg hempty]
      simp only [result_rejectIf, exists_and_left, exists_const, ih hrest]
      have hlimit : (if PartitionTable.maxUint32 < sectors - 1 then PartitionTable.maxUint32
          else sectors - 1) = min (sectors - 1) (2 ^ 32 - 1) := by
        unfold PartitionTable.maxUint32
        split
        · omega
        · omega
      rw [hlimit]
      have hslot : ¬((slotOf mbr i).getD 4 0 ≠ 0xee ∨ (slotOf mbr i).getD 0 0 ≠ 0 ∨
          wordAt (slotOf mbr i) 8 4 ≠ 1 ∨ wordAt (slotOf mbr i) 12 4 = 0 ∨
          wordAt (slotOf mbr i) 12 4 ≠ min (sectors - 1) (2 ^ 32 - 1)) ↔
          (slotOf mbr i).getD 4 0 = 0xee ∧ (slotOf mbr i).getD 0 0 = 0 ∧
            Covers (slotOf mbr i) sectors := by
        unfold Covers
        constructor
        · intro h
          push Not at h
          exact ⟨h.1, h.2.1, h.2.2.1, h.2.2.2.2⟩
        · rintro ⟨htype, hboot, hstart, hlast⟩
          push Not
          exact ⟨htype, hboot, hstart, by omega, hlast⟩
      rw [hslot]
      constructor
      · rintro ⟨h, hothers, htotal⟩
        have hcount := protectiveSlots_cons_eq rest h.1
        exact ⟨⟨h, hothers⟩, by omega⟩
      · rintro ⟨⟨h, hothers⟩, htotal⟩
        have hcount := protectiveSlots_cons_eq rest h.1
        exact ⟨h, hothers, by omega⟩

theorem probeSlot_iff {i : Nat} :
    ProbeSlot mbr sectors i ↔ LabSlot mbr sectors i ∧ PlainSlot mbr i := by
  unfold ProbeSlot LabSlot PlainSlot
  by_cases hzero : (slotOf mbr i).getD 4 0 = 0
  · have hne : (slotOf mbr i).getD 4 0 ≠ 0xee := by
      rw [hzero]
      decide
    rw [if_pos hzero, if_neg hne]
    constructor
    · intro h
      exact ⟨.inl ⟨hzero, wordAt_of_allZero h 8 4, wordAt_of_allZero h 12 4⟩, h⟩
    · exact fun h => h.2
  · rw [if_neg hzero]
    by_cases htype : (slotOf mbr i).getD 4 0 = 0xee
    · rw [if_pos htype]
      constructor
      · rintro ⟨-, hboot, hcovers⟩
        exact ⟨.inr ⟨htype, hcovers, .inl hboot⟩, hboot⟩
      · rintro ⟨hempty | ⟨-, hcovers, -⟩, hboot⟩
        · exact absurd hempty.1 hzero
        · exact ⟨htype, hboot, hcovers⟩
    · rw [if_neg htype]
      constructor
      · exact fun h => absurd h.1 htype
      · exact fun h => absurd (getD_of_allZero h.2 4) hzero

/-- The probe counts one protective slot where the inspector finds the record valid and plain. -/
theorem protective_iff {image : Image} (h68 : 68 ≤ sectors) (hmbr : mbr.length = 512) :
    (countProtective mbr (sectors - 1) (List.range 4) 0).result image = .ok 1 ↔
      scanProtective mbr sectors (List.range 4) 0 = .valid ∧ ∀ i < 4, PlainSlot mbr i := by
  rw [countProtective_iff h68 hmbr _ (by simp), scanProtective_iff]
  simp only [probeSlot_iff, List.mem_range, Nat.zero_add]
  constructor
  · rintro ⟨hslots, hcount⟩
    exact ⟨⟨fun i hi => (hslots i hi).1, hcount.symm⟩, fun i hi => (hslots i hi).2⟩
  · rintro ⟨⟨hlab, hcount⟩, hplain⟩
    exact ⟨fun i hi => ⟨hlab i hi, hplain i hi⟩, hcount.symm⟩

end Protective

section Array

variable {h : GptHeader} {image : Image} {i : Nat} {done : List Nat}

def partOf (h : GptHeader) (i : Nat) : PartitionEntry where
  number := i + 1
  start512 := entryFirst h i
  size512 := entryLast h i - entryFirst h i + 1
  uuid := guidText (entryGUID h i)
  typeId := guidText (entryType h i)
  extended := false

/-- Entries of the standard size, all of them held by the array. -/
structure Standard (h : GptHeader) : Prop where
  size : h.entrySize = 128
  slots : h.entryCount ≤ 128
  held : h.entries.length = h.entryCount * h.entrySize
  high : h.lastUsableLBA < 2 ^ 54

theorem Standard.entry (hs : Standard h) (hi : i < h.entryCount) :
    i * h.entrySize + h.entrySize ≤ h.entries.length ∧
      window h.entries (i * h.entrySize) h.entrySize = entryAt h i ∧
      (entryAt h i).length = 128 := by
  have hslots := hs.slots
  have hsize := hs.size
  have hmul : i * 128 + 128 ≤ h.entryCount * 128 := by omega
  have hheld : i * h.entrySize + h.entrySize ≤ h.entries.length := by
    rw [hs.held, hsize]
    exact hmul
  have hwindow : window h.entries (i * h.entrySize) h.entrySize = entryAt h i := by
    rw [entryAt, mul64_eq (by rw [hsize]; omega)]
  refine ⟨hheld, hwindow, ?_⟩
  rw [← hwindow, length_window hheld, hsize]

theorem Standard.guids (hs : Standard h) (hi : i < h.entryCount) :
    (entryGUID h i).length = 16 ∧ (entryType h i).length = 16 := by
  obtain ⟨-, -, hlen⟩ := hs.entry hi
  exact ⟨length_window (by omega), length_window (by omega)⟩

theorem formatGptGuid_iff {raw text : Bytes} (hlen : raw.length = 16) :
    (formatGptGuid raw).result image = .ok text ↔ allZero raw = false ∧ text = guidText raw := by
  simp only [formatGptGuid, Probe.result_bind, result_rejectIf, Probe.result_pure,
    Except.ok.injEq, guidText_length hlen, ne_eq, not_true, not_false_eq_true, exists_and_left,
    exists_const, true_and, Bool.not_eq_true]
  rw [eq_comm (a := text)]

theorem apart_partOf {j : Nat} (hi : entryFirst h i ≤ entryLast h i)
    (hj : entryFirst h j ≤ entryLast h j) :
    PartitionTable.Apart (partOf h i) (partOf h j) ↔ EntriesApart h i j := by
  unfold PartitionTable.Apart EntriesApart partOf
  simp only [forall_const]
  omega

theorem Standard.taken (hs : Standard h) (hsub : (done ++ [i]).Sublist (List.range h.entryCount)) :
    i < h.entryCount ∧ (∀ j ∈ done, j < h.entryCount) ∧ i ∉ done ∧ done.length < 128 := by
  have hslots := hs.slots
  have hlength := hsub.length_le
  rw [List.length_append, List.length_singleton, List.length_range] at hlength
  have hnodup := List.nodup_range.sublist hsub
  rw [List.nodup_append_comm] at hnodup
  exact ⟨List.mem_range.mp (hsub.subset (by simp)),
    fun j hj => List.mem_range.mp (hsub.subset (by simp [hj])),
    (List.nodup_cons.mp hnodup).1, by omega⟩

/-- A slot is acceptable to the probe beside those it has taken when it lies apart from them
under an identity of its own. -/
theorem acceptable_iff (hs : Standard h)
    (hsub : (done ++ [i]).Sublist (List.range h.entryCount)) (hfits : Fits h done)
    (hb : h.firstUsableLBA ≤ entryFirst h i ∧ entryFirst h i ≤ entryLast h i ∧
      entryLast h i ≤ h.lastUsableLBA) :
    PartitionTable.Acceptable (done.map (partOf h)) (partOf h i) ↔
      entryGUID h i ∉ done.map (entryGUID h) ∧ ∀ j ∈ done, EntriesApart h j i := by
  have hhigh := hs.high
  obtain ⟨hi, hdone, hnew, hroom⟩ := hs.taken hsub
  obtain ⟨hguid, htype⟩ := hs.guids hi
  have hend : ∀ {j}, (h.firstUsableLBA ≤ entryFirst h j ∧ entryFirst h j ≤ entryLast h j ∧
      entryLast h j ≤ h.lastUsableLBA) →
      (partOf h j).start512 + (partOf h j).size512 < 2 ^ 64 := by
    intro j hj
    change entryFirst h j + (entryLast h j - entryFirst h j + 1) < 2 ^ 64
    omega
  have hconflict : ∀ j ∈ done, (PartitionTable.conflicts (partOf h i) (partOf h j) = false ↔
      entryGUID h j ≠ entryGUID h i ∧ EntriesApart h j i) := by
    intro j hj
    rw [conflicts_eq_false (hend hb) (hend (hfits.bounds j hj)),
      apart_partOf (hfits.bounds j hj).2.1 hb.2.1]
    have hnumber : (partOf h j).number ≠ (partOf h i).number := by
      change j + 1 ≠ i + 1
      rintro heq
      exact hnew (Nat.succ_injective heq ▸ hj)
    have huuid : (partOf h j).uuid ≠ (partOf h i).uuid ↔ entryGUID h j ≠ entryGUID h i := by
      apply not_congr
      constructor
      · exact guidText_injective (hs.guids (hdone j hj)).1 hguid
      · exact congrArg guidText
    rw [huuid]
    exact and_iff_right hnumber
  have hne : ∀ {raw : Bytes}, raw.length = 16 → guidText raw ≠ [] := by
    intro raw hlen hnil
    have := guidText_length hlen
    rw [hnil] at this
    cases this
  have hclear : (entryGUID h i ∉ done.map (entryGUID h) ∧ ∀ j ∈ done, EntriesApart h j i) ↔
      ∀ j ∈ done, PartitionTable.conflicts (partOf h i) (partOf h j) = false := by
    simp only [List.mem_map, not_exists, not_and, forall₂_congr hconflict, forall_and, ne_eq]
  rw [hclear]
  constructor
  · exact fun hacceptable j hj => hacceptable.clear _ (List.mem_map_of_mem hj)
  · intro hall
    constructor
    · rw [List.length_map]
      exact hroom.trans (by decide)
    · exact Nat.succ_ne_zero i
    · exact Nat.succ_ne_zero _
    · exact hend hb
    · exact hne hguid
    · exact hne htype
    · exact List.forall_mem_map.mpr hall

variable {parts : List PartitionEntry}

theorem addGptEntry_iff (hs : Standard h) (hused : allZero (entryType h i) = false)
    (hsub : (done ++ [i]).Sublist (List.range h.entryCount)) (hfits : Fits h done)
    (hapart : done.Pairwise (EntriesApart h)) :
    (addGptEntry (copyOf h) 1 i (entryAt h i) (done.map (partOf h))).result image = .ok parts ↔
      Fits h (done ++ [i]) ∧ (done ++ [i]).Pairwise (EntriesApart h) ∧
        parts = (done ++ [i]).map (partOf h) := by
  obtain ⟨hguid, htype⟩ := hs.guids (hs.taken hsub).1
  have hhigh := hs.high
  have hpair : (done ++ [i]).Pairwise (EntriesApart h) ↔ ∀ j ∈ done, EntriesApart h j i := by
    simp [List.pairwise_append, hapart]
  have huuid : (partOf h i).uuid.length < textCapacity := by
    rw [partOf, guidText_length hguid]
    decide
  have htypeId : (partOf h i).typeId.length < textCapacity := by
    rw [partOf, guidText_length htype]
    decide
  have hsize : entryFirst h i ≤ entryLast h i → entryLast h i ≤ h.lastUsableLBA →
      add64 (sub64 (entryLast h i) (entryFirst h i)) 1 = (partOf h i).size512 := by
    intro hle hlimit
    rw [sub64_eq hle (by omega), add64_eq (by omega)]
    rfl
  have haddition : entryFirst h i ≤ entryLast h i → entryLast h i ≤ h.lastUsableLBA →
      ((PartitionTable.addPartition (done.map (partOf h)) (partOf h i)).result image = .ok parts ↔
        PartitionTable.Acceptable (done.map (partOf h)) (partOf h i) ∧
          parts = done.map (partOf h) ++ [partOf h i]) := by
    intro hle hlimit
    refine result_addPartition huuid htypeId ?_
    change entryLast h i - entryFirst h i + 1 < 2 ^ 64
    omega
  have hmax : maxUint64 / 1 = 2 ^ 64 - 1 := by decide
  have hfirst : wordAt (entryAt h i) 32 8 = entryFirst h i := rfl
  have hlast : wordAt (entryAt h i) 40 8 = entryLast h i := rfl
  have hfold : window (entryAt h i) 16 16 = entryGUID h i := rfl
  have hfold' : window (entryAt h i) 0 16 = entryType h i := rfl
  rw [fits_concat, hpair]
  simp only [addGptEntry, Probe.result_bind, result_rejectIf, result_multiplyU64 Nat.one_pos,
    hfirst, hlast, hfold, hfold', formatGptGuid_iff hguid, formatGptGuid_iff htype, Nat.mul_one]
  constructor
  · rintro ⟨_, hrange, _, -, start, ⟨-, hstart⟩, size, ⟨-, hsized⟩, uuid, ⟨hidentified, hu⟩, typeId,
      ⟨-, ht⟩, hadd⟩
    push Not at hrange
    obtain ⟨-, hle, hlow, hlimit⟩ := hrange
    rw [hstart, hsized, hu, ht, hsize hle hlimit] at hadd
    obtain ⟨hacceptable, hparts⟩ := (haddition hle hlimit).mp hadd
    have hb := And.intro hlow (And.intro hle hlimit)
    obtain ⟨hidentity, hall⟩ := (acceptable_iff hs hsub hfits hb).mp hacceptable
    exact ⟨⟨hfits, hidentified, hb, hidentity⟩, hall, by rw [hparts, List.map_append]; rfl⟩
  · rintro ⟨⟨-, hidentified, hb, hidentity⟩, hall, hparts⟩
    have hacceptable := (acceptable_iff hs hsub hfits hb).mpr ⟨hidentity, hall⟩
    obtain ⟨hlow, hle, hlimit⟩ := hb
    rw [hsize hle hlimit]
    refine ⟨(), ?_, (), Nat.succ_ne_zero _, _, ⟨?_, rfl⟩, _, ⟨?_, rfl⟩, _, ⟨hidentified, rfl⟩, _,
      ⟨hused, rfl⟩, ?_⟩
    · push Not
      exact ⟨Bool.eq_false_iff.mp hidentified, hle, hlow, hlimit⟩
    · rw [hmax]
      omega
    · rw [hmax]
      change entryLast h i - entryFirst h i + 1 ≤ 2 ^ 64 - 1
      omega
    · rw [List.map_append] at hparts
      exact (haddition hle hlimit).mpr ⟨hacceptable, hparts⟩

def EmptyThrough (h : GptHeader) (slots : List Nat) : Prop :=
  ∀ i ∈ slots, allZero (entryType h i) = true → allZero (entryAt h i) = true

/-- The loop over the slots takes those in use, each apart from the earlier ones. -/
theorem addGptEntries_iff (hs : Standard h) (slots : List Nat)
    (hsub : (done ++ slots).Sublist (List.range h.entryCount))
    (hfits : Fits h done) (hapart : done.Pairwise (EntriesApart h)) :
    (addGptEntries (copyOf h) 1 slots (done.map (partOf h))).result image = .ok parts ↔
      EmptyThrough h slots ∧ Fits h (done ++ usedOf h slots) ∧
        (done ++ usedOf h slots).Pairwise (EntriesApart h) ∧
        parts = (done ++ usedOf h slots).map (partOf h) := by
  induction slots generalizing done with
  | nil =>
    simp only [addGptEntries, Probe.result_pure, Except.ok.injEq, EmptyThrough, usedOf,
      List.filter_nil, List.append_nil]
    constructor
    · exact fun heq => ⟨by simp, hfits, hapart, heq.symm⟩
    · exact fun hall => hall.2.2.2.symm
  | cons i rest ih =>
    have hi : i < h.entryCount := List.mem_range.mp (hsub.subset (by simp))
    obtain ⟨hheld, hwindow, -⟩ := hs.entry hi
    have hfield : ∀ {entry}, (PartitionTable.field (copyOf h).entries
        (i * (copyOf h).entrySize) (copyOf h).entrySize).result image = .ok entry ↔
        entry = entryAt h i := by
      intro entry
      rw [result_field, ← hwindow]
      exact and_iff_right hheld
    have hfold : window (entryAt h i) 0 16 = entryType h i := rfl
    simp only [addGptEntries, Probe.result_bind, hfield, exists_eq_left, hfold]
    by_cases hzero : allZero (entryType h i) = true
    · rw [if_pos hzero, usedOf_empty rest hzero, Probe.result_bind]
      have hskip := ((List.sublist_cons_self i rest).append_left done).trans hsub
      simp only [result_rejectIf, Bool.not_eq_false, exists_and_left, exists_const,
        ih hskip hfits hapart, EmptyThrough, List.forall_mem_cons, hzero,
        forall_const, and_assoc]
    · have hused := Bool.eq_false_iff.mpr hzero
      rw [if_neg hzero, usedOf_used rest hused, Probe.result_bind]
      rw [List.append_cons] at hsub
      have hstep : ∀ {partitions}, (addGptEntry (copyOf h) 1 i (entryAt h i)
          (done.map (partOf h))).result image = .ok partitions ↔ Fits h (done ++ [i]) ∧
            (done ++ [i]).Pairwise (EntriesApart h) ∧ partitions = (done ++ [i]).map (partOf h) :=
        addGptEntry_iff hs hused ((List.sublist_append_left _ _).trans hsub) hfits hapart
      have hempty : EmptyThrough h (i :: rest) ↔ EmptyThrough h rest := by
        simp [EmptyThrough, hused]
      rw [List.append_cons, hempty]
      constructor
      · rintro ⟨partitions, hadded, hloop⟩
        obtain ⟨hfits', hapart', hpartitions⟩ := hstep.mp hadded
        rw [hpartitions] at hloop
        exact (ih hsub hfits' hapart').mp hloop
      · rintro ⟨hthrough, hfits', hapart', hparts⟩
        have hsoFar := hapart'.sublist (List.sublist_append_left _ _)
        exact ⟨_, hstep.mpr ⟨hfits'.left, hsoFar, rfl⟩,
          (ih hsub hfits'.left hsoFar).mpr ⟨hthrough, hfits', hapart', hparts⟩⟩

theorem probe_array_iff (hs : Standard h) :
    (addGptEntries (copyOf h) 1 (List.range h.entryCount) []).result image = .ok parts ↔
      EmptyThrough h (List.range h.entryCount) ∧ Fits h (used h) ∧
        (used h).Pairwise (EntriesApart h) ∧ parts = (used h).map (partOf h) := by
  exact @addGptEntries_iff h image [] parts hs _ (List.Sublist.refl _) fits_nil List.Pairwise.nil

end Array

section Readers

variable {image : Image} {size : Int64} {sectors : Nat}

structure Booted (image : Image) : Prop where
  readable : image.failing 0 512 = false
  first : (sectorAt image 0).getD 510 0 = 0x55
  second : (sectorAt image 0).getD 511 0 = 0xaa

theorem sectorAt_zero : image.slice 0 logicalSectorBytes = sectorAt image 0 := by
  rw [sectorAt, Nat.zero_mul]

theorem sectorAt_length (lba : Nat) : (sectorAt image lba).length = 512 :=
  Image.length_slice _ _ _

theorem validateProtectiveMBR_iff (hsize : size.toInt = 512 * sectors) (hpos : 0 < sectors) :
    (validateProtectiveMBR size sectors).result image = .ok .valid ↔
      Booted image ∧ scanProtective (sectorAt image 0) sectors (List.range 4) 0 = .valid := by
  have hread : ∀ {data}, (readAt size 0 logicalSectorBytes).result image = .ok data ↔
      image.failing 0 512 = false ∧ data = sectorAt image 0 := by
    intro data
    rw [← sectorAt_zero]
    exact lab_read_iff (by unfold logicalSectorBytes; omega)
  simp only [validateProtectiveMBR, Probe.result_bind, hread]
  constructor
  · rintro ⟨mbr, ⟨hreadable, hmbr⟩, h⟩
    rw [hmbr] at h
    split at h
    · simp at h
    next hsignature =>
    push Not at hsignature
    simp only [Probe.result_pure, Except.ok.injEq] at h
    exact ⟨⟨hreadable, hsignature.1, hsignature.2⟩, h⟩
  · rintro ⟨hbooted, h⟩
    refine ⟨_, ⟨hbooted.readable, rfl⟩, ?_⟩
    rw [if_neg]
    · rw [h, Probe.result_pure]
    · push Not
      exact ⟨hbooted.first, hbooted.second⟩

variable {sha256 : Bytes → Bytes}

variable {partitions : List Partition}

structure StoredPair (image : Image) (sectors : Nat) : Prop where
  primary : Stored image 1 (sectorAt image 1)
  backup : Stored image (sectors - 1) (sectorAt image (sectors - 1))

/-- What the inspector calls valid, in the same terms. -/
theorem lab_iff (hsize : size.toInt = 512 * sectors) (h34 : 34 ≤ sectors) (hs : sectors < 2 ^ 54) :
    (∃ report, (inspect sha256 size).result image = .ok report ∧
      report.status = .valid ∧ report.partitions = partitions) ↔
    (Booted image ∧ scanProtective (sectorAt image 0) sectors (List.range 4) 0 = .valid) ∧
      StoredPair image sectors ∧
      LabPair (rawHeader image 1) (rawHeader image (sectors - 1)) sectors ∧
      parsePartitions sha256 (rawHeader image 1) = (partitions, []) := by
  have hdisk : diskSectors size = sectors := by
    unfold diskSectors
    omega
  have hlarge : 34 * 512 ≤ size.toInt := by omega
  have haligned : size.toInt % 512 = 0 := by omega
  simp only [← and_assoc, inspect_iff]
  simp only [and_assoc, hlarge, haligned, true_and, hdisk, exists_and_left]
  rw [inspectTable_iff, validateProtectiveMBR_iff hsize (by omega), and_assoc]
  simp only [lab_copy_iff hsize hs (show 1 < sectors by omega) rfl,
    lab_copy_iff hsize hs (show sectors - 1 < sectors by omega) rfl, rawHeader_eq]
  refine and_congr_right fun _ => and_congr_right fun _ => ?_
  constructor
  · rintro ⟨_, _, ⟨rfl, hp, hpg, hpb⟩, ⟨rfl, hb, hbg, hbb⟩, hagree, hparsed⟩
    exact ⟨⟨hp, hb⟩, ⟨hpg, hpb, hbg, hbb, hagree⟩, hparsed⟩
  · rintro ⟨hstored, hlab, hparsed⟩
    exact ⟨_, _, ⟨rfl, hstored.primary, hlab.primary, hlab.primaryBytes⟩,
      ⟨rfl, hstored.backup, hlab.backup, hlab.backupBytes⟩, hlab.agree, hparsed⟩

theorem window_two (s : Bytes) {i : Nat} (h : i + 2 ≤ s.length) (a b : UInt8) :
    window s i 2 = [a, b] ↔ s.getD i 0 = a ∧ s.getD (i + 1) 0 = b := by
  have h0 : i < s.length := by omega
  have h1 : i + 1 < s.length := by omega
  have hwindow : window s i 2 = [s[i], s[i + 1]] := by
    rw [window, List.drop_eq_getElem_cons h0, List.drop_eq_getElem_cons h1]
    rfl
  rw [hwindow]
  simp [List.getD, h0, h1]

theorem guid_length {lba : Nat} : (rawHeader image lba).diskGUID.length = 16 := by
  rw [rawHeader_eq]
  apply length_window
  rw [sectorAt_length]
  decide

theorem formatted_iff {h : GptHeader} (hlen : h.diskGUID.length = 16) {text : Bytes} :
    (formatGptGuid (copyOf h).diskGuid).result image = .ok text ↔
      allZero h.diskGUID = false ∧ text = guidText h.diskGUID :=
  formatGptGuid_iff hlen

/-- What the probe accepts, down to the slots of its array. -/
theorem probe_iff (h68 : 68 ≤ sectors) (hs : sectors < 2 ^ 54) {table : Table} :
    (parseGpt (512 * sectors) 512).result image = .ok table ↔
    (Booted image ∧ (countProtective (sectorAt image 0) (sectors - 1) (List.range 4) 0).result
      image = .ok 1) ∧ StoredPair image sectors ∧
      ProbePair (rawHeader image 1) (rawHeader image (sectors - 1)) sectors ∧
      ∃ parts, (addGptEntries (copyOf (rawHeader image 1)) 1
        (List.range (rawHeader image 1).entryCount) []).result image = .ok parts ∧
        table = ⟨ascii "gpt", guidText (rawHeader image 1).diskGUID, parts⟩ := by
  have hlbas : 512 * sectors / 512 = sectors := by omega
  have hmax : maxInt64 = 2 ^ 63 - 1 := rfl
  have hread : ∀ {data}, (readExact (512 * sectors) 0 512 512).result image = .ok data ↔
      image.failing 0 512 = false ∧ data = sectorAt image 0 := by
    intro data
    rw [result_readExact, ← sectorAt_zero]
    constructor
    · exact fun h => ⟨h.2.2.2.1, h.2.2.2.2⟩
    · exact fun h => ⟨by omega, by omega, le_refl _, h⟩
  have hcopy : ∀ {lba alternate copy}, lba < sectors →
      ((readGptCopy (512 * sectors) 512 sectors lba alternate).result image = .ok copy ↔
        copy = copyOf (rawHeader image lba) ∧ Stored image lba (sectorAt image lba) ∧
          ProbeGeometry (rawHeader image lba) sectors lba alternate) := by
    intro lba alternate copy hlba
    rw [rawHeader_eq]
    exact probe_copy_iff hs hlba rfl
  have hguid : ∀ {text}, (formatGptGuid (copyOf (rawHeader image 1)).diskGuid).result image =
      .ok text ↔ allZero (rawHeader image 1).diskGUID = false ∧
        text = guidText (rawHeader image 1).diskGUID := formatted_iff guid_length
  have hsignature := window_two (sectorAt image 0) (i := 510)
    (by rw [sectorAt_length]) 0x55 0xaa
  simp only [parseGpt, Probe.result_bind, result_rejectIf, Probe.result_pure, Except.ok.injEq,
    hlbas, hread, hcopy (show 1 < sectors by omega), hcopy (show sectors - 1 < sectors by omega),
    result_field]
  -- the headers are kept closed: their fields are words of a sector
  generalize rawHeader image 1 = p at hguid ⊢
  generalize rawHeader image (sectors - 1) = b
  constructor
  · rintro ⟨_, -, _, -, mbr, ⟨hreadable, hmbr⟩, signature, ⟨-, hbytes⟩, _, hmarked, count, hcounted,
      _, hone, primary, ⟨hprimary, hpstored, hpg⟩, backup, ⟨hbackup, hbstored, hbg⟩, _, hagree, id,
      hid, parts, hparts, htable⟩
    rw [hmbr] at hbytes hcounted
    rw [hbytes, not_not, hsignature] at hmarked
    rw [not_not] at hone
    rw [hone] at hcounted
    rw [hprimary] at hagree hid hparts
    rw [hbackup] at hagree
    obtain ⟨-, hid⟩ := hguid.mp hid
    exact ⟨⟨⟨hreadable, hmarked.1, hmarked.2⟩, hcounted⟩, ⟨hpstored, hbstored⟩,
      ⟨hpg, hbg, hagree⟩, parts, hparts, by rw [← htable, hid]⟩
  · rintro ⟨⟨hbooted, hcounted⟩, hstored, hpair, parts, hparts, htable⟩
    refine ⟨(), by omega, (), by omega, _, ⟨hbooted.readable, rfl⟩, _,
      ⟨by rw [sectorAt_length], rfl⟩, (), ?_, 1, hcounted, (), by decide, _,
      ⟨rfl, hstored.primary, hpair.primary⟩, _, ⟨rfl, hstored.backup, hpair.backup⟩, (),
      hpair.agree, _, hguid.mpr ⟨hpair.primary.identified, rfl⟩, parts, hparts, htable.symm⟩
    rw [not_not, hsignature]
    exact ⟨hbooted.first, hbooted.second⟩

def labRow (p : Partition) : Nat × Nat × Nat × Bytes :=
  (p.number, p.firstLBA, p.lastLBA, p.typeGUID)

def probeRow (p : PartitionEntry) : Nat × Nat × Nat × Bytes :=
  (p.number, p.start512, p.start512 + p.size512 - 1, p.typeId)

theorem rows_eq {h : GptHeader} (hfits : Fits h (used h)) :
    ((used h).map (partOf h)).map probeRow =
      ((used h).map (described sha256 h)).map labRow := by
  rw [List.map_map, List.map_map]
  apply List.map_congr_left
  intro i hi
  have hbounds := hfits.bounds i hi
  simp only [Function.comp_apply, probeRow, labRow, partOf, described, formatGUID_eq,
    Prod.mk.injEq, true_and, and_true]
  omega

theorem headerOf_held (image : Image) (buffer : Bytes) :
    (headerOf image buffer).entries.length =
      (headerOf image buffer).entryCount * (headerOf image buffer).entrySize :=
  Image.length_slice _ _ _

theorem standard_of {lba : Nat} (hsize : (rawHeader image lba).entrySize = 128)
    (hcount : (rawHeader image lba).entryCount ≤ 128)
    (hhigh : (rawHeader image lba).lastUsableLBA < 2 ^ 54) : Standard (rawHeader image lba) := by
  rw [rawHeader_eq] at *
  exact ⟨hsize, hcount, headerOf_held _ _, hhigh⟩

theorem stored_header {lba : Nat} (hstored : Stored image lba (sectorAt image lba)) :
    (rawHeader image lba).revision = 0x00010000 ∧ (rawHeader image lba).currentLBA = lba := by
  rw [rawHeader_eq]
  exact ⟨hstored.revision, hstored.current⟩

theorem readers_iff (hsize : size.toInt = 512 * sectors) (h68 : 68 ≤ sectors)
    (hs : sectors < 2 ^ 54) (hcount : (rawHeader image 1).entryCount ≤ 128) :
    (∃ table, (parseGpt (512 * sectors) 512).result image = .ok table) ↔
      (∃ report, (inspect sha256 size).result image = .ok report ∧ report.status = .valid) ∧
        (∀ i < 4, PlainSlot (sectorAt image 0) i) ∧ (rawHeader image 1).entrySize = 128 ∧
        EmptyThrough (rawHeader image 1) (List.range (rawHeader image 1).entryCount) := by
  have hlab : (∃ report, (inspect sha256 size).result image = .ok report ∧
      report.status = .valid) ↔ ∃ partitions report,
        (inspect sha256 size).result image = .ok report ∧ report.status = .valid ∧
          report.partitions = partitions := by
    constructor
    · exact fun ⟨report, h, hvalid⟩ => ⟨report.partitions, report, h, hvalid, rfl⟩
    · exact fun ⟨partitions, report, h, hvalid, _⟩ => ⟨report, h, hvalid⟩
  rw [hlab]
  simp only [lab_iff hsize (by omega) hs, probe_iff h68 hs, protective_iff h68 (sectorAt_length 0)]
  constructor
  · rintro ⟨table, ⟨hbooted, hscan, hplain⟩, hstored, hpair, parts, hparts, -⟩
    have hhigh := hpair.primary.high
    have hstandard := standard_of hpair.primary.standard hcount (by omega)
    obtain ⟨hempty, hfits, hapart, -⟩ := (probe_array_iff hstandard).mp hparts
    have hparsed := (@parsePartitions_iff sha256 _ hstandard.high _).mpr ⟨hfits, hapart, rfl⟩
    have hlabs := hpair.lab h68 hs (stored_header hstored.primary) (stored_header hstored.backup)
      hcount
    exact ⟨⟨_, ⟨hbooted, hscan⟩, hstored, hlabs, hparsed⟩, hplain, hstandard.size, hempty⟩
  · rintro ⟨⟨partitions, ⟨hbooted, hscan⟩, hstored, hlabs, hparsed⟩, hplain, hentry, hempty⟩
    have hhigh := (validHeaderGeometry_placed hlabs.primary).high
    have hstandard := standard_of hentry hcount (by omega)
    obtain ⟨hfits, hapart, -⟩ := (parsePartitions_iff hstandard.high).mp hparsed
    exact ⟨_, ⟨hbooted, hscan, hplain⟩, hstored, hlabs.probe h68 hs hentry, _,
      (probe_array_iff hstandard).mpr ⟨hempty, hfits, hapart, rfl⟩, rfl⟩

theorem rows_agree (hsize : size.toInt = 512 * sectors) (h68 : 68 ≤ sectors)
    (hs : sectors < 2 ^ 54) (hcount : (rawHeader image 1).entryCount ≤ 128) {table : Table}
    {report : Report} (hprobe : (parseGpt (512 * sectors) 512).result image = .ok table)
    (hinspect : (inspect sha256 size).result image = .ok report) (hvalid : report.status = .valid) :
    (table.partitions.map probeRow).Perm (report.partitions.map labRow) := by
  obtain ⟨-, -, hpair, parts, hparts, htable⟩ := (probe_iff h68 hs).mp hprobe
  obtain ⟨-, -, -, hparsed⟩ := (lab_iff hsize (by omega) hs).mp ⟨report, hinspect, hvalid, rfl⟩
  have hhigh := hpair.primary.high
  have hstandard := standard_of hpair.primary.standard hcount (by omega)
  obtain ⟨-, hfits, -, hrows⟩ := (probe_array_iff hstandard).mp hparts
  obtain ⟨-, -, hsorted⟩ := (parsePartitions_iff hstandard.high).mp hparsed
  rw [htable, hrows, rows_eq hfits, hsorted]
  exact ((List.perm_insertionSort _ _).map labRow).symm

/-- The probe accepts exactly the tables the inspector calls valid on a disk of sixty-eight
sectors with a plain boot record, standard entries and slots that are empty all through; and
they report the same partitions. -/
theorem gpt_readers_agree (sha256 : Bytes → Bytes) (image : Image) (size : Int64)
    (hpositive : 0 < size.toInt) (haligned : size.toInt % 512 = 0)
    (hcount : (rawHeader image 1).entryCount ≤ 128) :
    ((∃ table, (parseGpt size.toInt.toNat 512).result image = .ok table) ↔
      (∃ report, (inspect sha256 size).result image = .ok report ∧ report.status = .valid) ∧
        68 ≤ diskSectors size ∧ (∀ i < 4, PlainSlot (sectorAt image 0) i) ∧
        (rawHeader image 1).entrySize = 128 ∧
        EmptyThrough (rawHeader image 1) (List.range (rawHeader image 1).entryCount)) ∧
      ∀ table report, (parseGpt size.toInt.toNat 512).result image = .ok table →
        (inspect sha256 size).result image = .ok report → report.status = .valid →
        (table.partitions.map probeRow).Perm (report.partitions.map labRow) := by
  have hsize : size.toInt = 512 * (diskSectors size : Nat) := by
    unfold diskSectors
    omega
  have hbytes : size.toInt.toNat = 512 * diskSectors size := by omega
  have hs := diskSectors_lt size
  rw [hbytes]
  by_cases h68 : 68 ≤ diskSectors size
  · constructor
    · rw [readers_iff hsize h68 hs hcount]
      exact and_congr_right fun _ => (and_iff_right h68).symm
    · intro table report hprobe hinspect hvalid
      exact rows_agree hsize h68 hs hcount hprobe hinspect hvalid
  · have hrefused : ∀ table, (parseGpt (512 * diskSectors size) 512).result image ≠ .ok table := by
      intro table h
      simp only [parseGpt, Probe.result_bind, result_rejectIf] at h
      obtain ⟨_, -, _, hsmall, -⟩ := h
      omega
    constructor
    · constructor
      · exact fun ⟨table, h⟩ => absurd h (hrefused table)
      · exact fun h => absurd h.2.1 h68
    · intro table _ h
      exact absurd h (hrefused table)

def demoEntry : Bytes :=
  toBytes 16 0x0f1e2d3c4b5a69788796a5b4c3d2e1f0 ++ toBytes 16 1 ++ toBytes 8 4 ++ toBytes 8 9 ++
    toBytes 80 0

def demoHeader (current backup entriesLBA crc : Nat) : Bytes :=
  ascii "EFI PART" ++ toBytes 4 0x10000 ++ toBytes 4 92 ++ toBytes 4 crc ++ toBytes 4 0 ++
    toBytes 8 current ++ toBytes 8 backup ++ toBytes 8 3 ++ toBytes 8 31 ++ toBytes 16 7 ++
    toBytes 8 entriesLBA ++ toBytes 4 1 ++ toBytes 4 128 ++ toBytes 4 (crc32 demoEntry)

def sampleImage : Image :=
  let primary := demoHeader 1 67 2
  let backup := demoHeader 67 1 66
  .written [(446, [0, 0, 2, 0, 0xee, 0, 0, 0, 1, 0, 0, 0, 67, 0, 0, 0]), (510, [0x55, 0xaa]),
    (512, primary (crc32 (primary 0))), (1024, demoEntry),
    (33792, demoEntry), (34304, backup (crc32 (backup 0)))]

theorem sampleImage_valid : ∃ report, (inspect id 34816).result sampleImage = .ok report ∧
    report.status = .valid := by
  have hstatus : ((inspect id 34816).result sampleImage).map (fun report => report.status) =
      .ok .valid := by decide +kernel
  cases hresult : (inspect id 34816).result sampleImage with
  | error e => simp [hresult, Except.map] at hstatus
  | ok report => exact ⟨report, rfl, by simpa [hresult, Except.map] using hstatus⟩

theorem sampleImage_plain : (∀ i < 4, PlainSlot (sectorAt sampleImage 0) i) ∧
    (rawHeader sampleImage 1).entryCount = 1 ∧ (rawHeader sampleImage 1).entrySize = 128 ∧
    allZero (entryType (rawHeader sampleImage 1) 0) = false := by decide +kernel

theorem sampleImage_accepted : (rawHeader sampleImage 1).entryCount = 1 ∧
    ∃ table, (parseGpt (34816 : Int64).toInt.toNat 512).result sampleImage = .ok table := by
  obtain ⟨hplain, hcount, hentry, hused⟩ := sampleImage_plain
  refine ⟨hcount, (gpt_readers_agree id sampleImage 34816 (by decide) (by decide)
    (by rw [hcount]; decide)).1.mpr ⟨sampleImage_valid, by decide, hplain, hentry, ?_⟩⟩
  intro i hi hzero
  rw [hcount, List.mem_range, Nat.lt_one_iff] at hi
  rw [hi, hused] at hzero
  cases hzero

end Readers

end GptAgreement
