import PhantoWD.BlockTopology
import PhantoWD.GoJson
import PhantoWD.TextFields

/-!
`parseMDStat` reads `/proc/mdstat`: a header line per array, and lines behind it that may state
device counts, member slots and a running synchronisation. Whatever a text does not state keeps
a default.
-/
namespace MdStat

open GoText GoJson
open TextFields (cut)
open BlockTopology (validBlockName)

def maxMDArrayEntries : Nat := 16
def maxMDMemberEntries : Nat := 32
def maxMDStatLineBytes : Nat := 4096
def maxProcBytes : Nat := 64 * 1024

inductive MemberState where
  | active
  | spare
  | faulty
  deriving DecidableEq

structure Member where
  name : Bytes
  state : MemberState
  deriving DecidableEq

/-- A percentage is only carried along. The two ways to get one are the standard library's: the
decimal text of a number from zero to a hundred, and the share of a count in a total. -/
structure Percentages where
  Percent : Type
  parse : Bytes → Option Percent
  ratio : Nat → Nat → Option Percent

section Records

variable (P : Percentages)

structure Record where
  name : Bytes
  state : Bytes := []
  level : Bytes := []
  expectedDevices : Nat := 0
  activeDevices : Nat := 0
  countsKnown : Bool := false
  members : List Member := []
  syncAction : Bytes := []
  syncProgress : Option P.Percent := none
  memberSlots : Bytes := []

end Records

def digits (s : Bytes) : Bool := (runes s).all fun c => 0x30 ≤ c && c ≤ 0x39

def validMDName (name : Bytes) : Bool :=
  validBlockName name &&
    if (ascii "md_d").isPrefixOf name then name.drop 4 != [] && digits (name.drop 4)
    else (ascii "md").isPrefixOf name && name.drop 2 != [] && digits (name.drop 2)

def levels : List Bytes :=
  [ascii "linear", ascii "multipath", ascii "faulty", ascii "container", ascii "raid0",
    ascii "raid1", ascii "raid4", ascii "raid5", ascii "raid6", ascii "raid10"]

def validMDLevel (level : Bytes) : Bool := levels.contains level

def parseUint32 (s : Bytes) : Option Nat := (parseUint s).filter (· < 2 ^ 32)

/-- `name[index]` with an optional mark. A field without a bracket is no member. -/
def parseMDStatMember (field : Bytes) : Option (Option Member) :=
  match cut 0x5b field.reverse with
  | none => some none
  | some (back, front) =>
    match cut 0x5d back.reverse with
    | none => none
    | some (index, suffix) =>
      if validBlockName front.reverse = false then none
      else if (parseUint32 index).isNone then none
      else if suffix = [] ∨ suffix = ascii "(A)" then some (some ⟨front.reverse, .active⟩)
      else if suffix = ascii "(S)" then some (some ⟨front.reverse, .spare⟩)
      else if suffix = ascii "(F)" then some (some ⟨front.reverse, .faulty⟩)
      else none

def parseMembers : List Bytes → Option (List Member)
  | [] => some []
  | field :: rest =>
    match parseMDStatMember field, parseMembers rest with
    | some (some member), some members => some (member :: members)
    | some none, some members => some members
    | _, _ => none

def bracketed (field : Bytes) : Option Bytes :=
  if field.head? = some 0x5b ∧ field.getLast? = some 0x5d then some (field.drop 1).dropLast
  else none

def parseMDDeviceCounts (field : Bytes) : Option (Option (Nat × Nat)) :=
  if field.length < 5 then some none
  else
    match bracketed field with
    | none => some none
    | some inside =>
      match split inside 0x2f with
      | [first, second] =>
        match parseUint32 first, parseUint32 second with
        | some expected, some active =>
          if expected = 0 ∨ maxMDMemberEntries < expected then none
          else some (some (expected, active))
        | _, _ => none
      | _ => some none

def parseMDMemberSlots (field : Bytes) : Option Bytes :=
  if field.length < 3 then none
  else
    (bracketed field).filter fun slots =>
      slots ≠ [] ∧ (runes slots).all fun slot => slot == 0x55 || slot == 0x5f

def after (marker : Bytes) : Bytes → Option Bytes
  | [] => if marker = [] then some [] else none
  | b :: rest =>
    if marker.isPrefixOf (b :: rest) then some ((b :: rest).drop marker.length)
    else after marker rest

def syncActions : List Bytes :=
  [ascii "resync", ascii "recovery", ascii "reshape", ascii "check", ascii "repair"]

section Parser

variable (P : Percentages)

def parseMDSyncProgress (line : Bytes) :
    List Bytes → Option (Option (Bytes × Option P.Percent))
  | [] => some none
  | action :: rest =>
    match after (action ++ ascii " =") line with
    | none => parseMDSyncProgress line rest
    | some text =>
      match fields text with
      | [] => none
      | word :: _ =>
        if equalFold word (ascii "DELAYED") then some (some (action, none))
        else if word.getLast? ≠ some 0x25 then none
        else (P.parse word.dropLast).map fun progress => some (action, some progress)

def setCounts (record : Record P) : Option (Nat × Nat) → Option (Record P)
  | none => some record
  | some (expected, active) =>
    if record.countsKnown ∧
        (record.expectedDevices ≠ expected ∨ record.activeDevices ≠ active) then none
    else some { record with
      expectedDevices := expected, activeDevices := active, countsKnown := true }

def setSlots (record : Record P) : Option Bytes → Option (Record P)
  | none => some record
  | some slots =>
    if record.memberSlots ≠ [] ∧ record.memberSlots ≠ slots then none
    else some { record with memberSlots := slots }

def parseDetail (record : Record P) (field : Bytes) : Option (Record P) := do
  let counts ← parseMDDeviceCounts field
  let record ← setCounts P record counts
  setSlots P record (parseMDMemberSlots field)

def parseDetails (record : Record P) : List Bytes → Option (Record P)
  | [] => some record
  | field :: rest =>
    match parseDetail P record field with
    | none => none
    | some record => parseDetails record rest

def skipMark : List Bytes → List Bytes
  | [] => []
  | mark :: rest =>
    if mark.head? = some 0x28 ∧ mark.getLast? = some 0x29 then rest else mark :: rest

def takeLevel : List Bytes → Bytes × List Bytes
  | [] => (ascii "unknown", [])
  | word :: rest =>
    if validMDLevel word then (word, rest) else (ascii "unknown", word :: rest)

def parseHeader (records : List (Record P)) (name : Bytes) :
    List Bytes → Option (List (Record P))
  | [] => none
  | state :: rest =>
    if validMDName name = false then none
    else if (records.map Record.name).contains name ∨ maxMDArrayEntries ≤ records.length then none
    else if state ≠ ascii "active" ∧ state ≠ ascii "inactive" then none
    else
      match parseMembers (takeLevel (skipMark rest)).2 with
      | none => none
      | some members =>
        if maxMDMemberEntries < members.length then none
        else some (records ++ [{
          name := name, state := state, level := (takeLevel (skipMark rest)).1,
          syncAction := ascii "idle", members := members }])

def parseBody (records : List (Record P)) (line : Bytes) : Option (List (Record P)) :=
  match records.getLast? with
  | none => some records
  | some record =>
    match parseDetails P record (fields line) with
    | none => none
    | some record =>
      match parseMDSyncProgress P line syncActions with
      | none => none
      | some none => some (records.dropLast ++ [record])
      | some (some (action, progress)) =>
        some (records.dropLast ++ [{ record with syncAction := action, syncProgress := progress }])

def parseLine (records : List (Record P)) (line : Bytes) : Option (List (Record P)) :=
  if maxMDStatLineBytes < line.length then none
  else
    match fields line with
    | name :: colon :: rest =>
      if colon = ascii ":" ∧ (ascii "md").isPrefixOf name then parseHeader P records name rest
      else parseBody P records line
    | _ => parseBody P records line

def parseLines (records : List (Record P)) : List Bytes → Option (List (Record P))
  | [] => some records
  | line :: rest =>
    match parseLine P records line with
    | none => none
    | some records => parseLines records rest

def wellCounted (record : Record P) : Bool :=
  !(record.countsKnown && record.expectedDevices < record.activeDevices) &&
    !(record.memberSlots != [] && record.countsKnown &&
      record.memberSlots.length != record.expectedDevices) &&
    !(record.memberSlots != [] && record.countsKnown &&
      record.memberSlots.count 0x55 != record.activeDevices)

def parseMDStat (data : Bytes) : Option (List (Record P)) :=
  if maxProcBytes < data.length then none
  else
    match parseLines P [] (split data 0x0a) with
    | none => none
    | some records => if records.all (wellCounted P) then some records else none

end Parser

section Parsed

variable {P : Percentages}

structure Headed (r : Record P) : Prop where
  name : validMDName r.name = true
  state : r.state = ascii "active" ∨ r.state = ascii "inactive"
  level : r.level = ascii "unknown" ∨ validMDLevel r.level = true
  members : ∀ m ∈ r.members, validBlockName m.name = true
  few : r.members.length ≤ maxMDMemberEntries
  action : r.syncAction ∈ ascii "idle" :: syncActions

structure SameHeader (r t : Record P) : Prop where
  name : t.name = r.name
  state : t.state = r.state
  level : t.level = r.level
  members : t.members = r.members
  action : t.syncAction = r.syncAction

variable {r t : Record P}

theorem SameHeader.trans {u : Record P} (h : SameHeader r t) (h' : SameHeader t u) :
    SameHeader r u :=
  ⟨h'.name.trans h.name, h'.state.trans h.state, h'.level.trans h.level,
    h'.members.trans h.members, h'.action.trans h.action⟩

theorem SameHeader.headed (h : SameHeader r t) (hr : Headed r) : Headed t :=
  ⟨h.name ▸ hr.name, h.state ▸ hr.state, h.level ▸ hr.level, h.members ▸ hr.members,
    h.members ▸ hr.few, h.action ▸ hr.action⟩

theorem parseMDStatMember_name {field : Bytes} {m : Member}
    (h : parseMDStatMember field = some (some m)) : validBlockName m.name = true := by
  rw [parseMDStatMember] at h
  cases hopen : cut 0x5b field.reverse with
  | none => simp [hopen] at h
  | some parts =>
    simp only [hopen] at h
    cases hclose : cut 0x5d parts.1.reverse with
    | none => simp [hclose] at h
    | some inner =>
      simp only [hclose] at h
      split_ifs at h with hname
      all_goals
        cases h
        simpa using hname

theorem parseMembers_name {words : List Bytes} {members : List Member}
    (h : parseMembers words = some members) : ∀ m ∈ members, validBlockName m.name = true := by
  induction words generalizing members with
  | nil =>
    cases h
    simp
  | cons word rest ih =>
    rw [parseMembers] at h
    cases hword : parseMDStatMember word with
    | none => simp [hword] at h
    | some found =>
      cases hrest : parseMembers rest with
      | none => cases found <;> simp [hword, hrest] at h
      | some more =>
        cases found with
        | none =>
          simp only [hword, hrest, Option.some.injEq] at h
          exact h ▸ ih hrest
        | some m =>
          simp only [hword, hrest, Option.some.injEq] at h
          rw [← h, List.forall_mem_cons]
          exact ⟨parseMDStatMember_name hword, ih hrest⟩

theorem setCounts_header {counts : Option (Nat × Nat)} (h : setCounts P r counts = some t) :
    SameHeader r t := by
  rw [setCounts.eq_def] at h
  split at h
  · cases h
    exact ⟨rfl, rfl, rfl, rfl, rfl⟩
  · split_ifs at h
    cases h
    exact ⟨rfl, rfl, rfl, rfl, rfl⟩

theorem setSlots_header {slots : Option Bytes} (h : setSlots P r slots = some t) :
    SameHeader r t := by
  rw [setSlots.eq_def] at h
  split at h
  · cases h
    exact ⟨rfl, rfl, rfl, rfl, rfl⟩
  · split_ifs at h
    cases h
    exact ⟨rfl, rfl, rfl, rfl, rfl⟩

theorem parseDetail_header {field : Bytes} (h : parseDetail P r field = some t) :
    SameHeader r t := by
  simp only [parseDetail, Option.bind_eq_bind, Option.bind_eq_some_iff] at h
  obtain ⟨counts, -, counted, hcounted, hslots⟩ := h
  exact (setCounts_header hcounted).trans (setSlots_header hslots)

theorem parseDetails_header {words : List Bytes} (h : parseDetails P r words = some t) :
    SameHeader r t := by
  induction words generalizing r with
  | nil =>
    cases h
    exact ⟨rfl, rfl, rfl, rfl, rfl⟩
  | cons word rest ih =>
    rw [parseDetails] at h
    split at h
    · cases h
    · rename_i found hfound
      exact (parseDetail_header hfound).trans (ih h)

theorem parseMDSyncProgress_action {line : Bytes} {actions : List Bytes} {action : Bytes}
    {progress : Option P.Percent}
    (h : parseMDSyncProgress P line actions = some (some (action, progress))) :
    action ∈ actions := by
  induction actions with
  | nil => cases h
  | cons first rest ih =>
    rw [parseMDSyncProgress] at h
    split at h
    · exact List.mem_cons_of_mem _ (ih h)
    · split at h
      · cases h
      · split_ifs at h
        · cases h
          exact List.mem_cons_self
        · obtain ⟨percent, -, heq⟩ := Option.map_eq_some_iff.mp h
          cases heq
          exact List.mem_cons_self

structure Sound (records : List (Record P)) : Prop where
  headed : ∀ r ∈ records, Headed r
  names : (records.map Record.name).Nodup
  few : records.length ≤ maxMDArrayEntries

theorem sound_nil : Sound ([] : List (Record P)) := ⟨by simp, .nil, by simp⟩

theorem takeLevel_level (words : List Bytes) :
    (takeLevel words).1 = ascii "unknown" ∨ validMDLevel (takeLevel words).1 = true := by
  cases words with
  | nil => exact .inl rfl
  | cons word rest =>
    rw [takeLevel]
    split_ifs with hlevel
    · exact .inr hlevel
    · exact .inl rfl

variable {records out : List (Record P)}

theorem parseHeader_sound {name : Bytes} {rest : List Bytes}
    (h : parseHeader P records name rest = some out) (hs : Sound records) : Sound out := by
  cases rest with
  | nil => cases h
  | cons state more =>
    rw [parseHeader] at h
    split_ifs at h with hname hnew hstate
    split at h
    · cases h
    · rename_i members hmembers
      split_ifs at h with hfew
      cases h
      simp only [not_or, List.contains_eq_mem, decide_eq_true_eq, Nat.not_le] at hnew
      constructor
      · intro r hr
        rcases List.mem_append.mp hr with hr | hr
        · exact hs.headed r hr
        · rw [List.mem_singleton.mp hr]
          refine ⟨by simpa using hname, ?_, takeLevel_level _, parseMembers_name hmembers,
            Nat.not_lt.mp hfew, List.mem_cons_self⟩
          simpa only [not_and_or, ne_eq, Decidable.not_not] using hstate
      · rw [List.map_append, List.nodup_append_comm]
        exact List.nodup_cons.mpr ⟨hnew.1, hs.names⟩
      · simpa using hnew.2

theorem Sound.replace (hs : Sound records) (hlast : records.getLast? = some r)
    (hname : t.name = r.name) (ht : Headed t) :
    Sound (records.dropLast ++ [t]) := by
  have hsplit : records = records.dropLast ++ [r] := by
    obtain ⟨init, rfl⟩ := List.getLast?_eq_some_iff.mp hlast
    simp
  constructor
  · intro x hx
    rcases List.mem_append.mp hx with hx | hx
    · exact hs.headed x (List.mem_of_mem_dropLast hx)
    · rw [List.mem_singleton.mp hx]
      exact ht
  · have hnames := hs.names
    rw [hsplit] at hnames
    simpa [hname] using hnames
  · have hfew := hs.few
    rw [hsplit] at hfew
    simpa using hfew

theorem parseBody_sound {line : Bytes} (h : parseBody P records line = some out)
    (hs : Sound records) : Sound out := by
  rw [parseBody] at h
  split at h
  · cases h
    exact hs
  · rename_i r hlast
    split at h
    · cases h
    · rename_i t hdetails
      have hsame := parseDetails_header hdetails
      have hheaded := hsame.headed (hs.headed r (List.mem_of_getLast? hlast))
      split at h
      · cases h
      · cases h
        exact hs.replace hlast hsame.name hheaded
      · rename_i action progress haction
        cases h
        exact hs.replace hlast hsame.name ⟨hheaded.name, hheaded.state, hheaded.level,
          hheaded.members, hheaded.few,
          List.mem_cons_of_mem _ (parseMDSyncProgress_action haction)⟩

theorem parseLine_sound {line : Bytes} (h : parseLine P records line = some out)
    (hs : Sound records) : Sound out := by
  rw [parseLine] at h
  split_ifs at h
  split at h
  · split_ifs at h
    · exact parseHeader_sound h hs
    · exact parseBody_sound h hs
  · exact parseBody_sound h hs

theorem parseLines_sound {lines : List Bytes} (h : parseLines P records lines = some out)
    (hs : Sound records) : Sound out := by
  induction lines generalizing records with
  | nil =>
    cases h
    exact hs
  | cons line rest ih =>
    rw [parseLines] at h
    split at h
    · cases h
    · rename_i found hline
      exact ih h (parseLine_sound hline hs)

theorem parseMDStat_sound {data : Bytes} (h : parseMDStat P data = some records) :
    Sound records ∧ (∀ r ∈ records, wellCounted P r = true) ∧ data.length ≤ maxProcBytes := by
  rw [parseMDStat] at h
  split_ifs at h with hsize
  split at h
  · cases h
  · rename_i found hlines
    split_ifs at h with hcounted
    cases h
    exact ⟨parseLines_sound hlines sound_nil, List.all_eq_true.mp hcounted, Nat.not_lt.mp hsize⟩

end Parsed

end MdStat
