import PhantoWD.GoUtf8
import PhantoWD.ServicePreview
import PhantoWD.TextFields

/-!
The preview writes one section per share. Read with the grammar it is written in, the text gives
back the shares in the order of their IDs, and nothing of a name, a path or a user becomes a
line, a section or a key of its own.
-/
namespace SambaSections

open GoText ShareConfig KeyedLists PolicyOrder ServicePreview TextFields
open SmbConfig (BuildError mountPath)

structure VolumeRequirement where
  volumeID : Bytes
  filesystemUUID : Bytes
  mountPath : Bytes
  deriving DecidableEq

structure Preview where
  schemaVersion : Int
  revision : UInt64
  volumes : List VolumeRequirement
  shares : List SharePreview
  sections : Bytes
  deriving DecidableEq

def requirement (c : Config) (id : Bytes) : VolumeRequirement :=
  ((lookup Volume.id c.volumes.items id).map fun v =>
    ⟨v.id, v.filesystemUUID, SmbConfig.mountPath v.id⟩).getD ⟨[], [], []⟩

def usedVolumes (c : Config) : List Bytes := (c.shares.items.map Share.volumeID).dedup

def isolate (p : SharePreview) : SharePreview := { p with path := ascii "/shares/" ++ p.id }

def sharePreviews (s : Sorter) (c : Config) (isolated : Bool) : List SharePreview :=
  let shares := s.run SharePreview.id (c.shares.items.map (sharePreview s c))
  if isolated then shares.map isolate else shares

def sectionsOf (s : Sorter) (shares : List SharePreview) : Bytes :=
  ascii "# PhantoWD candidate share sections; not an activation authorization.\n" ++
    ascii "# Verify filesystem identity, mount containment, accounts and POSIX ACLs first.\n" ++
    shares.flatMap (SharePreview.section s)

def build (s : Sorter) (c : Config) (isolated : Bool) : Except BuildError Preview :=
  match SmbConfig.build c isolated with
  | .error e => .error e
  | .ok _ => .ok {
      schemaVersion := 1
      revision := c.revision
      volumes := s.run VolumeRequirement.volumeID ((usedVolumes c).map (requirement c))
      shares := sharePreviews s c isolated
      sections := sectionsOf s (sharePreviews s c isolated) }

structure Section where
  name : Bytes
  keys : List (Bytes × Bytes)
  deriving DecidableEq

def indent : Bytes := ascii "    "

def readKey (line : Bytes) : Option (Bytes × Bytes) :=
  if indent.isPrefixOf line = false then none
  else
    match cut 0x3d (line.drop indent.length) with
    | none => none
    | some (key, value) =>
      if key.getLast? = some 0x20 ∧ value.head? = some 0x20 then some (key.dropLast, value.tail)
      else none

def readLines : List Bytes → Option (List (Bytes × Bytes) × List Section)
  | [] => some ([], [])
  | line :: rest =>
    match readLines rest with
    | none => none
    | some (keys, sections) =>
      if line = [] ∨ line.head? = some 0x23 then some (keys, sections)
      else if line.head? = some 0x5b ∧ line.getLast? = some 0x5d then
        some ([], ⟨line.tail.dropLast, keys⟩ :: sections)
      else (readKey line).map fun key => (key :: keys, sections)

/-- A key outside every section is an error. -/
def read (text : Bytes) : Option (List Section) :=
  match readLines (split text 0x0a) with
  | some ([], sections) => some sections
  | _ => none

def keyNames : List Bytes :=
  [ascii "path", ascii "guest ok", ascii "guest only", ascii "read only", ascii "browseable",
    ascii "valid users", ascii "read list", ascii "write list", ascii "wide links",
    ascii "follow symlinks", ascii "create mask", ascii "directory mask"]

def keys (s : Sorter) (p : SharePreview) : List (Bytes × Bytes) :=
  keyNames.zip [p.path, ascii "no", ascii "no", ascii "yes", ascii "yes",
    words (s.strings (p.readOnly ++ p.readWrite)), words p.readOnly, words p.readWrite,
    ascii "no", ascii "no", ascii "0660", ascii "0770"]

def keyLine (k : Bytes × Bytes) : Bytes := indent ++ (k.1 ++ 0x20 :: 0x3d :: 0x20 :: k.2)

def sectionLines (s : Sorter) (p : SharePreview) : List Bytes :=
  [] :: (0x5b :: (p.name ++ [0x5d])) :: (keys s p).map keyLine

theorem fixed_text : ascii "\n[" = [0x0a, 0x5b] ∧
    ascii "]\n    path = " = 0x5d :: 0x0a :: keyLine (ascii "path", []) ∧
    ascii "\n    guest ok = no\n    guest only = no\n    read only = yes\n    browseable = yes\n" =
      0x0a :: unlines 0x0a [keyLine (ascii "guest ok", ascii "no"),
        keyLine (ascii "guest only", ascii "no"), keyLine (ascii "read only", ascii "yes"),
        keyLine (ascii "browseable", ascii "yes")] ∧
    ascii "    valid users = " = keyLine (ascii "valid users", []) ∧
    ascii "\n    read list = " = 0x0a :: keyLine (ascii "read list", []) ∧
    ascii "\n    write list = " = 0x0a :: keyLine (ascii "write list", []) ∧
    ascii "\n    wide links = no\n    follow symlinks = no\n    create mask = 0660\n" =
      0x0a :: unlines 0x0a [keyLine (ascii "wide links", ascii "no"),
        keyLine (ascii "follow symlinks", ascii "no"),
        keyLine (ascii "create mask", ascii "0660")] ∧
    ascii "    directory mask = 0770\n" =
      unlines 0x0a [keyLine (ascii "directory mask", ascii "0770")] := by decide +kernel

theorem section_eq (s : Sorter) (p : SharePreview) :
    p.section s = unlines 0x0a (sectionLines s p) := by
  obtain ⟨hopen, hpath, hguest, hvalid, hread, hwrite, hlinks, hmask⟩ := fixed_text
  rw [SharePreview.section, hopen, hpath, hguest, hvalid, hread, hwrite, hlinks, hmask]
  simp only [sectionLines, keys, keyNames, List.zip_cons_cons, List.zip_nil_right, List.map_cons,
    List.map_nil, unlines_cons, unlines_nil, keyLine, List.append_assoc, List.cons_append,
    List.nil_append]

theorem readKey_keyLine {k : Bytes × Bytes} (h : 0x3d ∉ k.1) : readKey (keyLine k) = some k := by
  have hindented : indent.isPrefixOf (keyLine k) = true := by simp [keyLine]
  have hcut : cut 0x3d ((k.1 ++ [0x20]) ++ 0x3d :: (0x20 :: k.2)) =
      some (k.1 ++ [0x20], 0x20 :: k.2) :=
    cut_append (by simpa using h) _
  rw [readKey, if_neg (by simp [hindented]), keyLine, List.drop_left]
  rw [List.append_assoc, List.singleton_append] at hcut
  simp [hcut]

theorem keyLine_head (k : Bytes × Bytes) : (keyLine k).head? = some 0x20 := rfl

theorem readLines_keys {ks more : List (Bytes × Bytes)} {rest : List Bytes}
    {sections : List Section} (hks : ∀ k ∈ ks, 0x3d ∉ k.1)
    (hrest : readLines rest = some (more, sections)) :
    readLines (ks.map keyLine ++ rest) = some (ks ++ more, sections) := by
  induction ks with
  | nil => exact hrest
  | cons k ks ih =>
    rw [List.forall_mem_cons] at hks
    rw [List.map_cons, List.cons_append, readLines, ih hks.2]
    have hhead := keyLine_head k
    have hne : keyLine k ≠ [] := by
      intro hnil
      rw [hnil] at hhead
      cases hhead
    simp only [hhead, hne, false_or, readKey_keyLine hks.1]
    rfl

theorem keyNames_cut : ∀ name ∈ keyNames, 0x3d ∉ name := by decide +kernel

variable {s : Sorter}

theorem keys_plain {p : SharePreview} : ∀ k ∈ keys s p, 0x3d ∉ k.1 := by
  intro k hk
  exact keyNames_cut k.1 (List.of_mem_zip hk).1

theorem readLines_section {p : SharePreview} {rest : List Bytes} {sections : List Section}
    (hrest : readLines rest = some ([], sections)) :
    readLines (sectionLines s p ++ rest) = some ([], ⟨p.name, keys s p⟩ :: sections) := by
  have hkeys := readLines_keys (keys_plain (s := s) (p := p)) hrest
  rw [List.append_nil] at hkeys
  have hlast : (0x5b :: (p.name ++ [0x5d]) : Bytes).getLast? = some 0x5d := by
    rw [← List.cons_append, List.getLast?_concat]
  rw [sectionLines, List.cons_append, List.cons_append, readLines, readLines, hkeys]
  simp [hlast]

theorem readLines_sections (s : Sorter) (shares : List SharePreview) :
    readLines (shares.flatMap (sectionLines s) ++ [[]]) =
      some ([], shares.map fun p => ⟨p.name, keys s p⟩) := by
  induction shares with
  | nil => rfl
  | cons p rest ih =>
    rw [List.flatMap_cons, List.append_assoc, readLines_section ih, List.map_cons]

def headerLines : List Bytes :=
  [ascii "# PhantoWD candidate share sections; not an activation authorization.",
    ascii "# Verify filesystem identity, mount containment, accounts and POSIX ACLs first."]

theorem sectionsOf_eq (s : Sorter) (shares : List SharePreview) :
    sectionsOf s shares = unlines 0x0a (headerLines ++ shares.flatMap (sectionLines s)) := by
  have hheader : ascii "# PhantoWD candidate share sections; not an activation authorization.\n" ++
      ascii "# Verify filesystem identity, mount containment, accounts and POSIX ACLs first.\n" =
      unlines 0x0a headerLines := by decide +kernel
  have hsection : SharePreview.section s = fun p => unlines 0x0a (sectionLines s p) :=
    funext (section_eq s)
  rw [sectionsOf, hheader, unlines_append, unlines_flatMap, hsection]

def Plain (v : Bytes) : Prop := ∀ b ∈ v, b ≠ 0x0a ∧ b ≠ 0x25

instance : DecidablePred Plain := fun v => inferInstanceAs (Decidable (∀ b ∈ v, _))

theorem headerLines_comment : ∀ line ∈ headerLines, line.head? = some 0x23 ∧ Plain line := by
  decide +kernel

theorem readLines_comments {lines rest : List Bytes} {found : List (Bytes × Bytes) × List Section}
    (h : ∀ line ∈ lines, line.head? = some 0x23) (hrest : readLines rest = some found) :
    readLines (lines ++ rest) = some found := by
  induction lines with
  | nil => exact hrest
  | cons line more ih =>
    rw [List.forall_mem_cons] at h
    rw [List.cons_append, readLines, ih h.2]
    simp [h.1]

theorem read_sectionsOf {shares : List SharePreview}
    (h : ∀ p ∈ shares, ∀ line ∈ sectionLines s p, Plain line) :
    read (sectionsOf s shares) = some (shares.map fun p => ⟨p.name, keys s p⟩) := by
  have hlines : ∀ line ∈ headerLines ++ shares.flatMap (sectionLines s), 0x0a ∉ line := by
    intro line hline hend
    rcases List.mem_append.mp hline with hline | hline
    · exact ((headerLines_comment line hline).2 _ hend).1 rfl
    · obtain ⟨p, hp, hline⟩ := List.mem_flatMap.mp hline
      exact (h p hp line hline _ hend).1 rfl
  rw [read, sectionsOf_eq, split, splitOn_unlines hlines, List.append_assoc]
  rw [readLines_comments (fun line hline => (headerLines_comment line hline).1)
    (readLines_sections s shares)]

variable {c d : Config}

theorem placeShares_isolated {i : Nat} {placed : List (Bytes × Bytes)} {ss : List Share} :
    (∃ out, SmbConfig.placeShares true i placed ss = .ok out) ↔
      (∃ out, SmbConfig.placeShares false i placed ss = .ok out) ∧
        ∀ t ∈ ss, t.relativePath ≠ ascii "." := by
  induction ss generalizing i placed with
  | nil => simp [SmbConfig.placeShares]
  | cons t rest ih =>
    rw [List.forall_mem_cons, SmbConfig.placeShares, SmbConfig.placeShares]
    by_cases hroot : t.relativePath = ascii "."
    · simp [hroot]
    · have hother : (t.relativePath == ascii ".") = false := by simp [hroot]
      simp only [hother, Bool.and_false, Bool.false_eq_true, if_false, ne_eq, hroot,
        not_false_eq_true, true_and]
      split_ifs
      · simp
      · simp
      · simp
      · exact ih

theorem build_isolated : (∃ placed, SmbConfig.build c true = .ok placed) ↔
    (∃ placed, SmbConfig.build c false = .ok placed) ∧
      ∀ t ∈ c.shares.items, t.relativePath ≠ ascii "." := by
  rw [SmbConfig.build, SmbConfig.build]
  cases c.validate with
  | error e => simp
  | ok u =>
    by_cases hlen : maxInputBytes < c.marshal.length
    · simp [hlen]
    · simp only [hlen, if_false]
      exact placeShares_isolated

variable {isolated : Bool}

theorem accepted_plain (h : ∃ placed, SmbConfig.build c isolated = .ok placed) :
    ∃ placed, SmbConfig.build c false = .ok placed := by
  cases isolated with
  | false => exact h
  | true => exact (build_isolated.mp h).1

theorem accepted_reordered (h : SharesReordered c d)
    (hc : ∃ placed, SmbConfig.build c isolated = .ok placed) :
    ∃ placed, SmbConfig.build d isolated = .ok placed := by
  cases isolated with
  | false => exact h.smbBuild hc
  | true =>
    obtain ⟨hplain, hroots⟩ := build_isolated.mp hc
    refine build_isolated.mpr ⟨h.smbBuild hplain, ?_⟩
    exact h.shares.items.forall (fun x y hxy hx => hxy.relativePath ▸ hx) hroots

variable {v : Bytes}

theorem plain_append {w : Bytes} (hv : Plain v) (hw : Plain w) : Plain (v ++ w) :=
  List.forall_mem_append.mpr ⟨hv, hw⟩

theorem plain_of_not_mem (hend : 0x0a ∉ v) (hpercent : 0x25 ∉ v) : Plain v := by
  intro b hb
  constructor
  · rintro rfl
    exact hend hb
  · rintro rfl
    exact hpercent hb

theorem identifier_plain (h : identifier v = true) : Plain v := by
  have hvalid := identifier_valid h
  rw [identifier, Bool.and_eq_true] at h
  exact plain_of_not_mem (not_mem_of_runes hvalid h.2 (by decide) (by decide))
    (not_mem_of_runes hvalid h.2 (by decide) (by decide))

theorem accountName_bytes (h : accountName v = true) :
    Plain v ∧ v ≠ [] ∧ 0x20 ∉ v := by
  have hvalid := accountName_valid h
  simp only [accountName, Bool.and_eq_true] at h
  obtain ⟨⟨⟨⟨⟨-, hstart⟩, hall⟩, -⟩, -⟩, -⟩ := h
  refine ⟨?_, ?_, not_mem_of_runes hvalid hall (by decide) (by decide)⟩
  · exact plain_of_not_mem (not_mem_of_runes hvalid hall (by decide) (by decide))
      (not_mem_of_runes hvalid hall (by decide) (by decide))
  · rintro rfl
    cases hstart

theorem percent_free (h : SmbConfig.unsafeValue v = false) : 0x25 ∉ v := by
  intro hmem
  rw [SmbConfig.unsafeValue, containsAny, List.any_eq_false] at h
  exact h _ hmem (by decide)

theorem shareName_plain (h : shareName v = true) (hsafe : SmbConfig.unsafeValue v = false) :
    Plain v := by
  have hvalid := shareName_valid h
  rw [shareName, Bool.and_eq_true] at h
  exact plain_of_not_mem (not_mem_of_runes hvalid h.2 (by decide) (by decide))
    (percent_free hsafe)

theorem relativePath_plain (h : ShareConfig.relativePath v = true)
    (hsafe : SmbConfig.unsafeValue v = false) : Plain v := by
  have hvalid := relativePath_valid h
  rw [ShareConfig.relativePath, Bool.and_eq_true] at h
  exact plain_of_not_mem (not_mem_of_runes hvalid h.2 (by decide) (by decide))
    (percent_free hsafe)

theorem joinRooted_plain {base rel : Bytes} (hbase : Plain base) (hrel : Plain rel) :
    Plain (joinRooted base rel) := by
  intro b hb
  rcases mem_of_joinRooted hb with rfl | hb | hb
  · decide
  · exact hbase b hb
  · exact hrel b hb

theorem words_plain {l : List Bytes} (h : ∀ v ∈ l, Plain v) : Plain (words l) := by
  intro b hb
  rcases mem_of_intercalate hb with rfl | ⟨v, hv, hb⟩
  · decide
  · exact h v hv b hb

theorem keyNames_plain : ∀ name ∈ keyNames, Plain name := by decide +kernel

structure PlainPreview (p : SharePreview) : Prop where
  name : Plain p.name
  path : Plain p.path
  readOnly : ∀ v ∈ p.readOnly, Plain v
  readWrite : ∀ v ∈ p.readWrite, Plain v

theorem sectionLines_plain {p : SharePreview} (h : PlainPreview p) :
    ∀ line ∈ sectionLines s p, Plain line := by
  have hall : ∀ v ∈ s.strings (p.readOnly ++ p.readWrite), Plain v := by
    intro v hv
    rcases List.mem_append.mp (s.mem_run.mp hv) with hv | hv
    · exact h.readOnly v hv
    · exact h.readWrite v hv
  have hfixed : Plain (ascii "no") ∧ Plain (ascii "yes") ∧ Plain (ascii "0660") ∧
      Plain (ascii "0770") ∧ Plain indent ∧ Plain [0x20, 0x3d, 0x20] ∧ Plain [0x5b] ∧
      Plain [0x5d] := by decide +kernel
  obtain ⟨hno, hyes, hfile, hdir, hindent, hequals, hopen, hclose⟩ := hfixed
  have hvalues : ∀ v ∈ [p.path, ascii "no", ascii "no", ascii "yes", ascii "yes",
      words (s.strings (p.readOnly ++ p.readWrite)), words p.readOnly, words p.readWrite,
      ascii "no", ascii "no", ascii "0660", ascii "0770"], Plain v := by
    simp only [List.forall_mem_cons, List.not_mem_nil, false_implies, implies_true, and_true]
    exact ⟨h.path, hno, hno, hyes, hyes, words_plain hall, words_plain h.readOnly,
      words_plain h.readWrite, hno, hno, hfile, hdir⟩
  simp only [sectionLines, List.forall_mem_cons, List.forall_mem_map]
  refine ⟨by simp [Plain], plain_append hopen (plain_append h.name hclose), ?_⟩
  intro k hk
  obtain ⟨hname, hvalue⟩ := List.of_mem_zip hk
  exact plain_append hindent (plain_append (keyNames_plain _ hname)
    (plain_append hequals (hvalues _ hvalue)))

def Section.value (x : Section) (key : Bytes) : Option Bytes := x.keys.lookup key

structure Lists (c : Config) (t : Share) (access : Bytes → Prop) (names : List Bytes) : Prop where
  nodup : names.Nodup
  known : ∀ n ∈ names, ∃ u ∈ c.users.items, u.name = n
  granted : ∀ u ∈ c.users.items,
    u.name ∈ names ↔ ∃ g ∈ t.grants.items, g.userID = u.id ∧ access g.access

def ListsUnder (x : Section) (key : Bytes) (c : Config) (t : Share) (access : Bytes → Prop) :
    Prop :=
  ∃ value, x.value key = some value ∧ Lists c t access (fields 0x20 value)

def served (isolated : Bool) (t : Share) : Bytes :=
  if isolated then ascii "/shares/" ++ t.id else resolved t

structure Describes (c : Config) (isolated : Bool) (t : Share) (x : Section) : Prop where
  name : x.name = t.name
  keys : x.keys.map Prod.fst = keyNames
  path : x.value (ascii "path") = some (served isolated t)
  valid : ListsUnder x (ascii "valid users") c t fun _ => True
  read : ListsUnder x (ascii "read list") c t fun access => access = ascii "ro"
  write : ListsUnder x (ascii "write list") c t fun access => access = ascii "rw"
  fixed : x.value (ascii "guest ok") = some (ascii "no") ∧
    x.value (ascii "guest only") = some (ascii "no") ∧
    x.value (ascii "read only") = some (ascii "yes") ∧
    x.value (ascii "browseable") = some (ascii "yes") ∧
    x.value (ascii "wide links") = some (ascii "no") ∧
    x.value (ascii "follow symlinks") = some (ascii "no") ∧
    x.value (ascii "create mask") = some (ascii "0660") ∧
    x.value (ascii "directory mask") = some (ascii "0770")

theorem userName_of_mem (hc : Sound c) {u : User} (hu : u ∈ c.users.items) :
    userName c u.id = u.name := by
  rw [userName, lookup_mem hc.userIDs hu]
  rfl

theorem grantee {t : Share} (hc : Sound c) (ht : t ∈ c.shares.items) {g : Grant}
    (hg : g ∈ t.grants.items) :
    ∃ u ∈ c.users.items, u.id = g.userID ∧ userName c g.userID = u.name := by
  obtain ⟨u, hu, hid⟩ := List.mem_map.mp ((hc.shares t ht).grants g hg).1
  exact ⟨u, hu, hid, hid ▸ userName_of_mem hc hu⟩

/-- A list written from the grants names each user once. -/
theorem lists_of_perm {t : Share} {access : Bytes → Prop} {test : Grant → Bool}
    {names : List Bytes} (hc : Sound c) (ht : t ∈ c.shares.items)
    (htest : ∀ g ∈ t.grants.items, test g = true ↔ access g.access)
    (hp : names.Perm ((t.grants.items.filter test).map fun g => userName c g.userID)) :
    Lists c t access names := by
  have hmem : ∀ n, n ∈ names ↔ ∃ g ∈ t.grants.items, access g.access ∧ userName c g.userID = n := by
    intro n
    rw [hp.mem_iff, List.mem_map]
    constructor
    · rintro ⟨g, hg, hn⟩
      obtain ⟨hg, hpass⟩ := List.mem_filter.mp hg
      exact ⟨g, hg, (htest g hg).mp hpass, hn⟩
    · rintro ⟨g, hg, haccess, hn⟩
      exact ⟨g, List.mem_filter.mpr ⟨hg, (htest g hg).mpr haccess⟩, hn⟩
  refine ⟨?_, ?_, ?_⟩
  · rw [hp.nodup_iff]
    refine List.Nodup.map_on ?_ ((List.Nodup.of_map _ (hc.shares t ht).grantees).filter _)
    intro g hg g' hg' heq
    obtain ⟨u, hu, hid, hname⟩ := grantee hc ht (List.mem_of_mem_filter hg)
    obtain ⟨u', hu', hid', hname'⟩ := grantee hc ht (List.mem_of_mem_filter hg')
    have huser : u = u' :=
      List.inj_on_of_nodup_map hc.userNames hu hu' (by rw [← hname, heq, hname'])
    refine List.inj_on_of_nodup_map (hc.shares t ht).grantees (List.mem_of_mem_filter hg)
      (List.mem_of_mem_filter hg') ?_
    rw [← hid, huser, hid']
  · intro n hn
    obtain ⟨g, hg, -, rfl⟩ := (hmem n).mp hn
    obtain ⟨u, hu, -, hname⟩ := grantee hc ht hg
    exact ⟨u, hu, hname.symm⟩
  · intro u hu
    rw [hmem]
    constructor
    · rintro ⟨g, hg, haccess, hn⟩
      obtain ⟨u', hu', hid', hname'⟩ := grantee hc ht hg
      have huser : u' = u := List.inj_on_of_nodup_map hc.userNames hu' hu (hname' ▸ hn)
      exact ⟨g, hg, huser ▸ hid'.symm, haccess⟩
    · rintro ⟨g, hg, hid, haccess⟩
      exact ⟨g, hg, haccess, hid ▸ userName_of_mem hc hu⟩

theorem Lists.fields {t : Share} {access : Bytes → Prop} {names : List Bytes} (hc : Sound c)
    (h : Lists c t access names) : TextFields.fields 0x20 (words names) = names := by
  apply fields_intercalate
  intro n hn
  obtain ⟨u, hu, rfl⟩ := h.known n hn
  exact (accountName_bytes (hc.users u hu).2).2

section Written

variable {s : Sorter} {t : Share}

def shown (s : Sorter) (c : Config) (isolated : Bool) (t : Share) : SharePreview :=
  { sharePreview s c t with path := served isolated t }

theorem sharePreviews_eq {isolated : Bool} (hc : Sound c) :
    sharePreviews s c isolated = (s.run Share.id c.shares.items).map (shown s c isolated) := by
  have hrun : s.run SharePreview.id (c.shares.items.map (sharePreview s c)) =
      (s.run Share.id c.shares.items).map (sharePreview s c) :=
    s.run_map (fun _ _ => UnixIdentity.bytesLe_antisymm) hc.shareIDs
  rw [sharePreviews, hrun]
  cases isolated with
  | false => rfl
  | true =>
    rw [if_pos rfl, List.map_map]
    rfl

theorem lists_readOnly (hc : Sound c) (ht : t ∈ c.shares.items) :
    Lists c t (fun access => access = ascii "ro") (sharePreview s c t).readOnly := by
  refine lists_of_perm hc ht (fun g hg => ?_) (s.perm id _)
  have hother : ascii "ro" ≠ ascii "rw" := by decide
  rcases ((hc.shares t ht).grants g hg).2 with haccess | haccess
  · simp [Grant.writes, haccess, hother]
  · simp [Grant.writes, haccess, hother.symm]

theorem lists_readWrite (hc : Sound c) (ht : t ∈ c.shares.items) :
    Lists c t (fun access => access = ascii "rw") (sharePreview s c t).readWrite :=
  lists_of_perm hc ht (fun _ _ => beq_iff_eq) (s.perm id _)

theorem lists_valid (hc : Sound c) (ht : t ∈ c.shares.items) :
    Lists c t (fun _ => True)
      (s.strings ((sharePreview s c t).readOnly ++ (sharePreview s c t).readWrite)) := by
  have hall : (s.strings ((sharePreview s c t).readOnly ++ (sharePreview s c t).readWrite)).Perm
      ((t.grants.items.filter fun _ => true).map fun g => userName c g.userID) := by
    rw [List.filter_true]
    apply (s.perm id _).trans
    apply ((s.perm id _).append (s.perm id _)).trans
    rw [← List.map_append]
    apply List.Perm.map
    exact List.perm_append_comm.trans (List.filter_append_perm Grant.writes t.grants.items)
  exact lists_of_perm hc ht (by simp) hall

theorem plain_shown {isolated : Bool} (hc : Sound c) (hsafe : ∀ t ∈ c.shares.items, SafeShare t)
    (ht : t ∈ c.shares.items) : PlainPreview (shown s c isolated t) := by
  have hgood := hc.shares t ht
  obtain ⟨hname, hpath, -⟩ := hsafe t ht
  have husers : ∀ access names, Lists c t access names → ∀ v ∈ names, Plain v := by
    intro access names hlists v hv
    obtain ⟨u, hu, rfl⟩ := hlists.known v hv
    exact (accountName_bytes (hc.users u hu).2).1
  constructor
  · exact shareName_plain hgood.name hname
  · cases isolated with
    | true => exact plain_append (by decide +kernel) (identifier_plain hgood.id)
    | false =>
      obtain ⟨v, hv, hid⟩ := List.mem_map.mp hgood.volume
      refine joinRooted_plain (joinRooted_plain (by decide +kernel) ?_)
        (relativePath_plain hgood.path hpath)
      exact hid ▸ identifier_plain (hc.volumes v hv).1
  · exact husers _ _ (lists_readOnly hc ht)
  · exact husers _ _ (lists_readWrite hc ht)

theorem describes_shown {isolated : Bool} (hc : Sound c) (ht : t ∈ c.shares.items) :
    Describes c isolated t
      ⟨(shown s c isolated t).name, keys s (shown s c isolated t)⟩ := by
  have hvalid := lists_valid (s := s) hc ht
  have hread := lists_readOnly (s := s) hc ht
  have hwrite := lists_readWrite (s := s) hc ht
  constructor
  · rfl
  · rfl
  · rfl
  · exact ⟨_, rfl, (hvalid.fields hc).symm ▸ hvalid⟩
  · exact ⟨_, rfl, (hread.fields hc).symm ▸ hread⟩
  · exact ⟨_, rfl, (hwrite.fields hc).symm ▸ hwrite⟩
  · exact ⟨rfl, rfl, rfl, rfl, rfl, rfl, rfl, rfl⟩

end Written

/-- Read back, the text is one section per share, in the order of the share IDs. -/
structure Faithful (c : Config) (isolated : Bool) (text : Bytes) : Prop where
  reads : ∃ shares sections, shares.Perm c.shares.items ∧
    (shares.Pairwise fun t u => UnixIdentity.bytesLe t.id u.id = true) ∧
    read text = some sections ∧ List.Forall₂ (Describes c isolated) shares sections
  noPercent : 0x25 ∉ text

/-- The sections say what the policy grants, and no more. -/
theorem sections_faithful (hc : Sound c) (hsafe : ∀ t ∈ c.shares.items, SafeShare t) :
    Faithful c isolated (sectionsOf s (sharePreviews s c isolated)) := by
  have hmem : ∀ t ∈ s.run Share.id c.shares.items, t ∈ c.shares.items := fun t => s.mem_run.mp
  have hlines : ∀ p ∈ sharePreviews s c isolated, ∀ line ∈ sectionLines s p, Plain line := by
    rw [sharePreviews_eq hc, List.forall_mem_map]
    exact fun t ht => sectionLines_plain (plain_shown hc hsafe (hmem t ht))
  constructor
  · refine ⟨_, _, s.perm Share.id _, s.sorted Share.id _, read_sectionsOf hlines, ?_⟩
    rw [sharePreviews_eq hc, List.map_map, List.forall₂_map_right_iff, List.forall₂_same]
    exact fun t ht => describes_shown hc (hmem t ht)
  · intro hpercent
    rw [sectionsOf_eq, unlines, List.mem_flatMap] at hpercent
    obtain ⟨line, hline, hpercent⟩ := hpercent
    have hplain : Plain line := by
      rcases List.mem_append.mp hline with hline | hline
      · exact (headerLines_comment line hline).2
      · obtain ⟨p, hp, hline⟩ := List.mem_flatMap.mp hline
        exact hlines p hp line hline
    rcases List.mem_append.mp hpercent with hpercent | hpercent
    · exact (hplain _ hpercent).2 rfl
    · exact absurd hpercent (by decide)

section Order

variable (s s' : Sorter)

theorem usedVolumes_perm (h : SharesReordered c d) : (usedVolumes c).Perm (usedVolumes d) :=
  (h.shares.items.map_perm fun _ _ hxy => hxy.volumeID).dedup

theorem requirement_congr (h : SharesReordered c d) (hc : Sound c) :
    requirement c = requirement d := by
  funext id
  rw [requirement, requirement, lookup_perm h.volumes.items hc.volumeIDs]

theorem requirement_volumeID (hc : Sound c) {id : Bytes} (hid : id ∈ usedVolumes c) :
    (requirement c id).volumeID = id := by
  obtain ⟨t, ht, rfl⟩ := List.mem_map.mp (List.mem_dedup.mp hid)
  obtain ⟨v, hv, hvolume⟩ := List.mem_map.mp (hc.shares t ht).volume
  rw [requirement, ← hvolume, lookup_mem hc.volumeIDs hv]
  rfl

theorem volumes_congr (h : SharesReordered c d) (hc : Sound c) :
    s.run VolumeRequirement.volumeID ((usedVolumes c).map (requirement c)) =
      s'.run VolumeRequirement.volumeID ((usedVolumes d).map (requirement d)) := by
  rw [← requirement_congr h hc]
  have hids : (usedVolumes c).map (VolumeRequirement.volumeID ∘ requirement c) = usedVolumes c :=
    (List.map_congr_left fun id hid => requirement_volumeID hc hid).trans (List.map_id _)
  refine sort_keyed s s' ((usedVolumes_perm h).map _) ?_
  rw [List.map_map, hids]
  exact List.nodup_dedup _

theorem sharePreviews_congr {isolated : Bool} (h : SharesReordered c d) (hc : Sound c) :
    sharePreviews s c isolated = sharePreviews s' d isolated := by
  have hperm : (c.shares.items.map (sharePreview s c)).Perm
      (d.shares.items.map (sharePreview s' d)) :=
    h.shares.items.map_perm fun x y hxy => sharePreview_congr h hc hxy
  have hids : ((c.shares.items.map (sharePreview s c)).map SharePreview.id).Nodup := by
    rw [List.map_map]
    exact hc.shareIDs
  rw [sharePreviews, sharePreviews, sort_keyed s s' hperm hids]

theorem sectionsOf_congr (shares : List SharePreview) :
    sectionsOf s shares = sectionsOf s' shares := by
  have hsection : SharePreview.section s = SharePreview.section s' := funext section_congr
  rw [sectionsOf, sectionsOf, hsection]

end Order

theorem build_of_accepted (h : ∃ placed, SmbConfig.build c isolated = .ok placed) :
    build s c isolated = .ok {
      schemaVersion := 1
      revision := c.revision
      volumes := s.run VolumeRequirement.volumeID ((usedVolumes c).map (requirement c))
      shares := sharePreviews s c isolated
      sections := sectionsOf s (sharePreviews s c isolated) } := by
  obtain ⟨placed, hplaced⟩ := h
  rw [build, hplaced]

theorem accepted_of_build {p : Preview} (h : build s c isolated = .ok p) :
    ∃ placed, SmbConfig.build c isolated = .ok placed := by
  rw [build] at h
  cases hplaced : SmbConfig.build c isolated with
  | error e =>
    rw [hplaced] at h
    cases h
  | ok placed => exact ⟨placed, rfl⟩

theorem build_reordered {s' : Sorter} {p : Preview} (h : SharesReordered c d)
    (hp : build s c isolated = .ok p) : build s' d isolated = .ok p := by
  have haccepted := accepted_of_build hp
  obtain ⟨hc, -⟩ := smbBuild_iff.mp (accepted_plain haccepted)
  rw [build_of_accepted haccepted] at hp
  rw [build_of_accepted (accepted_reordered h haccepted), ← hp, ← h.revision,
    volumes_congr s s' h hc, sharePreviews_congr s s' h hc, sectionsOf_congr s s']

/-- The text of a preview, plain or isolated, says exactly what the policy grants, and a policy
with the same entries in another order has the same preview. -/
theorem samba_preview_faithful (s s' : Sorter) (c : Config) (isolated : Bool) :
    (∀ p, build s c isolated = .ok p → Faithful c isolated p.sections) ∧
      ∀ d, SharesReordered c d →
        ∀ p, build s c isolated = .ok p ↔ build s' d isolated = .ok p := by
  constructor
  · intro p hp
    have haccepted := accepted_of_build hp
    obtain ⟨hc, -, hsafe, -⟩ := smbBuild_iff.mp (accepted_plain haccepted)
    rw [build_of_accepted haccepted] at hp
    cases hp
    exact sections_faithful hc hsafe
  · intro d h p
    exact ⟨build_reordered h, build_reordered h.symm⟩

def sampleConfig : Config where
  format := formatName
  schemaVersion := 1
  revision := 1
  volumes := some [⟨ascii "data", ascii "01234567-89ab-cdef-0123-456789abcdef"⟩]
  users := some [⟨ascii "u1", ascii "alice"⟩, ⟨ascii "u2", ascii "bob"⟩]
  shares := some [⟨ascii "media", ascii "My Media", ascii "data", ascii "films and more",
    some [⟨ascii "u1", ascii "rw"⟩, ⟨ascii "u2", ascii "ro"⟩]⟩]

theorem sample_preview_read : (build .simple sampleConfig true).toOption.isSome = true ∧
    ∀ p, build .simple sampleConfig true = .ok p → Faithful sampleConfig true p.sections :=
  ⟨by decide +kernel, (samba_preview_faithful .simple .simple sampleConfig true).1⟩

end SambaSections
