import PhantoWD.GoUtf8
import PhantoWD.ServicePreview
import PhantoWD.TextFields

/-!
The table has one line per export: an escaped path and the networks with their options. Read
with that grammar it gives back the exports in the order of their IDs, and no path or network
becomes a token, an option, a comment or a line of its own.
-/
namespace ExportsTable

open GoText GoJson KeyedLists PolicyOrder ServicePreview TextFields
open ShareConfig (Config Volume Sound)
open NfsConfig (Netip Client Export Policy PolicyError checkClient PolicySound policy_validate_iff)

structure Preview where
  schemaVersion : Int
  revision : UInt64
  volumeRevision : UInt64
  exports : List ExportPreview
  table : Bytes
  usesAuthSys : Bool
  requiresKerberos : Bool
  deriving DecidableEq

def build (s : Sorter) (netip : Netip) (p : Policy) (c : Config) : Except PolicyError Preview :=
  match p.validate netip c with
  | .error e => .error e
  | .ok () => .ok {
      schemaVersion := 1
      revision := p.revision
      volumeRevision := p.volumeRevision
      exports := exportPreviews s p c
      table := table s p c
      usesAuthSys := usesAuthSys p
      requiresKerberos := requiresKerberos p }

def octalDigit (b : UInt8) : Option Nat :=
  if 0x30 ≤ b.toNat ∧ b.toNat ≤ 0x37 then some (b.toNat - 0x30) else none

def unescape : Bytes → Option Bytes
  | [] => some []
  | b :: rest =>
    if b = 0x5c then
      match rest with
      | x :: y :: z :: more => do
        let x ← octalDigit x
        let y ← octalDigit y
        let z ← octalDigit z
        let text ← unescape more
        some ((64 * x + 8 * y + z).toUInt8 :: text)
      | _ => none
    else (unescape rest).map (b :: ·)

abbrev special (b : UInt8) : Prop := b = 0x20 ∨ b = 0x22 ∨ b = 0x23 ∨ b = 0x5c

theorem unescape_octal {b : UInt8} (h : special b) (rest : Bytes) :
    unescape (octal b ++ rest) = (unescape rest).map (b :: ·) := by
  have hdigits : octalDigit (0x30 + b / 64) = some (b / 64).toNat ∧
      octalDigit (0x30 + b / 8 % 8) = some (b / 8 % 8).toNat ∧
      octalDigit (0x30 + b % 8) = some (b % 8).toNat ∧
      (64 * (b / 64).toNat + 8 * (b / 8 % 8).toNat + (b % 8).toNat).toUInt8 = b := by
    rcases h with rfl | rfl | rfl | rfl <;> decide
  obtain ⟨hx, hy, hz, hsum⟩ := hdigits
  simp only [octal, List.cons_append, List.nil_append, unescape, if_true, hx, hy, hz,
    Option.bind_eq_bind, Option.bind_some, hsum]
  cases unescape rest with
  | none => rfl
  | some text => rfl

theorem unescape_plain {b : UInt8} (h : b ≠ 0x5c) (rest : Bytes) :
    unescape (b :: rest) = (unescape rest).map (b :: ·) := by
  conv_lhs => unfold unescape
  exact if_neg h

theorem unescape_escapePath (path : Bytes) : unescape (escapePath path) = some path := by
  induction path with
  | nil => rfl
  | cons b rest ih =>
    rw [escapePath, List.flatMap_cons, ← escapePath]
    by_cases hb : special b
    · rw [if_pos hb, unescape_octal hb, ih]
      rfl
    · have hplain : b ≠ 0x5c := fun heq => hb (.inr (.inr (.inr heq)))
      rw [if_neg hb, List.singleton_append, unescape_plain hplain, ih]
      rfl

theorem escapePath_injective : Function.Injective escapePath := by
  intro a b h
  apply Option.some.inj
  rw [← unescape_escapePath a, h, unescape_escapePath b]

theorem mem_escapePath {path : Bytes} {b : UInt8} (h : b ∈ escapePath path) :
    b = 0x5c ∨ (0x30 ≤ b.toNat ∧ b.toNat ≤ 0x37) ∨ (b ∈ path ∧ ¬ special b) := by
  obtain ⟨a, ha, hb⟩ := List.mem_flatMap.mp h
  by_cases hspecial : special a
  · rw [if_pos hspecial] at hb
    have hoctal : b = 0x5c ∨ 0x30 ≤ b.toNat ∧ b.toNat ≤ 0x37 := by
      rcases hspecial with rfl | rfl | rfl | rfl <;>
        (simp only [octal, List.mem_cons, List.not_mem_nil, or_false] at hb
         rcases hb with rfl | rfl | rfl | rfl <;> decide)
    rcases hoctal with hoctal | hoctal
    · exact .inl hoctal
    · exact .inr (.inl hoctal)
  · rw [if_neg hspecial, List.mem_singleton] at hb
    subst hb
    exact .inr (.inr ⟨ha, hspecial⟩)

structure Entry where
  network : Bytes
  options : List Bytes
  deriving DecidableEq

structure Line where
  path : Bytes
  entries : List Entry
  deriving DecidableEq

def readEntry (token : Bytes) : Option Entry :=
  match cut 0x28 token with
  | none => none
  | some (network, rest) =>
    if rest.getLast? = some 0x29 then some ⟨network, split rest.dropLast 0x2c⟩ else none

def readLine (line : Bytes) : Option Line :=
  match split line 0x20 with
  | [] => none
  | path :: tokens => do
    let path ← unescape path
    let entries ← tokens.mapM readEntry
    some ⟨path, entries⟩

/-- A hash starts a comment wherever it stands; what is left empty is no export. -/
def read (text : Bytes) : Option (List Line) :=
  (((split text 0x0a).map fun line => line.takeWhile (· ≠ 0x23)).filter (· ≠ [])).mapM readLine

def optionIn (name : Bytes) : List Bytes → Option Bytes
  | [] => none
  | o :: rest =>
    match cut 0x3d o with
    | some (key, value) => if key = name then some value else optionIn name rest
    | none => optionIn name rest

def Entry.client (x : Entry) : Option Client := do
  let access ← x.options.head?
  let security ← optionIn (ascii "sec") x.options
  let uid ← (optionIn (ascii "anonuid") x.options).bind parseUint
  let gid ← (optionIn (ascii "anongid") x.options).bind parseUint
  some {
    network := x.network
    access := access
    squash := if ascii "all_squash" ∈ x.options then ascii "all" else ascii "root"
    anonymousUID := UInt32.ofNat uid
    anonymousGID := UInt32.ofNat gid
    security := security }

def pair (name value : Bytes) : Bytes := name ++ 0x3d :: value

def options (e : ExportPreview) (c : Client) : List Bytes :=
  [c.access, ascii "sync", ascii "secure", ascii "root_squash"] ++
    (if c.squash = ascii "all" then [ascii "all_squash"] else []) ++
    [if e.path = e.mountPath then ascii "no_subtree_check" else ascii "subtree_check",
      ascii "nocrossmnt", pair (ascii "sec") c.security,
      pair (ascii "anonuid") (formatUint c.anonymousUID.toNat),
      pair (ascii "anongid") (formatUint c.anonymousGID.toNat), pair (ascii "fsid") e.id,
      pair (ascii "mountpoint") e.mountPath]

def token (e : ExportPreview) (c : Client) : Bytes :=
  c.network ++ 0x28 :: ([0x2c].intercalate (options e c) ++ [0x29])

theorem fixed_options : ascii " " = [0x20] ∧ ascii "(" = [0x28] ∧ ascii "," = [0x2c] ∧
    ascii ",sync,secure,root_squash" =
      0x2c :: (ascii "sync" ++ 0x2c :: (ascii "secure" ++ 0x2c :: ascii "root_squash")) ∧
    ascii ",all_squash" = 0x2c :: ascii "all_squash" ∧
    ascii ",nocrossmnt,sec=" = 0x2c :: (ascii "nocrossmnt" ++ 0x2c :: pair (ascii "sec") []) ∧
    ascii ",anonuid=" = 0x2c :: pair (ascii "anonuid") [] ∧
    ascii ",anongid=" = 0x2c :: pair (ascii "anongid") [] ∧
    ascii ",fsid=" = 0x2c :: pair (ascii "fsid") [] ∧
    ascii ",mountpoint=" = 0x2c :: pair (ascii "mountpoint") [] ∧ ascii ")" = [0x29] := by
  decide +kernel

theorem clientEntry_eq (e : ExportPreview) (c : Client) : clientEntry e c = 0x20 :: token e c := by
  obtain ⟨hspace, hopen, hcomma, hsync, hall, hsec, huid, hgid, hfsid, hmount, hclose⟩ :=
    fixed_options
  unfold clientEntry
  rw [token, options, hspace, hopen, hcomma, hsync, hall, hsec, huid, hgid, hfsid, hmount, hclose]
  by_cases hsquash : c.squash = ascii "all"
  · simp only [if_pos hsquash, List.cons_append, List.nil_append, intercalate_cons,
      List.flatMap_cons, List.flatMap_nil, List.append_nil, pair, List.append_assoc]
  · simp only [if_neg hsquash, List.cons_append, List.nil_append, intercalate_cons,
      List.flatMap_cons, List.flatMap_nil, List.append_nil, pair, List.append_assoc]

def lineText (e : ExportPreview) : Bytes :=
  escapePath e.path ++ (e.clients.map (token e)).flatMap (0x20 :: ·)

theorem line_eq (e : ExportPreview) : e.line = lineText e ++ [0x0a] := by
  have hend : ascii "\n" = [0x0a] := by decide
  have hentry : clientEntry e = fun c => 0x20 :: token e c := funext (clientEntry_eq e)
  rw [ExportPreview.line, lineText, hend, hentry, List.flatMap_map]

def separators : Bytes := ascii "\n \"#(),\\"

def Word (v : Bytes) : Prop := ∀ b ∈ v, b ∉ separators

instance : DecidablePred Word := fun v => inferInstanceAs (Decidable (∀ b ∈ v, _))

theorem word_append {v w : Bytes} (hv : Word v) (hw : Word w) : Word (v ++ w) :=
  List.forall_mem_append.mpr ⟨hv, hw⟩

/-- How the standard library spells a valid prefix: no zone, so hexadecimal digits, dots, colons
and one slash. -/
def NetworksSpelled (netip : Netip) : Prop :=
  ∀ p, netip.isValid p = true → ∀ b ∈ netip.string p, NfsConfig.hexByte b = true ∨ b = 0x2e ∨
    b = 0x3a ∨ b = 0x2f

theorem hexByte_word {b : UInt8} (h : NfsConfig.hexByte b = true) : b ∉ separators := by
  intro hmem
  have hseparators : ∀ b ∈ separators, NfsConfig.hexByte b = false := by decide +kernel
  rw [hseparators b hmem] at h
  cases h

theorem isDigit_word {b : UInt8} (h : isDigit b = true) : b ∉ separators := by
  intro hmem
  have hseparators : ∀ b ∈ separators, isDigit b = false := by decide +kernel
  rw [hseparators b hmem] at h
  cases h

theorem formatUint_word (n : Nat) : Word (formatUint n) := by
  intro b hb
  exact isDigit_word (List.all_eq_true.mp (formatUint_digits n) b hb)

theorem uuid_word {v : Bytes} (h : NfsConfig.uuid v = true) : Word v := by
  simp only [NfsConfig.uuid, Bool.and_eq_true, List.all_eq_true] at h
  intro b hb
  by_cases hyphen : b = 0x2d
  · subst hyphen
    decide
  · exact hexByte_word (h.2.2 b (List.mem_filter.mpr ⟨hb, by simpa using hyphen⟩))

theorem identifier_word {v : Bytes} (h : ShareConfig.identifier v = true) : Word v := by
  have hvalid := ShareConfig.identifier_valid h
  rw [ShareConfig.identifier, Bool.and_eq_true] at h
  intro b hb hmem
  have hrefused : ∀ b ∈ separators, b.toNat < 0x80 ∧
      (ShareConfig.lower b.toNat || ShareConfig.digit b.toNat || b.toNat == 0x2d) = false := by
    decide +kernel
  exact not_mem_of_runes hvalid h.2 (hrefused b hmem).1 (hrefused b hmem).2 hb

theorem mountPath_word {id : Bytes} (h : ShareConfig.identifier id = true) :
    Word (SmbConfig.mountPath id) := by
  have hroot : Word ShareConfig.volumeMountRoot := by decide +kernel
  intro b hb
  rcases mem_of_joinRooted hb with rfl | hb | hb
  · decide
  · exact hroot b hb
  · exact identifier_word h b hb

variable {netip : Netip}

theorem network_word (hspell : NetworksSpelled netip) {c : Client} {p : netip.Prefix}
    (h : checkClient netip c = some p) : Word c.network := by
  obtain ⟨⟨-, hvalid, hstring⟩, -⟩ := NfsConfig.checkClient_some h
  intro b hb
  rw [← hstring] at hb
  rcases hspell p hvalid b hb with hhex | rfl | rfl | rfl
  · exact hexByte_word hhex
  · decide
  · decide
  · decide

theorem options_word {e : ExportPreview} {c : Client} (hid : Word e.id) (hmount : Word e.mountPath)
    (hc : c.Checked) : ∀ o ∈ options e c, Word o := by
  have haccess : Word c.access := by
    rcases hc.access with heq | heq <;> rw [heq] <;> decide +kernel
  have hsecurity : Word c.security := by
    rcases hc.security with ((heq | heq) | heq) | heq <;> rw [heq] <;> decide +kernel
  have hfixed : Word (ascii "sync") ∧ Word (ascii "secure") ∧ Word (ascii "root_squash") ∧
      Word (ascii "all_squash") ∧ Word (ascii "no_subtree_check") ∧
      Word (ascii "subtree_check") ∧ Word (ascii "nocrossmnt") := by decide +kernel
  have hnames : Word (pair (ascii "sec") []) ∧ Word (pair (ascii "anonuid") []) ∧
      Word (pair (ascii "anongid") []) ∧ Word (pair (ascii "fsid") []) ∧
      Word (pair (ascii "mountpoint") []) := by decide +kernel
  have hpair : ∀ name value, Word (pair name []) → Word value → Word (pair name value) := by
    intro name value hname hvalue
    have hsplit : pair name value = pair name [] ++ value := by simp [pair]
    rw [hsplit]
    exact word_append hname hvalue
  obtain ⟨hsync, hsecure, hroot, hall, hno, hsubtree, hcross⟩ := hfixed
  obtain ⟨hsec, huid, hgid, hfsid, hpoint⟩ := hnames
  intro o ho
  simp only [options, List.mem_append, List.mem_cons, List.not_mem_nil, or_false] at ho
  rcases ho with ((rfl | rfl | rfl | rfl) | ho) | rfl | rfl | rfl | rfl | rfl | rfl | rfl
  · exact haccess
  · exact hsync
  · exact hsecure
  · exact hroot
  · split_ifs at ho with hsquash
    · rw [List.mem_singleton.mp ho]
      exact hall
    · cases ho
  · split_ifs
    · exact hno
    · exact hsubtree
  · exact hcross
  · exact hpair _ _ hsec hsecurity
  · exact hpair _ _ huid (formatUint_word _)
  · exact hpair _ _ hgid (formatUint_word _)
  · exact hpair _ _ hfsid hid
  · exact hpair _ _ hpoint hmount

structure Written (e : ExportPreview) : Prop where
  id : Word e.id
  mountPath : Word e.mountPath
  rooted : ∃ rest, e.path = 0x2f :: rest
  path : 0x0a ∉ e.path
  clients : ∀ c ∈ e.clients, Word c.network ∧ c.Checked

section Lines

variable {e : ExportPreview} {c : Client}

theorem readEntry_token (he : Written e) (hc : c ∈ e.clients) :
    readEntry (token e c) = some ⟨c.network, options e c⟩ := by
  obtain ⟨hnetwork, hchecked⟩ := he.clients c hc
  have hoptions := options_word he.id he.mountPath hchecked
  have hopen : 0x28 ∉ c.network := fun hmem => hnetwork _ hmem (by decide)
  have hsplit : split ([0x2c].intercalate (options e c)) 0x2c = options e c :=
    List.splitOn_intercalate _ (fun o ho hmem => hoptions o ho _ hmem (by decide))
      (by simp [options])
  rw [readEntry, token, cut_append hopen]
  simp only [List.getLast?_concat, if_true, List.dropLast_concat, hsplit]

theorem mem_token (he : Written e) (hc : c ∈ e.clients) {b : UInt8} (hb : b ∈ token e c) :
    b ∉ separators ∨ b ∈ ascii "(,)" := by
  obtain ⟨hnetwork, hchecked⟩ := he.clients c hc
  rcases List.mem_append.mp hb with hb | hb
  · exact .inl (hnetwork b hb)
  rcases List.mem_cons.mp hb with rfl | hb
  · exact .inr (by decide)
  rcases List.mem_append.mp hb with hb | hb
  · rcases mem_of_intercalate hb with rfl | ⟨o, ho, hb⟩
    · exact .inr (by decide)
    · exact .inl (options_word he.id he.mountPath hchecked o ho b hb)
  · rw [List.mem_singleton.mp hb]
    exact .inr (by decide)

theorem token_free (he : Written e) (hc : c ∈ e.clients) {b : UInt8} (hb : b ∈ separators)
    (hown : b ∉ ascii "(,)") : b ∉ token e c := by
  intro hmem
  rcases mem_token he hc hmem with h | h
  · exact h hb
  · exact hown h

theorem readLine_lineText (he : Written e) :
    readLine (lineText e) =
      some ⟨e.path, e.clients.map fun c => ⟨c.network, options e c⟩⟩ := by
  have hpath : 0x20 ∉ escapePath e.path := by
    intro hmem
    rcases mem_escapePath hmem with h | h | h
    · exact absurd h (by decide)
    · exact absurd h (by decide)
    · exact h.2 (.inl rfl)
  have htokens : ∀ t ∈ e.clients.map (token e), 0x20 ∉ t := by
    rw [List.forall_mem_map]
    exact fun c hc => token_free he hc (by decide) (by decide)
  have hsplit : split (lineText e) 0x20 = escapePath e.path :: e.clients.map (token e) :=
    splitOn_cons_flatMap hpath htokens
  rw [readLine, hsplit]
  simp only [unescape_escapePath, mapM_some fun c hc => readEntry_token he hc,
    Option.bind_eq_bind, Option.bind_some]

theorem lineText_free (he : Written e) : 0x0a ∉ lineText e ∧ 0x23 ∉ lineText e := by
  have hfree : ∀ b, b ∈ separators → b ∉ ascii "(,)" → b ≠ 0x20 → b ∉ escapePath e.path →
      b ∉ lineText e := by
    intro b hb hown hspace hpath hmem
    rcases List.mem_append.mp hmem with hmem | hmem
    · exact hpath hmem
    · obtain ⟨t, ht, hmem⟩ := List.mem_flatMap.mp hmem
      obtain ⟨c, hc, rfl⟩ := List.mem_map.mp ht
      rcases List.mem_cons.mp hmem with hmem | hmem
      · exact hspace hmem
      · exact token_free he hc hb hown hmem
  constructor
  · refine hfree _ (by decide) (by decide) (by decide) fun hmem => ?_
    rcases mem_escapePath hmem with h | h | h
    · exact absurd h (by decide)
    · exact absurd h (by decide)
    · exact he.path h.1
  · refine hfree _ (by decide) (by decide) (by decide) fun hmem => ?_
    rcases mem_escapePath hmem with h | h | h
    · exact absurd h (by decide)
    · exact absurd h (by decide)
    · exact h.2 (.inr (.inr (.inl rfl)))

theorem lineText_ne_nil (he : Written e) : lineText e ≠ [] := by
  obtain ⟨rest, hrest⟩ := he.rooted
  rw [lineText, hrest, escapePath, List.flatMap_cons, if_neg (by decide)]
  simp

theorem optionIn_flag {name o : Bytes} (h : 0x3d ∉ o) (rest : List Bytes) :
    optionIn name (o :: rest) = optionIn name rest := by
  rw [optionIn, cut, if_neg h]

theorem optionIn_pair {name key : Bytes} (h : 0x3d ∉ key) (value : Bytes) (rest : List Bytes) :
    optionIn name (pair key value :: rest) =
      if key = name then some value else optionIn name rest := by
  rw [optionIn, pair, cut_append h]

theorem optionIn_flags {name : Bytes} {flags : List Bytes} (h : ∀ o ∈ flags, 0x3d ∉ o)
    (rest : List Bytes) : optionIn name (flags ++ rest) = optionIn name rest := by
  induction flags with
  | nil => rfl
  | cons o more ih =>
    rw [List.forall_mem_cons] at h
    rw [List.cons_append, optionIn_flag h.1, ih h.2]

def flags (e : ExportPreview) (c : Client) : List Bytes :=
  [c.access, ascii "sync", ascii "secure", ascii "root_squash"] ++
    (if c.squash = ascii "all" then [ascii "all_squash"] else []) ++
    [if e.path = e.mountPath then ascii "no_subtree_check" else ascii "subtree_check",
      ascii "nocrossmnt"]

def values (e : ExportPreview) (c : Client) : List Bytes :=
  [pair (ascii "sec") c.security, pair (ascii "anonuid") (formatUint c.anonymousUID.toNat),
    pair (ascii "anongid") (formatUint c.anonymousGID.toNat), pair (ascii "fsid") e.id,
    pair (ascii "mountpoint") e.mountPath]

theorem options_eq (e : ExportPreview) (c : Client) : options e c = flags e c ++ values e c := by
  simp only [options, flags, values, List.append_assoc, List.cons_append, List.nil_append]

theorem flags_plain (hc : c.Checked) : ∀ o ∈ flags e c, 0x3d ∉ o := by
  have hfixed : 0x3d ∉ ascii "sync" ∧ 0x3d ∉ ascii "secure" ∧ 0x3d ∉ ascii "root_squash" ∧
      0x3d ∉ ascii "all_squash" ∧ 0x3d ∉ ascii "no_subtree_check" ∧
      0x3d ∉ ascii "subtree_check" ∧ 0x3d ∉ ascii "nocrossmnt" := by decide +kernel
  obtain ⟨hsync, hsecure, hroot, hall, hno, hsubtree, hcross⟩ := hfixed
  intro o ho
  simp only [flags, List.mem_append, List.mem_cons, List.not_mem_nil, or_false] at ho
  rcases ho with ((rfl | rfl | rfl | rfl) | ho) | rfl | rfl
  · rcases hc.access with heq | heq <;> rw [heq] <;> decide
  · exact hsync
  · exact hsecure
  · exact hroot
  · split_ifs at ho with hsquash
    · rw [List.mem_singleton.mp ho]
      exact hall
    · cases ho
  · split_ifs
    · exact hno
    · exact hsubtree
  · exact hcross

theorem optionIn_options (hc : c.Checked) :
    optionIn (ascii "sec") (options e c) = some c.security ∧
      optionIn (ascii "anonuid") (options e c) = some (formatUint c.anonymousUID.toNat) ∧
      optionIn (ascii "anongid") (options e c) = some (formatUint c.anonymousGID.toNat) := by
  have hplain : 0x3d ∉ ascii "sec" ∧ 0x3d ∉ ascii "anonuid" ∧ 0x3d ∉ ascii "anongid" := by decide
  have hother : ascii "sec" ≠ ascii "anonuid" ∧ ascii "sec" ≠ ascii "anongid" ∧
      ascii "anonuid" ≠ ascii "anongid" := by decide
  simp only [options_eq, optionIn_flags (flags_plain hc), values, optionIn_pair hplain.1,
    optionIn_pair hplain.2.1, optionIn_pair hplain.2.2, hother, if_false, if_true, and_self]

/-- The squash mode can be told from the options. -/
theorem squash_options (hc : c.Checked) :
    (if ascii "all_squash" ∈ options e c then ascii "all" else ascii "root") = c.squash := by
  rcases hc.squash with hroot | hall
  · have hother : c.squash ≠ ascii "all" := by
      rw [hroot]
      decide
    have hfixed : ascii "all_squash" ∉ [ascii "ro", ascii "rw", ascii "sync", ascii "secure",
        ascii "root_squash", ascii "no_subtree_check", ascii "subtree_check",
        ascii "nocrossmnt"] ∧ 0x3d ∉ ascii "all_squash" := by decide +kernel
    have hpair : ∀ name value, ascii "all_squash" ≠ pair name value := by
      intro name value heq
      apply hfixed.2
      rw [heq, pair]
      simp
    simp only [List.mem_cons, List.not_mem_nil, or_false, not_or] at hfixed
    obtain ⟨⟨hro, hrw, hsync, hsecure, hrootSquash, hno, hsubtree, hcross⟩, -⟩ := hfixed
    have haccess : ascii "all_squash" ≠ c.access := by
      rcases hc.access with heq | heq
      · exact heq ▸ hro
      · exact heq ▸ hrw
    have hcheck : ascii "all_squash" ≠
        if e.path = e.mountPath then ascii "no_subtree_check" else ascii "subtree_check" := by
      split_ifs
      · exact hno
      · exact hsubtree
    rw [if_neg, hroot]
    simp only [options, if_neg hother, List.append_nil, List.mem_append, List.mem_cons,
      List.not_mem_nil, haccess, hsync, hsecure, hrootSquash, hcheck, hcross, hpair, or_self,
      not_false_eq_true]
  · rw [if_pos, hall]
    simp [options, hall]

theorem client_options (hc : c.Checked) : Entry.client ⟨c.network, options e c⟩ = some c := by
  obtain ⟨hsec, huid, hgid⟩ := optionIn_options (e := e) hc
  have hbound : ∀ n : UInt32, parseUint (formatUint n.toNat) = some n.toNat := fun n =>
    parseUint_formatUint (Nat.lt_trans n.toNat_lt (by decide))
  have hhead : (options e c).head? = some c.access := rfl
  simp only [Entry.client, hhead, hsec, huid, hgid, squash_options hc, hbound,
    Option.bind_eq_bind, Option.bind_some, UInt32.ofNat_toNat]

end Lines

def headerLine : Bytes :=
  ascii "# PhantoWD candidate exports; verify identities, containment and credentials " ++
    ascii "before activation."

def lineOf (e : ExportPreview) : Line :=
  ⟨e.path, e.clients.map fun c => ⟨c.network, options e c⟩⟩

variable {s s' : Sorter} {p q : Policy} {c d : Config}

theorem table_eq :
    table s p c = unlines 0x0a (headerLine :: (exportPreviews s p c).map lineText) := by
  have hheader : ascii "before activation.\n" = ascii "before activation." ++ [0x0a] := by
    decide +kernel
  have hline : ExportPreview.line = fun e => lineText e ++ [0x0a] := funext line_eq
  rw [table, unlines_cons, unlines, List.flatMap_map, hheader, hline, headerLine]
  simp only [List.append_assoc, List.singleton_append]

/-- Read back, the table has one line per export. -/
theorem read_table (h : ∀ e ∈ exportPreviews s p c, Written e) :
    read (table s p c) = some ((exportPreviews s p c).map lineOf) := by
  have hheader : 0x0a ∉ headerLine ∧ headerLine.takeWhile (· ≠ 0x23) = [] := by decide +kernel
  have hlines : ∀ line ∈ headerLine :: (exportPreviews s p c).map lineText, 0x0a ∉ line := by
    rw [List.forall_mem_cons, List.forall_mem_map]
    exact ⟨hheader.1, fun e he => (lineText_free (h e he)).1⟩
  have hkept : ∀ line ∈ (exportPreviews s p c).map lineText,
      line.takeWhile (· ≠ 0x23) = line ∧ line ≠ [] := by
    rw [List.forall_mem_map]
    intro e he
    refine ⟨List.takeWhile_eq_self_iff.mpr fun b hb => ?_, lineText_ne_nil (h e he)⟩
    have hhash : b ≠ 0x23 := fun heq => (lineText_free (h e he)).2 (heq ▸ hb)
    simpa using hhash
  have hmap : ((exportPreviews s p c).map lineText).map (fun line => line.takeWhile (· ≠ 0x23)) =
      (exportPreviews s p c).map lineText :=
    (List.map_congr_left fun line hline => (hkept line hline).1).trans (List.map_id _)
  have hfilter : ((exportPreviews s p c).map lineText).filter (· ≠ []) =
      (exportPreviews s p c).map lineText :=
    List.filter_eq_self.mpr fun line hline => by simpa using (hkept line hline).2
  rw [read, table_eq, split, splitOn_unlines hlines, List.map_append, List.map_cons, hheader.2,
    hmap, List.filter_append, List.filter_cons_of_neg (by simp), hfilter]
  simp only [List.map_cons, List.map_nil, List.takeWhile_nil]
  rw [List.filter_cons_of_neg (by simp), List.filter_nil, List.append_nil]
  exact mapM_some fun e he => readLine_lineText (h e he)

theorem written_exportPreview (hspell : NetworksSpelled netip) (hc : Sound c)
    (hp : PolicySound netip p c) {e : Export} (he : e ∈ p.exports.items) :
    Written (exportPreview s c e) := by
  have hgood := hp.exports e he
  obtain ⟨v, hv, hid⟩ := List.mem_map.mp hgood.volume
  have hmount : Word (SmbConfig.mountPath e.volumeID) :=
    mountPath_word (hid ▸ (hc.volumes v hv).1)
  have hpath := hgood.path
  rw [NfsConfig.relativePath, Bool.and_eq_true] at hpath
  constructor
  · exact uuid_word hgood.id
  · exact hmount
  · exact ⟨_, rfl⟩
  · intro hend
    rcases mem_of_joinRooted hend with hsep | hbase | hrel
    · exact absurd hsep (by decide)
    · exact hmount _ hbase (by decide)
    · exact not_mem_of_runes (NfsConfig.relativePath_valid hgood.path) hpath.2 (by decide)
        (by decide) hrel
  · intro k hk
    obtain ⟨r, hr⟩ := hgood.clients k (s.mem_run.mp hk)
    exact ⟨network_word hspell hr, (NfsConfig.checkClient_some hr).2⟩

structure Describes (s : Sorter) (c : Config) (e : Export) (x : Line) : Prop where
  path : x.path = joinRooted (SmbConfig.mountPath e.volumeID) e.relativePath
  clients : ∃ clients, clients.Perm e.clients.items ∧
    (clients.Pairwise fun a b => UnixIdentity.bytesLe a.network b.network = true) ∧
    List.Forall₂ (fun k y => Entry.client y = some k ∧ y.options = options (exportPreview s c e) k)
      clients x.entries

/-- Read back, the table is one line per export, in the order of the export IDs. -/
def Faithful (s : Sorter) (p : Policy) (c : Config) (text : Bytes) : Prop :=
  ∃ exports lines, exports.Perm p.exports.items ∧
    (exports.Pairwise fun e f => UnixIdentity.bytesLe e.id f.id = true) ∧
    read text = some lines ∧ List.Forall₂ (Describes s c) exports lines

theorem describes_lineOf (hp : PolicySound netip p c) {e : Export} (he : e ∈ p.exports.items) :
    Describes s c e (lineOf (exportPreview s c e)) := by
  refine ⟨rfl, sortClients s e, s.perm Client.network _, s.sorted Client.network _, ?_⟩
  rw [lineOf, List.forall₂_map_right_iff]
  refine List.forall₂_same.mpr fun k hk => ?_
  obtain ⟨r, hr⟩ := (hp.exports e he).clients k (s.mem_run.mp hk)
  exact ⟨client_options (NfsConfig.checkClient_some hr).2, rfl⟩

theorem table_faithful (hspell : NetworksSpelled netip) (hc : Sound c)
    (hp : PolicySound netip p c) : Faithful s p c (table s p c) := by
  have hrun : exportPreviews s p c = (s.run Export.id p.exports.items).map (exportPreview s c) :=
    s.run_map (fun _ _ => UnixIdentity.bytesLe_antisymm) (export_ids hp)
  have hmem : ∀ e ∈ s.run Export.id p.exports.items, e ∈ p.exports.items := fun e => s.mem_run.mp
  have hwritten : ∀ e ∈ exportPreviews s p c, Written e := by
    rw [hrun, List.forall_mem_map]
    exact fun e he => written_exportPreview hspell hc hp (hmem e he)
  refine ⟨_, _, s.perm Export.id _, s.sorted Export.id _, read_table hwritten, ?_⟩
  rw [hrun, List.map_map, List.forall₂_map_right_iff, List.forall₂_same]
  exact fun e he => describes_lineOf hp (hmem e he)

theorem build_ok_iff {v : Preview} : build s netip p c = .ok v ↔
    (Sound c ∧ PolicySound netip p c) ∧
      v = ⟨1, p.revision, p.volumeRevision, exportPreviews s p c, table s p c, usesAuthSys p,
        requiresKerberos p⟩ := by
  rw [← policy_validate_iff, build]
  cases p.validate netip c with
  | error e => simp
  | ok u => simp [eq_comm]

theorem build_reordered (hnet : NetworksOverlap netip) (h : SharesReordered c d)
    (hpq : PolicyReordered p q) {v : Preview} (hv : build s netip p c = .ok v) :
    build s' netip q d = .ok v := by
  obtain ⟨⟨hc, hp⟩, hview⟩ := build_ok_iff.mp hv
  have hsys : usesAuthSys p = usesAuthSys q := any_client_congr hpq _
  have hkerberos : requiresKerberos p = requiresKerberos q := any_client_congr hpq _
  refine build_ok_iff.mpr ⟨⟨h.sound hc, hpq.sound hnet h hp⟩, ?_⟩
  rw [hview, hpq.revision, hpq.volumeRevision, hsys, hkerberos,
    exportPreviews_congr hnet h hpq hc hp, table_congr hnet h hpq hc hp]

/-- The table says exactly what the policy exports, escaping loses nothing, and a policy with the
same entries in another order has the same preview. -/
theorem exports_table_faithful (netip : Netip) (hnet : NetworksOverlap netip)
    (hspell : NetworksSpelled netip) (s s' : Sorter) (p : Policy) (c : Config) :
    (∀ v, build s netip p c = .ok v → Faithful s p c v.table) ∧
      Function.Injective escapePath ∧
      ∀ q d, PolicyReordered p q → SharesReordered c d →
        ∀ v, build s netip p c = .ok v ↔ build s' netip q d = .ok v := by
  refine ⟨?_, escapePath_injective, ?_⟩
  · intro v hv
    obtain ⟨⟨hc, hp⟩, rfl⟩ := build_ok_iff.mp hv
    exact table_faithful hspell hc hp
  · intro q d hpq h v
    exact ⟨build_reordered hnet h hpq, build_reordered hnet h.symm hpq.symm⟩

theorem ipv4_spelled : NetworksSpelled .ipv4 := by
  have hdigits : ∀ n, ∀ b ∈ formatUint n, NfsConfig.hexByte b = true := by
    intro n b hb
    have hdigit : isDigit b = true := List.all_eq_true.mp (formatUint_digits n) b hb
    have hrange : 0x30 ≤ b ∧ b ≤ 0x39 := by
      simpa [isDigit, UInt8.le_iff_toNat_le] using hdigit
    simp [NfsConfig.hexByte, hrange]
  intro p _ b hb
  rcases List.mem_append.mp hb with hb | hb
  · rcases mem_of_intercalate hb with rfl | ⟨l, hl, hb⟩
    · exact .inr (.inl rfl)
    · obtain ⟨n, _, rfl⟩ := List.mem_map.mp hl
      exact .inl (hdigits n b hb)
  · rcases List.mem_cons.mp hb with rfl | hb
    · exact .inr (.inr (.inr rfl))
    · exact .inl (hdigits p.2 b hb)

def sampleConfig : Config where
  format := ShareConfig.formatName
  schemaVersion := 1
  revision := 1
  volumes := some [⟨ascii "data", ascii "01234567-89ab-cdef-0123-456789abcdef"⟩]
  users := some []
  shares := some []

def samplePolicy : Policy where
  format := NfsConfig.formatName
  schemaVersion := 1
  revision := 1
  volumeRevision := 1
  exports := some [⟨ascii "11111111-2222-4333-8444-555555555555", ascii "data",
    ascii "a #b(rw) c", some [⟨ascii "10.1.0.0/16", ascii "rw", ascii "all", 65534, 65534,
      ascii "sys"⟩, ⟨ascii "10.2.0.0/16", ascii "ro", ascii "root", 65534, 65534,
      ascii "krb5p"⟩]⟩]

theorem sample_table_read :
    (build .simple .ipv4 samplePolicy sampleConfig).toOption.isSome = true ∧
      ∀ v, build .simple .ipv4 samplePolicy sampleConfig = .ok v →
        Faithful .simple samplePolicy sampleConfig v.table :=
  ⟨by decide +kernel,
    (exports_table_faithful .ipv4 ipv4_overlap ipv4_spelled .simple .simple samplePolicy
      sampleConfig).1⟩

end ExportsTable
