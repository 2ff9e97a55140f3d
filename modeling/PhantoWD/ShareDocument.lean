import PhantoWD.Checks
import PhantoWD.JsonStruct
import PhantoWD.KeyedLists
import PhantoWD.ShareConfig

/-!
The JSON form of a share policy, its strict decoder, and the checks the Samba preview adds.
An accepted policy that fits the byte limit is read back as it was.
-/
namespace ShareConfig

open GoText GoJson ConfigJson JsonStruct KeyedLists
open Checks (ite_error_ok)

def maxInputBytes : Nat := 256 * 1024

def volumeMountRoot : Bytes := ascii "/srv/phantowd/volumes"

def keys : List Bytes :=
  [ascii "format", ascii "schema_version", ascii "revision", ascii "volumes", ascii "users",
    ascii "shares", ascii "id", ascii "filesystem_uuid", ascii "name", ascii "volume_id",
    ascii "relative_path", ascii "grants", ascii "user_id", ascii "access"]

def Volume.codec : Codec Volume := .struct ⟨[], []⟩
  [.of (ascii "id") .string Volume.id fun a s => { s with id := a },
    .of (ascii "filesystem_uuid") .string Volume.filesystemUUID
      fun a s => { s with filesystemUUID := a }]

def User.codec : Codec User := .struct ⟨[], []⟩
  [.of (ascii "id") .string User.id fun a s => { s with id := a },
    .of (ascii "name") .string User.name fun a s => { s with name := a }]

def Grant.codec : Codec Grant := .struct ⟨[], []⟩
  [.of (ascii "user_id") .string Grant.userID fun a s => { s with userID := a },
    .of (ascii "access") .string Grant.access fun a s => { s with access := a }]

def Share.codec : Codec Share := .struct ⟨[], [], [], [], none⟩
  [.of (ascii "id") .string Share.id fun a s => { s with id := a },
    .of (ascii "name") .string Share.name fun a s => { s with name := a },
    .of (ascii "volume_id") .string Share.volumeID fun a s => { s with volumeID := a },
    .of (ascii "relative_path") .string Share.relativePath
      fun a s => { s with relativePath := a },
    .of (ascii "grants") (.slice Grant.codec) Share.grants fun a s => { s with grants := a }]

def Config.codec : Codec Config := .struct ⟨[], 0, 0, none, none, none⟩
  [.of (ascii "format") .string Config.format fun a s => { s with format := a },
    .of (ascii "schema_version") .int Config.schemaVersion
      fun a s => { s with schemaVersion := a },
    .of (ascii "revision") .uint64 Config.revision fun a s => { s with revision := a },
    .of (ascii "volumes") (.slice Volume.codec) Config.volumes
      fun a s => { s with volumes := a },
    .of (ascii "users") (.slice User.codec) Config.users fun a s => { s with users := a },
    .of (ascii "shares") (.slice Share.codec) Config.shares fun a s => { s with shares := a }]

def Config.marshal (c : Config) : Bytes := (Config.codec.write c).render

inductive DecodeError where
  | fields
  | policy (e : ConfigError)
  deriving DecidableEq

def decode (data : Bytes) : Except DecodeError Config :=
  match decodeDocument Config.codec data maxInputBytes 8 keys with
  | none => .error .fields
  | some c =>
    match c.validate with
    | .error e => .error (.policy e)
    | .ok () => .ok c

variable {s : Bytes} {r i : Nat} {ids users volumes : List Bytes} {c : Config}

theorem valid_of_runes (h : ∀ r ∈ runes s, r < (0x80 : Nat)) : validString s = true :=
  validString_ascii (ascii_of_runes h)

theorem lower_ascii (h : lower r = true) : r < 0x80 := by
  have hb : 0x61 ≤ r ∧ r ≤ 0x7a := by simpa [lower] using h
  omega

theorem digit_ascii (h : digit r = true) : r < 0x80 := by
  have hb : 0x30 ≤ r ∧ r ≤ 0x39 := by simpa [digit] using h
  omega

theorem hexLower_ascii (h : hexLower r = true) : r < 0x80 := by
  have hb : digit r = true ∨ 0x61 ≤ r ∧ r ≤ 0x66 := by simpa [hexLower] using h
  rcases hb with hb | hb
  · exact digit_ascii hb
  · omega

theorem identifier_valid (h : identifier s = true) : validString s = true := by
  simp only [identifier, Bool.and_eq_true, List.all_eq_true, Bool.or_eq_true, beq_iff_eq] at h
  apply valid_of_runes
  intro r hr
  rcases h.2 r hr with (hl | hd) | rfl
  · exact lower_ascii hl
  · exact digit_ascii hd
  · decide

theorem accountName_valid (h : accountName s = true) : validString s = true := by
  simp only [accountName, Bool.and_eq_true, List.all_eq_true, Bool.or_eq_true, beq_iff_eq] at h
  apply valid_of_runes
  intro r hr
  rcases h.1.1.1.2 r hr with ((hl | hd) | rfl) | rfl
  · exact lower_ascii hl
  · exact digit_ascii hd
  · decide
  · decide

theorem shareName_valid (h : shareName s = true) : validString s = true := by
  simp only [shareName, Bool.and_eq_true, List.all_eq_true, decide_eq_true_eq] at h
  apply valid_of_runes
  intro r hr
  exact Nat.lt_of_le_of_lt (h.2 r hr).1.2 (by decide)

theorem relativePath_valid (h : relativePath s = true) : validString s = true := by
  simp only [relativePath, Bool.and_eq_true] at h
  exact h.1.1.1.2

theorem filesystemUUID_valid (h : filesystemUUID s = true) : validString s = true := by
  simp only [filesystemUUID, Bool.and_eq_true, List.all_eq_true] at h
  apply validString_ascii
  intro b hb
  obtain ⟨i, hi⟩ := List.mem_iff_getElem?.mp hb
  have hp := h.1.2 (b, i) (by simpa [List.mem_zipIdx_iff_getElem?] using hi)
  by_cases hh : hyphenAt i = true
  · simp only [hh, if_true, beq_iff_eq] at hp
    rw [hp]
    decide
  · exact hexLower_ascii (by simpa [hh] using hp)

theorem access_valid (h : s = ascii "ro" ∨ s = ascii "rw") : validString s = true := by
  rcases h with rfl | rfl <;> rfl

theorem checkEntries_iff {α : Type} {fault : Nat → ConfigError} {id second : α → Bytes}
    {grammar : Bytes → Bool} {seconds out : List Bytes} {l : List α} :
    checkEntries fault id second grammar i ids seconds l = .ok out ↔
      (∀ a ∈ l, identifier (id a) = true ∧ grammar (second a) = true) ∧
        Fresh id ids l ∧ Fresh second seconds l ∧ out = saw id ids l := by
  induction l generalizing i ids seconds with
  | nil => simpa [checkEntries, fresh_nil, saw] using eq_comm
  | cons a rest ih =>
    rw [checkEntries, ite_error_ok, ih, List.forall_mem_cons, fresh_cons, fresh_cons]
    simp only [Bool.or_eq_true, Bool.not_eq_true', List.contains_eq_mem, decide_eq_true_eq,
      not_or, Bool.not_eq_false]
    constructor
    · rintro ⟨⟨⟨⟨hid, hnew⟩, hsecond⟩, hnewSecond⟩, hall, hids, hseconds, hout⟩
      exact ⟨⟨⟨hid, hsecond⟩, hall⟩, ⟨hnew, hids⟩, ⟨hnewSecond, hseconds⟩, hout⟩
    · rintro ⟨⟨⟨hid, hsecond⟩, hall⟩, ⟨hnew, hids⟩, ⟨hnewSecond, hseconds⟩, hout⟩
      exact ⟨⟨⟨⟨hid, hnew⟩, hsecond⟩, hnewSecond⟩, hall, hids, hseconds, hout⟩

theorem checkGrants_iff {j : Nat} {grantees : List Bytes} {gs : List Grant} :
    checkGrants i j users grantees gs = .ok () ↔
      (∀ g ∈ gs, g.userID ∈ users ∧ (g.access = ascii "ro" ∨ g.access = ascii "rw")) ∧
        Fresh Grant.userID grantees gs := by
  induction gs generalizing j grantees with
  | nil => simp [checkGrants, fresh_nil]
  | cons g rest ih =>
    rw [checkGrants, ite_error_ok, ih, List.forall_mem_cons, fresh_cons]
    simp only [Bool.or_eq_true, Bool.not_eq_true', List.contains_eq_mem, decide_eq_true_eq,
      decide_eq_false_iff_not, not_or, Decidable.not_not, Bool.and_eq_true, bne_iff_ne, ne_eq,
      not_and_or]
    constructor
    · rintro ⟨⟨⟨huser, hnew⟩, haccess⟩, hall, hfresh⟩
      exact ⟨⟨⟨huser, haccess⟩, hall⟩, hnew, hfresh⟩
    · rintro ⟨⟨⟨huser, haccess⟩, hall⟩, hnew, hfresh⟩
      exact ⟨⟨⟨huser, hnew⟩, haccess⟩, hall, hfresh⟩

structure ShareGood (volumes users : List Bytes) (s : Share) : Prop where
  id : identifier s.id = true
  name : shareName s.name = true
  volume : s.volumeID ∈ volumes
  path : ShareConfig.relativePath s.relativePath = true
  granted : 0 < s.grants.items.length
  counted : s.grants.items.length ≤ maxUsers
  grants : ∀ g ∈ s.grants.items, g.userID ∈ users ∧
    (g.access = ascii "ro" ∨ g.access = ascii "rw")
  grantees : (s.grants.items.map Grant.userID).Nodup

theorem checkShares_iff {names : List Bytes} {ss : List Share} :
    checkShares i volumes users ids names ss = .ok () ↔
      (∀ s ∈ ss, ShareGood volumes users s) ∧ Fresh Share.id ids ss ∧
        Fresh (fun s : Share => toLower s.name) names ss := by
  induction ss generalizing i ids names with
  | nil => simp [checkShares, fresh_nil]
  | cons s rest ih =>
    rw [checkShares, ite_error_ok, List.forall_mem_cons, fresh_cons, fresh_cons]
    simp only [Bool.or_eq_true, Bool.not_eq_true', List.contains_eq_mem, decide_eq_true_eq,
      decide_eq_false_iff_not, beq_iff_eq, not_or, Decidable.not_not, Bool.not_eq_false,
      Nat.not_lt]
    constructor
    · rintro ⟨⟨⟨⟨⟨⟨⟨⟨hid, hnew⟩, hname⟩, hnewName⟩, hvolume⟩, hpath⟩, hgranted⟩, hcounted⟩, hrest⟩
      cases hg : checkGrants i 0 users [] s.grants.items with
      | error e => simp [hg] at hrest
      | ok u =>
        obtain ⟨hall, hnodup⟩ := checkGrants_iff.mp hg
        rw [hg] at hrest
        obtain ⟨hgood, hids, hnames⟩ := ih.mp hrest
        exact ⟨⟨⟨hid, hname, hvolume, hpath, Nat.pos_of_ne_zero hgranted, hcounted, hall,
          fresh_start.mp hnodup⟩, hgood⟩, ⟨hnew, hids⟩, hnewName, hnames⟩
    · rintro ⟨⟨hs, hgood⟩, ⟨hnew, hids⟩, hnewName, hnames⟩
      refine ⟨⟨⟨⟨⟨⟨⟨⟨hs.id, hnew⟩, hs.name⟩, hnewName⟩, hs.volume⟩, hs.path⟩, hs.granted.ne'⟩,
        hs.counted⟩, ?_⟩
      rw [checkGrants_iff.mpr ⟨hs.grants, fresh_start.mpr hs.grantees⟩]
      exact ih.mpr ⟨hgood, hids, hnames⟩

structure Sound (c : Config) : Prop where
  format : c.format = formatName
  schema : c.schemaVersion = ShareConfig.schemaVersion
  revision : c.revision ≠ 0
  present : c.volumes.isSome = true ∧ c.users.isSome = true ∧ c.shares.isSome = true
  counted : c.volumes.items.length ≤ maxVolumes ∧ c.users.items.length ≤ maxUsers ∧
    c.shares.items.length ≤ maxShares
  volumes : ∀ v ∈ c.volumes.items, identifier v.id = true ∧ filesystemUUID v.filesystemUUID = true
  volumeIDs : (c.volumes.items.map Volume.id).Nodup
  volumeUUIDs : (c.volumes.items.map Volume.filesystemUUID).Nodup
  users : ∀ u ∈ c.users.items, identifier u.id = true ∧ accountName u.name = true
  userIDs : (c.users.items.map User.id).Nodup
  userNames : (c.users.items.map User.name).Nodup
  shares : ∀ s ∈ c.shares.items,
    ShareGood (c.volumes.items.map Volume.id) (c.users.items.map User.id) s
  shareIDs : (c.shares.items.map Share.id).Nodup
  shareNames : (c.shares.items.map fun s => toLower s.name).Nodup

theorem ShareGood.mono {volumes' users' : List Bytes} {s : Share} (h : ShareGood volumes users s)
    (hv : ∀ id ∈ volumes, id ∈ volumes') (hu : ∀ id ∈ users, id ∈ users') :
    ShareGood volumes' users' s :=
  ⟨h.id, h.name, hv _ h.volume, h.path, h.granted, h.counted,
    fun g hg => ⟨hu _ (h.grants g hg).1, (h.grants g hg).2⟩, h.grantees⟩

/-- Validation decides soundness. -/
theorem validate_iff : c.validate = .ok () ↔ Sound c := by
  have hvolumes := @saw_mem_iff _ _ Volume.id [] c.volumes.items
  have husers := @saw_mem_iff _ _ User.id [] c.users.items
  simp only [List.not_mem_nil, or_false] at hvolumes husers
  rw [Config.validate, ite_error_ok, ite_error_ok]
  simp only [Bool.or_eq_true, bne_iff_ne, ne_eq, beq_iff_eq, not_or, Decidable.not_not,
    Option.isNone_iff_eq_none, decide_eq_true_eq, Nat.not_lt, ← Option.isSome_iff_ne_none]
  constructor
  · rintro ⟨⟨⟨hformat, hschema⟩, hrev⟩, ⟨⟨⟨⟨⟨hv, hu⟩, hs⟩, hcv⟩, hcu⟩, hcs⟩, hloops⟩
    cases hcheckV : checkVolumes 0 [] [] c.volumes.items with
    | error e => simp [hcheckV] at hloops
    | ok volumes =>
      cases hcheckU : checkUsers 0 [] [] c.users.items with
      | error e => simp [hcheckV, hcheckU] at hloops
      | ok users =>
        simp only [hcheckV, hcheckU] at hloops
        obtain ⟨hgoodV, hidsV, huuidsV, rfl⟩ := checkEntries_iff.mp hcheckV
        obtain ⟨hgoodU, hidsU, hnamesU, rfl⟩ := checkEntries_iff.mp hcheckU
        obtain ⟨hshares, hids, hnames⟩ := checkShares_iff.mp hloops
        exact ⟨hformat, hschema, hrev, ⟨hv, hu, hs⟩, ⟨hcv, hcu, hcs⟩, hgoodV,
          fresh_start.mp hidsV, fresh_start.mp huuidsV, hgoodU, fresh_start.mp hidsU,
          fresh_start.mp hnamesU, fun s hs => (hshares s hs).mono (fun id => (hvolumes id).mp)
            fun id => (husers id).mp, fresh_start.mp hids, fresh_start.mp hnames⟩
  · intro h
    refine ⟨⟨⟨h.format, h.schema⟩, h.revision⟩, ⟨⟨⟨⟨⟨h.present.1, h.present.2.1⟩, h.present.2.2⟩,
      h.counted.1⟩, h.counted.2.1⟩, h.counted.2.2⟩, ?_⟩
    rw [checkVolumes, checkEntries_iff.mpr ⟨h.volumes, fresh_start.mpr h.volumeIDs,
      fresh_start.mpr h.volumeUUIDs, rfl⟩, checkUsers, checkEntries_iff.mpr ⟨h.users,
      fresh_start.mpr h.userIDs, fresh_start.mpr h.userNames, rfl⟩]
    exact checkShares_iff.mpr ⟨fun s hs => (h.shares s hs).mono (fun id => (hvolumes id).mpr)
      fun id => (husers id).mpr, fresh_start.mpr h.shareIDs, fresh_start.mpr h.shareNames⟩

structure Share.Checked (volumes users : List Bytes) (s : Share) : Prop where
  id : identifier s.id = true
  name : shareName s.name = true
  volume : s.volumeID ∈ volumes
  path : ShareConfig.relativePath s.relativePath = true
  grants : ∃ gs, s.grants = some gs ∧
    ∀ g ∈ gs, g.userID ∈ users ∧ (g.access = ascii "ro" ∨ g.access = ascii "rw")

structure Config.Accepted (c : Config) : Prop where
  format : c.format = formatName
  schema : c.schemaVersion = 1
  revision : c.revision ≠ 0
  volumes : ∃ vs, c.volumes = some vs ∧ (vs.map Volume.id).Nodup ∧
    ∀ v ∈ vs, identifier v.id = true ∧ filesystemUUID v.filesystemUUID = true
  users : ∃ us, c.users = some us ∧
    ∀ u ∈ us, identifier u.id = true ∧ accountName u.name = true
  shares : ∃ ss, c.shares = some ss ∧
    ∀ s ∈ ss, s.Checked (c.volumes.items.map Volume.id) (c.users.items.map User.id)

theorem Config.validate_ok (h : c.validate = .ok ()) : c.Accepted := by
  have hsound := validate_iff.mp h
  obtain ⟨hv, hu, hs⟩ := hsound.present
  obtain ⟨vs, hvs⟩ := Option.isSome_iff_exists.mp hv
  obtain ⟨us, hus⟩ := Option.isSome_iff_exists.mp hu
  obtain ⟨ss, hss⟩ := Option.isSome_iff_exists.mp hs
  have hvi : c.volumes.items = vs := by rw [hvs]; rfl
  have hui : c.users.items = us := by rw [hus]; rfl
  have hsi : c.shares.items = ss := by rw [hss]; rfl
  refine ⟨hsound.format, hsound.schema, hsound.revision,
    ⟨vs, hvs, hvi ▸ hsound.volumeIDs, hvi ▸ hsound.volumes⟩, ⟨us, hus, hui ▸ hsound.users⟩, ss, hss,
    fun s hmem => ?_⟩
  have hgood := hsound.shares s (hsi ▸ hmem)
  cases hgrants : s.grants with
  | none => simpa [hgrants] using hgood.granted
  | some gs =>
    have hall := hgood.grants
    rw [hgrants] at hall
    exact ⟨hgood.id, hgood.name, hgood.volume, hgood.path, gs, hgrants, hall⟩

variable {height : Nat}

theorem carries_volume {v : Volume} (hid : identifier v.id = true)
    (huuid : filesystemUUID v.filesystemUUID = true) :
    Carries (some keys) (height + 1) Volume.codec (Volume.codec.write v) v :=
  carries_struct <| .text (identifier_valid hid) <| .text (filesystemUUID_valid huuid) .nil

theorem carries_user {u : User} (hid : identifier u.id = true)
    (hname : accountName u.name = true) :
    Carries (some keys) (height + 1) User.codec (User.codec.write u) u :=
  carries_struct <| .text (identifier_valid hid) <| .text (accountName_valid hname) .nil

theorem carries_grant {g : Grant} (huser : identifier g.userID = true)
    (haccess : g.access = ascii "ro" ∨ g.access = ascii "rw") :
    Carries (some keys) (height + 1) Grant.codec (Grant.codec.write g) g :=
  carries_struct <| .text (identifier_valid huser) <| .text (access_valid haccess) .nil

theorem carries_share {s : Share} (h : s.Checked volumes users)
    (hvolumes : ∀ id ∈ volumes, identifier id = true)
    (husers : ∀ id ∈ users, identifier id = true) :
    Carries (some keys) (height + 3) Share.codec (Share.codec.write s) s := by
  obtain ⟨gs, hgs, hgrants⟩ := h.grants
  obtain ⟨id, name, volumeID, path, grants⟩ := s
  cases hgs
  have hslice : Carries (some keys) (height + 2) (.slice Grant.codec)
      (.arr (.ofList (gs.map Grant.codec.write))) (some gs) :=
    carries_slice fun g hg => carries_grant (husers _ (hgrants g hg).1) (hgrants g hg).2
  exact carries_struct <| .text (identifier_valid h.id) <| .text (shareName_valid h.name) <|
    .text (identifier_valid (hvolumes _ h.volume)) <| .text (relativePath_valid h.path) <|
    .field hslice .nil

theorem Config.Accepted.carries (h : c.Accepted) :
    Carries (some keys) (height + 5) Config.codec (Config.codec.write c) c := by
  obtain ⟨format, schema, revision, volumes, users, shares⟩ := c
  obtain ⟨rfl, rfl, _, ⟨vs, rfl, _, hvs⟩, ⟨us, rfl, hus⟩, ⟨ss, rfl, hss⟩⟩ := h
  have hvids : ∀ id ∈ vs.map Volume.id, identifier id = true := by
    intro id hid
    obtain ⟨v, hv, rfl⟩ := List.mem_map.mp hid
    exact (hvs v hv).1
  have huids : ∀ id ∈ us.map User.id, identifier id = true := by
    intro id hid
    obtain ⟨u, hu, rfl⟩ := List.mem_map.mp hid
    exact (hus u hu).1
  have hvolumes : Carries (some keys) (height + 4) (.slice Volume.codec)
      (.arr (.ofList (vs.map Volume.codec.write))) (some vs) :=
    carries_slice fun v hv => carries_volume (hvs v hv).1 (hvs v hv).2
  have husers : Carries (some keys) (height + 4) (.slice User.codec)
      (.arr (.ofList (us.map User.codec.write))) (some us) :=
    carries_slice fun u hu => carries_user (hus u hu).1 (hus u hu).2
  have hshares : Carries (some keys) (height + 4) (.slice Share.codec)
      (.arr (.ofList (ss.map Share.codec.write))) (some ss) :=
    carries_slice fun s hs => carries_share (hss s hs) hvids huids
  exact carries_struct <| .text rfl <| .field (carries_schema rfl) <|
    .field (carries_uint64 revision) <| .field hvolumes <| .field husers <|
    .field hshares .nil

theorem decode_marshal (h : c.validate = .ok ()) (hlen : c.marshal.length ≤ maxInputBytes) :
    decode c.marshal = .ok c := by
  have hread := decodeDocument_render (Config.validate_ok h).carries hlen
    (show 5 ≤ 8 by decide) (by decide)
  rw [decode, Config.marshal, hread]
  simp only [h]

end ShareConfig
