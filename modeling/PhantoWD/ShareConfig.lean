import PhantoWD.GoText

/-!
The policy document's own consistency check. Field grammars are shared with the
service-account registry, which validates an identity by building a one-user policy.
-/
namespace ShareConfig

open GoText

def formatName : Bytes := ascii "phantowd-share-config"
def schemaVersion : Int := 1
def maxVolumes : Nat := 16
def maxUsers : Nat := 128
def maxShares : Nat := 128

structure Volume where
  id : Bytes
  filesystemUUID : Bytes
  deriving DecidableEq

structure User where
  id : Bytes
  name : Bytes
  deriving DecidableEq

structure Grant where
  userID : Bytes
  access : Bytes
  deriving DecidableEq

structure Share where
  id : Bytes
  name : Bytes
  volumeID : Bytes
  relativePath : Bytes
  grants : Slice Grant
  deriving DecidableEq

structure Config where
  format : Bytes
  schemaVersion : Int
  revision : UInt64
  volumes : Slice Volume
  users : Slice User
  shares : Slice Share
  deriving DecidableEq

inductive ConfigError where
  | unsupported
  | collections
  | volume (index : Nat)
  | user (index : Nat)
  | share (index : Nat)
  | grant (share index : Nat)
  deriving DecidableEq

def lower (r : Rune) : Bool := 0x61 ≤ r && r ≤ 0x7a
def digit (r : Rune) : Bool := 0x30 ≤ r && r ≤ 0x39

def startsLower : Bytes → Bool
  | [] => false
  | b :: _ => lower b.toNat

def identifier (s : Bytes) : Bool :=
  s.length ≤ 64 && startsLower s &&
    (runes s).all fun ch => lower ch || digit ch || ch == 0x2d

def accountName (s : Bytes) : Bool :=
  s.length ≤ 32 && startsLower s &&
    ((runes s).all fun ch => lower ch || digit ch || ch == 0x2d || ch == 0x5f) &&
    s != ascii "root" && s != ascii "nobody" && s != ascii "phantowd"

def spaceByte (b : UInt8) : Bool := b == 0x20 || (0x09 ≤ b && b ≤ 0x0d)

/-- `strings.ToLower` on the ASCII part; every accepted share name is ASCII. -/
def toLower (s : Bytes) : Bytes := s.map fun b => if 0x41 ≤ b && b ≤ 0x5a then b + 0x20 else b

def reservedShareNames : List Bytes :=
  [ascii ".", ascii "..", ascii "global", ascii "homes", ascii "printers", ascii "print$",
    ascii "ipc$", ascii "admin$"]

/-- Trimming is visible only at the ends; a non-ASCII space fails the character test below. -/
def shareName (s : Bytes) : Bool :=
  s != [] && s.length ≤ 80 && !(s.head?.any spaceByte) && !(s.getLast?.any spaceByte) &&
    s.getLast? != some 0x2e && !reservedShareNames.contains (toLower s) &&
    (runes s).all fun ch =>
      32 ≤ ch && ch ≤ 126 && !((ascii "[]/\\:;=\"<>|?*").any fun b => b.toNat == ch)

def relativePath (s : Bytes) : Bool :=
  s != [] && s.length ≤ 1024 && validString s && validPath s &&
    !containsAny s (ascii "\\:") && (runes s).all fun ch => 32 ≤ ch && ch != 127

def hyphenAt (i : Nat) : Bool := i == 8 || i == 13 || i == 18 || i == 23

def hexLower (r : Rune) : Bool := digit r || (0x61 ≤ r && r ≤ 0x66)

def filesystemUUID (s : Bytes) : Bool :=
  s.length == 36 &&
    (s.zipIdx.all fun p => if hyphenAt p.2 then p.1 == 0x2d else hexLower p.1.toNat) &&
    s.zipIdx.any fun p => !hyphenAt p.2 && p.1 != 0x30

/-- The loops over volumes and users: an identifier and a second field, both of them new. -/
def checkEntries {α : Type} (fault : Nat → ConfigError) (id second : α → Bytes)
    (grammar : Bytes → Bool) (i : Nat) (ids seconds : List Bytes) :
    List α → Except ConfigError (List Bytes)
  | [] => .ok ids
  | a :: rest =>
    if !identifier (id a) || ids.contains (id a) || !grammar (second a) ||
        seconds.contains (second a) then .error (fault i)
    else checkEntries fault id second grammar (i + 1) (id a :: ids) (second a :: seconds) rest

def checkVolumes : Nat → List Bytes → List Bytes → List Volume → Except ConfigError (List Bytes) :=
  checkEntries .volume Volume.id Volume.filesystemUUID filesystemUUID

def checkUsers : Nat → List Bytes → List Bytes → List User → Except ConfigError (List Bytes) :=
  checkEntries .user User.id User.name accountName

def checkGrants (i j : Nat) (users grantees : List Bytes) :
    List Grant → Except ConfigError Unit
  | [] => .ok ()
  | g :: rest =>
    if !users.contains g.userID || grantees.contains g.userID ||
        (g.access != ascii "ro" && g.access != ascii "rw") then .error (.grant i j)
    else checkGrants i (j + 1) users (g.userID :: grantees) rest

def checkShares (i : Nat) (volumes users ids names : List Bytes) :
    List Share → Except ConfigError Unit
  | [] => .ok ()
  | s :: rest =>
    if !identifier s.id || ids.contains s.id || !shareName s.name ||
        names.contains (toLower s.name) || !volumes.contains s.volumeID ||
        !relativePath s.relativePath || s.grants.items.length == 0 ||
        maxUsers < s.grants.items.length then .error (.share i)
    else
      match checkGrants i 0 users [] s.grants.items with
      | .error e => .error e
      | .ok () => checkShares (i + 1) volumes users (s.id :: ids) (toLower s.name :: names) rest

def Config.validate (c : Config) : Except ConfigError Unit :=
  if c.format != formatName || c.schemaVersion != ShareConfig.schemaVersion || c.revision == 0 then
    .error .unsupported
  else if c.volumes.isNone || c.users.isNone || c.shares.isNone ||
      maxVolumes < c.volumes.items.length || maxUsers < c.users.items.length ||
      maxShares < c.shares.items.length then .error .collections
  else
    match checkVolumes 0 [] [] c.volumes.items with
    | .error e => .error e
    | .ok volumes =>
      match checkUsers 0 [] [] c.users.items with
      | .error e => .error e
      | .ok users => checkShares 0 volumes users [] [] c.shares.items

/-- A policy of one user and nothing else is accepted exactly on the user's grammar. -/
theorem single_user_valid (id name : Bytes) :
    Config.validate ⟨formatName, 1, 1, some [], some [⟨id, name⟩], some []⟩ = .ok () ↔
      identifier id = true ∧ accountName name = true := by
  cases hi : identifier id <;> cases hn : accountName name <;>
    simp [Config.validate, ShareConfig.schemaVersion, maxUsers, checkVolumes, checkUsers,
      checkEntries, checkShares, hi, hn]

end ShareConfig
