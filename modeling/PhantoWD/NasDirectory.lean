import Mathlib.Logic.Function.Basic
import PhantoWD.EffectProgram
import PhantoWD.NasEvidence
import PhantoWD.RevisionStore

/-!
One private directory holds the container header, the current policy and up to three records of
the last operation. A census lists every name with its metadata and contents. Nothing else
writes here while the lock is held.
-/
namespace NasDirectory

open GoText GoJson ConfigJson EffectProgram NasEvidence
open RevisionStore (StoreError Locked)

inductive Role where
  | header | policy | pending | base | intent | receipt
  deriving DecidableEq

def Role.all : List Role := [.header, .policy, .pending, .base, .intent, .receipt]

def maxInputBytes : Nat := ((256 + 256) * 1024 + 256) + 256 + 128 * 1024 + 256

def Role.limit : Role → Nat
  | .header => maxRecordBytes
  | .intent => maxRecordBytes
  | .receipt => maxRecordBytes
  | .policy => maxInputBytes
  | .pending => maxInputBytes
  | .base => maxInputBytes

structure Stat where
  device : Nat
  inode : Nat
  links : Nat
  mode : Nat
  uid : Nat
  gid : Nat
  size : Int
  modified : Int
  mNanos : Int
  changed : Int
  cNanos : Int
  deriving DecidableEq, Repr, Inhabited

structure File where
  stat : Stat
  data : Bytes
  deriving DecidableEq

abbrev Files := Role → Option File

/-- `foreign` lists every other name that is present. -/
structure Directory where
  file : Files
  foreign : List Bytes

def Files.content (files : Files) (role : Role) : Option Bytes := (files role).map File.data

def Directory.count (d : Directory) : Nat :=
  (Role.all.filter fun role => (d.file role).isSome).length + d.foreign.length

inductive Failure where
  | store (e : StoreError)
  | review
  | cancelled
  deriving DecidableEq

def privateFile : Nat := 0o100600
def privateDirectory : Nat := 0o040700

def Stat.safe (st : Stat) (euid : Nat) (root : Stat) (limit : Nat) : Bool :=
  st.mode = privateFile && st.uid = euid && st.links = 1 && st.device = root.device &&
    0 ≤ st.size && st.size ≤ limit

structure Observation where
  kind : Kind
  roles : Nat
  basePresent : Bool
  pending : Bool
  deriving DecidableEq

structure EvidenceSet where
  observation : Observation
  files : Files

def headerKeys : List Bytes := [ascii "format", ascii "schema_version", ascii "installation_id"]

def headerFormat : Bytes := ascii "phantowd-nas-evidence-container"

def headerValid (installation data : Bytes) : Bool :=
  (decodeEnvelope data maxRecordBytes 2 headerKeys).isSome &&
    match structMembers data with
    | none => false
    | some members =>
      bindString (bound headerKeys (ascii "format") members) = some headerFormat &&
        bindInt (bound headerKeys (ascii "schema_version") members) = some 1 &&
        bindString (bound headerKeys (ascii "installation_id") members) = some installation

variable {P : Type} (c : PolicyCode P) (euid : Nat)

/-- A read must return as many bytes as the metadata promises; pending is never read. -/
def readable (files : Files) (role : Role) : Bool :=
  match files role with
  | none => true
  | some f => role = .pending || (f.data.length : Int) = f.stat.size

def entrySafe (root : Stat) (files : Files) (role : Role) : Bool :=
  match files role with
  | none => true
  | some f => f.stat.safe euid root role.limit

/-- The classification of an admissible census. A pending file overrules the records. -/
def evidence (installation : Bytes) (d : Directory) : EvidenceSet :=
  let pending := (d.file .pending).isSome
  let kind := nasEvidenceKind c installation (d.file.content .policy) (d.file.content .intent)
    (d.file.content .receipt) (d.file.content .base)
  ⟨⟨if pending then .inconsistent else kind, d.count, (d.file .base).isSome, pending⟩, d.file⟩

def headerRefused (installation : Bytes) (files : Files) : Bool :=
  match files.content .header with
  | none => true
  | some data => !headerValid installation data

def collectNASEvidenceSet (root : Stat) (installation : Bytes) (d : Directory) :
    Except Failure EvidenceSet :=
  if 7 ≤ d.count ∨ d.foreign ≠ [] ∨ Role.all.all (entrySafe euid root d.file) = false then
    .error (.store .unsafeStorage)
  else if Role.all.all (readable d.file) = false then .error .review
  else if headerRefused installation d.file = true ∨ d.file .policy = none then
    .error (.store .invalid)
  else .ok (evidence c installation d)

structure Admissible (euid : Nat) (root : Stat) (installation : Bytes) (d : Directory) : Prop where
  count : d.count < 7
  known : d.foreign = []
  safe : Role.all.all (entrySafe euid root d.file) = true
  readable : Role.all.all (readable d.file) = true
  header : headerRefused installation d.file = false
  policy : d.file .policy ≠ none

variable {c euid}

theorem collect_ok {root : Stat} {installation : Bytes} {d : Directory} {set : EvidenceSet} :
    collectNASEvidenceSet c euid root installation d = .ok set ↔
      Admissible euid root installation d ∧ set = evidence c installation d := by
  unfold collectNASEvidenceSet
  constructor
  · intro h
    split_ifs at h with h1 h2 h3
    simp only [not_or, not_le, ne_eq, not_not, Bool.not_eq_false, Bool.not_eq_true] at h1 h2 h3
    exact ⟨⟨h1.1, h1.2.1, h1.2.2, h2, h3.1, h3.2⟩, (Except.ok.inj h).symm⟩
  · rintro ⟨h, rfl⟩
    have hcount := h.count
    rw [if_neg (by simp [h.known, h.safe]; omega), if_neg (by simp [h.readable]),
      if_neg (by simp [h.header, h.policy])]

inductive Effect where
  | create
  | write (data : Bytes)
  | rename (role : Role)
  | unlinkReceipt
  deriving DecidableEq

structure Machine where
  dir : Directory
  root : Stat
  effects : List Effect

/-- The system calls on the directory. A `Bool` answer is true when the call succeeded;
`cancelled` asks for the context's error and `quiet` for an empty watch queue. -/
inductive Sys : Type → Type where
  | cancelled : Sys Bool
  | openRoot (directory : Bytes) : Sys Bool
  | statRoot : Sys (Option Stat)
  | flock : Sys Locked
  | statfsProc : Sys Bool
  | inotifyInit : Sys Bool
  | addWatch : Sys Bool
  | quiet : Sys Bool
  | openCursor : Sys Bool
  | statCursor : Sys (Option Stat)
  | census : Sys (Option Directory)
  | closeCursor : Sys Bool
  | random : Sys (Option Bytes)
  | statRole (role : Role) : Sys (Option (Option Stat))
  | createPending : Sys Bool
  | write (data : Bytes) : Sys (Nat × Bool)
  | syncPending : Sys Bool
  | statPending : Sys (Option Stat)
  | closePending : Sys Bool
  | rename (role : Role) : Sys Bool
  | syncDir : Sys Bool
  | readRole (role : Role) (expected : Stat) : Sys (Option Bytes)
  | unlinkReceipt : Sys Bool
  | events (role : Role) (retirement : Bool) : Sys Bool
  | closeWatch : Sys Bool
  | closeRoot : Sys Bool

/-- A file this process made: private, on the directory's device, of its contents' size. -/
def File.Own (euid : Nat) (root : Stat) (f : File) : Prop :=
  f.stat.mode = privateFile ∧ f.stat.uid = euid ∧ f.stat.links = 1 ∧
    f.stat.device = root.device ∧ f.stat.size = f.data.length

def Stat.SameRoot (a b : Stat) : Prop := a.device = b.device ∧ a.mode = b.mode ∧ a.uid = b.uid

/-- One effect on the directory, with fresh metadata for the changed entries. -/
inductive Performs (euid : Nat) : Machine → Effect → Machine → Prop where
  | create {m : Machine} {f : File} {root : Stat} :
      m.dir.file .pending = none → f.Own euid m.root → f.data = [] → root.SameRoot m.root →
      Performs euid m .create
        ⟨{ m.dir with file := Function.update m.dir.file .pending (some f) }, root,
          m.effects ++ [.create]⟩
  | write {m : Machine} {old f : File} :
      m.dir.file .pending = some old → f.Own euid m.root →
      Performs euid m (.write f.data)
        ⟨{ m.dir with file := Function.update m.dir.file .pending (some f) }, m.root,
          m.effects ++ [.write f.data]⟩
  | rename {m : Machine} {old f : File} {root : Stat} {role : Role} :
      m.dir.file .pending = some old → f.Own euid m.root → f.data = old.data →
      root.SameRoot m.root →
      Performs euid m (.rename role)
        ⟨{ m.dir with
            file := Function.update (Function.update m.dir.file .pending none) role (some f) },
          root, m.effects ++ [.rename role]⟩
  | unlinkReceipt {m : Machine} {root : Stat} :
      root.SameRoot m.root →
      Performs euid m .unlinkReceipt
        ⟨{ m.dir with file := Function.update m.dir.file .receipt none }, root,
          m.effects ++ [.unlinkReceipt]⟩

/-- The environment under the lock. Reads fail or see the directory as it is; everything
else has any outcome. A failed rename or unlink may have been carried out, and a write may
stop after any number of bytes. -/
def filesystem (euid : Nat) : Handler Sys Machine
  | _, .cancelled, m, _, m' => m' = m
  | _, .openRoot _, m, _, m' => m' = m
  | _, .statRoot, m, o, m' => m' = m ∧ (o = none ∨ o = some m.root)
  | _, .flock, m, _, m' => m' = m
  | _, .statfsProc, m, _, m' => m' = m
  | _, .inotifyInit, m, _, m' => m' = m
  | _, .addWatch, m, _, m' => m' = m
  | _, .quiet, m, _, m' => m' = m
  | _, .openCursor, m, _, m' => m' = m
  | _, .statCursor, m, o, m' => m' = m ∧ (o = none ∨ o = some m.root)
  | _, .census, m, o, m' => m' = m ∧ (o = none ∨ o = some m.dir)
  | _, .closeCursor, m, _, m' => m' = m
  | _, .random, m, _, m' => m' = m
  | _, .statRole role, m, o, m' =>
    m' = m ∧ (o = none ∨ o = some ((m.dir.file role).map File.stat))
  | _, .createPending, m, o, m' => (o = false ∧ m' = m) ∨ (o = true ∧ Performs euid m .create m')
  | _, .write data, m, o, m' =>
    (m.dir.file .pending = none ∧ m' = m) ∨
      ∃ k, (o = (data.length, true) → data.take k = data) ∧
        Performs euid m (.write (data.take k)) m'
  | _, .syncPending, m, _, m' => m' = m
  | _, .statPending, m, o, m' =>
    m' = m ∧ (o = none ∨ o = (m.dir.file .pending).map File.stat)
  | _, .closePending, m, _, m' => m' = m
  | _, .rename role, m, o, m' => (o = false ∧ m' = m) ∨ Performs euid m (.rename role) m'
  | _, .syncDir, m, _, m' => m' = m
  | _, .readRole role expected, m, o, m' =>
    m' = m ∧ (o = none ∨ ∃ f, m.dir.file role = some f ∧ f.stat = expected ∧ o = some f.data)
  | _, .unlinkReceipt, m, o, m' => (o = false ∧ m' = m) ∨ Performs euid m .unlinkReceipt m'
  | _, .events _ _, m, _, m' => m' = m
  | _, .closeWatch, m, _, m' => m' = m
  | _, .closeRoot, m, _, m' => m' = m

def freshStat (euid : Nat) (root : Stat) (data : Bytes) : Stat :=
  { root with links := 1, mode := privateFile, uid := euid, size := data.length }

def freshFile (euid : Nat) (root : Stat) (data : Bytes) : File := ⟨freshStat euid root data, data⟩

theorem freshFile_own (euid : Nat) (root : Stat) (data : Bytes) :
    (freshFile euid root data).Own euid root := ⟨rfl, rfl, rfl, rfl, rfl⟩

def Machine.put (m : Machine) (role : Role) (f : Option File) (e : Effect) : Machine :=
  ⟨⟨Function.update m.dir.file role f, m.dir.foreign⟩, m.root, m.effects ++ [e]⟩

def undisturbed (euid : Nat) (id : Bytes) : {β : Type} → Sys β → Machine → β × Machine
  | _, .cancelled, m => (false, m)
  | _, .openRoot _, m => (true, m)
  | _, .statRoot, m => (some m.root, m)
  | _, .flock, m => (.held, m)
  | _, .statfsProc, m => (true, m)
  | _, .inotifyInit, m => (true, m)
  | _, .addWatch, m => (true, m)
  | _, .quiet, m => (true, m)
  | _, .openCursor, m => (true, m)
  | _, .statCursor, m => (some m.root, m)
  | _, .census, m => (some m.dir, m)
  | _, .closeCursor, m => (true, m)
  | _, .random, m => (some id, m)
  | _, .statRole role, m => (some ((m.dir.file role).map File.stat), m)
  | _, .createPending, m =>
    if m.dir.file .pending = none then
      (true, m.put .pending (some (freshFile euid m.root [])) .create)
    else (false, m)
  | _, .write data, m =>
    if m.dir.file .pending = none then ((0, false), m)
    else ((data.length, true), m.put .pending (some (freshFile euid m.root data)) (.write data))
  | _, .syncPending, m => (true, m)
  | _, .statPending, m => ((m.dir.file .pending).map File.stat, m)
  | _, .closePending, m => (true, m)
  | _, .rename role, m =>
    match m.dir.file .pending with
    | none => (false, m)
    | some f => (true, ⟨⟨Function.update (Function.update m.dir.file .pending none) role
        (some (freshFile euid m.root f.data)), m.dir.foreign⟩, m.root, m.effects ++ [.rename role]⟩)
  | _, .syncDir, m => (true, m)
  | _, .readRole role expected, m =>
    (((m.dir.file role).filter fun f => f.stat = expected).map File.data, m)
  | _, .unlinkReceipt, m => (true, m.put .receipt none .unlinkReceipt)
  | _, .events _ _, m => (true, m)
  | _, .closeWatch, m => (true, m)
  | _, .closeRoot, m => (true, m)

theorem undisturbed_admitted {β : Type} (euid : Nat) (id : Bytes) (r : Sys β) (m : Machine) :
    filesystem euid r m (undisturbed euid id r m).1 (undisturbed euid id r m).2 := by
  cases r with
  | statRoot | statCursor | census | statRole | statPending => exact ⟨rfl, .inr rfl⟩
  | createPending =>
    by_cases h : m.dir.file .pending = none
    · simp only [undisturbed, if_pos h]
      exact .inr ⟨rfl, .create h (freshFile_own euid m.root []) rfl ⟨rfl, rfl, rfl⟩⟩
    · simp only [undisturbed, if_neg h]
      exact .inl ⟨rfl, rfl⟩
  | write data =>
    by_cases h : m.dir.file .pending = none
    · simp only [undisturbed, if_pos h]
      exact .inl ⟨h, rfl⟩
    · obtain ⟨old, hold⟩ := Option.ne_none_iff_exists'.mp h
      simp only [undisturbed, if_neg h]
      refine .inr ⟨data.length, fun _ => List.take_length, ?_⟩
      rw [List.take_length]
      exact .write hold (freshFile_own euid m.root data)
  | rename role =>
    cases h : m.dir.file .pending with
    | none =>
      simp only [undisturbed, h]
      exact .inl ⟨rfl, rfl⟩
    | some f =>
      simp only [undisturbed, h]
      exact .inr (.rename h (freshFile_own euid m.root f.data) rfl ⟨rfl, rfl, rfl⟩)
  | readRole role expected =>
    refine ⟨rfl, ?_⟩
    cases h : m.dir.file role with
    | none => exact .inl (by simp [undisturbed, h])
    | some f =>
      by_cases hs : f.stat = expected
      · exact .inr ⟨f, rfl, hs, by simp [undisturbed, h, hs]⟩
      · exact .inl (by simp [undisturbed, h, hs])
  | unlinkReceipt => exact .inr (.unlinkReceipt ⟨rfl, rfl, rfl⟩)
  | cancelled => rfl
  | openRoot directory => rfl
  | flock => rfl
  | statfsProc => rfl
  | inotifyInit => rfl
  | addWatch => rfl
  | quiet => rfl
  | openCursor => rfl
  | closeCursor => rfl
  | random => rfl
  | syncPending => rfl
  | closePending => rfl
  | syncDir => rfl
  | events role retirement => rfl
  | closeWatch => rfl
  | closeRoot => rfl

/-!
One directory, lock and watch lifetime. Close errors are terminal and never retried.
-/

open Method

structure Authority where
  initial : Stat := default
  opened : Bool := false
  watching : Bool := false
  review : Bool := false
  closed : Bool := false
  closeFailed : Bool := false

section Common

variable {σ : Type}

def ctxErr : Method Sys σ Failure Unit := do
  let cancelled ← request .cancelled
  refuseIf (cancelled = true) .cancelled

/-- Only an empty queue on a live watch is quiet. -/
def quietLocked (watching : Bool) : Method Sys σ Failure Bool :=
  if watching = false then pure false else request .quiet

def verifyCursor (root : Stat) : Method Sys σ Failure Unit := do
  let cursor ← request .statCursor
  if cursor ≠ some root then do
    let _ ← request .closeCursor
    fail .review
  else pure ()

end Common

abbrev AuthorityMethod := Method Sys Authority Failure

def closeStep (sys : Sys Bool) : AuthorityMethod Unit := do
  let closed ← request sys
  if closed = false then do
    modify fun a => { a with review := true, closeFailed := true }
    fail .review
  else pure ()

def closeWatch (watching : Bool) : AuthorityMethod Unit :=
  if watching = false then pure ()
  else do
    closeStep .closeWatch
    modify fun a => { a with watching := false }

def closeRoot (opened : Bool) : AuthorityMethod Unit :=
  if opened = false then pure () else closeStep .closeRoot

def Authority.close : AuthorityMethod Unit := do
  let a ← get
  refuseIf (a.closeFailed = true) .review
  if a.closed = true then pure ()
  else do
    closeWatch a.watching
    closeRoot a.opened
    modify fun a => { a with closed := true }

end NasDirectory
