import PhantoWD.EffectProgram
import PhantoWD.RegistryWatch
import PhantoWD.ShareConfig

/-!
A reader keeps a watch on the registry's directory. Every observation drains the pending records
before and after it reads the file, and a generation counts the drains that found any.
-/
namespace RegistryReader

open GoText EffectProgram RegistryWatch

def maxInputBytes : Nat := 64 * 1024
def maxEventBytes : Nat := 64 * 1024
def maxReadBytes : Nat := 4096

structure Document where
  format : Bytes
  schemaVersion : Int
  revision : UInt64
  volumes : Slice ShareConfig.Volume
  deriving DecidableEq

def Document.policy (d : Document) : ShareConfig.Config where
  format := ShareConfig.formatName
  schemaVersion := 1
  revision := d.revision
  volumes := d.volumes
  users := some []
  shares := some []

def Document.validate (d : Document) : Bool :=
  d.format == ascii "phantowd-volume-registry" && d.schemaVersion == 1 &&
    d.policy.validate.isOk

/-- `observationMetadata`: everything of a file's status but its access time. -/
structure Metadata where
  device : UInt64
  inode : UInt64
  links : UInt64
  mode : UInt32
  uid : UInt32
  gid : UInt32
  size : Int
  modifiedSeconds : Int
  modifiedNanos : Int
  changedSeconds : Int
  changedNanos : Int
  deriving DecidableEq

structure Snapshot where
  document : Document
  observed : Bool
  origin : Option Nat
  generation : Nat
  directory : Metadata
  file : Metadata
  deriving DecidableEq

structure Reader where
  uid : UInt32
  ready : Bool
  closed : Bool
  origin : Option Nat
  watchFD : Int
  watchID : Nat
  generation : Nat
  watchBroken : Bool
  deriving DecidableEq

def privateDirectory (uid : UInt32) (st : Metadata) : Bool :=
  st.mode &&& 0xf000 == 0x4000 && st.mode &&& 0xfff == 0x1c0 && st.uid == uid

def privateFile (uid : UInt32) (st directory : Metadata) : Bool :=
  st.mode &&& 0xf000 == 0x8000 && st.mode &&& 0xfff == 0x180 && st.uid == uid && st.links == 1 &&
    decide (0 < st.size) && decide (st.size ≤ maxInputBytes) && st.device == directory.device

inductive ReadAnswer where
  | again
  | failed
  | data (bytes : Bytes)
  deriving DecidableEq

/-- The system calls of a reader. A context that is missing answers as a cancelled one. -/
inductive Request : Type → Type where
  | readWatch : Request ReadAnswer
  | cancelled : Request Bool
  | statDirectory : Request (Option Metadata)
  | statNamed : Request (Option Metadata)
  | openNamed : Request Bool
  | statOpened : Request (Option Metadata)
  | decode : Request (Option Document)
  | closeFile : Request Bool
  | closeWatch : Request Bool
  | closeDirectory : Request Bool

abbrev Call (α : Type) := Method Request Reader Unit α

def breakWatch : Call Unit := do
  Method.modify fun r => { r with watchBroken := true }
  Method.fail ()

def advance : Call Unit := do
  let r ← Method.get
  if r.generation = 2 ^ 64 - 1 then breakWatch
  else Method.modify fun r => { r with generation := r.generation + 1 }

/-- The loop of `drainChangesLocked`. Every turn but the last consumes a byte, so that `fuel`
runs out only when the budget has. -/
def drainLoop (big : Bool) : Nat → Nat → Bool → Call Unit
  | 0, _, _ => breakWatch
  | fuel + 1, consumed, changed =>
    if maxEventBytes ≤ consumed then breakWatch
    else do
      let answer ← Method.request .readWatch
      let r ← Method.get
      match answer with
      | .again => if changed then advance else pure ()
      | .failed => breakWatch
      | .data bytes =>
        if bytes = [] then breakWatch
        else
          match consumeChanges big r.watchID bytes with
          | .ok mutation => drainLoop big fuel (consumed + bytes.length) (changed || mutation)
          | _ => breakWatch

def drainChangesLocked (big : Bool) : Call Unit := do
  let r ← Method.get
  if r.watchBroken ∨ r.watchFD < 0 then Method.fail ()
  else drainLoop big maxEventBytes 0 false

def refuseCancelled : Call Unit := do
  let cancelled ← Method.request .cancelled
  Method.refuseIf (cancelled = true) ()

def stat (r : Request (Option Metadata)) : Call Metadata := do
  let st ← Method.request r
  Method.ofOption st ()

def readOpened (directory before : Metadata) : Call (Document × Metadata × Metadata) := do
  let r ← Method.get
  let opened ← stat .statOpened
  Method.refuseIf (privateFile r.uid opened directory = false ∨ before ≠ opened) ()
  let decoded ← Method.request .decode
  let document ← Method.ofOption decoded ()
  refuseCancelled
  let after ← stat .statOpened
  let named ← stat .statNamed
  let current ← stat .statDirectory
  Method.refuseIf (opened ≠ after ∨ after ≠ named ∨ directory ≠ current) ()
  let closed ← Method.request .closeFile
  Method.refuseIf (closed = false) ()
  return (document, after, current)

def closing {α : Type} (m : Call α) : Call α := do
  let result ← Method.attempt m
  match result with
  | .ok a => return a
  | .error _ => do
    let _ ← Method.request .closeFile
    Method.fail ()

def readNamed : Call (Document × Metadata × Metadata) := do
  let r ← Method.get
  let directory ← stat .statDirectory
  Method.refuseIf (privateDirectory r.uid directory = false) ()
  let before ← stat .statNamed
  Method.refuseIf (privateFile r.uid before directory = false) ()
  let opened ← Method.request .openNamed
  Method.refuseIf (opened = false) ()
  closing (readOpened directory before)

def observeLocked (big : Bool) : Call Snapshot := do
  drainChangesLocked big
  let started ← Method.get
  let (document, file, directory) ← readNamed
  drainChangesLocked big
  let r ← Method.get
  Method.refuseIf (started.generation ≠ r.generation) ()
  refuseCancelled
  return ⟨document, true, r.origin, started.generation, directory, file⟩

def sameClaims (a b : Document) : Bool :=
  a.format == b.format && a.schemaVersion == b.schemaVersion && a.revision == b.revision &&
    a.volumes.items == b.volumes.items

def refuseUnready : Call Unit := do
  let r ← Method.get
  Method.refuseIf (r.ready = false ∨ r.closed = true) ()
  refuseCancelled

def read (big : Bool) : Call Snapshot := do
  refuseUnready
  observeLocked big

def recheck (big : Bool) (previous : Snapshot) : Call Unit := do
  refuseUnready
  let r ← Method.get
  Method.refuseIf (r.origin = none ∨ previous.origin ≠ r.origin ∨ previous.observed = false ∨
    previous.document.validate = false) ()
  drainChangesLocked big
  let drained ← Method.get
  Method.refuseIf (previous.generation ≠ drained.generation) ()
  let current ← observeLocked big
  Method.refuseIf (current.directory ≠ previous.directory ∨ current.file ≠ previous.file ∨
    sameClaims current.document previous.document = false) ()

def close : Call Unit := do
  let r ← Method.get
  Method.refuseIf (r.ready = false ∨ r.closed = true) ()
  Method.modify fun r => { r with closed := true }
  let watch ← Method.request .closeWatch
  let directory ← Method.request .closeDirectory
  Method.refuseIf (watch = false ∨ directory = false) ()

end RegistryReader
