import Mathlib.Data.List.Basic
import PhantoWD.EffectProgram
import PhantoWD.GoText

/-!
A store owns one private directory through an advisory lock on its descriptor. A commit stages
the encoding in the pending file and renames it over the current one. The rename and the
directory sync can fail after taking effect, which is what the uncertain flag is for.
-/
namespace RevisionStore

open GoText EffectProgram

inductive StoreError where
  | notInitialized | conflict | invalid | unsafeStorage | busy | io | uncertain | closed
  deriving DecidableEq

/-- Trusted schema code. Revisions stay below `2 ^ 64`; `marshal` is `json.Marshal`. -/
structure Codec (T : Type) where
  currentName : Bytes
  pendingName : Bytes
  maxBytes : Int
  decode : Bytes → Option T
  validate : T → Bool
  revision : T → Nat
  marshal : T → Option Bytes
  validateTransition : Option (T → T → Bool)

def slash : UInt8 := 47

def base (path : Bytes) : Bytes :=
  let trimmed := (path.reverse.dropWhile (· == slash)).reverse
  if path.isEmpty then ascii "."
  else if trimmed.isEmpty then ascii "/"
  else ((split trimmed slash).getLast?).getD []

def validName (name : Bytes) : Bool :=
  0 < name.length && name.length ≤ 64 && name ≠ ascii "." && name ≠ ascii ".." &&
    base name = name

/-- `filepath.IsAbs(path) && filepath.Clean(path) == path`. -/
def cleanAbsolute : Bytes → Bool
  | [] => false
  | b :: rest =>
    b = slash && (rest.isEmpty ||
      (split rest slash).all fun part => part ≠ [] && part ≠ ascii "." && part ≠ ascii "..")

variable {T : Type}

def Codec.valid (c : Codec T) : Bool :=
  validName c.currentName && validName c.pendingName && c.currentName ≠ c.pendingName &&
    0 < c.maxBytes && c.maxBytes ≤ 2 ^ 20

/-- Decoding accepts every encoding the codec produces within its size limit. -/
def Codec.RoundTrips (c : Codec T) : Prop :=
  ∀ x data, c.validate x = true → c.marshal x = some data → (data.length : Int) ≤ c.maxBytes →
    c.decode data = some x

structure Entry where
  regular : Bool
  mode : Nat
  uid : Nat
  nlink : Nat
  data : Bytes
  deriving DecidableEq

def Entry.fresh (euid : Nat) (data : Bytes) : Entry := ⟨true, 0o600, euid, 1, data⟩

def Entry.isPrivate (euid : Nat) (e : Entry) : Bool :=
  e.regular && e.mode = 0o600 && e.uid = euid && e.nlink = 1

def Entry.readable (c : Codec T) (euid : Nat) (e : Entry) : Bool :=
  e.isPrivate euid && (e.data.length : Int) ≤ c.maxBytes

/-- The directory with its lock. The flush marks say whether an entry's data would survive
a power loss, `durable` is what the current name would then show, and `renames` counts the
renames issued so far. -/
structure Machine where
  dirMode : Nat
  dirUid : Nat
  lock : Option Nat
  nextFd : Nat
  current : Option Entry
  currentFlushed : Bool
  pending : Option Entry
  pendingFlushed : Bool
  durable : Option Entry
  renames : Nat
  deriving DecidableEq

inductive Locked where
  | held | busy | failed
  deriving DecidableEq

/-- The system calls of the store. A `Bool` answer is true when the call succeeded. -/
inductive Sys : Type → Type where
  | openDir (directory : Bytes) : Sys (Option Nat)
  | statDir (fd : Nat) : Sys (Option (Nat × Nat))
  | flock (fd : Nat) : Sys Locked
  | closeDir (fd : Nat) : Sys Bool
  | openCurrent : Sys (Option Entry)
  | closeCurrent : Sys Bool
  | syncCurrent : Sys Bool
  | syncDir : Sys Bool
  | statPending : Sys (Option (Option Entry))
  | unlinkPending : Sys Bool
  | createPending : Sys Bool
  | write (data : Bytes) : Sys (Nat × Bool)
  | syncPending : Sys Bool
  | closePending : Sys Bool
  | rename : Sys Bool

/-- What a power loss may leave of an entry: unflushed data can come back as anything. -/
def Persists (flushed : Bool) : Option Entry → Option Entry → Prop
  | none, image => image = none
  | some e, image => ∃ data, (flushed = true → data = e.data) ∧
      image = some { e with data := data }

def Machine.release (m : Machine) (fd : Nat) : Machine :=
  if m.lock = some fd then { m with lock := none } else m

/-- The environment under the lock. Reads see the directory as it is. Writing, syncing,
closing, renaming and directory syncs have any outcome, a failed rename may have been
carried out, and a failed directory sync may have persisted the entry. -/
def system (euid : Nat) : Handler Sys Machine
  | _, .openDir _, m, o, m' =>
    (o = none ∧ m' = m) ∨ (o = some m.nextFd ∧ m' = { m with nextFd := m.nextFd + 1 })
  | _, .statDir _, m, o, m' => m' = m ∧ (o = none ∨ o = some (m.dirMode, m.dirUid))
  | _, .flock fd, m, o, m' =>
    match o with
    | .held => m.lock = none ∧ m' = { m with lock := some fd }
    | .busy => m.lock ≠ none ∧ m' = m
    | .failed => m' = m
  | _, .closeDir fd, m, _, m' => m' = m.release fd
  | _, .openCurrent, m, o, m' => o = m.current ∧ m' = m
  | _, .closeCurrent, m, o, m' => o = true ∧ m' = m
  | _, .syncCurrent, m, o, m' =>
    m' = if o then { m with currentFlushed := true } else m
  | _, .syncDir, m, o, m' =>
    ∃ image, m' = { m with durable := image } ∧
      (Persists m.currentFlushed m.current image ∨ o = false ∧ image = m.durable)
  | _, .statPending, m, o, m' => m' = m ∧ (o = none ∨ o = some m.pending)
  | _, .unlinkPending, m, o, m' => m' = if o then { m with pending := none } else m
  | _, .createPending, m, o, m' =>
    (o = false ∧ m' = m) ∨
      (o = true ∧ m.pending = none ∧
        m' = { m with pending := some (.fresh euid []), pendingFlushed := false })
  | _, .write data, m, o, m' =>
    ∃ k, (o = (data.length, true) → data.take k = data) ∧
      m' = { m with pending := m.pending.map fun e => { e with data := data.take k },
                    pendingFlushed := false }
  | _, .syncPending, m, o, m' => m' = if o then { m with pendingFlushed := true } else m
  | _, .closePending, m, _, m' => m' = m
  | _, .rename, m, o, m' =>
    (o = false ∧ m' = { m with renames := m.renames + 1 }) ∨
      ∃ image, (image = m.durable ∨ Persists m.pendingFlushed m.pending image) ∧
        m' = { m with current := m.pending, currentFlushed := m.pendingFlushed, pending := none,
                      durable := image, renames := m.renames + 1 }

def faultless (euid : Nat) : {β : Type} → Sys β → Machine → β × Machine
  | _, .openDir _, m => (some m.nextFd, { m with nextFd := m.nextFd + 1 })
  | _, .statDir _, m => (some (m.dirMode, m.dirUid), m)
  | _, .flock fd, m => if m.lock = none then (.held, { m with lock := some fd }) else (.busy, m)
  | _, .closeDir fd, m => (true, m.release fd)
  | _, .openCurrent, m => (m.current, m)
  | _, .closeCurrent, m => (true, m)
  | _, .syncCurrent, m => (true, { m with currentFlushed := true })
  | _, .syncDir, m => (true, { m with durable := m.current })
  | _, .statPending, m => (some m.pending, m)
  | _, .unlinkPending, m => (true, { m with pending := none })
  | _, .createPending, m =>
    if m.pending = none then
      (true, { m with pending := some (.fresh euid []), pendingFlushed := false })
    else (false, m)
  | _, .write data, m =>
    ((data.length, true), { m with pending := m.pending.map fun e => { e with data := data },
                                   pendingFlushed := false })
  | _, .syncPending, m => (true, { m with pendingFlushed := true })
  | _, .closePending, m => (true, m)
  | _, .rename, m =>
    (true, { m with current := m.pending, currentFlushed := m.pendingFlushed, pending := none,
                    renames := m.renames + 1 })

theorem persists_self (flushed : Bool) (entry : Option Entry) : Persists flushed entry entry := by
  cases entry with
  | none => rfl
  | some e => exact ⟨e.data, fun _ => rfl, rfl⟩

theorem faultless_admitted {β : Type} (euid : Nat) (r : Sys β) (m : Machine) :
    system euid r m (faultless euid r m).1 (faultless euid r m).2 := by
  cases r with
  | openDir directory => exact .inr ⟨rfl, rfl⟩
  | statDir fd => exact ⟨rfl, .inr rfl⟩
  | flock fd =>
    simp only [faultless]
    split_ifs with h
    · exact ⟨h, rfl⟩
    · exact ⟨h, rfl⟩
  | closeDir fd => rfl
  | openCurrent | closeCurrent => exact ⟨rfl, rfl⟩
  | syncCurrent => rfl
  | syncDir => exact ⟨_, rfl, .inl (persists_self _ _)⟩
  | statPending => exact ⟨rfl, .inr rfl⟩
  | unlinkPending => rfl
  | createPending =>
    simp only [faultless]
    split_ifs with h
    · exact .inr ⟨rfl, h, rfl⟩
    · exact .inl ⟨rfl, rfl⟩
  | write data => exact ⟨data.length, fun _ => by simp, by simp [faultless]⟩
  | syncPending => rfl
  | closePending => rfl
  | rename => exact .inr ⟨_, .inl rfl, rfl⟩

/-- The in-memory part of a handle. The zero value was never opened. -/
structure Store where
  dir : Nat := 0
  ready : Bool := false
  closed : Bool := false
  uncertain : Bool := false
  deriving DecidableEq

abbrev StoreMethod := Method Sys Store StoreError

open Method

def check : StoreMethod Unit := do
  let s ← get
  refuseIf (s.ready = false ∨ s.closed = true) .closed
  refuseIf (s.uncertain = true) .uncertain

variable (c : Codec T) (euid : Nat)

def openCurrent : StoreMethod Entry := do
  let e ← ofOption (← request .openCurrent) .notInitialized
  refuseIf (e.readable c euid = false) .unsafeStorage
  pure e

def load : StoreMethod T := do
  let e ← openCurrent c euid
  let closed ← request .closeCurrent
  let doc ← ofOption (c.decode e.data) .invalid
  refuseIf (closed = false) .io
  pure doc

def absentAllowed {α : Type} : Except StoreError α → Except StoreError (Option α)
  | .ok a => .ok (some a)
  | .error .notInitialized => .ok none
  | .error e => .error e

def orAbsent {α : Type} : StoreMethod α → StoreMethod (Option α) := mapResult absentAllowed

def syncFile : Option Entry → StoreMethod Unit
  | none => pure ()
  | some _ => do
    let synced ← request .syncCurrent
    let closed ← request .closeCurrent
    refuseIf (synced = false ∨ closed = false) .io

def syncCurrent : StoreMethod Unit := do
  let found ← orAbsent (openCurrent c euid)
  syncFile found
  let synced ← request .syncDir
  refuseIf (synced = false) .io

def Store.load : StoreMethod T := do
  check
  RevisionStore.load c euid

def encode (next : T) : StoreMethod Bytes := do
  let data ← ofOption (c.marshal next) .invalid
  refuseIf ((data.length : Int) > c.maxBytes) .invalid
  pure data

def Codec.currentRevision (current : Option T) : Nat :=
  match current with
  | none => 0
  | some doc => c.revision doc

def Codec.refusesTransition (current : Option T) (persisted : T) : Bool :=
  match current, c.validateTransition with
  | some doc, some validate => c.revision doc ≠ 0 && !validate doc persisted
  | _, _ => false

/-- Only the reserved pending file is disposable; a suspicious one is left as evidence. -/
def discardPending : StoreMethod Unit := do
  match ← ofOption (← request .statPending) .io with
  | some e =>
    refuseIf (e.isPrivate euid = false) .unsafeStorage
    let removed ← request .unlinkPending
    refuseIf (removed = false) .io
  | none => pure ()

def stage (data : Bytes) : StoreMethod Unit := do
  discardPending euid
  let created ← request .createPending
  refuseIf (created = false) .io
  let (n, written) ← request (.write data)
  let synced ← if written = true ∧ n = data.length then request .syncPending else pure true
  let closed ← request .closePending
  refuseIf (written = false ∨ n ≠ data.length ∨ synced = false ∨ closed = false) .io

def setUncertain : StoreMethod Unit := do
  modify fun s => { s with uncertain := true }
  fail .uncertain

def publish : StoreMethod Unit := do
  let renamed ← request .rename
  if renamed = false then setUncertain
  else do
    let synced ← request .syncDir
    if synced = false then setUncertain else pure ()

def prepare (expected : Nat) (next : T) : StoreMethod Bytes := do
  check
  refuseIf (expected = maxUint64 ∨ c.revision next ≠ expected + 1) .conflict
  refuseIf (c.validate next = false) .invalid
  let data ← encode c next
  let persisted ← ofOption (c.decode data) .invalid
  let current ← orAbsent (RevisionStore.load c euid)
  refuseIf (c.currentRevision current ≠ expected) .conflict
  refuseIf (c.refusesTransition current persisted = true) .invalid
  pure data

def Store.commit (expected : Nat) (next : T) : StoreMethod Unit := do
  let data ← prepare c euid expected next
  stage euid data
  publish

def Store.close : StoreMethod Unit := do
  let s ← get
  if s.ready = false ∨ s.closed = true then pure ()
  else do
    modify fun s => { s with closed := true }
    let closed ← request (.closeDir s.dir)
    refuseIf (closed = false) .io

def abandon {α : Type} (e : StoreError) : StoreMethod α := do
  let _ ← attempt Store.close
  fail e

def openDescriptorWithCodec : StoreMethod Unit := do
  let s ← get
  let stat ← request (.statDir s.dir)
  if stat ≠ some (0o700, euid) then
    let _ ← request (.closeDir s.dir)
    fail .unsafeStorage
  else
    match ← request (.flock s.dir) with
    | .busy =>
      let _ ← request (.closeDir s.dir)
      fail .busy
    | .failed =>
      let _ ← request (.closeDir s.dir)
      fail .io
    | .held =>
      match ← attempt (orAbsent (RevisionStore.load c euid)) with
      | .error e => abandon e
      | .ok _ =>
        match ← attempt (syncCurrent c euid) with
        | .error e => abandon e
        | .ok () => pure ()

/-- The state is the store under construction; it is returned on success only. -/
def openWithCodec (directory : Bytes) : StoreMethod Unit := do
  refuseIf (c.valid = false) .unsafeStorage
  refuseIf (cleanAbsolute directory = false) .unsafeStorage
  let fd ← ofOption (← request (.openDir directory)) .unsafeStorage
  modify fun s => { s with dir := fd, ready := true }
  openDescriptorWithCodec c euid

/-!
The specifications are relative to the machine the method starts on. The invariant part
also covers a process that is killed between two system calls.
-/

def view (entry : Option Entry) : Except StoreError (Option T) :=
  match entry with
  | none => .ok none
  | some e =>
    if e.readable c euid = false then .error .unsafeStorage
    else match c.decode e.data with
      | none => .error .invalid
      | some doc => .ok (some doc)

def present : Except StoreError (Option T) → Except StoreError T
  | .ok (some doc) => .ok doc
  | .ok none => .error .notInitialized
  | .error e => .error e

def Store.Usable (s : Store) : Prop := s.ready = true ∧ s.closed = false ∧ s.uncertain = false

variable {next : T} {data : Bytes} {m' : Machine} {expected : Nat}

section Specs

variable {c euid} {α : Type} {I : Machine → Prop} {m : Machine} {s : Store}

theorem meets_check {Q : Except StoreError Unit → Store → Machine → Prop}
    (hI : I m) (hclosed : s.ready = false ∨ s.closed = true → Q (.error .closed) s m)
    (huncertain : s.ready = true → s.closed = false → s.uncertain = true →
      Q (.error .uncertain) s m)
    (hlive : s.ready = true → s.closed = false → s.uncertain = false → Q (.ok ()) s m) :
    Meets (system euid) I Q check s m := by
  simp only [check, meets_get_bind]
  refine meets_refuseIf_bind hI hclosed fun ho => ?_
  obtain ⟨hr, hc⟩ : s.ready = true ∧ s.closed = false := by simpa using ho
  unfold refuseIf
  split_ifs with hu
  · exact ⟨hI, huncertain hr hc hu⟩
  · exact ⟨hI, hlive hr hc (by simpa using hu)⟩

theorem meets_load {Q : Except StoreError T → Store → Machine → Prop} (hI : I m)
    (hQ : Q (present (view c euid m.current)) s m) :
    Meets (system euid) I Q (load c euid) s m := by
  simp only [load, openCurrent, meets_bind, meets_request]
  refine ⟨hI, ?_⟩
  rintro o u ⟨rfl, rfl⟩
  refine ⟨hI, hI, ?_⟩
  cases hm : u.current with
  | none => simpa [hm, view, present, ofOption, hI, meets_bind] using hQ
  | some e =>
    cases hr : e.readable c euid with
    | false => simpa [hm, hr, view, present, ofOption, refuseIf, hI, meets_bind] using hQ
    | true =>
      cases hd : c.decode e.data <;>
        simpa [hm, hr, hd, view, present, ofOption, refuseIf, hI, meets_bind, system] using hQ

theorem view_error {entry : Option Entry} {e : StoreError} (h : view c euid entry = .error e) :
    e = .unsafeStorage ∨ e = .invalid := by
  cases entry with
  | none => simp [view] at h
  | some x =>
    simp only [view] at h
    split_ifs at h with hr
    · exact .inl (Except.error.inj h).symm
    · cases hd : c.decode x.data <;> simp [hd] at h
      exact .inr h.symm

theorem absentAllowed_present_view (entry : Option Entry) :
    absentAllowed (present (view c euid entry)) = view c euid entry := by
  rcases hv : view c euid entry with e | _ | doc
  · rcases view_error hv with rfl | rfl <;> rfl
  · rfl
  · rfl

theorem meets_loadOrAbsent {Q : Except StoreError (Option T) → Store → Machine → Prop} (hI : I m)
    (hQ : Q (view c euid m.current) s m) :
    Meets (system euid) I Q (orAbsent (load c euid)) s m := by
  refine meets_mapResult.mpr (meets_load hI ?_)
  rwa [absentAllowed_present_view]

/-- Nothing a reader or another handle can see has changed. -/
structure Quiet (m m' : Machine) : Prop where
  current : m'.current = m.current
  currentFlushed : m'.currentFlushed = m.currentFlushed
  durable : m'.durable = m.durable
  renames : m'.renames = m.renames
  lock : m'.lock = m.lock
  nextFd : m'.nextFd = m.nextFd

theorem Quiet.refl (m : Machine) : Quiet m m := ⟨rfl, rfl, rfl, rfl, rfl, rfl⟩

theorem Quiet.trans {a b d : Machine} (h : Quiet a b) (k : Quiet b d) : Quiet a d :=
  ⟨k.current.trans h.current, k.currentFlushed.trans h.currentFlushed, k.durable.trans h.durable,
    k.renames.trans h.renames, k.lock.trans h.lock, k.nextFd.trans h.nextFd⟩

variable (c euid) in
structure Admits (m : Machine) (expected : Nat) (next : T) (data : Bytes) : Prop where
  bounded : expected ≠ maxUint64
  revision : c.revision next = expected + 1
  valid : c.validate next = true
  encoded : c.marshal next = some data
  sized : (data.length : Int) ≤ c.maxBytes
  current : ∃ doc, view c euid m.current = .ok doc ∧ c.currentRevision doc = expected

theorem meets_encode {Q : Except StoreError Bytes → Store → Machine → Prop} (hI : I m)
    (herr : Q (.error .invalid) s m)
    (hok : ∀ data, c.marshal next = some data → (data.length : Int) ≤ c.maxBytes →
      Q (.ok data) s m) :
    Meets (system euid) I Q (encode c next) s m := by
  refine meets_ofOption_bind hI (fun _ => herr) fun data hdata => ?_
  refine meets_refuseIf_bind hI (fun _ => herr) fun hsize => ?_
  exact ⟨hI, hok data hdata (Int.not_lt.mp hsize)⟩

/-- Before the pending file is touched nothing changes, and success means the commit is
admissible on a usable handle. -/
theorem prepare_spec (m : Machine) (s : Store) (expected : Nat) (next : T) :
    Meets (system euid) (Quiet m)
      (fun r t v => v = m ∧ t = s ∧ match r with
        | .ok data => s.Usable ∧ Admits c euid m expected next data
        | .error .closed => s.ready = false ∨ s.closed = true
        | .error .uncertain => s.ready = true ∧ s.closed = false ∧ s.uncertain = true
        | .error _ => s.Usable)
      (prepare c euid expected next) s m := by
  have hq := Quiet.refl m
  unfold prepare
  refine meets_bind.mpr (meets_check hq ?_ ?_ ?_)
  · intro h; exact ⟨hq, rfl, rfl, h⟩
  · intro hr hc hu; exact ⟨hq, rfl, rfl, hr, hc, hu⟩
  intro hready hclosed hcertain
  have usable : s.Usable := ⟨hready, hclosed, hcertain⟩
  refine ⟨hq, continues_ok.mpr ?_⟩
  refine meets_refuseIf_bind hq (fun _ => ⟨rfl, rfl, usable⟩) fun hrev => ?_
  obtain ⟨hbound, hrev⟩ := not_or.mp hrev
  refine meets_refuseIf_bind hq (fun _ => ⟨rfl, rfl, usable⟩) fun hvalid => ?_
  refine meets_bind.mpr (meets_encode hq ⟨hq, rfl, rfl, usable⟩ fun data hdata hsize => ?_)
  refine ⟨hq, continues_ok.mpr ?_⟩
  refine meets_ofOption_bind hq (fun _ => ⟨rfl, rfl, usable⟩) fun persisted _ => ?_
  refine meets_bind.mpr (meets_loadOrAbsent hq ⟨hq, ?_⟩)
  cases hview : view c euid m.current with
  | error e =>
    rcases view_error hview with rfl | rfl <;> exact ⟨rfl, rfl, usable⟩
  | ok doc =>
    refine continues_ok.mpr ?_
    refine meets_refuseIf_bind hq (fun _ => ⟨rfl, rfl, usable⟩) fun hexpected => ?_
    refine meets_refuseIf_bind hq (fun _ => ⟨rfl, rfl, usable⟩) fun _ => ?_
    refine ⟨hq, rfl, rfl, usable, hbound, not_not.mp hrev, ?_, hdata, hsize,
      doc, hview, not_not.mp hexpected⟩
    simpa using hvalid

def Sys.staging : {β : Type} → Sys β → Bool
  | _, .openCurrent | _, .closeCurrent | _, .statPending | _, .unlinkPending
  | _, .createPending | _, .write _ | _, .syncPending | _, .closePending => true
  | _, _ => false

variable {m₀ u : Machine}

theorem staging_quiet {β : Type} {r : Sys β} {b : β} (hr : r.staging = true)
    (h : system euid r m b u) (hq : Quiet m₀ m) : Quiet m₀ u := by
  refine hq.trans ?_
  cases r <;> simp only [Sys.staging, Bool.false_eq_true] at hr <;> simp only [system] at h
  case openCurrent => rw [h.2]; exact .refl m
  case closeCurrent => rw [h.2]; exact .refl m
  case statPending => rw [h.1]; exact .refl m
  case unlinkPending => rw [h]; split_ifs <;> exact ⟨rfl, rfl, rfl, rfl, rfl, rfl⟩
  case createPending =>
    rcases h with ⟨-, rfl⟩ | ⟨-, -, rfl⟩ <;> exact ⟨rfl, rfl, rfl, rfl, rfl, rfl⟩
  case write => obtain ⟨k, -, rfl⟩ := h; exact ⟨rfl, rfl, rfl, rfl, rfl, rfl⟩
  case syncPending => rw [h]; split_ifs <;> exact ⟨rfl, rfl, rfl, rfl, rfl, rfl⟩
  case closePending => rw [h]; exact .refl m

theorem discardPending_spec (hq : Quiet m₀ m) :
    Meets (system euid) (Quiet m₀) (fun r t _ => t = s ∧ match r with
        | .ok () => True
        | .error e => e = .io ∨ e = .unsafeStorage)
      (discardPending euid) s m := by
  simp only [discardPending, meets_request_bind]
  refine ⟨hq, fun o u hu => ?_⟩
  replace hq := staging_quiet rfl hu hq
  refine meets_ofOption_bind hq (fun _ => ⟨rfl, .inl rfl⟩) fun found _ => ?_
  cases found with
  | none => exact ⟨hq, rfl, trivial⟩
  | some e =>
    refine meets_refuseIf_bind hq (fun _ => ⟨rfl, .inr rfl⟩) fun _ => ?_
    refine meets_request_bind.mpr ⟨hq, fun removed v hv => ?_⟩
    replace hq := staging_quiet rfl hv hq
    exact meets_refuseIf hq (fun _ => ⟨rfl, .inl rfl⟩) fun _ => ⟨rfl, trivial⟩

/-- Staging keeps everything visible; success leaves the flushed encoding pending. -/
theorem stage_spec (m : Machine) (s : Store) (data : Bytes) :
    Meets (system euid) (Quiet m) (fun r t v => t = s ∧ match r with
        | .ok () => v.pending = some (.fresh euid data) ∧ v.pendingFlushed = true
        | .error e => e = .io ∨ e = .unsafeStorage)
      (stage euid data) s m := by
  unfold stage
  refine (discardPending_spec (Quiet.refl m)).seq (fun _ _ _ _ h => h) ?_
  rintro ⟨⟩ t v hq ⟨rfl, -⟩
  refine meets_request_bind.mpr ⟨hq, fun created u hu => ?_⟩
  replace hq := staging_quiet rfl hu hq
  refine meets_refuseIf_bind hq (fun _ => ⟨rfl, .inl rfl⟩) fun hcreated => ?_
  obtain ⟨rfl, -⟩ | ⟨-, -, rfl⟩ := hu
  · exact absurd rfl hcreated
  refine meets_request_bind.mpr ⟨hq, ?_⟩
  rintro ⟨n, written⟩ u hu
  replace hq := staging_quiet rfl hu hq
  obtain ⟨k, hk, rfl⟩ := hu
  by_cases hfull : written = true ∧ n = data.length
  · obtain ⟨rfl, rfl⟩ := hfull
    simp only [and_self, if_true]
    refine meets_request_bind.mpr ⟨hq, fun synced u hu => ?_⟩
    replace hq := staging_quiet rfl hu hq
    refine meets_request_bind.mpr ⟨hq, fun closed x hx => ?_⟩
    replace hq := staging_quiet rfl hx hq
    refine meets_refuseIf hq (fun _ => ⟨rfl, .inl rfl⟩) fun hok => ?_
    have hsynced : synced = true := by simpa using fun h => hok (.inr (.inr (.inl h)))
    have hdata := hk rfl
    subst hsynced
    subst hx hu
    exact ⟨rfl, by simp [hdata, Entry.fresh], rfl⟩
  · simp only [hfull, if_false, meets_pure_bind]
    refine meets_request_bind.mpr ⟨hq, fun closed x hx => ?_⟩
    replace hq := staging_quiet rfl hx hq
    refine meets_refuseIf hq (fun _ => ⟨rfl, .inl rfl⟩) fun hok => ?_
    simp only [not_or, Bool.not_eq_false, not_not] at hok
    exact absurd ⟨hok.1, hok.2.1⟩ hfull

/-- A rename of `data` was issued. It either had no effect, or the current name now shows
the encoding and the power-loss image is the old or the new one. -/
structure Renamed (euid : Nat) (data : Bytes) (m m' : Machine) : Prop where
  renames : m'.renames = m.renames + 1
  lock : m'.lock = m.lock
  nextFd : m'.nextFd = m.nextFd
  outcome : (m'.current = m.current ∧ m'.currentFlushed = m.currentFlushed ∧
      m'.durable = m.durable) ∨
    (m'.current = some (.fresh euid data) ∧ m'.currentFlushed = true ∧
      (m'.durable = m.durable ∨ m'.durable = some (.fresh euid data)))

theorem persists_flushed {entry image : Option Entry} (h : Persists true entry image) :
    image = entry := by
  cases entry with
  | none => exact h
  | some e =>
    obtain ⟨data, hdata, rfl⟩ := h
    simp [hdata rfl]

def Machine.Flushed (m : Machine) : Prop := m.currentFlushed = true ∨ m.current = none

/-- A power loss now would bring back the current document. -/
def Machine.Synced (m : Machine) : Prop := m.durable = m.current ∧ m.Flushed

theorem Machine.Flushed.image {image : Option Entry} (h : m.Flushed)
    (hp : Persists m.currentFlushed m.current image) : image = m.current := by
  rcases h with hf | hnone
  · rw [hf] at hp
    exact persists_flushed hp
  · rw [hnone] at hp
    exact Eq.trans hp hnone.symm

theorem rename_effect {renamed : Bool} (hq : Quiet m₀ m)
    (hp : m.pending = some (.fresh euid data)) (hf : m.pendingFlushed = true)
    (hu : system euid .rename m renamed u) : Renamed euid data m₀ u := by
  simp only [system, hp, hf] at hu
  obtain ⟨-, rfl⟩ | ⟨image, himage, rfl⟩ := hu
  · exact ⟨by simp [hq.renames], hq.lock, hq.nextFd,
      .inl ⟨hq.current, hq.currentFlushed, hq.durable⟩⟩
  · refine ⟨by simp [hq.renames], hq.lock, hq.nextFd, .inr ⟨rfl, rfl, ?_⟩⟩
    exact himage.imp (fun h => h.trans hq.durable) persists_flushed

theorem rename_succeeded (hp : m.pending = some (.fresh euid data)) (hf : m.pendingFlushed = true)
    (hu : system euid .rename m true u) :
    u.current = some (.fresh euid data) ∧ u.currentFlushed = true := by
  simp only [system, hp, hf] at hu
  obtain ⟨h, -⟩ | ⟨image, -, rfl⟩ := hu
  · cases h
  · exact ⟨rfl, rfl⟩

/-- From the rename on a failure is uncertain, and only then. -/
theorem publish_spec (hq : Quiet m₀ m) (hp : m.pending = some (.fresh euid data))
    (hf : m.pendingFlushed = true) :
    Meets (system euid) (fun v => Quiet m₀ v ∨ Renamed euid data m₀ v)
      (fun r t v => Renamed euid data m₀ v ∧ match r with
        | .ok () => t = s ∧ v.current = some (.fresh euid data) ∧ v.Synced
        | .error e => e = .uncertain ∧ t = { s with uncertain := true })
      publish s m := by
  refine meets_request_bind.mpr ⟨.inl hq, fun renamed u hu => ?_⟩
  have hren := rename_effect hq hp hf hu
  cases renamed with
  | false => exact ⟨.inr hren, hren, rfl, rfl⟩
  | true =>
    have hcur := rename_succeeded hp hf hu
    refine meets_request_bind.mpr ⟨.inr hren, ?_⟩
    rintro synced v ⟨image, rfl, himage⟩
    rw [hcur.1, hcur.2] at himage
    have hstill : Renamed euid data m₀ { u with durable := image } := by
      refine ⟨hren.renames, hren.lock, hren.nextFd, .inr ⟨hcur.1, hcur.2, ?_⟩⟩
      rcases himage with h | ⟨-, rfl⟩
      · exact .inr (persists_flushed h)
      · rcases hren.outcome with ⟨-, -, h⟩ | ⟨-, -, h⟩
        · exact .inl h
        · exact h
    cases synced with
    | false => exact ⟨.inr hstill, hstill, rfl, rfl⟩
    | true =>
      rcases himage with h | ⟨h, -⟩
      · exact ⟨.inr hstill, hstill, rfl, hcur.1, (persists_flushed h).trans hcur.1.symm,
          .inl hcur.2⟩
      · cases h

variable (c euid) in
def Attempts (s : Store) (expected : Nat) (next : T) (m m' : Machine) : Prop :=
  s.Usable ∧ ∃ data, Admits c euid m expected next data ∧ Renamed euid data m m'

variable (c euid) in
def Committed (s : Store) (expected : Nat) (next : T) (m : Machine) :
    Except StoreError Unit → Store → Machine → Prop
  | .ok (), t, m' => t = s ∧ Attempts c euid s expected next m m' ∧
      (∃ data, c.marshal next = some data ∧ m'.current = some (.fresh euid data)) ∧ m'.Synced
  | .error .uncertain, t, m' =>
      (t = s ∧ (s.ready = true ∧ s.closed = false ∧ s.uncertain = true) ∧ Quiet m m') ∨
      (t = { s with uncertain := true } ∧ Attempts c euid s expected next m m')
  | .error .closed, t, m' => t = s ∧ Quiet m m' ∧ (s.ready = false ∨ s.closed = true)
  | .error _, t, m' => t = s ∧ Quiet m m' ∧ s.Usable

/-- A commit is quiet or an attempt, wherever it is cut. -/
theorem commit_spec (m : Machine) (s : Store) (expected : Nat) (next : T) :
    Meets (system euid) (fun v => Quiet m v ∨ Attempts c euid s expected next m v)
      (Committed c euid s expected next m) (Store.commit c euid expected next) s m := by
  refine ((prepare_spec m s expected next).mono (fun _ => .inl) fun _ _ _ _ h => h).seq ?_ ?_
  · rintro e t v - ⟨rfl, rfl, h⟩
    have hq := Quiet.refl v
    cases e with
    | uncertain => exact .inl ⟨rfl, h, hq⟩
    | closed => exact ⟨rfl, hq, h⟩
    | _ => exact ⟨rfl, hq, h⟩
  rintro data t v - ⟨rfl, rfl, usable, hadmits⟩
  refine ((stage_spec v t data).mono (fun _ => .inl) fun _ _ _ hq h => And.intro hq h).seq ?_ ?_
  · rintro e t' u - ⟨hq, rfl, rfl | rfl⟩ <;> exact ⟨rfl, hq, usable⟩
  rintro ⟨⟩ t' u - ⟨hq, rfl, hp, hf⟩
  refine (publish_spec hq hp hf).mono ?_ ?_
  · exact fun x hx => hx.imp id fun h => ⟨usable, data, hadmits, h⟩
  · rintro (e | ⟨⟩) t'' x - ⟨hren, h⟩
    · obtain ⟨rfl, rfl⟩ := h
      exact .inr ⟨rfl, usable, data, hadmits, hren⟩
    · obtain ⟨rfl, hcur, hsync⟩ := h
      exact ⟨rfl, ⟨usable, data, hadmits, hren⟩, ⟨data, hadmits.encoded, hcur⟩, hsync⟩

theorem storeLoad_spec (m : Machine) (s : Store) :
    Meets (system euid) (fun v => v = m)
      (fun r t v => v = m ∧ t = s ∧
        ((s.ready = false ∨ s.closed = true) ∧ r = .error .closed ∨
          s.uncertain = true ∧ s.ready = true ∧ s.closed = false ∧ r = .error .uncertain ∨
          s.Usable ∧ r = present (view c euid m.current)))
      (Store.load c euid) s m := by
  refine meets_bind.mpr (meets_check rfl ?_ ?_ ?_)
  · intro h; exact ⟨rfl, rfl, rfl, .inl ⟨h, rfl⟩⟩
  · intro hr hc hu; exact ⟨rfl, rfl, rfl, .inr (.inl ⟨hu, hr, hc, rfl⟩)⟩
  · intro hr hc hu
    refine ⟨rfl, continues_ok.mpr (meets_load rfl ?_)⟩
    exact ⟨rfl, rfl, .inr (.inr ⟨⟨hr, hc, hu⟩, rfl⟩)⟩

theorem close_spec (m : Machine) (s : Store) :
    Meets (system euid) (fun v => v = m ∨ v = m.release s.dir)
      (fun _ t v => (s.ready = false ∨ s.closed = true) ∧ t = s ∧ v = m ∨
        s.ready = true ∧ s.closed = false ∧ t = { s with closed := true } ∧ v = m.release s.dir)
      Store.close s m := by
  simp only [Store.close, meets_get_bind]
  split_ifs with h
  · exact ⟨.inl rfl, .inl ⟨h, rfl, rfl⟩⟩
  · obtain ⟨hr, hc⟩ : s.ready = true ∧ s.closed = false := by simpa using h
    refine meets_modify_bind.mpr (meets_request_bind.mpr ⟨.inl rfl, fun closed v hv => ?_⟩)
    exact meets_refuseIf (.inr hv) (fun _ => .inr ⟨hr, hc, rfl, hv⟩)
      fun _ => .inr ⟨hr, hc, rfl, hv⟩

/-- The durable image of a flushed document is only ever moved up to that document. -/
def Settles (m m' : Machine) : Prop :=
  m.Flushed → m'.Flushed ∧ (m'.durable = m.durable ∨ m'.durable = m.current)

theorem Settles.refl (m : Machine) : Settles m m := fun h => ⟨h, .inl rfl⟩

theorem Settles.trans {a b d : Machine} (h : Settles a b) (hcur : b.current = a.current)
    (k : Settles b d) : Settles a d := by
  intro ha
  obtain ⟨hb, hdb⟩ := h ha
  obtain ⟨hd, hdd⟩ := k hb
  refine ⟨hd, ?_⟩
  rcases hdd with hdd | hdd
  · rw [hdd]; exact hdb
  · rw [hdd]; exact .inr hcur

structure Opening (m m' : Machine) : Prop where
  current : m'.current = m.current
  renames : m'.renames = m.renames
  nextFd : m.nextFd ≤ m'.nextFd
  settles : Settles m m'

theorem Opening.refl (m : Machine) : Opening m m := ⟨rfl, rfl, Nat.le_refl _, .refl m⟩

theorem Opening.synced {m : Machine} (h : Opening m m') (hs : m.Synced) : m'.Synced := by
  obtain ⟨hf, hd⟩ := h.settles hs.2
  refine ⟨?_, hf⟩
  rw [h.current]
  exact hd.elim (fun hd => hd.trans hs.1) id

/-- Once the lock is ours only the flush marks and the durable image can change. -/
structure Owning (fd : Nat) (m m' : Machine) : Prop where
  current : m'.current = m.current
  renames : m'.renames = m.renames
  nextFd : m'.nextFd = m.nextFd
  settles : Settles m m'
  lock : m'.lock = some fd

variable {fd : Nat}

theorem Owning.released (h : Owning fd m₀ m) :
    m.release fd = { m with lock := none } := if_pos h.lock

theorem meets_openCurrent {Q : Except StoreError (Option Entry) → Store → Machine → Prop}
    {doc : Option T} (hview : view c euid m.current = .ok doc) (hI : I m)
    (hQ : Q (.ok m.current) s m) :
    Meets (system euid) I Q (orAbsent (openCurrent c euid)) s m := by
  refine meets_mapResult.mpr (meets_request_bind.mpr ⟨hI, ?_⟩)
  rintro o u ⟨rfl, rfl⟩
  cases hm : u.current with
  | none => exact ⟨hI, by simpa [absentAllowed, hm] using hQ⟩
  | some e =>
    have hr : ¬ e.readable c euid = false := by
      intro h
      simp [view, hm, h] at hview
    refine meets_ofOption_bind hI (by simp) fun e' he => ?_
    obtain rfl := Option.some.inj he
    refine meets_refuseIf_bind hI (fun h => absurd h hr) fun _ => ⟨hI, ?_⟩
    simpa [absentAllowed, hm] using hQ

theorem syncFile_spec (ho : Owning fd m₀ m) :
    Meets (system euid) (Owning fd m₀) (fun r t v => t = s ∧ match r with
        | .ok () => v.Flushed
        | .error _ => True)
      (syncFile m.current) s m := by
  cases hm : m.current with
  | none => exact ⟨ho, rfl, .inr hm⟩
  | some e =>
    refine meets_request_bind.mpr ⟨ho, fun synced u hu => ?_⟩
    have hown : Owning fd m₀ u := by
      simp only [system] at hu
      subst hu
      split_ifs
      · exact ⟨ho.current, ho.renames, ho.nextFd, fun h => ⟨.inl rfl, (ho.settles h).2⟩, ho.lock⟩
      · exact ho
    refine meets_request_bind.mpr ⟨hown, ?_⟩
    rintro closed v ⟨rfl, rfl⟩
    refine meets_refuseIf hown (fun _ => ⟨rfl, trivial⟩) fun hs => ⟨rfl, .inl ?_⟩
    obtain ⟨hs, -⟩ := not_or.mp hs
    simp only [system, Bool.not_eq_false] at hu hs
    rw [hu, hs]
    rfl

/-- Success re-establishes that the durable image is the current document. -/
theorem syncCurrent_spec {doc : Option T} (ho : Owning fd m₀ m)
    (hview : view c euid m.current = .ok doc) :
    Meets (system euid) (Owning fd m₀) (fun r t v => t = s ∧ match r with
        | .ok () => v.Synced
        | .error _ => True)
      (syncCurrent c euid) s m := by
  refine meets_bind.mpr (meets_openCurrent hview ho ⟨ho, continues_ok.mpr ?_⟩)
  refine (syncFile_spec ho).seq (fun _ _ _ _ h => ⟨h.1, trivial⟩) ?_
  rintro ⟨⟩ t u hu ⟨rfl, hflushed⟩
  refine meets_request_bind.mpr ⟨hu, ?_⟩
  rintro synced v ⟨image, rfl, himage⟩
  have hv : Owning fd m₀ { u with durable := image } := by
    refine ⟨hu.current, hu.renames, hu.nextFd, fun h => ?_, hu.lock⟩
    obtain ⟨hf, hd⟩ := hu.settles h
    rcases himage with h | ⟨-, rfl⟩
    · exact ⟨hf, .inr ((hf.image h).trans hu.current)⟩
    · exact ⟨hf, hd⟩
  refine meets_refuseIf hv (fun _ => ⟨rfl, trivial⟩) fun hs => ⟨rfl, ?_, hflushed⟩
  rcases himage with h | ⟨h, -⟩
  · exact hflushed.image h
  · exact absurd h hs

theorem abandon_spec {e : StoreError} {Q : Except StoreError α → Store → Machine → Prop}
    (ho : Owning fd m₀ m) (hs : s.ready = true) (hc : s.closed = false) (hfd : s.dir = fd)
    (hown : I m) (hrel : I (m.release fd)) (hQ : ∀ t, Q (.error e) t (m.release fd)) :
    Meets (system euid) I Q (abandon e) s m := by
  refine meets_attempt_bind.mpr ((close_spec m s).mono ?_ ?_)
  · rintro v (rfl | rfl)
    · exact hown
    · exact hfd ▸ hrel
  · rintro r t v - (⟨h, -, -⟩ | ⟨-, -, -, rfl⟩)
    · simp [hs, hc] at h
    · rw [hfd]
      exact ⟨hrel, hrel, hQ t⟩

/-- A successful open holds the lock on a new descriptor over a synced, decodable document. -/
structure Opened (c : Codec T) (euid : Nat) (m : Machine) (t : Store) (m' : Machine) : Prop where
  store : t = { dir := m.nextFd, ready := true }
  unlocked : m.lock = none
  lock : m'.lock = some m.nextFd
  nextFd : m'.nextFd = m.nextFd + 1
  synced : m'.Synced
  readable : ∃ doc, view c euid m'.current = .ok doc

theorem release_eq_self (h : m.lock ≠ some fd) : m.release fd = m := if_neg h

theorem Owning.opening (hopen : Opening m₀ u) (h : Owning fd u m) :
    Opening m₀ m :=
  ⟨h.current.trans hopen.current, h.renames.trans hopen.renames,
    by rw [h.nextFd]; exact hopen.nextFd, hopen.settles.trans hopen.current h.settles⟩

theorem Owning.released_opening (hopen : Opening m₀ u) (h : Owning fd u m) :
    Opening m₀ (m.release fd) := by
  have ho := h.opening hopen
  rw [h.released]
  exact ⟨ho.current, ho.renames, ho.nextFd, ho.settles⟩

theorem openLocked_spec (hfree : m₀.lock = none) (hopen : Opening m₀ u) (hown : Owning fd u m)
    (hfd : fd = m₀.nextFd) (hnext : u.nextFd = m₀.nextFd + 1)
    (hs : s = { dir := fd, ready := true }) :
    Meets (system euid) (Opening m₀)
      (fun r t v => match r with
        | .ok () => Opened c euid m₀ t v
        | .error _ => v.lock = m₀.lock)
      (do match ← attempt (orAbsent (RevisionStore.load c euid)) with
          | .error e => abandon e
          | .ok _ =>
            match ← attempt (syncCurrent c euid) with
            | .error e => abandon e
            | .ok () => pure ()) s m := by
  have hm := hown.opening hopen
  have hrefused : ∀ (v : Machine) (e : StoreError), Owning fd u v →
      Meets (system euid) (Opening m₀) (fun r t v => match r with
        | .ok () => Opened c euid m₀ t v
        | .error _ => v.lock = m₀.lock) (abandon e) s v := by
    intro v e hv
    refine abandon_spec hv (by rw [hs]) (by rw [hs]) (by rw [hs]) (hv.opening hopen)
      (hv.released_opening hopen) fun _ => ?_
    rw [hv.released, hfree]
  refine meets_attempt_bind.mpr (meets_loadOrAbsent hm ⟨hm, ?_⟩)
  cases hview : view c euid m.current with
  | error e => exact hrefused m e hown
  | ok doc =>
    refine meets_attempt_bind.mpr ((syncCurrent_spec hown hview).mono
      (fun v hv => hv.opening hopen) ?_)
    rintro r t v hv ⟨rfl, hr⟩
    have hvm := hv.opening hopen
    refine ⟨hvm, ?_⟩
    cases r with
    | error e => exact hrefused v e hv
    | ok x =>
      refine ⟨hvm, hs.trans (by rw [hfd]), hfree, hfd ▸ hv.lock, hv.nextFd.trans hnext, hr,
        doc, ?_⟩
      rw [hv.current, ← hown.current, hview]

theorem openDescriptor_spec (hfresh : m₀.lock ≠ some m₀.nextFd)
    (hm : m = { m₀ with nextFd := m₀.nextFd + 1 }) (hs : s = { dir := m₀.nextFd, ready := true }) :
    Meets (system euid) (Opening m₀)
      (fun r t v => match r with
        | .ok () => Opened c euid m₀ t v
        | .error _ => v.lock = m₀.lock)
      (openDescriptorWithCodec c euid) s m := by
  have hopen : Opening m₀ m := by
    subst hm
    exact ⟨rfl, rfl, Nat.le_succ _, .refl m₀⟩
  have hlock : m.lock = m₀.lock := by rw [hm]
  have hdir : m.release s.dir = m := release_eq_self (by rw [hlock, hs]; exact hfresh)
  -- before the lock is ours, closing the descriptor releases nothing
  have hrefused : ∀ e : StoreError, Meets (system euid) (Opening m₀) (fun r t v => match r with
        | .ok () => Opened c euid m₀ t v
        | .error _ => v.lock = m₀.lock)
      (do let _ ← request (.closeDir s.dir); fail e) s m := by
    intro e
    refine meets_request_bind.mpr ⟨hopen, ?_⟩
    rintro _ v rfl
    rw [hdir]
    exact ⟨hopen, hlock⟩
  refine meets_get_bind.mpr (meets_request_bind.mpr ⟨hopen, ?_⟩)
  rintro stat u ⟨rfl, -⟩
  by_cases hstat : stat ≠ some (0o700, euid)
  · rw [if_pos hstat]
    exact hrefused _
  · rw [if_neg hstat]
    refine meets_request_bind.mpr ⟨hopen, ?_⟩
    intro locked v hv
    cases locked with
    | busy => obtain ⟨-, rfl⟩ := hv; exact hrefused _
    | failed => obtain rfl := hv; exact hrefused _
    | held =>
      obtain ⟨hnone, rfl⟩ := hv
      have hown : Owning s.dir u { u with lock := some s.dir } :=
        ⟨rfl, rfl, rfl, .refl u, rfl⟩
      exact openLocked_spec (hlock ▸ hnone) hopen hown (by rw [hs]) (by rw [hm]) (by rw [hs])

/-- Opening never changes the document; a refused open leaves the lock as it was. -/
theorem open_spec (m : Machine) (directory : Bytes) (hfresh : m.lock ≠ some m.nextFd) :
    Meets (system euid) (Opening m)
      (fun r t v => match r with
        | .ok () => Opened c euid m t v
        | .error _ => v.lock = m.lock)
      (openWithCodec c euid directory) {} m := by
  have hm := Opening.refl m
  refine meets_refuseIf_bind hm (fun _ => rfl) fun _ => ?_
  refine meets_refuseIf_bind hm (fun _ => rfl) fun _ => ?_
  refine meets_request_bind.mpr ⟨hm, ?_⟩
  rintro o u (⟨rfl, rfl⟩ | ⟨rfl, hu⟩)
  · exact ⟨hm, rfl⟩
  · exact openDescriptor_spec hfresh hu rfl

theorem Quiet.opening {m : Machine} (h : Quiet m m') : Opening m m' := by
  refine ⟨h.current, h.renames, Nat.le_of_eq h.nextFd.symm, fun hf => ⟨?_, .inl h.durable⟩⟩
  unfold Machine.Flushed
  rw [h.current, h.currentFlushed]
  exact hf

theorem Attempts.renames {s : Store} {m : Machine} (h : Attempts c euid s expected next m m') :
    m'.renames ≠ m.renames := by
  obtain ⟨-, data, -, hren⟩ := h
  rw [hren.renames]
  exact Nat.succ_ne_self _

theorem release_opening (m : Machine) (fd : Nat) : Opening m (m.release fd) := by
  unfold Machine.release
  split_ifs
  · exact ⟨rfl, rfl, Nat.le_refl _, .refl m⟩
  · exact .refl m

theorem Attempts.frame {s : Store} {m : Machine} (h : Attempts c euid s expected next m m') :
    s.Usable ∧ m'.lock = m.lock ∧ m'.nextFd = m.nextFd := by
  obtain ⟨hu, data, -, hren⟩ := h
  exact ⟨hu, hren.lock, hren.nextFd⟩

variable (c) in
def Succeeds (current : Option Entry) (next : T) : Prop :=
  match current with
  | none => c.revision next = 1
  | some e => ∃ doc, c.decode e.data = some doc ∧ c.revision next = c.revision doc + 1

theorem Admits.succeeds {m : Machine} (h : Admits c euid m expected next data) :
    Succeeds c m.current next := by
  obtain ⟨doc, hview, hrev⟩ := h.current
  cases hm : m.current with
  | none =>
    simp only [view, hm, Except.ok.injEq] at hview
    subst hview
    simpa [Succeeds, ← hrev, Codec.currentRevision] using h.revision
  | some e =>
    simp only [view, hm] at hview
    split_ifs at hview
    cases hd : c.decode e.data with
    | none => simp [hd] at hview
    | some x =>
      simp only [hd, Except.ok.injEq] at hview
      subst hview
      exact ⟨x, hd, by rw [h.revision, ← hrev]; rfl⟩

/-- A commit that issued its rename published its own encoding or nothing. -/
theorem Attempts.publishes {s : Store} {m : Machine} (h : Attempts c euid s expected next m m') :
    m'.current = m.current ∨ ∃ data, c.marshal next = some data ∧
      m'.current = some (.fresh euid data) ∧ Succeeds c m.current next := by
  obtain ⟨-, data, hadmits, hren⟩ := h
  rcases hren.outcome with ⟨hcur, -⟩ | ⟨hcur, -⟩
  · exact .inl hcur
  · exact .inr ⟨data, hadmits.encoded, hcur, hadmits.succeeds⟩

theorem view_fresh (hcodec : c.RoundTrips) (hvalid : c.validate next = true)
    (hdata : c.marshal next = some data) (hsize : (data.length : Int) ≤ c.maxBytes) :
    view c euid (some (.fresh euid data)) = .ok (some next) := by
  have hread : (Entry.fresh euid data).readable c euid = true := by
    simp [Entry.readable, Entry.isPrivate, Entry.fresh, hsize]
  have hdecode : c.decode (Entry.fresh euid data).data = some next :=
    hcodec next data hvalid hdata hsize
  simp [view, hread, hdecode]

end Specs

end RevisionStore
