import PhantoWD.LeaseFence
import PhantoWD.NasBootstrap

/-!
One owner holds the directory, serves fresh snapshots and issues leases on the revision it
serves. Every read is compared with the baseline the last confirmed publication left, and any
difference is sticky review. Each call runs under the owner's mutex.
-/
namespace PolicyOwner

open GoText EffectProgram NasEvidence NasDirectory NasBootstrap LeaseFence Method
open RevisionStore (Codec Store StoreMethod StoreError)
open NasWriter (Writer WriterMethod refresh quarantine)

def maxPolicyLeases : Nat := 256

structure PolicyObservation where
  directory : Stat := default
  file : Stat := default
  digest : Bytes := List.replicate 32 0
  revision : Nat := 0
  deriving DecidableEq

abbrev PolicyLease := Claim Nat

/-- `store` is used by an owner of a codec, `writer` by one with a private backend. Leases are
numbered by issue; `issued` is the lease values themselves, `leases` the owner's map of them. -/
structure OwnedStore where
  store : Store := {}
  writer : Writer := ⟨{}, [], default, fun _ => none⟩
  watch : Bool := false
  baseline : PolicyObservation := {}
  leases : List Nat := []
  review : Bool := false
  closed : Bool := false
  closeFailed : Bool := false
  issued : List PolicyLease := []

inductive Own : Type → Type where
  | cancelled : Own Bool
  | quiet : Own Bool
  | statfsProc : Own Bool
  | inotifyInit : Own Bool
  | addWatch : Own Bool
  | closeWatch : Own Bool
  | statDir : Own (Option Stat)
  | statFile : Own (Option Stat)
  | statNamed : Own (Option Stat)

inductive Sys (β : Type) : Type where
  | own (r : Own β)
  | store (r : RevisionStore.Sys β)
  | nas (r : NasDirectory.Sys β)

inductive Effect where
  | stage | publish | close
  deriving DecidableEq

section Effects

variable {β : Type}

def ownEffects : Own β → List Effect
  | .closeWatch => [.close]
  | _ => []

def storeEffects : RevisionStore.Sys β → List Effect
  | .unlinkPending | .createPending | .write _ => [.stage]
  | .rename => [.publish]
  | .closeDir _ => [.close]
  | _ => []

def nasEffects : NasDirectory.Sys β → List Effect
  | .createPending | .write _ | .unlinkReceipt => [.stage]
  | .rename role => [if role = .policy then .publish else .stage]
  | .closeWatch | .closeRoot => [.close]
  | _ => []

def Sys.effects : Sys β → List Effect
  | .own r => ownEffects r
  | .store r => storeEffects r
  | .nas r => nasEffects r

end Effects

/-- Every answer is possible at any time: the directory may be changed by anyone and every
system call may fail. The world is the list of what the owner did to it. -/
def environment : Handler Sys (List Effect) := fun r log _ log' => log' = log ++ r.effects

abbrev OwnerMethod := Method Sys OwnedStore Failure

section Parts

variable {α : Type}

def own (r : Own α) : OwnerMethod α := request (.own r)

def onStore (m : StoreMethod α) : OwnerMethod α :=
  m.embed (fun r => .store r) .store OwnedStore.store fun s o => { o with store := s }

def onWriter (m : WriterMethod α) : OwnerMethod α :=
  m.embed (fun r => .nas r) (fun e => e) OwnedStore.writer fun w o => { o with writer := w }

def checkContext : OwnerMethod Unit := do
  let cancelled ← own .cancelled
  refuseIf (cancelled = true) .cancelled

/-- `ctx` is false for a nil context. -/
def checkLocked (ctx : Bool) : OwnerMethod Unit := do
  let o ← get
  refuseIf (o.review = true ∨ o.closeFailed = true) .review
  refuseIf (o.closed = true) (.store .closed)
  refuseIf (ctx = false) (.store .invalid)
  checkContext

def quarantineLocked : OwnerMethod α := do
  modify fun o => { o with review := true }
  fail .review

def quarantineIf (refused : Prop) [Decidable refused] : OwnerMethod Unit :=
  if refused then quarantineLocked else pure ()

def orQuarantine : Option α → OwnerMethod α
  | none => quarantineLocked
  | some a => pure a

end Parts

def quietLocked : OwnerMethod Bool := do
  let o ← get
  if o.watch = false then pure false else own .quiet

section CodecOwner

variable {T : Type} (c : Codec T) (sha256 : Bytes → Bytes) (euid : Nat)

def unmoved (dir before : Stat) : OwnerMethod (Option (Stat × Stat)) := do
  match ← own .statFile with
  | none => pure none
  | some after =>
    match ← own .statNamed with
    | none => pure none
    | some named =>
      match ← own .statDir with
      | none => pure none
      | some dirAfter =>
        if before = after ∧ after = named ∧ dir = dirAfter then pure (some (dirAfter, after))
        else pure none

def captureFile (dir : Stat) (data : Bytes) : OwnerMethod (T × PolicyObservation) := do
  let before ← own .statFile
  if (before.all fun st => st.device ≠ dir.device) = true then do
    let _ ← onStore (request .closeCurrent)
    quarantineLocked
  else do
    let stats ← unmoved dir (before.getD default)
    let closed ← onStore (request .closeCurrent)
    let doc ← orQuarantine (c.decode data)
    let (dirAfter, after) ← orQuarantine stats
    quarantineIf (closed = false)
    let quiet ← quietLocked
    quarantineIf (quiet = false ∨ c.validate doc = false ∨ c.revision doc = 0)
    let encoded ← orQuarantine (c.marshal doc)
    quarantineIf ((encoded.length : Int) > c.maxBytes)
    pure (doc, ⟨dirAfter, after, sha256 encoded, c.revision doc⟩)

/-- Only construction reports missing state directly; live loss is review. -/
def openFailed (e : Failure) : OwnerMethod (T × PolicyObservation) := do
  let o ← get
  if e = .store .notInitialized ∧ o.baseline.revision = 0 then fail (.store .notInitialized)
  else quarantineLocked

def captureLocked : OwnerMethod (T × PolicyObservation) := do
  let quiet ← quietLocked
  quarantineIf (quiet = false)
  let checked ← attempt (onStore RevisionStore.check)
  quarantineIf (checked.isOk = false)
  let dir ← orQuarantine (← own .statDir)
  quarantineIf (dir.mode ≠ privateDirectory ∨ dir.uid ≠ euid)
  match ← attempt (onStore (RevisionStore.openCurrent c euid)) with
  | .error e => openFailed e
  | .ok entry => captureFile c sha256 dir entry.data

def replaceWatch : OwnerMethod Unit := do
  let old ← get
  modify fun o => { o with watch := true }
  if old.watch = false then pure ()
  else do
    let closed ← own .closeWatch
    quarantineIf (closed = false)

def newEpochLocked : OwnerMethod Unit := do
  let proc ← own .statfsProc
  quarantineIf (proc = false)
  let init ← own .inotifyInit
  quarantineIf (init = false)
  let added ← own .addWatch
  if added = false then do
    let _ ← own .closeWatch
    quarantineLocked
  else do
    replaceWatch
    let (_, observed) ← captureLocked c sha256 euid
    modify fun o => { o with baseline := observed }

end CodecOwner

section Backend

variable {P : Type}

structure NasPolicy (P : Type) extends PolicyCode P where
  validate : P → Bool
  marshal : P → Option Bytes

variable (code : NasPolicy P) (euid : Nat)

structure OwnedPolicyBackend (P : Type) where
  capture : WriterMethod (P × PolicyObservation)
  commit : Nat → P → WriterMethod Unit
  close : WriterMethod Unit

def nasCapture : WriterMethod (P × PolicyObservation) := do
  let w ← get
  refuseIf (w.retention.review = true ∨ w.retention.closeFailed = true) .review
  refuseIf (w.retention.closed = true) (.store .closed)
  let kind ← quarantine (refresh code.toPolicyCode euid (some w.files) none)
  quarantine (refuseIf (settledKind kind = false) .review)
  let w ← get
  let file := (w.files .policy).getD ⟨default, []⟩
  let value ← quarantine (ofOption (code.decode file.data) .review)
  let encoded ← quarantine (ofOption (code.marshal value) .review)
  let cancelled ← request .cancelled
  quarantine (refuseIf (cancelled = true) .review)
  pure (value, ⟨w.stamp, file.stat, code.sha256 encoded, code.revision value⟩)

def nasCommit (expected : Nat) (next : P) : WriterMethod Unit := do
  refuseIf (code.validate next = false ∨ code.revision next ≠ succ64 expected) (.store .invalid)
  let w ← get
  let base := ((w.files .policy).getD ⟨default, []⟩).data
  let current ← ofOption (code.decode base) .review
  refuseIf (code.revision current ≠ expected) (.store .conflict)
  let encoded ← ofOption (code.marshal next) (.store .invalid)
  NasWriter.commit code.toPolicyCode euid base encoded

def nasBackend : OwnedPolicyBackend P :=
  ⟨nasCapture code euid, nasCommit code euid, NasWriter.close⟩

end Backend

/-- What the constructor bound: a codec over the store, or the NAS writer's backend. -/
inductive Binding (T : Type) where
  | codec (c : Codec T) (sha256 : Bytes → Bytes)
  | backend (code : NasPolicy T)

section Owner

variable {T : Type} (b : Binding T) (euid : Nat)

def Binding.revision : Binding T → T → Nat
  | .codec c _ => c.revision
  | .backend code => code.revision

def capture : OwnerMethod (T × PolicyObservation) :=
  match b with
  | .codec c sha256 => captureLocked c sha256 euid
  | .backend code => onWriter (nasBackend code euid).capture

def observeLocked : OwnerMethod T := do
  match ← attempt (capture b euid) with
  | .error _ => quarantineLocked
  | .ok (doc, observed) => do
    let o ← get
    quarantineIf (observed ≠ o.baseline)
    pure doc

/-- `original` is false for nil and for a copied owner. -/
def OwnedStore.snapshot (original ctx : Bool) : OwnerMethod T := do
  refuseIf (original = false) (.store .invalid)
  checkLocked ctx
  let doc ← observeLocked b euid
  checkContext
  pure doc

def OwnedStore.acquire (original ctx : Bool) (expected : Nat) : OwnerMethod Nat := do
  refuseIf (original = false) (.store .invalid)
  checkLocked ctx
  let _ ← observeLocked b euid
  let o ← get
  refuseIf (expected ≠ o.baseline.revision) (.store .conflict)
  refuseIf (maxPolicyLeases ≤ o.leases.length) (.store .busy)
  checkContext
  modify fun o => { o with leases := o.leases ++ [o.issued.length],
                           issued := o.issued ++ [⟨expected, false⟩] }
  pure o.issued.length

/-- Conflict and invalid are returned; any other failure is review. -/
def refused (e : Failure) : OwnerMethod Unit :=
  if e = .store .conflict ∨ e = .store .invalid then fail e else quarantineLocked

def confirms (marshal : Option Bytes) (sha256 : Bytes → Bytes) (revision : Nat)
    (observed : PolicyObservation) : Bool :=
  observed.revision = revision && marshal.any fun encoded => observed.digest = sha256 encoded

/-- Cancellation after publication is not a claim that nothing changed. -/
def commitStoreLocked (c : Codec T) (sha256 : Bytes → Bytes) (expected : Nat) (next : T) :
    OwnerMethod Unit := do
  match ← attempt (onStore (Store.commit c euid expected next)) with
  | .error e => refused e
  | .ok () =>
    match ← attempt (newEpochLocked c sha256 euid) with
    | .error _ => quarantineLocked
    | .ok () => do
      let o ← get
      quarantineIf (confirms (c.marshal next) sha256 (c.revision next) o.baseline = false)
      let cancelled ← own .cancelled
      quarantineIf (cancelled = true)

def commitBackendLocked (code : NasPolicy T) (expected : Nat) (next : T) : OwnerMethod Unit := do
  let o ← get
  refuseIf (expected ≠ o.baseline.revision) (.store .conflict)
  match ← attempt (onWriter ((nasBackend code euid).commit expected next)) with
  | .error e => refused e
  | .ok () =>
    match ← attempt (onWriter (nasBackend code euid).capture) with
    | .error _ => quarantineLocked
    | .ok (_, observed) => do
      quarantineIf (confirms (code.marshal next) code.sha256 (succ64 expected) observed = false)
      let cancelled ← own .cancelled
      quarantineIf (cancelled = true)
      modify fun o => { o with baseline := observed }

def commitLocked (expected : Nat) (next : T) : OwnerMethod Unit :=
  match b with
  | .codec c sha256 => commitStoreLocked euid c sha256 expected next
  | .backend code => commitBackendLocked euid code expected next

def OwnedStore.commit (original ctx : Bool) (expected : Nat) (next : T) : OwnerMethod Unit := do
  refuseIf (original = false) (.store .invalid)
  checkLocked ctx
  let _ ← observeLocked b euid
  let o ← get
  refuseIf (o.leases ≠ []) (.store .busy)
  checkContext
  commitLocked b euid expected next

/-- A caller's pointer to a lease; a copied value is not the lease. -/
structure LeaseRef where
  id : Nat
  original : Bool
  deriving DecidableEq

def OwnedStore.lease (o : OwnedStore) (r : LeaseRef) : Option PolicyLease :=
  if r.original = true then o.issued[r.id]? else none

def PolicyLease.snapshot (r : LeaseRef) (ctx : Bool) : OwnerMethod T := do
  let o ← get
  let l ← ofOption (o.lease r) (.store .invalid)
  refuseIf (r.id ∉ o.leases ∨ l.released = true) (.store .closed)
  checkLocked ctx
  match ← attempt (observeLocked b euid) with
  | .error _ => quarantineLocked
  | .ok doc => do
    let o ← get
    quarantineIf (l.revision ≠ o.baseline.revision)
    checkContext
    pure doc

def PolicyLease.verify (r : LeaseRef) (ctx : Bool) : OwnerMethod Unit := do
  let _ ← PolicyLease.snapshot b euid r ctx
  pure ()

def PolicyLease.release (r : LeaseRef) : OwnerMethod Unit := do
  let o ← get
  let l ← ofOption (o.lease r) (.store .invalid)
  if l.released = true then pure ()
  else do
    refuseIf (r.id ∉ o.leases) (.store .invalid)
    modify fun o => { o with leases := o.leases.erase r.id,
                             issued := o.issued.set r.id ⟨l.revision, true⟩ }

def closeOwnWatch (watch : Bool) : OwnerMethod Bool :=
  if watch = false then pure true
  else do
    let closed ← own .closeWatch
    modify fun o => { o with watch := false }
    pure closed

def closeHeld : OwnerMethod Unit :=
  match b with
  | .codec _ _ => onStore Store.close
  | .backend code => onWriter (nasBackend code euid).close

/-- The originals are closed once; a failed close is never retried. -/
def closeLocked (watch : Bool) : OwnerMethod Unit := do
  modify fun o => { o with closed := true }
  let watchClosed ← closeOwnWatch watch
  let held ← attempt (closeHeld b euid)
  if watchClosed = false ∨ held.isOk = false then do
    modify fun o => { o with closeFailed := true }
    quarantineLocked
  else pure ()

def OwnedStore.close (original : Bool) : OwnerMethod Unit := do
  refuseIf (original = false) (.store .invalid)
  let o ← get
  refuseIf (o.closeFailed = true) .review
  if o.closed = true then pure ()
  else do
    refuseIf (o.leases ≠ []) (.store .busy)
    closeLocked b euid o.watch

def abandon (e : Failure) : OwnerMethod Unit := do
  match ← attempt (OwnedStore.close b euid true) with
  | .error _ => fail .review
  | .ok () => fail e

def openOwnedWithCodec (c : Codec T) (sha256 : Bytes → Bytes) (directory : Bytes) :
    OwnerMethod Unit := do
  onStore (RevisionStore.openWithCodec c euid directory)
  match ← attempt (newEpochLocked c sha256 euid) with
  | .error e => abandon (.codec c sha256) euid e
  | .ok () => pure ()

/-- Owning an opened writer. The owner is kept under review when its opening failed. -/
def ownNASWriter (code : NasPolicy T) (openErr : Option Failure) : OwnerMethod Unit := do
  match openErr with
  | some e => do
    modify fun o => { o with review := true }
    fail e
  | none =>
    match ← attempt (onWriter (nasBackend code euid).capture) with
    | .error _ => do
      modify fun o => { o with review := true }
      abandon (.backend code) euid .review
    | .ok (_, observed) => modify fun o => { o with baseline := observed }

end Owner

/-- The claims on the served revision, without the machinery around them. -/
def OwnedStore.fence (o : OwnedStore) : Fence Nat where
  revision := o.baseline.revision
  claims := o.issued
  frozen := o.review || o.closeFailed
  closed := o.closed

structure SameLeases (o t : OwnedStore) : Prop where
  leases : t.leases = o.leases
  issued : t.issued = o.issued
  closed : t.closed = o.closed
  closeFailed : t.closeFailed = o.closeFailed

theorem SameLeases.refl (o : OwnedStore) : SameLeases o o := ⟨rfl, rfl, rfl, rfl⟩

theorem SameLeases.trans {o t u : OwnedStore} (h : SameLeases o t) (k : SameLeases t u) :
    SameLeases o u :=
  ⟨k.leases.trans h.leases, k.issued.trans h.issued, k.closed.trans h.closed,
    k.closeFailed.trans h.closeFailed⟩

/-- Reading: nothing is done to the directory, and only review may be raised. -/
def reading : Frame OwnedStore (List Effect) where
  world := Eq
  ok o t := SameLeases o t ∧ t.baseline = o.baseline ∧ t.review = o.review
  any o t := SameLeases o t ∧ t.baseline = o.baseline ∧ (o.review = true → t.review = true)
  world_refl _ := rfl
  world_trans := Eq.trans
  ok_refl o := ⟨.refl o, rfl, rfl⟩
  ok_trans h k := ⟨h.1.trans k.1, k.2.1.trans h.2.1, k.2.2.trans h.2.2⟩
  any_of_ok h := ⟨h.1, h.2.1, fun hr => h.2.2.trans hr⟩
  any_trans h k := ⟨h.1.trans k.1, k.2.1.trans h.2.1, fun hr => k.2.2 (h.2.2 hr)⟩

/-- Publishing: the directory and the baseline may change as well. -/
def publishing : Frame OwnedStore (List Effect) where
  world _ _ := True
  ok o t := SameLeases o t ∧ t.review = o.review
  any o t := SameLeases o t ∧ (o.review = true → t.review = true)
  world_refl _ := trivial
  world_trans _ _ := trivial
  ok_refl o := ⟨.refl o, rfl⟩
  ok_trans h k := ⟨h.1.trans k.1, k.2.trans h.2⟩
  any_of_ok h := ⟨h.1, fun hr => h.2.trans hr⟩
  any_trans h k := ⟨h.1.trans k.1, fun hr => k.2 (h.2 hr)⟩

section Frames

variable {α T : Type} {A : α → Prop} {b : Binding T} {euid : Nat}

abbrev Reads (A : α → Prop) (m : OwnerMethod α) : Prop := Within environment reading A m

abbrev Publishes (A : α → Prop) (m : OwnerMethod α) : Prop := Within environment publishing A m

theorem publishes_of_reads {m : OwnerMethod α} (h : Reads A m) : Publishes A m :=
  h.mono (fun _ _ _ => trivial) (fun _ _ h => ⟨h.1, h.2.2⟩) (fun _ _ h => ⟨h.1, h.2.2⟩)
    fun _ => id

theorem reads_own {r : Own α} (h : ownEffects r = []) : Reads (fun _ => True) (own r) := by
  apply within_request
  intro w a u hu
  have hu : u = w ++ ownEffects r := hu
  rw [hu, h, List.append_nil]
  rfl

theorem reads_quarantine : Reads A (quarantineLocked : OwnerMethod α) := by
  intro o log
  refine meets_modify_bind.mpr (meets_fail.mpr ⟨rfl, ⟨⟨rfl, rfl, rfl, rfl⟩, rfl, ?_⟩, by simp⟩)
  intro _
  rfl

theorem reads_quarantineIf {p : Prop} [Decidable p] : Reads (fun _ => ¬ p) (quarantineIf p) := by
  unfold quarantineIf
  split_ifs with hp
  · exact reads_quarantine
  · exact within_pure hp

theorem reads_orQuarantine {x : Option α} : Reads (fun a => x = some a) (orQuarantine x) := by
  cases x with
  | none => exact reads_quarantine
  | some a => exact within_pure rfl

theorem reads_onStore {m : StoreMethod α}
    (h : Within (environment.through fun r => .store r) Frame.silent A m) : Reads A (onStore m) :=
  h.embed (fun _ _ => id) fun _ _ => ⟨⟨rfl, rfl, rfl, rfl⟩, rfl, rfl⟩

theorem reads_onWriter {m : WriterMethod α}
    (h : Within (environment.through fun r => .nas r) Frame.silent A m) : Reads A (onWriter m) :=
  h.embed (fun _ _ => id) fun _ _ => ⟨⟨rfl, rfl, rfl, rfl⟩, rfl, rfl⟩

theorem silent_store {r : RevisionStore.Sys α} (h : storeEffects r = []) :
    Within (environment.through fun r => .store r) Frame.silent (fun _ => True)
      (request r : StoreMethod α) := by
  apply within_request
  intro w a u hu
  have hu : u = w ++ storeEffects r := hu
  rw [hu, h, List.append_nil]
  rfl

theorem silent_nas {r : NasDirectory.Sys α} (h : nasEffects r = []) :
    Within (environment.through fun r => .nas r) Frame.silent (fun _ => True)
      (request r : WriterMethod α) := by
  apply within_request
  intro w a u hu
  have hu : u = w ++ nasEffects r := hu
  rw [hu, h, List.append_nil]
  rfl

theorem reads_quietLocked : Reads (fun _ => True) quietLocked := by
  apply within_get.bind
  intro o _
  by_cases hw : o.watch = false
  · rw [if_pos hw]
    exact within_pure trivial
  · rw [if_neg hw]
    exact reads_own rfl

theorem reads_unmoved (dir before : Stat) : Reads (fun _ => True) (unmoved dir before) := by
  apply (reads_own rfl).bind
  rintro (_ | after) _
  · exact within_pure trivial
  apply (reads_own rfl).bind
  rintro (_ | named) _
  · exact within_pure trivial
  apply (reads_own rfl).bind
  rintro (_ | dirAfter) _
  · exact within_pure trivial
  by_cases h : before = after ∧ after = named ∧ dir = dirAfter
  · simp only [if_pos h]
    exact within_pure trivial
  · simp only [if_neg h]
    exact within_pure trivial

theorem reads_captureFile (c : Codec T) (sha256 : Bytes → Bytes) (dir : Stat) (data : Bytes) :
    Reads (fun x => c.revision x.1 = x.2.revision ∧ c.validate x.1 = true)
      (captureFile c sha256 dir data) := by
  apply (reads_own rfl).bind
  intro before _
  by_cases h : (before.all fun st => st.device ≠ dir.device) = true
  · rw [if_pos h]
    exact (reads_onStore (silent_store rfl)).bind fun _ _ => reads_quarantine
  rw [if_neg h]
  apply (reads_unmoved dir _).bind
  intro stats _
  apply (reads_onStore (silent_store rfl)).bind
  intro closed _
  apply reads_orQuarantine.bind
  intro doc _
  apply reads_orQuarantine.bind
  rintro ⟨dirAfter, after⟩ _
  apply reads_quarantineIf.bind
  intro _ _
  apply reads_quietLocked.bind
  intro quiet _
  apply reads_quarantineIf.bind
  intro _ hvalid
  apply reads_orQuarantine.bind
  intro encoded _
  apply reads_quarantineIf.bind
  intro _ _
  push Not at hvalid
  exact within_pure ⟨rfl, Bool.eq_true_of_not_eq_false hvalid.2.1⟩

theorem silent_openCurrent (c : Codec T) :
    Within (environment.through fun r => .store r) Frame.silent (fun _ => True)
      (RevisionStore.openCurrent c euid) := by
  apply (silent_store rfl).bind
  intro found _
  apply within_ofOption.bind
  intro entry _
  apply within_refuseIf.bind
  intro _ _
  exact within_pure trivial

theorem silent_check :
    Within (environment.through fun r => .store r) Frame.silent (fun _ => True)
      RevisionStore.check := by
  apply within_get.bind
  intro s _
  apply within_refuseIf.bind
  intro _ _
  exact within_refuseIf.mono (fun _ _ => id) (fun _ _ => id) (fun _ _ => id) fun _ _ => trivial

theorem reads_captureLocked (c : Codec T) (sha256 : Bytes → Bytes) :
    Reads (fun x => c.revision x.1 = x.2.revision ∧ c.validate x.1 = true)
      (captureLocked c sha256 euid) := by
  apply reads_quietLocked.bind
  intro quiet _
  apply reads_quarantineIf.bind
  intro _ _
  apply (reads_onStore silent_check).attempt_bind
  · intro _ _
    apply reads_quarantineIf.bind
    intro _ _
    apply (reads_own rfl).bind
    intro stat _
    apply reads_orQuarantine.bind
    intro dir _
    apply reads_quarantineIf.bind
    intro _ _
    apply (reads_onStore (silent_openCurrent c)).attempt_bind
    · intro entry _
      exact reads_captureFile c sha256 dir entry.data
    · intro e
      apply within_get.bind
      intro o _
      by_cases h : e = .store .notInitialized ∧ o.baseline.revision = 0
      · rw [if_pos h]
        exact within_fail
      · rw [if_neg h]
        exact reads_quarantine
  · intro e
    apply reads_quarantineIf.bind
    intro _ h
    exact absurd rfl h

abbrev Silent (A : α → Prop) (m : WriterMethod α) : Prop :=
  Within (environment.through fun r => .nas r) Frame.silent A m

theorem silent_quarantine {m : WriterMethod α} (h : Silent A m) : Silent A (quarantine m) := by
  apply h.attempt_bind
  · intro a ha
    exact within_pure ha
  · intro e
    apply (within_modify fun _ => trivial).bind
    intro _ _
    exact within_fail

theorem silent_quietLocked (watching : Bool) :
    Silent (fun _ => True) (NasDirectory.quietLocked watching) := by
  by_cases h : watching = false
  · rw [NasDirectory.quietLocked, if_pos h]
    exact within_pure trivial
  · rw [NasDirectory.quietLocked, if_neg h]
    exact silent_nas rfl

theorem silent_verifyCursor (root : Stat) : Silent (fun _ => True) (verifyCursor root) := by
  apply (silent_nas rfl).bind
  intro cursor _
  by_cases h : cursor ≠ some root
  · rw [if_pos h]
    exact (silent_nas rfl).bind fun _ _ => within_fail
  · rw [if_neg h]
    exact within_pure trivial

variable {code : NasPolicy T}

theorem silent_refresh (expected : Option Files) (changed : Option Role) :
    Silent (fun _ => True) (refresh code.toPolicyCode euid expected changed) := by
  apply (silent_nas rfl).bind
  intro cancelled _
  apply within_refuseIf.bind
  intro _ _
  apply (silent_nas rfl).bind
  intro stat _
  apply within_ofOption.bind
  intro before _
  apply within_get.bind
  intro w _
  apply within_refuseIf.bind
  intro _ _
  apply (silent_quietLocked _).bind
  intro quiet _
  apply within_refuseIf.bind
  intro _ _
  apply (silent_nas rfl).bind
  intro opened _
  apply within_refuseIf.bind
  intro _ _
  apply (silent_verifyCursor before).bind
  intro _ _
  apply (silent_nas rfl).bind
  intro census _
  apply (silent_nas rfl).bind
  intro closed _
  apply within_ofOption.bind
  intro set _
  apply within_refuseIf.bind
  intro _ _
  apply (silent_nas rfl).bind
  intro stat _
  apply within_ofOption.bind
  intro after _
  apply within_refuseIf.bind
  intro _ _
  apply (silent_quietLocked _).bind
  intro quiet _
  apply within_refuseIf.bind
  intro _ _
  apply (silent_nas rfl).bind
  intro cancelled _
  apply within_refuseIf.bind
  intro _ _
  apply within_refuseIf.bind
  intro _ _
  apply (within_modify fun _ => trivial).bind
  intro _ _
  exact within_pure trivial

theorem silent_nasCapture :
    Silent (fun x => code.revision x.1 = x.2.revision ∧ ∃ data, code.decode data = some x.1)
      (nasCapture code euid) := by
  apply within_get.bind
  intro w _
  apply within_refuseIf.bind
  intro _ _
  apply within_refuseIf.bind
  intro _ _
  apply (silent_quarantine (silent_refresh _ _)).bind
  intro kind _
  apply (silent_quarantine within_refuseIf).bind
  intro _ _
  apply within_get.bind
  intro w _
  apply (silent_quarantine within_ofOption).bind
  intro value hvalue
  apply (silent_quarantine within_ofOption).bind
  intro encoded _
  apply (silent_nas rfl).bind
  intro cancelled _
  apply (silent_quarantine within_refuseIf).bind
  intro _ _
  exact within_pure ⟨rfl, _, hvalue⟩

def Binding.Accepts : Binding T → T → Prop
  | .codec c _, doc => c.validate doc = true
  | .backend code, doc => ∃ data, code.decode data = some doc

/-- A capture only looks, and its document is accepted and has the observed revision. -/
theorem reads_capture :
    Reads (fun x => b.revision x.1 = x.2.revision ∧ b.Accepts x.1) (capture b euid) := by
  cases b with
  | codec c sha256 => exact reads_captureLocked c sha256
  | backend code => exact reads_onWriter silent_nasCapture

end Frames

end PolicyOwner
