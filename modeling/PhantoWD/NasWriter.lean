import PhantoWD.NasDirectory

/-!
The writer replaces the base copy, the intent, the policy and the receipt in this order, each
through the pending file, and retires the previous receipt before the policy changes. After the
first effect any failure is sticky review.
-/
namespace NasWriter

open GoText EffectProgram NasEvidence NasDirectory Method
open RevisionStore (StoreError)

structure Writer where
  retention : Authority
  installation : Bytes
  stamp : Stat
  files : Files

abbrev WriterMethod := Method Sys Writer Failure

def sameIdentity (before initial : Stat) : Bool :=
  before.device = initial.device && before.inode = initial.inode && before.mode = initial.mode &&
    before.uid = initial.uid && before.gid = initial.gid && before.links = initial.links

/-- Only the changed role may have new metadata. -/
def agrees (expected got : Files) (changed : Option Role) (role : Role) : Bool :=
  match expected role, got role with
  | none, none => true
  | some old, some f => f.data = old.data && (changed = some role || f.stat = old.stat)
  | _, _ => false

variable {P : Type} (c : PolicyCode P) (euid : Nat)

def refresh (expected : Option Files) (changed : Option Role) : WriterMethod Kind := do
  let cancelled ← request .cancelled
  refuseIf (cancelled = true) .review
  let before ← ofOption (← request .statRoot) .review
  let w ← get
  refuseIf (sameIdentity before w.retention.initial = false ∨
    (changed = none ∧ before ≠ w.stamp)) .review
  let quiet ← quietLocked w.retention.watching
  refuseIf (quiet = false) .review
  let opened ← request .openCursor
  refuseIf (opened = false) .review
  verifyCursor before
  let census ← request .census
  let closed ← request .closeCursor
  let set ← ofOption (census.bind fun d =>
    (collectNASEvidenceSet c euid before w.installation d).toOption) .review
  refuseIf (closed = false ∨ set.observation.pending = true) .review
  let after ← ofOption (← request .statRoot) .review
  refuseIf (after ≠ before) .review
  let quiet ← quietLocked w.retention.watching
  refuseIf (quiet = false) .review
  let cancelled ← request .cancelled
  refuseIf (cancelled = true) .review
  refuseIf ((expected.all fun e => Role.all.all (agrees e set.files changed)) = false) .review
  modify fun w => { w with files := set.files, stamp := after }
  pure set.observation.kind

def previousUnsafe (original : Stat) (limit : Nat) : Option Stat → Bool
  | none => false
  | some st => !st.safe original.uid original limit

def stagedUnsafe (original staged : Stat) (data : Bytes) : Bool :=
  staged.mode ≠ privateFile || staged.uid ≠ original.uid || staged.links ≠ 1 ||
    staged.device ≠ original.device || staged.size ≠ data.length

/-- The renamed file is the staged one; only its change time may differ. -/
def finalDiffers (staged final : Stat) : Bool :=
  final.device ≠ staged.device || final.inode ≠ staged.inode || final.mode ≠ staged.mode ||
    final.uid ≠ staged.uid || final.gid ≠ staged.gid || final.links ≠ 1 ||
    final.size ≠ staged.size || final.modified ≠ staged.modified || final.mNanos ≠ staged.mNanos

def directoryDiffers (original directory : Stat) : Bool :=
  directory.device ≠ original.device || directory.inode ≠ original.inode ||
    directory.mode ≠ original.mode || directory.uid ≠ original.uid ||
    directory.gid ≠ original.gid

def syncStaged (complete : Bool) : WriterMethod Bool := do
  let cancelled ← request .cancelled
  if complete = true ∧ cancelled = false then request .syncPending else pure true

def writePending (original : Stat) (data : Bytes) : WriterMethod Stat := do
  let created ← request .createPending
  refuseIf (created = false) .review
  let (n, written) ← request (.write data)
  let synced ← syncStaged (written = true ∧ n = data.length)
  let staged ← request .statPending
  let closed ← request .closePending
  let cancelled ← request .cancelled
  refuseIf (written = false ∨ n ≠ data.length ∨ synced = false ∨ closed = false ∨
    cancelled = true) .review
  let staged ← ofOption staged .review
  refuseIf (stagedUnsafe original staged data = true) .review
  pure staged

def renamePending (role : Role) : WriterMethod Unit := do
  let renamed ← request (.rename role)
  refuseIf (renamed = false) .review
  let cancelled ← request .cancelled
  refuseIf (cancelled = true) .review
  let synced ← request .syncDir
  refuseIf (synced = false) .review
  let cancelled ← request .cancelled
  refuseIf (cancelled = true) .review

def verifyPublished (role : Role) (data : Bytes) (original staged : Stat) : WriterMethod Unit := do
  let final ← ofOption (← request (.statRole role)) .review
  let final ← ofOption final .review
  refuseIf (finalDiffers staged final = true) .review
  let directory ← ofOption (← request .statRoot) .review
  refuseIf (directoryDiffers original directory = true) .review
  let got ← request (.readRole role final)
  refuseIf (got ≠ some data) .review
  let cancelled ← request .cancelled
  refuseIf (cancelled = true) .review

def stageNASEvidenceRole (role : Role) (data : Bytes) : WriterMethod Unit := do
  refuseIf (role = .header ∨ role = .pending) (.store .invalid)
  refuseIf (data = [] ∨ role.limit < data.length) (.store .invalid)
  ctxErr
  let original ← ofOption (← request .statRoot) (.store .unsafeStorage)
  refuseIf (original.mode ≠ privateDirectory ∨ original.uid ≠ euid) (.store .unsafeStorage)
  let previous ← ofOption (← request (.statRole role)) (.store .unsafeStorage)
  refuseIf (previousUnsafe original role.limit previous = true) (.store .unsafeStorage)
  ctxErr
  let staged ← writePending original data
  let named ← request (.statRole .pending)
  refuseIf (named ≠ some (some staged)) .review
  let again ← request (.statRole role)
  let cancelled ← request .cancelled
  refuseIf (again ≠ some previous ∨ cancelled = true) .review
  renamePending role
  verifyPublished role data original staged

def retireReceipt : Option File → WriterMethod Unit
  | none => pure ()
  | some old => do
    let got ← request (.readRole .receipt old.stat)
    let cancelled ← request .cancelled
    refuseIf (got ≠ some old.data ∨ cancelled = true) .review
    let removed ← request .unlinkReceipt
    refuseIf (removed = false) .review
    let cancelled ← request .cancelled
    refuseIf (cancelled = true) .review
    let synced ← request .syncDir
    refuseIf (synced = false) .review
    let consumed ← request (.events .receipt true)
    refuseIf (consumed = false) .review
    let w ← get
    let _ ← refresh c euid (some (Function.update w.files .receipt none)) (some .receipt)
    pure ()

def publishRole (role : Role) (data : Bytes) : WriterMethod Unit := do
  let w ← get
  let _ ← refresh c euid (some w.files) none
  let w ← get
  retireReceipt c euid (if role = .policy then w.files .receipt else none)
  stageNASEvidenceRole euid role data
  let consumed ← request (.events role false)
  refuseIf (consumed = false) .review
  let w ← get
  -- the changed role's metadata is not compared
  let kind ← refresh c euid (some (Function.update w.files role (some ⟨w.stamp, data⟩))) (some role)
  refuseIf (role = .receipt ∧ kind ≠ .matchingLocalRecords) .review

def publishAll : List (Role × Bytes) → WriterMethod Unit
  | [] => pure ()
  | (role, data) :: rest => do
    publishRole c euid role data
    publishAll rest

def Writer.quarantined (w : Writer) : Writer :=
  { w with retention := { w.retention with review := true } }

def quarantine {α : Type} (m : WriterMethod α) : WriterMethod α := do
  match ← attempt m with
  | .ok a => pure a
  | .error _ => do
    modify Writer.quarantined
    fail .review

def priorOperation (files : Files) : Option Bytes :=
  match files.content .intent with
  | none => some []
  | some data => unmarshalOperation data

def steps (base intent next receipt : Bytes) : List (Role × Bytes) :=
  [(.base, base), (.intent, intent), (.policy, next), (.receipt, receipt)]

def prepare (base next : Bytes) : WriterMethod (Bytes × Bytes) := do
  refuseIf (base = [] ∨ next = [] ∨ maxInputBytes < base.length ∨ maxInputBytes < next.length)
    (.store .invalid)
  let w ← get
  refuseIf (w.retention.review = true ∨ w.retention.closeFailed = true) .review
  refuseIf (w.retention.closed = true) (.store .closed)
  ctxErr
  let _ ← quarantine (refresh c euid (some w.files) none)
  let w ← get
  refuseIf (w.files.content .policy ≠ some base) (.store .conflict)
  let id ← ofOption (← request .random) (.store .io)
  let prior ← quarantine (ofOption (priorOperation w.files) .review)
  refuseIf (hexEncode id = prior) (.store .conflict)
  let records ← ofOption (encodeOperation c w.installation (hexEncode id) base next)
    (.store .invalid)
  ctxErr
  pure records

def commit (base next : Bytes) : WriterMethod Unit := do
  let (intent, receipt) ← prepare c euid base next
  quarantine (publishAll c euid (steps base intent next receipt))

def close : WriterMethod Unit :=
  Authority.close.embed (fun r => r) (fun e => e) Writer.retention
    fun a w => { w with retention := a }

section Specs

variable {c euid} {α β : Type} {I : Machine → Prop} {m : Machine} {w : Writer}

theorem meets_read_bind {σ : Type} {s : σ} {r : Sys (Option α)}
    {f : α → Method Sys σ Failure β} {Q : Except Failure β → σ → Machine → Prop} {truth : Option α}
    {e : Failure} (h : ∀ a u, filesystem euid r m a u → u = m ∧ (a = none ∨ a = truth)) (hI : I m)
    (herr : Q (.error e) s m)
    (hf : ∀ a, truth = some a → Meets (filesystem euid) I Q (f a) s m) :
    Meets (filesystem euid) I Q (request r >>= fun o => ofOption o e >>= f) s m := by
  refine meets_request_bind.mpr ⟨hI, fun a u hu => ?_⟩
  obtain ⟨rfl, ha⟩ := h a u hu
  refine meets_ofOption_bind hI (fun _ => herr) fun x hx => hf x ?_
  rcases ha with rfl | rfl
  · cases hx
  · exact hx

theorem ctxErr_spec {σ : Type} (s : σ) :
    Meets (filesystem euid) (· = m) (fun r t _ => t = s ∧ ∀ e, r = .error e → e = .cancelled)
      ctxErr s m := by
  unfold ctxErr
  refine meets_ask_bind rfl (fun _ _ => id) fun a => ?_
  exact meets_refuseIf rfl (fun _ => ⟨rfl, by simp⟩) fun _ => ⟨rfl, by simp⟩

theorem quietLocked_spec {σ : Type} (s : σ) (watching : Bool) :
    Meets (filesystem euid) (· = m) (fun r t _ => t = s ∧ ∃ q, r = .ok q)
      (quietLocked watching) s m := by
  unfold quietLocked
  by_cases hw : watching = false
  · rw [if_pos hw]
    exact ⟨rfl, rfl, _, rfl⟩
  · rw [if_neg hw]
    refine meets_request.mpr ⟨rfl, fun a u hu => ?_⟩
    rcases hu with rfl
    exact ⟨rfl, rfl, a, rfl⟩

theorem verifyCursor_spec {σ : Type} (s : σ) (root : Stat) :
    Meets (filesystem euid) (· = m) (fun r t _ => t = s ∧ ∀ e, r = .error e → e = .review)
      (verifyCursor root) s m := by
  unfold verifyCursor
  refine meets_ask_bind rfl (fun _ _ h => h.1) fun a => ?_
  by_cases ha : a ≠ some root
  · rw [if_pos ha]
    refine meets_ask_bind rfl (fun _ _ => id) fun _ => ?_
    exact ⟨rfl, rfl, by simp⟩
  · rw [if_neg ha]
    exact ⟨rfl, rfl, by simp⟩

theorem syncStaged_spec (w : Writer) (complete : Bool) :
    Meets (filesystem euid) (· = m) (fun r t _ => t = w ∧ ∃ b, r = .ok b)
      (syncStaged complete) w m := by
  unfold syncStaged
  refine meets_ask_bind rfl (fun _ _ => id) fun cancelled => ?_
  by_cases h : complete = true ∧ cancelled = false
  · rw [if_pos h]
    refine meets_request.mpr ⟨rfl, fun a u hu => ?_⟩
    rcases hu with rfl
    exact ⟨rfl, rfl, a, rfl⟩
  · rw [if_neg h]
    exact ⟨rfl, rfl, _, rfl⟩

theorem verifyPublished_spec (w : Writer) (role : Role) (data : Bytes) (original staged : Stat) :
    Meets (filesystem euid) (· = m) (fun _ t _ => t = w ∧ True)
      (verifyPublished role data original staged) w m := by
  unfold verifyPublished
  refine meets_mayFail rfl (fun _ => ⟨rfl, trivial⟩) fun hs => ?_
  refine meets_ask_bind hs.1 (fun _ _ h => h.1) fun _ => ?_
  refine hs.take fun _ _ => ?_
  refine hs.take fun _ _ => ?_
  refine hs.guard fun _ => ?_
  refine meets_ask_bind hs.1 (fun _ _ h => h.1) fun _ => ?_
  refine hs.take fun _ _ => ?_
  refine hs.guard fun _ => ?_
  refine hs.check (fun _ _ h => h.1) fun _ _ => ?_
  refine meets_ask_bind hs.1 (fun _ _ => id) fun _ => ?_
  exact meets_refuseIf rfl (fun _ => ⟨rfl, trivial⟩) fun _ => ⟨rfl, trivial⟩

/-- A refresh changes only the writer's picture of the directory, and a successful one makes
it exact: a complete and safe census without a pending file. -/
theorem refresh_spec (hI : I m) (expected : Option Files) (changed : Option Role) :
    Meets (filesystem euid) I (fun r w' m' => m' = m ∧
        match r with
        | .error _ => w' = w
        | .ok kind => w' = { w with files := m.dir.file, stamp := m.root } ∧
            ∃ set, collectNASEvidenceSet c euid m.root w.installation m.dir = .ok set ∧
              set.observation.kind = kind ∧ set.observation.pending = false)
      (refresh c euid expected changed) w m := by
  unfold refresh
  refine meets_mayFail hI (fun _ => ⟨rfl, rfl⟩) fun hs => ?_
  refine hs.check (fun _ _ => id) fun _ _ => ?_
  refine meets_read_bind (fun _ _ h => h) hI ⟨rfl, rfl⟩ fun before hb => ?_
  obtain rfl := Option.some.inj hb
  refine meets_get_bind.mpr ?_
  refine hs.guard fun _ => ?_
  refine hs.observe (quietLocked_spec w w.retention.watching) fun _ _ => ?_
  refine hs.guard fun _ => ?_
  refine hs.check (fun _ _ => id) fun _ _ => ?_
  refine hs.observe (verifyCursor_spec w m.root) fun _ _ => ?_
  refine meets_request_bind.mpr ⟨hI, fun census u hu => ?_⟩
  obtain ⟨rfl, hcensus⟩ := hu
  refine meets_ask_bind hs.1 (fun _ _ => id) fun _ => ?_
  refine hs.take fun set hset => ?_
  refine hs.guard fun hpending => ?_
  refine meets_read_bind (fun _ _ h => h) hI ⟨rfl, rfl⟩ fun after ha => ?_
  obtain rfl := Option.some.inj ha
  refine hs.guard fun _ => ?_
  refine hs.observe (quietLocked_spec w w.retention.watching) fun _ _ => ?_
  refine hs.guard fun _ => ?_
  refine hs.check (fun _ _ => id) fun _ _ => ?_
  refine hs.guard fun _ => ?_
  refine meets_modify_bind.mpr ?_
  obtain ⟨hclosed, hpend⟩ : _ = true ∧ set.observation.pending = false := by
    simpa using hpending
  rcases hcensus with rfl | rfl
  · cases hset
  · have hok : collectNASEvidenceSet c euid u.root w.installation u.dir = .ok set := by
      cases hc : collectNASEvidenceSet c euid u.root w.installation u.dir with
      | error e => simp [hc, Except.toOption] at hset
      | ok got => simpa [hc, Except.toOption] using hset
    have hfiles : set.files = u.dir.file := by rw [(collect_ok.mp hok).2]; rfl
    exact ⟨hI, rfl, by rw [hfiles], set, hok, rfl, hpend⟩

/-!
The effects of a commit follow a fixed plan. A process can stop between two actions or with
the pending file of the next replacement created and partly written.
-/

inductive Action where
  | replace (role : Role) (data : Bytes)
  | retire
  deriving DecidableEq

abbrev Content := Role → Option Bytes

def Action.apply (content : Content) : Action → Content
  | .replace role data => Function.update content role (some data)
  | .retire => Function.update content .receipt none

def Action.effects : Action → List Effect
  | .replace role data => [.create, .write data, .rename role]
  | .retire => [.unlinkReceipt]

def applyAll (content : Content) (actions : List Action) : Content :=
  actions.foldl Action.apply content

def effectsOf (actions : List Action) : List Effect := actions.flatMap Action.effects

@[simp] theorem applyAll_append (content : Content) (xs ys : List Action) :
    applyAll content (xs ++ ys) = applyAll (applyAll content xs) ys := List.foldl_append

@[simp] theorem applyAll_nil (content : Content) : applyAll content [] = content := rfl

@[simp] theorem applyAll_cons (content : Content) (x : Action) (xs : List Action) :
    applyAll content (x :: xs) = applyAll (x.apply content) xs := rfl

@[simp] theorem effectsOf_append (xs ys : List Action) :
    effectsOf (xs ++ ys) = effectsOf xs ++ effectsOf ys := List.flatMap_append

@[simp] theorem effectsOf_cons (x : Action) (xs : List Action) :
    effectsOf (x :: xs) = x.effects ++ effectsOf xs := rfl

@[simp] theorem effectsOf_nil : effectsOf [] = [] := rfl

def turn (content : Content) (role : Role) (data : Bytes) : List Action :=
  (if role = .policy ∧ content .receipt ≠ none then [.retire] else []) ++ [.replace role data]

def plan (content : Content) : List (Role × Bytes) → List Action
  | [] => []
  | (role, data) :: rest =>
    turn content role data ++ plan (applyAll content (turn content role data)) rest

inductive Cut (actions : List Action) (content : Content) : Content → List Effect → Prop where
  | between {before after : List Action} : actions = before ++ after →
      Cut actions content (applyAll content before) (effectsOf before)
  | created {before after : List Action} {role : Role} {data : Bytes} :
      actions = before ++ .replace role data :: after →
      Cut actions content (Function.update (applyAll content before) .pending (some []))
        (effectsOf before ++ [.create])
  | written {before after : List Action} {role : Role} {data : Bytes} (k : Nat) :
      actions = before ++ .replace role data :: after →
      Cut actions content (Function.update (applyAll content before) .pending (some (data.take k)))
        (effectsOf before ++ [.create, .write (data.take k)])

structure Sane (euid : Nat) (m : Machine) : Prop where
  known : m.dir.foreign = []
  mode : m.root.mode = privateDirectory
  owner : m.root.uid = euid
  safe : ∀ role f, m.dir.file role = some f → f.stat.safe euid m.root role.limit = true
  sized : ∀ role f, m.dir.file role = some f → f.stat.size = f.data.length

/-- `m` is reached from `start` by a cut of the plan. -/
structure Reached (euid : Nat) (start : Machine) (actions : List Action) (m : Machine) :
    Prop where
  sane : Sane euid m
  cut : ∃ es, m.effects = start.effects ++ es ∧
    Cut actions start.dir.file.content m.dir.file.content es

structure Between (euid : Nat) (start : Machine) (before : List Action) (m : Machine) :
    Prop where
  sane : Sane euid m
  pending : m.dir.file .pending = none
  content : m.dir.file.content = applyAll start.dir.file.content before
  effects : m.effects = start.effects ++ effectsOf before

theorem Between.reached {start : Machine} {before after actions : List Action}
    (h : Between euid start before m) (ha : actions = before ++ after) :
    Reached euid start actions m :=
  ⟨h.sane, _, h.effects, h.content ▸ .between ha⟩

theorem content_update (files : Files) (role : Role) (f : Option File) :
    Files.content (Function.update files role f) =
      Function.update files.content role (f.map File.data) := by
  funext r
  by_cases hr : r = role
  · subst hr
    simp [Files.content]
  · simp [Files.content, Function.update_of_ne hr]

theorem Sane.update {m m' : Machine} (h : Sane euid m) {role : Role} {f : Option File}
    (hroot : m'.root.SameRoot m.root) (hforeign : m'.dir.foreign = m.dir.foreign)
    (hfile : m'.dir.file = Function.update m.dir.file role f)
    (hf : ∀ g, f = some g → g.Own euid m.root ∧ g.data.length ≤ role.limit) : Sane euid m' := by
  obtain ⟨hdev, hmode, huid⟩ := hroot
  refine ⟨hforeign.trans h.known, hmode.trans h.mode, huid.trans h.owner, ?_, ?_⟩
  · intro r g hg
    rw [hfile] at hg
    by_cases hr : r = role
    · subst hr
      rw [Function.update_self] at hg
      obtain ⟨⟨h1, h2, h3, h4, h5⟩, hlen⟩ := hf g hg
      simp [Stat.safe, h1, h2, h3, h4, h5, hdev, hlen]
    · rw [Function.update_of_ne hr] at hg
      have hs := h.safe r g hg
      simpa [Stat.safe, hdev] using hs
  · intro r g hg
    rw [hfile] at hg
    by_cases hr : r = role
    · subst hr
      rw [Function.update_self] at hg
      exact (hf g hg).1.2.2.2.2
    · rw [Function.update_of_ne hr] at hg
      exact h.sized r g hg

structure Staged (euid : Nat) (start : Machine) (before : List Action) (part : Bytes)
    (es : List Effect) (m : Machine) : Prop where
  sane : Sane euid m
  pending : ∃ f, m.dir.file .pending = some f ∧ f.data = part
  content : m.dir.file.content =
    Function.update (applyAll start.dir.file.content before) .pending (some part)
  effects : m.effects = start.effects ++ (effectsOf before ++ es)

section Effects

variable {m' start : Machine} {before after actions : List Action} {role : Role}
  {data part : Bytes}

theorem Staged.created (h : Staged euid start before [] [.create] m)
    (ha : actions = before ++ .replace role data :: after) : Reached euid start actions m :=
  ⟨h.sane, _, h.effects, h.content ▸ .created ha⟩

theorem Staged.written {k : Nat}
    (h : Staged euid start before (data.take k) [.create, .write (data.take k)] m)
    (ha : actions = before ++ .replace role data :: after) : Reached euid start actions m :=
  ⟨h.sane, _, h.effects, h.content ▸ .written k ha⟩

theorem Between.create (h : Between euid start before m) (hp : Performs euid m .create m') :
    Staged euid start before [] [.create] m' := by
  cases hp with
  | @create f root hnone hown hempty hroot =>
    refine ⟨h.sane.update hroot rfl rfl ?_, ⟨f, by simp, hempty⟩, ?_, ?_⟩
    · rintro g hg
      cases hg
      exact ⟨hown, by simp [hempty]⟩
    · simp [content_update, h.content, hempty]
    · simp [h.effects]

theorem Staged.write (h : Staged euid start before [] [.create] m)
    (hp : Performs euid m (.write part) m') (hlen : part.length ≤ maxInputBytes) :
    Staged euid start before part [.create, .write part] m' := by
  cases hp with
  | @write old f hold hown =>
    refine ⟨h.sane.update ⟨rfl, rfl, rfl⟩ rfl rfl ?_, ⟨f, by simp, rfl⟩, ?_, ?_⟩
    · rintro g hg
      cases hg
      exact ⟨hown, hlen⟩
    · simp [content_update, h.content]
    · simp [h.effects]

theorem Staged.rename (h : Staged euid start before data [.create, .write data] m)
    (hp : Performs euid m (.rename role) m') (hrole : role ≠ .pending)
    (hclean : applyAll start.dir.file.content before .pending = none)
    (hlen : data.length ≤ role.limit) :
    Between euid start (before ++ [.replace role data]) m' := by
  cases hp with
  | @rename old f root _ hold hown hdata hroot =>
    obtain ⟨g, hg, hgd⟩ := h.pending
    obtain rfl : old = g := Option.some.inj (hold.symm.trans hg)
    have hgone : Sane euid ⟨{ m.dir with file := Function.update m.dir.file .pending none },
        m.root, m.effects⟩ := h.sane.update ⟨rfl, rfl, rfl⟩ rfl rfl (by simp)
    refine ⟨hgone.update hroot rfl rfl ?_, ?_, ?_, ?_⟩
    · rintro g hg
      cases hg
      exact ⟨hown, by rw [hdata, hgd]; exact hlen⟩
    · simp [Function.update_of_ne hrole.symm]
    · -- the pending name is free again, as it was before the replacement
      have hrestore : Function.update (applyAll start.dir.file.content before) .pending none =
          applyAll start.dir.file.content before := by rw [← hclean, Function.update_eq_self]
      simp [content_update, h.content, hdata, hgd, hrestore, Action.apply]
    · simp [h.effects, Action.effects]

theorem Between.retire (h : Between euid start before m)
    (hp : Performs euid m .unlinkReceipt m') : Between euid start (before ++ [.retire]) m' := by
  cases hp with
  | @unlinkReceipt root hroot =>
    refine ⟨h.sane.update hroot rfl rfl (by simp), ?_, ?_, ?_⟩
    · simp [h.pending]
    · simp [content_update, h.content, Action.apply]
    · simp [h.effects, Action.effects]

theorem Between.clean (h : Between euid start before m) :
    applyAll start.dir.file.content before .pending = none := by
  rw [← h.content]
  simp [Files.content, h.pending]

theorem writePending_spec (hb : Between euid start before m) (original : Stat)
    (ha : actions = before ++ .replace role data :: after) (hlen : data.length ≤ maxInputBytes) :
    Meets (filesystem euid) (Reached euid start actions) (fun r w' m' => w' = w ∧
        ∀ staged, r = .ok staged → Staged euid start before data [.create, .write data] m')
      (writePending original data) w m := by
  unfold writePending
  have hI := hb.reached ha
  refine meets_request_bind.mpr ⟨hI, fun created u hu => ?_⟩
  rcases hu with ⟨rfl, rfl⟩ | ⟨rfl, hu⟩
  · exact meets_refuseIf_bind hI (fun _ => ⟨rfl, by simp⟩) fun h => absurd rfl h
  have hcreated := hb.create hu
  have hI := hcreated.created ha
  refine meets_refuseIf_bind hI (fun _ => ⟨rfl, by simp⟩) fun _ => ?_
  refine meets_request_bind.mpr ⟨hI, ?_⟩
  rintro ⟨n, written⟩ v (⟨hgone, _⟩ | ⟨k, hfull, hv⟩)
  · obtain ⟨f, hf, _⟩ := hcreated.pending
    rw [hgone] at hf
    cases hf
  have hpart : (data.take k).length ≤ maxInputBytes := le_trans (List.length_take_le' k data) hlen
  have hwritten := hcreated.write hv hpart
  have hI := hwritten.written ha
  refine meets_mayFail hI (fun _ => ⟨rfl, by simp⟩) fun hs => ?_
  refine hs.observe (syncStaged_spec w _) fun _ _ => ?_
  refine meets_ask_bind hs.1 (fun _ _ h => h.1) fun _ => ?_
  refine meets_ask_bind hs.1 (fun _ _ => id) fun _ => ?_
  refine hs.check (fun _ _ => id) fun _ hgood => ?_
  simp only [not_or, Bool.not_eq_false, ne_eq, not_not] at hgood
  have hdata : data.take k = data := hfull (by rw [hgood.1, hgood.2.1])
  rw [hdata] at hwritten
  refine hs.take fun _ _ => ?_
  refine hs.guard fun _ => ?_
  exact meets_pure.mpr ⟨hI, rfl, fun _ _ => hwritten⟩

theorem renamePending_spec (hp : Staged euid start before data [.create, .write data] m)
    (ha : actions = before ++ .replace role data :: after) (hrole : role ≠ .pending)
    (hclean : applyAll start.dir.file.content before .pending = none)
    (hlen : data.length ≤ role.limit) :
    Meets (filesystem euid) (Reached euid start actions) (fun r w' m' => w' = w ∧
        (r = .ok () → Between euid start (before ++ [.replace role data]) m'))
      (renamePending role) w m := by
  unfold renamePending
  have hI : Reached euid start actions m := by
    have hp' := hp
    rw [← List.take_length (l := data)] at hp'
    exact hp'.written ha
  refine meets_request_bind.mpr ⟨hI, fun renamed u hu => ?_⟩
  rcases hu with ⟨rfl, rfl⟩ | hu
  · exact meets_refuseIf_bind hI (fun _ => ⟨rfl, by simp⟩) fun h => absurd rfl h
  have hb := hp.rename hu hrole hclean hlen
  have hI : Reached euid start actions u := hb.reached (by simpa using ha)
  refine meets_mayFail hI (fun _ => ⟨rfl, by simp⟩) fun hs => ?_
  refine hs.guard fun _ => ?_
  refine hs.check (fun _ _ => id) fun _ _ => ?_
  refine hs.check (fun _ _ => id) fun _ _ => ?_
  refine meets_ask_bind hs.1 (fun _ _ => id) fun _ => ?_
  exact meets_refuseIf hI (fun _ => ⟨rfl, by simp⟩) fun _ => ⟨rfl, fun _ => hb⟩

theorem role_limit_le (role : Role) : role.limit ≤ maxInputBytes := by
  cases role <;> decide

/-- Wherever staging stops, the directory is at a cut of the plan. -/
theorem stage_spec (hb : Between euid start before m)
    (ha : actions = before ++ .replace role data :: after) :
    Meets (filesystem euid) (Reached euid start actions) (fun r w' m' => w' = w ∧
        (r = .ok () → Between euid start (before ++ [.replace role data]) m'))
      (stageNASEvidenceRole euid role data) w m := by
  unfold stageNASEvidenceRole
  have hI := hb.reached ha
  refine meets_mayFail hI (fun _ => ⟨rfl, by simp⟩) fun hs => ?_
  refine hs.guard fun hrole => ?_
  refine hs.guard fun hsize => ?_
  simp only [not_or, not_lt] at hrole hsize
  refine hs.observe (ctxErr_spec w) fun _ _ => ?_
  refine meets_ask_bind hs.1 (fun _ _ h => h.1) fun _ => ?_
  refine hs.take fun _ _ => ?_
  refine hs.guard fun _ => ?_
  refine meets_ask_bind hs.1 (fun _ _ h => h.1) fun _ => ?_
  refine hs.take fun _ _ => ?_
  refine hs.guard fun _ => ?_
  refine hs.observe (ctxErr_spec w) fun _ _ => ?_
  refine (writePending_spec hb _ ha (hsize.2.trans (role_limit_le role))).seq
    (fun _ _ _ _ h => ⟨h.1, by simp⟩) ?_
  rintro staged t v hI ⟨rfl, hstaged⟩
  have hp := hstaged staged rfl
  refine meets_mayFail hI (fun _ => ⟨rfl, by simp⟩) fun hs => ?_
  refine hs.check (fun _ _ h => h.1) fun _ _ => ?_
  refine meets_ask_bind hs.1 (fun _ _ h => h.1) fun _ => ?_
  refine hs.check (fun _ _ => id) fun _ _ => ?_
  refine (renamePending_spec hp ha hrole.2 hb.clean hsize.2).seq
    (fun _ _ _ _ h => ⟨h.1, by simp⟩) ?_
  rintro _ t v hI ⟨rfl, hdone⟩
  refine (verifyPublished_spec t role data _ staged).mono (fun u hu => hu ▸ hI) ?_
  rintro r t' u rfl ⟨rfl, _⟩
  exact ⟨rfl, fun _ => hdone rfl⟩

def retiring (old : Option Bytes) : List Action := if old ≠ none then [.retire] else []

theorem retireReceipt_spec (hb : Between euid start before m) (old : Option File)
    (ha : actions = before ++ (retiring (old.map File.data) ++ after)) :
    Meets (filesystem euid) (Reached euid start actions) (fun r _ m' =>
        r = .ok () → Between euid start (before ++ retiring (old.map File.data)) m')
      (retireReceipt c euid old) w m := by
  have hI := hb.reached ha
  cases old with
  | none => exact ⟨hI, fun _ => by simpa [retiring] using hb⟩
  | some old =>
    unfold retireReceipt
    refine meets_mayFail hI (fun _ => by simp) fun hs => ?_
    refine meets_ask_bind hs.1 (fun _ _ h => h.1) fun _ => ?_
    refine hs.check (fun _ _ => id) fun _ _ => ?_
    refine meets_request_bind.mpr ⟨hI, fun removed u hu => ?_⟩
    rcases hu with ⟨rfl, rfl⟩ | hu
    · exact hs.guard fun h => absurd rfl h
    have hb' := hb.retire hu
    have hI : Reached euid start actions u := hb'.reached (by simpa [retiring] using ha)
    refine meets_mayFail hI (fun _ => by simp) fun hs => ?_
    refine hs.guard fun _ => ?_
    refine hs.check (fun _ _ => id) fun _ _ => ?_
    refine hs.check (fun _ _ => id) fun _ _ => ?_
    refine hs.check (fun _ _ => id) fun _ _ => ?_
    refine meets_get_bind.mpr ?_
    refine (refresh_spec hI _ _).seq (fun _ _ _ _ _ => by simp) ?_
    rintro kind t v hv ⟨rfl, _⟩
    exact meets_pure.mpr ⟨hv, fun _ => by simpa [retiring] using hb'⟩

theorem turn_eq (files : Files) (role : Role) (data : Bytes) :
    turn files.content role data =
      retiring ((if role = .policy then files .receipt else none).map File.data) ++
        [.replace role data] := by
  unfold turn retiring
  by_cases hr : role = .policy
  · simp [hr, Files.content]
  · simp [hr]

/-- One turn of the plan: staging and, for the policy, the receipt's removal. -/
theorem publishRole_spec (hb : Between euid start before m)
    (ha : actions = before ++ (turn m.dir.file.content role data ++ after)) :
    Meets (filesystem euid) (Reached euid start actions) (fun r _ m' =>
        r = .ok () → Between euid start (before ++ turn m.dir.file.content role data) m')
      (publishRole c euid role data) w m := by
  have hI := hb.reached ha
  rw [turn_eq] at ha ⊢
  unfold publishRole
  refine meets_get_bind.mpr ?_
  refine (refresh_spec hI _ _).seq (fun _ _ _ _ _ => by simp) ?_
  rintro kind t v hv ⟨rfl, ht, _⟩
  refine meets_get_bind.mpr ?_
  rw [show t.files = v.dir.file by rw [ht]]
  refine (retireReceipt_spec hb _ (by simpa using ha)).seq (fun _ _ _ _ _ => by simp) ?_
  rintro _ t' u hu hretired
  have hb' := hretired rfl
  refine (stage_spec hb' (by simpa using ha)).seq (fun _ _ _ _ _ => by simp) ?_
  rintro _ t'' u' hu' ⟨rfl, hstaged⟩
  have hb'' := hstaged rfl
  refine meets_mayFail hu' (fun _ => by simp) fun hs => hs.check (fun _ _ => id) fun _ _ => ?_
  refine meets_get_bind.mpr ?_
  refine (refresh_spec hu' _ _).seq (fun _ _ _ _ _ => by simp) ?_
  rintro kind t' v' hv' ⟨rfl, _⟩
  exact meets_refuseIf hv' (fun _ => by simp) fun _ _ => by simpa using hb''

theorem publishAll_spec (hb : Between euid start before m) (steps : List (Role × Bytes))
    (ha : actions = before ++ plan m.dir.file.content steps) :
    Meets (filesystem euid) (Reached euid start actions) (fun r _ m' =>
        r = .ok () → Between euid start actions m') (publishAll c euid steps) w m := by
  induction steps generalizing before m w with
  | nil =>
    obtain rfl : actions = before := by simpa [plan] using ha
    exact ⟨hb.reached (List.append_nil _).symm, fun _ => hb⟩
  | cons step rest ih =>
    obtain ⟨role, data⟩ := step
    rw [plan] at ha
    unfold publishAll
    refine (publishRole_spec hb ha).seq (fun _ _ _ _ _ => by simp) ?_
    rintro _ t v hv hturned
    have hb' := hturned rfl
    refine ih hb' ?_
    rw [hb'.content, applyAll_append, ← hb.content]
    simpa using ha

end Effects

theorem quarantine_spec {Q : Except Failure α → Writer → Machine → Prop} {x : WriterMethod α}
    (h : Meets (filesystem euid) I Q x w m) :
    Meets (filesystem euid) I (fun r w' m' => match r with
        | .ok a => Q (.ok a) w' m'
        | .error _ => ∃ e v, Q (.error e) v m' ∧ w' = v.quarantined)
      (quarantine x) w m := by
  unfold quarantine
  refine meets_attempt_bind.mpr (h.mono (fun _ => id) fun r t v hv hq => ⟨hv, ?_⟩)
  cases r with
  | ok a => exact ⟨hv, hq⟩
  | error e => exact ⟨hv, e, t, hq, rfl⟩

/-- The published operation: encoded for this installation and not the previous one again. -/
def Fresh (c : PolicyCode P) (installation : Bytes) (files : Files)
    (operation base next intent receipt : Bytes) : Prop :=
  files.content .policy = some base ∧
    encodeOperation c installation operation base next = some (intent, receipt) ∧
    ∀ prior, priorOperation files = some prior → operation ≠ prior

/-- Preparation reads only. It succeeds on the confirmed policy with a fresh operation. -/
theorem prepare_spec (base next : Bytes) :
    Meets (filesystem euid) (· = m) (fun r _ _ => ∀ intent receipt, r = .ok (intent, receipt) →
        ∃ operation, Fresh c w.installation m.dir.file operation base next intent receipt)
      (prepare c euid base next) w m := by
  unfold prepare
  refine meets_mayFail rfl (fun _ => by simp) fun hs => ?_
  refine hs.guard fun _ => ?_
  refine meets_get_bind.mpr ?_
  refine hs.guard fun _ => ?_
  refine hs.guard fun _ => ?_
  refine hs.observe (ctxErr_spec w) fun _ _ => ?_
  have hrefresh : Meets (filesystem euid) (· = m) _
      (quarantine (refresh c euid (some w.files) none)) w m :=
    quarantine_spec (refresh_spec (I := (· = m)) rfl _ _)
  refine hrefresh.seq (fun _ _ _ _ _ => by simp) ?_
  rintro kind t v rfl ⟨_, ht, _⟩
  refine meets_get_bind.mpr ?_
  have hfiles : t.files = v.dir.file := by rw [ht]
  have hinst : t.installation = w.installation := by rw [ht]
  rw [hfiles, hinst]
  refine meets_mayFail rfl (fun _ => by simp) fun hs => ?_
  refine hs.guard fun hbase => ?_
  refine meets_ask_bind hs.1 (fun _ _ => id) fun _ => ?_
  refine hs.take fun id _ => ?_
  have hprior : Meets (filesystem euid) (· = v)
      (fun r _ _ => ∀ prior, r = .ok prior → priorOperation v.dir.file = some prior)
      (ofOption (priorOperation v.dir.file) Failure.review) t v :=
    meets_ofOption.mpr ⟨rfl, fun a ha b hb => Except.ok.inj hb ▸ ha, fun _ => by simp⟩
  refine (quarantine_spec hprior).seq (fun _ _ _ _ _ => by simp) ?_
  rintro prior t' v' rfl hprior
  refine meets_mayFail rfl (fun _ => by simp) fun hs => ?_
  refine hs.guard fun hfresh => ?_
  refine hs.take fun records hrecords => ?_
  refine hs.observe (ctxErr_spec t') fun _ _ => ?_
  refine meets_pure.mpr ⟨rfl, fun intent receipt hr => ?_⟩
  obtain rfl := Except.ok.inj hr
  refine ⟨hexEncode id, by simpa using hbase, hrecords, fun p hp => ?_⟩
  rw [hprior prior rfl] at hp
  exact Option.some.inj hp ▸ hfresh

/-- Wherever a commit stops, the directory is untouched or at a cut of the plan of one fresh
operation; a commit that returns without error has completed it. -/
theorem commit_spec (hs : Sane euid m) (hpending : m.dir.file .pending = none)
    (base next : Bytes) :
    Meets (filesystem euid)
      (fun m' => m' = m ∨ ∃ operation intent receipt,
        Fresh c w.installation m.dir.file operation base next intent receipt ∧
          Reached euid m (plan m.dir.file.content (steps base intent next receipt)) m')
      (fun r _ m' => r = .ok () → ∃ operation intent receipt,
        Fresh c w.installation m.dir.file operation base next intent receipt ∧
          Between euid m (plan m.dir.file.content (steps base intent next receipt)) m')
      (commit c euid base next) w m := by
  unfold commit
  refine Meets.seq (Q := fun r _ v => v = m ∧ ∀ intent receipt, r = .ok (intent, receipt) →
    ∃ operation, Fresh c w.installation m.dir.file operation base next intent receipt)
    ((prepare_spec base next).mono (fun v hv => .inl hv) fun r t v hv hr => ⟨hv, hr⟩)
    (fun _ _ _ _ _ => by simp) ?_
  rintro ⟨intent, receipt⟩ t v _ ⟨rfl, hr⟩
  obtain ⟨operation, hF⟩ := hr intent receipt rfl
  have hstart : Between euid v [] v := ⟨hs, hpending, rfl, by simp⟩
  have hpublish := publishAll_spec (w := t) (c := c) hstart (steps base intent next receipt) rfl
  refine (quarantine_spec hpublish).mono (fun u hu => .inr ⟨_, _, _, hF, hu⟩) ?_
  rintro r t' u hu hq hok
  subst hok
  exact ⟨operation, intent, receipt, hF, hq rfl⟩

end Specs

end NasWriter
