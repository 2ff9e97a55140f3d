import PhantoWD.PolicyOwner

/-!
Seen from its leases the owner is a fence: every call, whatever the directory and the system
calls answer, is an act on the fence or refused. Runs of the owner are therefore runs of the
fence, where the lease guarantees are proved.
-/
namespace PolicyLeases

open GoText EffectProgram LeaseFence PolicyOwner Method
open NasDirectory (Failure)
open RevisionStore (Codec Store StoreMethod StoreError)
open NasWriter (Writer WriterMethod)

/-- The owner's map holds exactly the leases that are not released. -/
structure Consistent (o : OwnedStore) : Prop where
  nodup : o.leases.Nodup
  live : ∀ i, i ∈ o.leases ↔ o.fence.Live i

inductive Call (T : Type) where
  | snapshot (original ctx : Bool)
  | acquire (original ctx : Bool) (expected : Nat)
  | commit (original ctx : Bool) (expected : Nat) (next : T)
  | leaseSnapshot (lease : LeaseRef) (ctx : Bool)
  | verify (lease : LeaseRef) (ctx : Bool)
  | release (lease : LeaseRef)
  | close (original : Bool)

inductive Answer (T : Type) where
  | document (r : Except Failure T)
  | lease (r : Except Failure Nat)
  | done (r : Except Failure Unit)

structure Event (T : Type) where
  call : Call T
  answer : Answer T

def Answer.failed {T : Type} : Answer T → Bool
  | .document r => !r.isOk
  | .lease r => !r.isOk
  | .done r => !r.isOk

section Calls

variable {T : Type} (b : Binding T) (euid : Nat)

def answered {α : Type} (wrap : Except Failure α → Answer T) (m : OwnerMethod α) (o : OwnedStore) :
    Program Sys (Answer T × OwnedStore) :=
  (m o).bind fun r => .pure (wrap r.1, r.2)

def invoke : Call T → OwnedStore → Program Sys (Answer T × OwnedStore)
  | .snapshot original ctx => answered .document (OwnedStore.snapshot b euid original ctx)
  | .acquire original ctx expected =>
    answered .lease (OwnedStore.acquire b euid original ctx expected)
  | .commit original ctx expected next =>
    answered .done (OwnedStore.commit b euid original ctx expected next)
  | .leaseSnapshot r ctx => answered .document (PolicyLease.snapshot b euid r ctx)
  | .verify r ctx => answered .done (PolicyLease.verify b euid r ctx)
  | .release r => answered .done (PolicyLease.release r)
  | .close original => answered .done (OwnedStore.close b euid original)

inductive Explains : Event T → Act Nat → Prop where
  | snapshot {original ctx doc} :
      Explains ⟨.snapshot original ctx, .document (.ok doc)⟩ (.read (b.revision doc))
  | acquire {original ctx expected i} :
      Explains ⟨.acquire original ctx expected, .lease (.ok i)⟩ (.issue i expected)
  | commit {original ctx expected next} :
      Explains ⟨.commit original ctx expected next, .done (.ok ())⟩ (.advance (b.revision next))
  | leaseSnapshot {i ctx doc} :
      Explains ⟨.leaseSnapshot ⟨i, true⟩ ctx, .document (.ok doc)⟩ (.use i (b.revision doc))
  | verify {i ctx v} : Explains ⟨.verify ⟨i, true⟩ ctx, .done (.ok ())⟩ (.use i v)
  | release {i} : Explains ⟨.release ⟨i, true⟩, .done (.ok ())⟩ (.release i)
  | close {original r} : Explains ⟨.close original, .done r⟩ .dispose
  | closed {original} : Explains ⟨.close original, .done (.ok ())⟩ .refuse
  | failed {call answer} : answer.failed = true → Explains ⟨call, answer⟩ .refuse

structure Acts (o : OwnedStore) (e : Event T) (t : OwnedStore) : Prop where
  consistent : Consistent t
  act : ∃ a, Explains b e a ∧ Move maxPolicyLeases o.fence a t.fence

end Calls

section Specs

variable {T : Type} {b : Binding T} {euid : Nat} {o t : OwnedStore} {log : List Effect}
  {α β : Type} {I : List Effect → Prop}

theorem Consistent.of_same (ho : Consistent o) (h : SameLeases o t) : Consistent t := by
  constructor
  · rw [h.leases]
    exact ho.nodup
  · intro i
    have hl := ho.live i
    simpa [OwnedStore.fence, Fence.Live, h.leases, h.issued] using hl

theorem fence_of_read (h : reading.ok o t) : t.fence = o.fence := by
  obtain ⟨hs, hb, hr⟩ := h
  simp [OwnedStore.fence, hs.issued, hs.closed, hs.closeFailed, hb, hr]

theorem Acts.refused {e : Event T} (ho : Consistent o) (h : reading.any o t)
    (he : e.answer.failed = true) : Acts b o e t := by
  obtain ⟨hs, hb, hr⟩ := h
  refine ⟨ho.of_same hs, .refuse, .failed he, ?_⟩
  have hf : t.fence = { o.fence with frozen := t.fence.frozen } := by
    simp [OwnedStore.fence, hs.issued, hs.closed, hb]
  rw [hf]
  apply Move.refuse
  simp only [OwnedStore.fence, Bool.or_eq_true, hs.closeFailed]
  rintro (h | h)
  · exact .inl (hr h)
  · exact .inr h

section Rules

variable {P : Except Failure β → OwnedStore → List Effect → Prop}

theorem meets_own_bind {r : Own α} {f : α → OwnerMethod β} (hr : ownEffects r = []) (hI : I log)
    (hf : ∀ a, Meets environment I P (f a) o log) :
    Meets environment I P (own r >>= f) o log := by
  refine meets_request_bind.mpr ⟨hI, ?_⟩
  intro a u hu
  obtain rfl : u = log := by simpa [environment, Sys.effects, hr] using hu
  exact hf a

theorem meets_checkContext_bind {f : Unit → OwnerMethod β} (hs : MayFail I P o log)
    (hok : Meets environment I P (f ()) o log) :
    Meets environment I P (checkContext >>= f) o log := by
  apply meets_bind.mpr
  apply meets_own_bind rfl hs.1
  intro cancelled
  exact meets_refuseIf hs.1 (fun _ => ⟨hs.1, hs.2 _⟩) fun _ => ⟨hs.1, hok⟩

theorem meets_checkLocked_bind {ctx : Bool} {f : Unit → OwnerMethod β} (hs : MayFail I P o log)
    (hok : o.fence.Serving → Meets environment I P (f ()) o log) :
    Meets environment I P (checkLocked ctx >>= f) o log := by
  apply meets_bind.mpr
  refine meets_mayFail hs.1 (fun e => ⟨hs.1, hs.2 e⟩) fun hs' => ?_
  apply meets_get_bind.mpr
  refine hs'.guard fun hreview => ?_
  refine hs'.guard fun hclosed => ?_
  refine hs'.guard fun _ => ?_
  have hserving : o.fence.Serving := by
    simpa [Fence.Serving, OwnedStore.fence] using And.intro hreview hclosed
  refine meets_own_bind rfl hs.1 fun _ => ?_
  exact meets_refuseIf hs.1 (fun _ => hs'.2 _) fun _ => ⟨hs.1, hok hserving⟩

theorem meets_quarantine (hI : I log) (h : P (.error .review) { o with review := true } log) :
    Meets environment I P quarantineLocked o log :=
  meets_modify_bind.mpr (meets_fail.mpr ⟨hI, h⟩)

theorem meets_quarantineIf_bind {p : Prop} [Decidable p] {f : Unit → OwnerMethod β} (hI : I log)
    (herr : p → P (.error .review) { o with review := true } log)
    (hok : ¬ p → Meets environment I P (f ()) o log) :
    Meets environment I P (quarantineIf p >>= f) o log := by
  unfold quarantineIf
  by_cases hp : p
  · rw [if_pos hp]
    exact meets_bind.mpr (meets_quarantine hI ⟨hI, herr hp⟩)
  · rw [if_neg hp]
    exact hok hp

/-- A fresh read either raises review or shows the baseline's document. -/
structure Observes (b : Binding T) (o : OwnedStore) (r : Except Failure T) (t : OwnedStore) :
    Prop where
  failed : ∀ e, r = .error e → reading.any o t ∧ t.review = true
  shown : ∀ doc, r = .ok doc → reading.ok o t ∧ b.revision doc = o.baseline.revision ∧
    b.Accepts doc

theorem observe_spec (hI : I log) :
    Meets environment I (fun r t v => v = log ∧ Observes b o r t) (observeLocked b euid) o log := by
  have hspec : Meets environment (log = ·) (fun r t _ => Observes b o r t)
      (observeLocked b euid) o log := by
    apply meets_attempt_bind.mpr
    refine (reads_capture o log).mono (fun _ => id) ?_
    rintro (e | ⟨doc, observed⟩) t v hv ⟨hany, hok⟩
    · refine ⟨hv, meets_quarantine hv ⟨fun _ _ => ⟨?_, rfl⟩, by simp⟩⟩
      exact ⟨hany.1.trans ⟨rfl, rfl, rfl, rfl⟩, hany.2.1, fun _ => rfl⟩
    · obtain ⟨hread, hrev, haccepts⟩ := hok _ rfl
      refine ⟨hv, meets_get_bind.mpr (meets_quarantineIf_bind hv ?_ ?_)⟩
      · intro _
        refine ⟨fun _ _ => ⟨?_, rfl⟩, by simp⟩
        exact ⟨hany.1.trans ⟨rfl, rfl, rfl, rfl⟩, hany.2.1, fun _ => rfl⟩
      · intro hsame
        rw [not_not] at hsame
        refine meets_pure.mpr ⟨hv, by simp, ?_⟩
        intro d hd
        cases hd
        exact ⟨hread, by rw [hrev, hsame, hread.2.1], haccepts⟩
  exact hspec.mono (fun v hv => hv ▸ hI) fun _ _ _ hv h => ⟨hv.symm, h⟩

theorem meets_observe_bind {f : T → OwnerMethod β} (hI : I log)
    (herr : ∀ t e, reading.any o t → P (.error e) t log)
    (hok : ∀ t doc, reading.ok o t → b.revision doc = o.baseline.revision → b.Accepts doc →
      Meets environment I P (f doc) t log) :
    Meets environment I P (observeLocked b euid >>= f) o log := by
  refine (observe_spec hI).seq ?_ ?_
  · rintro e t v _ ⟨rfl, h⟩
    exact herr t e (h.failed e rfl).1
  · rintro doc t v _ ⟨rfl, h⟩
    obtain ⟨hread, hrev, haccepts⟩ := h.shown doc rfl
    exact hok t doc hread hrev haccepts

theorem meets_onStore {m : StoreMethod β} (h : ∀ r s v, P r { o with store := s } v) :
    Meets environment (fun _ => True) P (onStore m) o log :=
  meets_embed.mpr (meets_anything.mono (fun _ => id) fun _ s v _ _ => h _ s v)

theorem meets_onWriter {m : WriterMethod β} (h : ∀ r w v, P r { o with writer := w } v) :
    Meets environment (fun _ => True) P (onWriter m) o log :=
  meets_embed.mpr (meets_anything.mono (fun _ => id) fun _ w v _ _ => h _ w v)

end Rules

theorem publishes_own {r : Own α} : Publishes (fun _ => True) (own r) :=
  within_request fun _ _ _ _ => trivial

theorem publishes_replaceWatch : Publishes (fun _ => True) replaceWatch := by
  apply within_get.bind
  intro old _
  have hmodify : Publishes (fun _ => True) (modify fun o => { o with watch := true }) :=
    within_modify fun _ => ⟨⟨rfl, rfl, rfl, rfl⟩, rfl⟩
  apply hmodify.bind
  intro _ _
  by_cases h : old.watch = false
  · rw [if_pos h]
    exact within_pure trivial
  · rw [if_neg h]
    apply publishes_own.bind
    intro closed _
    exact (publishes_of_reads reads_quarantineIf).mono (fun _ _ => id) (fun _ _ => id)
      (fun _ _ => id) fun _ _ => trivial

theorem publishes_newEpochLocked (c : Codec T) (sha256 : Bytes → Bytes) :
    Publishes (fun _ => True) (newEpochLocked c sha256 euid) := by
  apply publishes_own.bind
  intro proc _
  apply (publishes_of_reads reads_quarantineIf).bind
  intro _ _
  apply publishes_own.bind
  intro init _
  apply (publishes_of_reads reads_quarantineIf).bind
  intro _ _
  apply publishes_own.bind
  intro added _
  by_cases h : added = false
  · rw [if_pos h]
    exact publishes_own.bind fun _ _ => publishes_of_reads reads_quarantine
  · rw [if_neg h]
    apply publishes_replaceWatch.bind
    intro _ _
    apply (publishes_of_reads (reads_captureLocked c sha256)).bind
    rintro ⟨_, observed⟩ _
    exact within_modify fun _ => ⟨⟨rfl, rfl, rfl, rfl⟩, rfl⟩

/-- What a publication attempt leaves: on success the document's revision is served, a failure
after the first effect is under review. -/
structure Attempted (revision : Nat) (o : OwnedStore) (r : Except Failure Unit) (t : OwnedStore) :
    Prop where
  same : SameLeases o t
  sticky : o.review = true → t.review = true
  done : r = .ok () → t.review = o.review ∧ t.baseline.revision = revision
  failed : ∀ e, r = .error e → t.review = true ∨ reading.ok o t

theorem Attempted.review {revision : Nat} {e : Failure} (h : SameLeases o t) :
    Attempted revision o (.error e) { t with review := true } :=
  ⟨h.trans ⟨rfl, rfl, rfl, rfl⟩, fun _ => rfl, by simp, fun _ _ => .inl rfl⟩

theorem refused_spec {revision : Nat} (h : reading.ok o t) (e : Failure) :
    Meets environment (fun _ => True) (fun r u _ => Attempted revision o r u) (refused e) t
      log := by
  unfold refused
  by_cases he : e = .store .conflict ∨ e = .store .invalid
  · rw [if_pos he]
    exact meets_fail.mpr ⟨trivial, h.1, fun hr => h.2.2.trans hr, by simp, fun _ _ => .inr h⟩
  · rw [if_neg he]
    exact meets_quarantine trivial (.review h.1)

theorem confirms_revision {marshal : Option Bytes} {sha256 : Bytes → Bytes} {revision : Nat}
    {observed : PolicyObservation} (h : ¬ confirms marshal sha256 revision observed = false) :
    observed.revision = revision := by
  simp only [confirms, Bool.not_eq_false, Bool.and_eq_true, decide_eq_true_eq] at h
  exact h.1

theorem commitStoreLocked_spec (c : Codec T) (sha256 : Bytes → Bytes) (expected : Nat) (next : T) :
    Meets environment (fun _ => True) (fun r t _ => Attempted (c.revision next) o r t)
      (commitStoreLocked euid c sha256 expected next) o log := by
  apply meets_attempt_bind.mpr
  apply meets_onStore
  have hstore : ∀ s, reading.ok o { o with store := s } := fun s => ⟨⟨rfl, rfl, rfl, rfl⟩, rfl, rfl⟩
  rintro (e | _) s v
  · exact ⟨trivial, refused_spec (hstore s) e⟩
  refine ⟨trivial, meets_attempt_bind.mpr ?_⟩
  refine (publishes_newEpochLocked c sha256 _ v).mono (fun _ => id) ?_
  rintro (e | _) t v _ ⟨hany, hok⟩
  · exact ⟨trivial, meets_quarantine trivial (.review ((hstore s).1.trans hany.1))⟩
  have hsame := (hstore s).1.trans hany.1
  refine ⟨trivial, meets_get_bind.mpr (meets_quarantineIf_bind trivial (fun _ => .review hsame) ?_)⟩
  intro hconfirm
  apply meets_own_bind rfl trivial
  intro cancelled
  unfold quarantineIf
  by_cases hc : cancelled = true
  · rw [if_pos hc]
    exact meets_quarantine trivial (.review hsame)
  · rw [if_neg hc]
    have hreview : t.review = o.review := (hok () rfl).1.2
    refine meets_pure.mpr ⟨trivial, hsame, fun hr => hreview.trans hr, fun _ => ?_, by simp⟩
    exact ⟨hreview, confirms_revision hconfirm⟩

theorem nasCommit_spec (code : NasPolicy T) (expected : Nat) (next : T) (w : Writer) :
    Meets (environment.through fun r => .nas r) (fun _ => True)
      (fun r _ _ => r = .ok () → code.revision next = succ64 expected)
      (nasCommit code euid expected next) w log := by
  apply meets_refuseIf_bind trivial (by simp)
  intro h
  have hrev : code.revision next = succ64 expected := by
    by_contra hne
    exact h (.inr hne)
  exact meets_anything.mono (fun _ => id) fun _ _ _ _ _ _ => hrev

theorem commitBackendLocked_spec (code : NasPolicy T) (expected : Nat) (next : T) :
    Meets environment (fun _ => True) (fun r t _ => Attempted (code.revision next) o r t)
      (commitBackendLocked euid code expected next) o log := by
  have hsame : ∀ w, reading.ok o { o with writer := w } := fun w => ⟨⟨rfl, rfl, rfl, rfl⟩, rfl, rfl⟩
  apply meets_get_bind.mpr
  apply meets_refuseIf_bind trivial
  · intro _
    exact ⟨.refl o, id, by simp, fun _ _ => .inr (reading.ok_refl o)⟩
  intro _
  apply meets_attempt_bind.mpr
  refine meets_embed.mpr ((nasCommit_spec code expected next o.writer).mono (fun _ => id) ?_)
  rintro (e | _) w v _ hrev
  · exact ⟨trivial, refused_spec (hsame w) e⟩
  refine ⟨trivial, meets_attempt_bind.mpr ?_⟩
  apply meets_onWriter
  rintro (e | ⟨_, observed⟩) w v
  · exact ⟨trivial, meets_quarantine trivial (.review (hsame w).1)⟩
  refine ⟨trivial, meets_quarantineIf_bind trivial (fun _ => .review (hsame w).1) ?_⟩
  intro hconfirm
  apply meets_own_bind rfl trivial
  intro cancelled
  apply meets_quarantineIf_bind trivial (fun _ => .review (hsame w).1)
  intro _
  refine meets_modify.mpr ⟨trivial, ⟨rfl, rfl, rfl, rfl⟩, id, fun _ => ⟨rfl, ?_⟩, by simp⟩
  exact (confirms_revision hconfirm).trans (hrev rfl).symm

theorem commitLocked_spec (expected : Nat) (next : T) :
    Meets environment (fun _ => True) (fun r t _ => Attempted (b.revision next) o r t)
      (commitLocked b euid expected next) o log := by
  cases b with
  | codec c sha256 => exact commitStoreLocked_spec c sha256 expected next
  | backend code => exact commitBackendLocked_spec code expected next

theorem Consistent.length_live (ho : Consistent o) : o.fence.live.length = o.leases.length :=
  length_live_eq ho.nodup ho.live

theorem Consistent.live_eq_nil (ho : Consistent o) : o.fence.live = [] ↔ o.leases = [] := by
  rw [← List.length_eq_zero_iff, ho.length_live, List.length_eq_zero_iff]

theorem Acts.unchanged {e : Event T} (ho : Consistent o) (he : e.answer.failed = true) :
    Acts b o e o :=
  .refused ho (reading.any_of_ok (reading.ok_refl o)) he

/-- Every call on the owner itself first reads the document it is about to serve or replace. -/
theorem meets_served_bind {original ctx : Bool} {call : Call T}
    {wrap : Except Failure α → Answer T} {f : T → OwnerMethod α} (ho : Consistent o) (hI : I log)
    (hw : ∀ e, (wrap (.error e)).failed = true)
    (hf : ∀ t doc, reading.ok o t → b.revision doc = o.baseline.revision → o.fence.Serving →
      MayFail I (fun r t _ => Acts b o ⟨call, wrap r⟩ t) t log →
        Meets environment I (fun r t _ => Acts b o ⟨call, wrap r⟩ t) (f doc) t log) :
    Meets environment I (fun r t _ => Acts b o ⟨call, wrap r⟩ t)
      (refuseIf (original = false) (.store .invalid) >>= fun _ =>
        checkLocked ctx >>= fun _ => observeLocked b euid >>= f) o log := by
  refine meets_mayFail hI (fun e => .unchanged ho (hw e)) fun hs => ?_
  refine hs.guard fun _ => meets_checkLocked_bind hs fun hserving => ?_
  apply meets_observe_bind hI
  · intro t e ht
    exact .refused ho ht (hw e)
  intro t doc ht hrev _
  exact hf t doc ht hrev hserving ⟨hI, fun e => .refused ho (reading.any_of_ok ht) (hw e)⟩

theorem snapshot_acts (ho : Consistent o) (hI : I log) (original ctx : Bool) :
    Meets environment I (fun r t _ => Acts b o ⟨.snapshot original ctx, .document r⟩ t)
      (OwnedStore.snapshot b euid original ctx) o log := by
  refine meets_served_bind ho hI (fun _ => rfl) fun t doc ht hrev hserving hs => ?_
  refine meets_checkContext_bind hs (meets_pure.mpr ⟨hI, ho.of_same ht.1, _, .snapshot, ?_⟩)
  rw [fence_of_read ht, hrev]
  exact .read hserving

theorem issued_consistent (ho : Consistent o) (expected : Nat) :
    Consistent { o with leases := o.leases ++ [o.issued.length],
                        issued := o.issued ++ [⟨expected, false⟩] } := by
  have hnew : o.issued.length ∉ o.leases := by
    intro hmem
    obtain ⟨c, hc, _⟩ := (ho.live _).mp hmem
    have hlt := (List.getElem?_eq_some_iff.mp hc).1
    exact absurd hlt (Nat.lt_irrefl _)
  constructor
  · exact List.nodup_append.mpr ⟨ho.nodup, List.nodup_singleton _, by
      intro a ha b hb
      rw [List.mem_singleton.mp hb]
      rintro rfl
      exact hnew ha⟩
  · intro i
    have hiff := live_issue_iff (f := o.fence) (i := i) (v := expected)
    rw [List.mem_append, List.mem_singleton, ho.live i]
    exact hiff.symm

theorem acquire_acts (ho : Consistent o) (hI : I log) (original ctx : Bool) (expected : Nat) :
    Meets environment I (fun r t _ => Acts b o ⟨.acquire original ctx expected, .lease r⟩ t)
      (OwnedStore.acquire b euid original ctx expected) o log := by
  refine meets_served_bind ho hI (fun _ => rfl) fun t doc ht _ hserving hs => ?_
  apply meets_get_bind.mpr
  refine hs.guard fun hexp => hs.guard fun hlen => meets_checkContext_bind hs ?_
  have hct := ho.of_same ht.1
  obtain rfl : expected = t.baseline.revision := not_not.mp hexp
  refine meets_modify_bind.mpr (meets_pure.mpr ⟨hI, issued_consistent hct _, _, .acquire, ?_⟩)
  rw [← fence_of_read ht]
  apply Move.issue (f := t.fence)
  · rw [fence_of_read ht]
    exact hserving
  · rw [hct.length_live]
    omega

theorem Attempted.acts {original ctx : Bool} {expected : Nat} {next : T} {r : Except Failure Unit}
    (ho : Consistent o) (hs : o.fence.Serving) (hnone : o.fence.live = [])
    (h : Attempted (b.revision next) o r t) :
    Acts b o ⟨.commit original ctx expected next, .done r⟩ t := by
  obtain ⟨hsame, _, hdone, hfailed⟩ := h
  refine ⟨ho.of_same hsame, ?_⟩
  cases r with
  | ok x =>
    obtain ⟨hreview, hrev⟩ := hdone rfl
    refine ⟨_, .commit, ?_⟩
    have hf : t.fence = { o.fence with revision := b.revision next } := by
      simp [OwnedStore.fence, hsame.issued, hsame.closed, hsame.closeFailed, hreview, hrev]
    rw [hf]
    exact .advance hs hnone
  | error e =>
    refine ⟨.refuse, .failed rfl, ?_⟩
    rcases hfailed e rfl with hreview | hread
    · have hf : t.fence =
          { o.fence with revision := t.baseline.revision, frozen := true } := by
        simp [OwnedStore.fence, hsame.issued, hsame.closed, hreview]
      rw [hf]
      exact .lose hnone
    · rw [fence_of_read hread]
      exact .refuse id

/-- A commit advances the fence or is refused by it. -/
theorem commit_acts (ho : Consistent o) (hI : I log) (hfree : o.leases = [] → ∀ l, I l)
    (original ctx : Bool) (expected : Nat) (next : T) :
    Meets environment I (fun r t _ => Acts b o ⟨.commit original ctx expected next, .done r⟩ t)
      (OwnedStore.commit b euid original ctx expected next) o log := by
  refine meets_served_bind ho hI (fun _ => rfl) fun t doc ht _ hserving hs => ?_
  apply meets_get_bind.mpr
  refine hs.guard fun hnone => meets_checkContext_bind hs ?_
  have hct := ho.of_same ht.1
  have hf := fence_of_read ht
  have hleases : t.leases = [] := not_not.mp hnone
  refine (commitLocked_spec expected next).mono
    (fun v _ => hfree (ht.1.leases ▸ hleases) v) fun r u v _ hu => ?_
  have hacts : Acts b t ⟨.commit original ctx expected next, .done r⟩ u :=
    hu.acts hct (hf ▸ hserving) (hct.live_eq_nil.mpr hleases)
  exact ⟨hacts.consistent, hf ▸ hacts.act⟩

theorem lease_of_ref {r : LeaseRef} {l : PolicyLease} (h : o.lease r = some l) :
    r = ⟨r.id, true⟩ ∧ o.fence.claims[r.id]? = some l := by
  unfold OwnedStore.lease at h
  by_cases hr : r.original = true
  · rw [if_pos hr] at h
    exact ⟨by rw [← hr], h⟩
  · rw [if_neg hr] at h
    cases h

/-- A successful lease snapshot uses a live lease at the served revision. -/
theorem leaseSnapshot_spec (hI : I log) (r : LeaseRef) (ctx : Bool) :
    Meets environment I (fun x t _ => (∀ e, x = .error e → reading.any o t) ∧
      ∀ doc, x = .ok doc → r = ⟨r.id, true⟩ ∧ reading.ok o t ∧
        Move maxPolicyLeases o.fence (.use r.id (b.revision doc)) t.fence)
      (PolicyLease.snapshot b euid r ctx) o log := by
  have hstay : reading.any o o := reading.any_of_ok (reading.ok_refl o)
  refine meets_mayFail hI (fun _ => ⟨fun _ _ => hstay, by simp⟩) fun hs => ?_
  apply meets_get_bind.mpr
  refine hs.take fun l hl => ?_
  obtain ⟨hr, hclaim⟩ := lease_of_ref hl
  refine hs.guard fun hlive => meets_checkLocked_bind hs fun hserving => ?_
  apply meets_attempt_bind.mpr
  refine (observe_spec hI).mono (fun _ => id) ?_
  rintro (e | doc) t v _ ⟨rfl, h⟩
  · obtain ⟨hsame, hb, _⟩ := (h.failed e rfl).1
    refine ⟨hI, meets_quarantine hI ⟨fun _ _ => ?_, by simp⟩⟩
    exact ⟨hsame.trans ⟨rfl, rfl, rfl, rfl⟩, hb, fun _ => rfl⟩
  obtain ⟨hread, hrev, -⟩ := h.shown doc rfl
  refine ⟨hI, meets_get_bind.mpr (meets_quarantineIf_bind hI ?_ ?_)⟩
  · intro _
    refine ⟨fun _ _ => ?_, by simp⟩
    exact ⟨hread.1.trans ⟨rfl, rfl, rfl, rfl⟩, hread.2.1, fun _ => rfl⟩
  intro _
  refine meets_checkContext_bind ⟨hI, fun _ => ⟨fun _ _ => reading.any_of_ok hread, by simp⟩⟩ ?_
  refine meets_pure.mpr ⟨hI, by simp, ?_⟩
  intro d hd
  cases hd
  refine ⟨hr, hread, ?_⟩
  rw [fence_of_read hread, hrev]
  refine .use hserving ⟨l, hclaim, ?_⟩
  simpa using fun hrel => hlive (.inr hrel)

theorem leaseSnapshot_acts (ho : Consistent o) (hI : I log) (r : LeaseRef) (ctx : Bool) :
    Meets environment I (fun x t _ => Acts b o ⟨.leaseSnapshot r ctx, .document x⟩ t)
      (PolicyLease.snapshot b euid r ctx) o log := by
  refine (leaseSnapshot_spec hI r ctx).mono (fun _ => id) ?_
  rintro (e | doc) t v _ ⟨herr, hok⟩
  · exact .refused ho (herr e rfl) rfl
  · obtain ⟨hr, hread, hmove⟩ := hok doc rfl
    rw [hr]
    exact ⟨ho.of_same hread.1, _, .leaseSnapshot, hmove⟩

theorem verify_acts (ho : Consistent o) (hI : I log) (r : LeaseRef) (ctx : Bool) :
    Meets environment I (fun x t _ => Acts b o ⟨.verify r ctx, .done x⟩ t)
      (PolicyLease.verify b euid r ctx) o log := by
  apply meets_bind.mpr
  refine (leaseSnapshot_spec hI r ctx).mono (fun _ => id) ?_
  rintro (e | doc) t v hv ⟨herr, hok⟩
  · exact ⟨hv, .refused ho (herr e rfl) rfl⟩
  · obtain ⟨hr, hread, hmove⟩ := hok doc rfl
    refine ⟨hv, continues_ok.mpr (meets_pure.mpr ⟨hv, ?_⟩)⟩
    rw [hr]
    exact ⟨ho.of_same hread.1, _, .verify, hmove⟩

theorem released_consistent (ho : Consistent o) {i : Nat} {l : PolicyLease} :
    Consistent { o with
      leases := o.leases.erase i
      issued := o.issued.set i ⟨l.revision, true⟩ } := by
  constructor
  · exact ho.nodup.erase i
  · intro k
    have hiff := live_release_iff (f := o.fence) (i := k) (j := i) (c := l)
    rw [ho.nodup.mem_erase_iff, ho.live k, and_comm]
    exact hiff.symm

theorem release_acts (ho : Consistent o) (hI : I log) (r : LeaseRef) :
    Meets environment I (fun x t _ => Acts b o ⟨.release r, .done x⟩ t)
      (PolicyLease.release r) o log := by
  refine meets_mayFail hI (fun _ => .unchanged ho rfl) fun hs => ?_
  apply meets_get_bind.mpr
  refine hs.take fun l hl => ?_
  obtain ⟨hr, hclaim⟩ := lease_of_ref hl
  by_cases hreleased : l.released = true
  · rw [if_pos hreleased]
    refine meets_pure.mpr ⟨hI, ho, .release r.id, ?_, ?_⟩
    · rw [hr]
      exact .release
    · have hmove : Move maxPolicyLeases _ (.release r.id) _ := Move.release hclaim
      rwa [release_again hclaim hreleased] at hmove
  · rw [if_neg hreleased]
    refine hs.guard fun _ => ?_
    refine meets_modify.mpr ⟨hI, released_consistent ho, .release r.id, ?_, .release hclaim⟩
    rw [hr]
    exact .release

structure Closes (o t : OwnedStore) : Prop where
  leases : t.leases = o.leases
  issued : t.issued = o.issued
  baseline : t.baseline = o.baseline
  closed : t.closed = true
  frozen : o.fence.frozen = true → t.fence.frozen = true

theorem closeOwnWatch_spec (watch : Bool) :
    Meets environment (fun _ => True) (fun _ t _ => ∃ w, t = { o with watch := w })
      (closeOwnWatch watch) o log := by
  unfold closeOwnWatch
  by_cases h : watch = false
  · rw [if_pos h]
    exact meets_pure.mpr ⟨trivial, o.watch, rfl⟩
  · rw [if_neg h]
    refine meets_request_bind.mpr ⟨trivial, fun closed u _ => ?_⟩
    exact meets_modify_bind.mpr (meets_pure.mpr ⟨trivial, false, rfl⟩)

theorem closeHeld_spec :
    Meets environment (fun _ => True)
      (fun _ t _ => ∃ s w, t = { o with store := s, writer := w }) (closeHeld b euid) o log := by
  cases b with
  | codec c sha256 => exact meets_onStore fun _ s _ => ⟨s, o.writer, rfl⟩
  | backend code => exact meets_onWriter fun _ w _ => ⟨o.store, w, rfl⟩

theorem closeLocked_spec (watch : Bool) :
    Meets environment (fun _ => True) (fun _ t _ => Closes o t) (closeLocked b euid watch) o
      log := by
  apply meets_modify_bind.mpr
  refine (closeOwnWatch_spec watch).seq ?_ ?_
  · rintro e t v _ ⟨w, rfl⟩
    exact ⟨rfl, rfl, rfl, rfl, id⟩
  rintro watchClosed t v _ ⟨w, rfl⟩
  apply meets_attempt_bind.mpr
  refine closeHeld_spec.mono (fun _ => id) ?_
  rintro held t u _ ⟨s, wr, rfl⟩
  refine ⟨trivial, ?_⟩
  by_cases h : watchClosed = false ∨ held.isOk = false
  · rw [if_pos h]
    apply meets_modify_bind.mpr
    exact meets_quarantine trivial ⟨rfl, rfl, rfl, rfl, fun _ => rfl⟩
  · rw [if_neg h]
    exact meets_pure.mpr ⟨trivial, rfl, rfl, rfl, rfl, id⟩

/-- Closing disposes of the fence or is refused by it. -/
theorem close_acts (ho : Consistent o) (hI : I log) (hfree : o.leases = [] → ∀ l, I l)
    (original : Bool) :
    Meets environment I (fun x t _ => Acts b o ⟨.close original, .done x⟩ t)
      (OwnedStore.close b euid original) o log := by
  refine meets_mayFail hI (fun _ => .unchanged ho rfl) fun hs => ?_
  refine hs.guard fun _ => meets_get_bind.mpr (hs.guard fun _ => ?_)
  by_cases hclosed : o.closed = true
  · rw [if_pos hclosed]
    exact meets_pure.mpr ⟨hI, ho, .refuse, .closed, .refuse id⟩
  rw [if_neg hclosed]
  refine hs.guard fun hnone => ?_
  have hleases : o.leases = [] := not_not.mp hnone
  refine (closeLocked_spec o.watch).mono (fun v _ => hfree hleases v) ?_
  rintro r t v _ ⟨hl, hi, hb, hc, hfr⟩
  constructor
  · constructor
    · rw [hl]
      exact ho.nodup
    · intro i
      have hlive := ho.live i
      simpa [OwnedStore.fence, Fence.Live, hl, hi] using hlive
  · refine ⟨.dispose, .close, ?_⟩
    have hf : t.fence = { o.fence with frozen := t.fence.frozen, closed := true } := by
      simp [OwnedStore.fence, hi, hb, hc]
    rw [hf]
    exact .dispose (ho.live_eq_nil.mpr hleases) hfr

theorem answered_spec {wrap : Except Failure α → Answer T} {m : OwnerMethod α} {call : Call T}
    (h : Meets environment I (fun r t _ => Acts b o ⟨call, wrap r⟩ t) m o log) :
    Safe environment I (fun r _ => Acts b o ⟨call, r.1⟩ r.2) (answered wrap m o) log :=
  Safe.seq h fun _ _ hI hQ => ⟨hI, hQ⟩

/-- Every call is an act on the fence, and touches nothing while a lease is out. -/
theorem invoke_spec (ho : Consistent o) (call : Call T) :
    Safe environment (fun l => o.leases ≠ [] → l = log)
      (fun r _ => Acts b o ⟨call, r.1⟩ r.2) (invoke b euid call o) log := by
  have hfree : o.leases = [] → ∀ l : List Effect, o.leases ≠ [] → l = log :=
    fun h _ hn => absurd h hn
  cases call with
  | snapshot original ctx => exact answered_spec (snapshot_acts ho (fun _ => rfl) original ctx)
  | acquire original ctx expected =>
    exact answered_spec (acquire_acts ho (fun _ => rfl) original ctx expected)
  | commit original ctx expected next =>
    exact answered_spec (commit_acts ho (fun _ => rfl) hfree original ctx expected next)
  | leaseSnapshot r ctx => exact answered_spec (leaseSnapshot_acts ho (fun _ => rfl) r ctx)
  | verify r ctx => exact answered_spec (verify_acts ho (fun _ => rfl) r ctx)
  | release r => exact answered_spec (release_acts ho (fun _ => rfl) r)
  | close original => exact answered_spec (close_acts ho (fun _ => rfl) hfree original)

theorem close_keeps (original : Bool) :
    Meets environment (fun _ => True)
      (fun _ t _ => t.leases = o.leases ∧ t.issued = o.issued)
      (OwnedStore.close b euid original) o log := by
  refine meets_mayFail trivial (fun _ => ⟨rfl, rfl⟩) fun hs => ?_
  refine hs.guard fun _ => meets_get_bind.mpr (hs.guard fun _ => ?_)
  by_cases hclosed : o.closed = true
  · rw [if_pos hclosed]
    exact meets_pure.mpr ⟨trivial, rfl, rfl⟩
  · rw [if_neg hclosed]
    refine hs.guard fun _ => ?_
    exact (closeLocked_spec o.watch).mono (fun _ => id) fun _ _ _ _ h => ⟨h.leases, h.issued⟩

theorem abandon_keeps (e : Failure) :
    Meets environment (fun _ => True)
      (fun _ t _ => t.leases = o.leases ∧ t.issued = o.issued) (abandon b euid e) o log := by
  apply meets_attempt_bind.mpr
  refine (close_keeps true).mono (fun _ => id) ?_
  rintro (_ | _) t v _ h
  · exact ⟨trivial, meets_fail.mpr ⟨trivial, h⟩⟩
  · exact ⟨trivial, meets_fail.mpr ⟨trivial, h⟩⟩

theorem openOwnedWithCodec_keeps (c : Codec T) (sha256 : Bytes → Bytes) (directory : Bytes) :
    Meets environment (fun _ => True)
      (fun _ t _ => t.leases = o.leases ∧ t.issued = o.issued)
      (openOwnedWithCodec euid c sha256 directory) o log := by
  have hopen : Meets environment (fun _ => True)
      (fun _ t _ => ∃ s, t = { o with store := s })
      (onStore (RevisionStore.openWithCodec c euid directory)) o log :=
    meets_onStore fun _ s _ => ⟨s, rfl⟩
  refine hopen.seq ?_ ?_
  · rintro e t v _ ⟨s, rfl⟩
    exact ⟨rfl, rfl⟩
  rintro _ t v _ ⟨s, rfl⟩
  apply meets_attempt_bind.mpr
  refine (publishes_newEpochLocked c sha256 _ v).mono (fun _ => id) ?_
  rintro (e | _) t u _ ⟨hany, _⟩
  · refine ⟨trivial, (abandon_keeps e).mono (fun _ => id) ?_⟩
    rintro _ x _ _ ⟨hl, hi⟩
    exact ⟨hl.trans hany.1.leases, hi.trans hany.1.issued⟩
  · exact ⟨trivial, meets_pure.mpr ⟨trivial, hany.1.leases, hany.1.issued⟩⟩

theorem ownNASWriter_keeps (code : NasPolicy T) (openErr : Option Failure) :
    Meets environment (fun _ => True)
      (fun _ t _ => t.leases = o.leases ∧ t.issued = o.issued)
      (ownNASWriter euid code openErr) o log := by
  cases openErr with
  | some e => exact meets_modify_bind.mpr (meets_fail.mpr ⟨trivial, rfl, rfl⟩)
  | none =>
    apply meets_attempt_bind.mpr
    apply meets_onWriter
    rintro (e | ⟨_, observed⟩) w v
    · exact ⟨trivial, meets_modify_bind.mpr ((abandon_keeps _).mono (fun _ => id)
        fun _ _ _ _ h => h)⟩
    · exact ⟨trivial, meets_modify.mpr ⟨trivial, rfl, rfl⟩⟩

end Specs

structure World where
  owner : OwnedStore
  log : List Effect

section Runs

variable {T : Type} (b : Binding T) (euid : Nat)

inductive Step : World → Event T → World → Prop where
  | returned {w : World} {call : Call T} {answer : Answer T} {owner : OwnedStore}
      {log : List Effect} :
      Runs environment (invoke b euid call w.owner) w.log (some (answer, owner)) log →
      Step w ⟨call, answer⟩ ⟨owner, log⟩

/-- A newly constructed owner. The NAS constructors hand over any writer, and keep the owner
of a failed opening for its cleanup. -/
inductive Opened : Binding T → World → Prop where
  | codec {c : Codec T} {sha256 : Bytes → Bytes} {directory : Bytes} {o : OwnedStore}
      {before log : List Effect} :
      Runs environment (openOwnedWithCodec euid c sha256 directory {}) before
        (some (.ok (), o)) log →
      Opened (.codec c sha256) ⟨o, log⟩
  | backend {code : NasPolicy T} {writer : Writer} {openErr : Option Failure}
      {r : Except Failure Unit} {o : OwnedStore} {before log : List Effect} :
      Runs environment (ownNASWriter euid code openErr { writer := writer }) before
        (some (r, o)) log →
      Opened (.backend code) ⟨o, log⟩

def Call.served : Call T → Bool
  | .snapshot _ _ | .acquire _ _ _ | .commit _ _ _ _ | .leaseSnapshot _ _ | .verify _ _ => true
  | .release _ | .close _ => false

/-- What the leases guarantee after the calls `es`. -/
structure Fenced (es : List (Event T)) (v : World) : Prop where
  bounded : v.owner.fence.live.length ≤ maxPolicyLeases
  untouched : v.owner.fence.live ≠ [] → ∀ call o log,
    Runs environment (invoke b euid call v.owner) v.log o log → log = v.log
  acquired : ∀ r ctx doc x, Step b euid v ⟨.leaseSnapshot r ctx, .document (.ok doc)⟩ x →
    (∃ original ctx', ⟨.acquire original ctx' (b.revision doc), .lease (.ok r.id)⟩ ∈ es) ∧
      ∀ original ctx' expected, ⟨.acquire original ctx' expected, .lease (.ok r.id)⟩ ∈ es →
        b.revision doc = expected
  released : ∀ r r' ctx answer x, ⟨.release r, .done (.ok ())⟩ ∈ es → r'.id = r.id →
    Step b euid v ⟨.leaseSnapshot r' ctx, answer⟩ x ∨ Step b euid v ⟨.verify r' ctx, answer⟩ x →
    answer.failed = true
  sticky : v.owner.review = true ∨ v.owner.closeFailed = true → ∀ ks x e y,
    Execution (Step b euid) v ks x → Step b euid x e y → e.call.served = true →
    e.answer.failed = true

variable {b euid}

theorem opened_fresh {w : World} (h : Opened euid b w) :
    w.owner.leases = [] ∧ w.owner.issued = [] := by
  cases h with
  | codec hr => exact ((openOwnedWithCodec_keeps _ _ _).sound hr).2 _ rfl
  | backend hr => exact ((ownNASWriter_keeps _ _).sound hr).2 _ rfl

theorem opened_consistent {w : World} (h : Opened euid b w) : Consistent w.owner := by
  obtain ⟨hl, hi⟩ := opened_fresh h
  constructor
  · rw [hl]
    exact List.nodup_nil
  · intro i
    simp [hl, OwnedStore.fence, Fence.Live, hi]

theorem step_acts {w v : World} {e : Event T} (hw : Consistent w.owner) (h : Step b euid w e v) :
    Acts b w.owner e v.owner := by
  cases h with
  | returned hr => exact ((invoke_spec hw _).sound hr).2 _ rfl

/-- Runs of the owner are runs of its fence. -/
theorem run_refines {w v : World} {es : List (Event T)} (hw : Consistent w.owner)
    (h : Execution (Step b euid) w es v) :
    Consistent v.owner ∧ ∃ acts, Execution (Move maxPolicyLeases) w.owner.fence acts v.owner.fence ∧
      (∀ e ∈ es, ∃ a ∈ acts, Explains b e a) ∧ ∀ a ∈ acts, ∃ e ∈ es, Explains b e a := by
  have hstep : ∀ (u : World) (e : Event T) (x : World), Consistent u.owner → Step b euid u e x →
      Consistent x.owner ∧
        ∃ a, Explains b e a ∧ Move maxPolicyLeases u.owner.fence a x.owner.fence := by
    intro u e x hu hs
    exact ⟨(step_acts hu hs).consistent, (step_acts hu hs).act⟩
  exact h.simulate hstep hw

theorem serves_of_success {e : Event T} {a : Act Nat} (h : Explains b e a)
    (hc : e.call.served = true) (hs : e.answer.failed = false) : a.Serves := by
  cases h with
  | failed hf => rw [hs] at hf; cases hf
  | release => cases hc
  | close => cases hc
  | closed => cases hc
  | _ => trivial

/-- From any construction and over any interleaving of calls, with any answers of the system. -/
theorem leases_fence_the_owner {w v : World} {es : List (Event T)} (hopen : Opened euid b w)
    (hrun : Execution (Step b euid) w es v) : Fenced b euid es v := by
  obtain ⟨hnone, hissued⟩ := opened_fresh hopen
  have hw := opened_consistent hopen
  obtain ⟨hv, acts, hacts, hlabel, hexplained⟩ := run_refines hw hrun
  have hclaims : w.owner.fence.claims = [] := hissued
  have hguard : Guarded maxPolicyLeases w.owner.fence := by
    have hempty : w.owner.fence.live = [] := hw.live_eq_nil.mpr hnone
    refine ⟨by simp [hempty], ?_⟩
    intro i c hc
    simp [hclaims] at hc
  constructor
  case bounded => exact (run_guarded hacts hguard).bounded
  case untouched =>
    intro hlive call o log hr
    have hsafe := (invoke_spec hv call).sound hr
    exact hsafe.1 fun hl => hlive (hv.live_eq_nil.mpr hl)
  case acquired =>
    intro r ctx doc x hstep
    obtain ⟨_, a, ha, hmove⟩ := step_acts hv hstep
    obtain ⟨i, hi, rfl⟩ : ∃ i, r.id = i ∧ a = .use i (b.revision doc) := by
      cases ha with
      | failed hf => cases hf
      | leaseSnapshot => exact ⟨_, rfl, rfl⟩
    obtain ⟨hrev, _⟩ := use_of_run hacts hguard hmove
    have hlater : ∀ original ctx' expected,
        ⟨.acquire original ctx' expected, .lease (.ok i)⟩ ∈ es → b.revision doc = expected := by
      intro original ctx' expected hmem
      obtain ⟨a, hamem, ha⟩ := hlabel _ hmem
      cases ha with
      | failed hf => cases hf
      | acquire => exact hrev expected hamem
    rw [hi]
    refine ⟨?_, hlater⟩
    obtain ⟨c, hc, _⟩ := live_of_use hmove
    obtain ⟨e, hemem, he⟩ := hexplained _ (claim_issued hacts hclaims hc)
    cases he with
    | @acquire original ctx' =>
      exact ⟨original, ctx', hlater original ctx' _ hemem ▸ hemem⟩
  case released =>
    intro r r' ctx answer x hmem hid hstep
    have hnot : .release r.id ∈ acts := by
      obtain ⟨a, hamem, ha⟩ := hlabel _ hmem
      cases ha with
      | failed hf => cases hf
      | release => exact hamem
    rw [← hid] at hnot
    by_contra hok
    rcases hstep with hstep | hstep
    · obtain ⟨_, a, ha, hmove⟩ := step_acts hv hstep
      cases ha with
      | failed hf => exact hok hf
      | leaseSnapshot => exact (use_of_run hacts hguard hmove).2 hnot
    · obtain ⟨_, a, ha, hmove⟩ := step_acts hv hstep
      cases ha with
      | failed hf => exact hok hf
      | verify => exact (use_of_run hacts hguard hmove).2 hnot
  case sticky =>
    intro hreview ks x e y hks hstep hserved
    obtain ⟨hx, later, hlater, _⟩ := run_refines hv hks
    have hfrozen : x.owner.fence.frozen = true := by
      apply (run_remembers hlater).frozen
      simpa [OwnedStore.fence] using hreview
    by_contra hok
    obtain ⟨_, a, ha, hmove⟩ := step_acts hx hstep
    have hserving := hmove.serving (serves_of_success ha hserved (by simpa using hok))
    rw [hserving.1] at hfrozen
    cases hfrozen

end Runs

def byteCodec : Codec UInt8 where
  currentName := ascii "policy.json"
  pendingName := ascii ".policy.pending"
  maxBytes := 16
  decode data := match data with
    | [b] => some b
    | _ => none
  validate _ := true
  revision b := b.toNat
  marshal b := some [b]
  validateTransition := none

def demoDirectory : RevisionStore.Machine where
  dirMode := 0o700
  dirUid := 0
  lock := none
  nextFd := 3
  current := some (.fresh 0 [1])
  currentFlushed := true
  pending := none
  pendingFlushed := false
  durable := none
  renames := 0

def demoStat : NasDirectory.Stat := { (default : NasDirectory.Stat) with
  mode := NasDirectory.privateDirectory }

def calm : {β : Type} → Sys β → List Effect → β × List Effect
  | _, .own r, log => (match r with
    | .cancelled => false
    | .quiet | .statfsProc | .inotifyInit | .addWatch | .closeWatch => true
    | .statDir | .statFile | .statNamed => some demoStat, log ++ ownEffects r)
  | _, .store r, log => ((RevisionStore.faultless 0 r demoDirectory).1, log ++ storeEffects r)
  | _, .nas r, log =>
    ((NasDirectory.undisturbed 0 [] r ⟨⟨fun _ => none, []⟩, demoStat, []⟩).1, log ++ nasEffects r)

theorem calm_admitted {β : Type} (r : Sys β) (log : List Effect) :
    environment r log (calm r log).1 (calm r log).2 := by
  cases r <;> rfl

def demoBinding : Binding UInt8 := .codec byteCodec id

def demoOpened : (Except Failure Unit × OwnedStore) × List Effect :=
  (openOwnedWithCodec 0 byteCodec id (ascii "/d") {}).run calm []

def serveCalm (w : World) (call : Call UInt8) : Event UInt8 × World :=
  let r := (invoke demoBinding 0 call w.owner).run calm w.log
  (⟨call, r.1.1⟩, ⟨r.1.2, r.2⟩)

theorem step_serveCalm (w : World) (call : Call UInt8) :
    Step demoBinding 0 w (serveCalm w call).1 (serveCalm w call).2 :=
  .returned (Program.runs_run calm_admitted _ w.log)

def demoAcquired : Event UInt8 × World :=
  serveCalm ⟨demoOpened.1.2, demoOpened.2⟩ (.acquire true true 1)

def demoCommit : Event UInt8 × World := serveCalm demoAcquired.2 (.commit true true 1 2)

/-- One lease is out, so the commit is refused. -/
theorem first_lease_fenced :
    demoCommit.2.owner.fence.live = [0] ∧ demoCommit.1.answer.failed = true ∧
      Fenced demoBinding 0 [demoAcquired.1, demoCommit.1] demoCommit.2 := by
  have hok : demoOpened.1 = (.ok (), demoOpened.1.2) := rfl
  have hruns : Runs environment (openOwnedWithCodec 0 byteCodec id (ascii "/d") {}) []
      (some demoOpened.1) demoOpened.2 := Program.runs_run calm_admitted _ []
  rw [hok] at hruns
  have hopen : Opened 0 demoBinding ⟨demoOpened.1.2, demoOpened.2⟩ := .codec hruns
  have hrun : Execution (Step demoBinding 0) ⟨demoOpened.1.2, demoOpened.2⟩
      ([] ++ [demoAcquired.1] ++ [demoCommit.1]) demoCommit.2 :=
    .snoc (.snoc (.nil _) (step_serveCalm _ _)) (step_serveCalm _ _)
  exact ⟨by decide, by decide, leases_fence_the_owner hopen hrun⟩

end PolicyLeases
