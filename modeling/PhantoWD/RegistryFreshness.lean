import PhantoWD.RegistryReader

/-!
The kernel may deliver a record before any system call. The world keeps what was delivered and,
for every drain that ends with nothing pending, how much that was; two drains with the same count
have seen no change between them.
-/
namespace RegistryFreshness

open GoText EffectProgram RegistryWatch RegistryReader

structure World where
  queue : List Bytes
  delivered : List Bytes
  drained : List Nat
  answers : List ReadAnswer
  decoded : List Document

def World.start : World := ⟨[], [], [], [], []⟩

def World.deliver (w : World) (records : List Bytes) : World :=
  { w with queue := w.queue ++ records, delivered := w.delivered ++ records }

/-- A read returns whole records from the front, or tells that there are none. -/
inductive Reads (w : World) : ReadAnswer → World → Prop
  | again : w.queue = [] → Reads w .again { w with
      drained := w.drained ++ [w.delivered.length], answers := w.answers ++ [.again] }
  | failed : Reads w .failed { w with answers := w.answers ++ [.failed] }
  | data (front rest : List Bytes) : w.queue = front ++ rest → front ≠ [] →
      front.flatten.length ≤ maxReadBytes →
      Reads w (.data front.flatten) { w with
        queue := rest, answers := w.answers ++ [.data front.flatten] }

def Answers : {β : Type} → Request β → World → β → World → Prop
  | _, .readWatch, w, answer, u => Reads w answer u
  | _, .decode, w, document, u => u = { w with decoded := w.decoded ++ document.toList }
  | _, _, w, _, u => u = w

/-- Records may arrive before any system call; none is empty. -/
def environment : Handler Request World := fun r w b u =>
  ∃ records : List Bytes, (∀ x ∈ records, x ≠ []) ∧ Answers r (w.deliver records) b u

/-- A drain that starts with `consumed` bytes meets an error, a chunk that is no run of changes,
or more than its budget. -/
def Troubled (big : Bool) (watchID : Nat) : Nat → List ReadAnswer → Prop
  | _, [] => False
  | _, .again :: rest => Troubled big watchID 0 rest
  | _, .failed :: _ => True
  | consumed, .data bytes :: rest =>
    ¬ Mutations big watchID bytes ∨ maxEventBytes ≤ consumed + bytes.length ∨
      Troubled big watchID (consumed + bytes.length) rest

/-- Answers in which a drain meets no trouble, and after which the next one starts afresh. -/
def Harmless (big : Bool) (watchID consumed : Nat) (answers : List ReadAnswer) : Prop :=
  ∀ rest, Troubled big watchID consumed (answers ++ rest) → Troubled big watchID 0 rest

variable {big : Bool} {watchID : Nat}

theorem harmless_nil : Harmless big watchID 0 [] := fun _ h => h

theorem Harmless.append {first second : List ReadAnswer} (h : Harmless big watchID 0 first)
    (h' : Harmless big watchID 0 second) : Harmless big watchID 0 (first ++ second) := by
  intro rest htrouble
  rw [List.append_assoc] at htrouble
  exact h' rest (h _ htrouble)

theorem Harmless.not_troubled {answers : List ReadAnswer} (h : Harmless big watchID 0 answers) :
    ¬ Troubled big watchID 0 answers := by
  intro htrouble
  exact h [] (by simpa using htrouble)

structure Sound (w : World) : Prop where
  pending : ∃ taken, w.delivered = taken ++ w.queue
  filled : ∀ r ∈ w.queue, r ≠ []

theorem Sound.of_queue {w u : World} (h : Sound w) (hdelivered : u.delivered = w.delivered)
    (hqueue : u.queue = w.queue) : Sound u :=
  ⟨by rw [hdelivered, hqueue]; exact h.pending, by rw [hqueue]; exact h.filled⟩

def taken (w : World) : Nat := w.delivered.length - w.queue.length

theorem sound_start : Sound World.start := ⟨⟨[], rfl⟩, by simp [World.start]⟩

variable {records : List Bytes}

theorem Sound.deliver {w : World} (h : Sound w) (hr : ∀ x ∈ records, x ≠ []) :
    Sound (w.deliver records) := by
  obtain ⟨taken, hpending⟩ := h.pending
  refine ⟨⟨taken, ?_⟩, fun r hmem => ?_⟩
  · simp [World.deliver, hpending]
  · rcases List.mem_append.mp hmem with hmem | hmem
    · exact h.filled r hmem
    · exact hr r hmem

theorem taken_deliver {w : World} : taken (w.deliver records) = taken w := by
  simp only [taken, World.deliver, List.length_append]
  omega

/-- What a part of a call does to the reader and the world, whatever its result. -/
structure Advance (big : Bool) (r : Reader) (w : World) (t : Reader) (u : World) : Prop where
  watchID : t.watchID = r.watchID
  origin : t.origin = r.origin
  sound : Sound u
  broken : r.watchBroken = true → t.watchBroken = true
  generation : r.generation ≤ t.generation
  taken : t.watchBroken = false → t.generation = r.generation → taken u = taken w
  drained : ∃ drains, u.drained = w.drained ++ drains
  answers : ∃ answers, u.answers = w.answers ++ answers ∧
    (t.watchBroken = false → Harmless big r.watchID 0 answers)
  decoded : ∃ documents, u.decoded = w.decoded ++ documents

/-- The drains only look at the watch and the generation. -/
theorem Advance.of_flags {r t : Reader} {w : World} (h : Sound w) (hid : t.watchID = r.watchID)
    (horigin : t.origin = r.origin) (hbroken : t.watchBroken = r.watchBroken)
    (hgeneration : t.generation = r.generation) : Advance big r w t w := by
  refine ⟨hid, horigin, h, fun hr => hbroken.trans hr, Nat.le_of_eq hgeneration.symm,
    fun _ _ => rfl, ⟨[], by simp⟩, ⟨[], by simp, fun _ => harmless_nil⟩, ⟨[], by simp⟩⟩

theorem Advance.refl (r : Reader) {w : World} (h : Sound w) : Advance big r w r w :=
  .of_flags h rfl rfl rfl rfl

theorem Advance.unbroken {r t : Reader} {w u : World} (h : Advance big r w t u)
    (ht : t.watchBroken = false) : r.watchBroken = false := by
  by_contra hr
  rw [h.broken (by simpa using hr)] at ht
  cases ht

variable {v : World} {β α : Type} {m : Call α}

theorem Advance.trans {r t q : Reader} {w u : World} (h : Advance big r w t u)
    (h' : Advance big t u q v) : Advance big r w q v := by
  obtain ⟨drains, hdrains⟩ := h.drained
  obtain ⟨drains', hdrains'⟩ := h'.drained
  obtain ⟨answers, hanswers, hharmless⟩ := h.answers
  obtain ⟨answers', hanswers', hharmless'⟩ := h'.answers
  obtain ⟨documents, hdocuments⟩ := h.decoded
  obtain ⟨documents', hdocuments'⟩ := h'.decoded
  constructor
  · rw [h'.watchID, h.watchID]
  · rw [h'.origin, h.origin]
  · exact h'.sound
  · exact fun hr => h'.broken (h.broken hr)
  · exact Nat.le_trans h.generation h'.generation
  · intro hq heq
    have hmiddle : t.generation = r.generation := by
      have hle := h.generation
      have hle' := h'.generation
      omega
    rw [h'.taken hq (by omega), h.taken (h'.unbroken hq) hmiddle]
  · exact ⟨drains ++ drains', by rw [hdrains', hdrains, List.append_assoc]⟩
  · refine ⟨answers ++ answers', by rw [hanswers', hanswers, List.append_assoc], fun hq => ?_⟩
    exact (hharmless (h'.unbroken hq)).append (h.watchID ▸ hharmless' hq)
  · exact ⟨documents ++ documents', by rw [hdocuments', hdocuments, List.append_assoc]⟩

structure Drained (w u : World) : Prop where
  queue : u.queue = []
  drained : u.drained = w.drained ++ [taken u]
  decoded : u.decoded = w.decoded

structure LoopEnd (big : Bool) (consumed : Nat) (changed : Bool) (r : Reader) (w : World)
    (result : Except Unit Unit) (t : Reader) (u : World) : Prop where
  reader : t = { r with generation := t.generation, watchBroken := t.watchBroken }
  sound : Sound u
  decoded : u.decoded = w.decoded
  drains : ∃ drains, u.drained = w.drained ++ drains
  refused : result = .error () → t.watchBroken = true ∧ t.generation = r.generation ∧
    ∃ answers, u.answers = w.answers ++ answers
  ended : result = .ok () → Drained w u ∧ consumed < maxEventBytes ∧
    t.watchBroken = r.watchBroken ∧ r.generation ≤ t.generation ∧
    (t.generation = r.generation → changed = false ∧ taken u = taken w) ∧
    ∃ answers, u.answers = w.answers ++ answers ∧ Harmless big r.watchID consumed answers

variable {r t : Reader} {w u : World} {consumed : Nat} {changed : Bool}

theorem meets_breakWatch {P : Except Unit Unit → Reader → World → Prop}
    (h : P (.error ()) { r with watchBroken := true } w) :
    Meets environment (fun _ => True) P breakWatch r w := by
  refine meets_modify_bind.mpr (meets_fail.mpr ⟨trivial, h⟩)

theorem Sound.taken_of_empty (h : w.queue = []) : taken w = w.delivered.length := by
  rw [taken, h, List.length_nil, Nat.sub_zero]

theorem Sound.read {front rest : List Bytes} {answers : List ReadAnswer} (h : Sound w)
    (hqueue : w.queue = front ++ rest) (hfront : front ≠ []) :
    Sound { w with queue := rest, answers := answers } ∧ front.flatten ≠ [] := by
  obtain ⟨before, hpending⟩ := h.pending
  constructor
  · refine ⟨⟨before ++ front, ?_⟩, fun x hx => h.filled x ?_⟩
    · rw [hpending, hqueue, List.append_assoc]
    · rw [hqueue]
      exact List.mem_append_right _ hx
  · obtain ⟨x, hx⟩ := List.exists_mem_of_ne_nil front hfront
    intro hnil
    refine h.filled x ?_ (List.flatten_eq_nil_iff.mp hnil x hx)
    rw [hqueue]
    exact List.mem_append_left _ hx

theorem LoopEnd.of_again (h : Sound w) (hr : ∀ x ∈ records, x ≠ [])
    (hreads : Reads (w.deliver records) .again u) (hconsumed : consumed < maxEventBytes)
    (hreader : t = { r with generation := t.generation })
    (hchanged : t.generation = if changed then r.generation + 1 else r.generation) :
    LoopEnd big consumed changed r w (.ok ()) t u := by
  cases hreads with
  | again hempty =>
    have htaken := Sound.taken_of_empty hempty
    have hbroken : t.watchBroken = r.watchBroken := by rw [hreader]
    have hcount : r.generation ≤ t.generation := by
      rw [hchanged]
      split_ifs <;> omega
    have hsame : t.generation = r.generation → changed = false := by
      cases changed <;> simp_all
    refine ⟨by rw [hbroken]; exact hreader, h.deliver hr |>.of_queue rfl rfl, rfl,
      ⟨_, rfl⟩, by simp, fun _ => ⟨⟨hempty, ?_, rfl⟩, hconsumed, hbroken, hcount, fun heq => ?_,
      ⟨_, rfl, fun rest hrest => hrest⟩⟩⟩
    · exact congrArg (fun n => w.drained ++ [n]) htaken.symm
    · exact ⟨hsame heq, taken_deliver⟩

theorem Reads.keeps {answer : ReadAnswer} (h : Sound w) (hreads : Reads w answer u) :
    Sound u ∧ u.decoded = w.decoded ∧ (∃ drains, u.drained = w.drained ++ drains) ∧
      u.answers = w.answers ++ [answer] := by
  cases hreads with
  | again => exact ⟨h.of_queue rfl rfl, rfl, ⟨_, rfl⟩, rfl⟩
  | failed => exact ⟨h.of_queue rfl rfl, rfl, ⟨[], by simp⟩, rfl⟩
  | data front rest hqueue hfront => exact ⟨(h.read hqueue hfront).1, rfl, ⟨[], by simp⟩, rfl⟩

theorem LoopEnd.of_broken {answer : ReadAnswer} (h : Sound w) (hr : ∀ x ∈ records, x ≠ [])
    (hreads : Reads (w.deliver records) answer u) :
    LoopEnd big consumed changed r w (.error ()) { r with watchBroken := true } u := by
  obtain ⟨hsound, hdecoded, hdrains, hanswers⟩ := hreads.keeps (h.deliver hr)
  exact ⟨rfl, hsound, hdecoded, hdrains, fun _ => ⟨rfl, rfl, _, hanswers⟩, by simp⟩

theorem LoopEnd.of_data {bytes : Bytes} {result : Except Unit Unit} (h : Sound w)
    (hr : ∀ x ∈ records, x ≠ []) (hreads : Reads (w.deliver records) (.data bytes) u)
    (hmutations : Mutations big r.watchID bytes)
    (hrest : LoopEnd big (consumed + bytes.length) true r u result t v) :
    LoopEnd big consumed changed r w result t v := by
  obtain ⟨-, hdecoded, ⟨drains, hdrains⟩, hanswers⟩ := hreads.keeps (h.deliver hr)
  have hsame : u.drained = w.drained := by
    cases hreads with
    | data => rfl
  refine ⟨hrest.reader, hrest.sound, hrest.decoded.trans hdecoded, ?_, fun he => ?_, fun hok => ?_⟩
  · obtain ⟨more, hmore⟩ := hrest.drains
    exact ⟨more, by rw [hmore, hsame]⟩
  · obtain ⟨hbroken, hgeneration, answers, hmore⟩ := hrest.refused he
    exact ⟨hbroken, hgeneration, [.data bytes] ++ answers, by
      rw [hmore, hanswers, List.append_assoc]; rfl⟩
  · obtain ⟨hdrained, hbudget, hbroken, hle, hchanged, answers, hmore, hharmless⟩ :=
      hrest.ended hok
    refine ⟨⟨hdrained.queue, by rw [hdrained.drained, hsame], hdrained.decoded.trans hdecoded⟩,
      by omega, hbroken, hle, fun heq => ?_, .data bytes :: answers, ?_, ?_⟩
    · cases (hchanged heq).1
    · rw [hmore, hanswers, List.append_assoc]
      rfl
    · intro rest htrouble
      rcases htrouble with hrefused | hover | hlater
      · exact absurd hmutations hrefused
      · omega
      · exact hharmless rest hlater

theorem LoopEnd.stopped (h : Sound w) :
    LoopEnd big consumed changed r w (.error ()) { r with watchBroken := true } w :=
  ⟨rfl, h, rfl, ⟨[], by simp⟩, fun _ => ⟨rfl, rfl, [], by simp⟩, by simp⟩

/-- What a drain leaves, whatever the system calls answer. -/
theorem drainLoop_end (big : Bool) (fuel : Nat) (h : Sound w) :
    Meets environment (fun _ => True) (LoopEnd big consumed changed r w)
      (drainLoop big fuel consumed changed) r w := by
  induction fuel generalizing consumed changed w with
  | zero => exact meets_breakWatch (.stopped h)
  | succ fuel ih =>
    rw [drainLoop]
    by_cases hbudget : maxEventBytes ≤ consumed
    · rw [if_pos hbudget]
      exact meets_breakWatch (.stopped h)
    rw [if_neg hbudget]
    refine meets_request_bind.mpr ⟨trivial, fun answer u hanswer => meets_get_bind.mpr ?_⟩
    obtain ⟨records, hr, hreads⟩ := hanswer
    cases answer with
    | again =>
      cases changed with
      | true =>
        refine meets_get_bind.mpr ?_
        by_cases hlast : r.generation = 2 ^ 64 - 1
        · rw [if_pos hlast]
          exact meets_breakWatch (.of_broken h hr hreads)
        · rw [if_neg hlast]
          exact meets_modify.mpr ⟨trivial, .of_again h hr hreads (by omega) rfl rfl⟩
      | false => exact meets_pure.mpr ⟨trivial, .of_again h hr hreads (by omega) rfl rfl⟩
    | failed => exact meets_breakWatch (.of_broken h hr hreads)
    | data bytes =>
      by_cases hempty : bytes = []
      · simp only [hempty, if_true]
        exact meets_breakWatch (.of_broken h hr hreads)
      · simp only [hempty, if_false]
        cases hconsume : consumeChanges big r.watchID bytes with
        | refused | outOfRange => exact meets_breakWatch (.of_broken h hr hreads)
        | ok mutation =>
          obtain ⟨hmutations, hsome⟩ := consumeChanges_ok hconsume
          obtain rfl := hsome hempty
          have hsound := (hreads.keeps (h.deliver hr)).1
          simp only [Bool.or_true]
          refine (ih hsound).mono (fun _ => id) fun result t v _ hend => ?_
          exact .of_data h hr hreads hmutations hend

theorem LoopEnd.advance {result : Except Unit Unit}
    (h : LoopEnd big 0 false r w result t u) : Advance big r w t u := by
  have hreader := h.reader
  cases result with
  | error e =>
    obtain ⟨hbroken, hgeneration, answers, hanswers⟩ := h.refused rfl
    refine ⟨by rw [hreader], by rw [hreader], h.sound, fun _ => hbroken,
      Nat.le_of_eq hgeneration.symm, fun ht => ?_, h.drains, ⟨answers, hanswers, fun ht => ?_⟩,
      ⟨[], by rw [h.decoded, List.append_nil]⟩⟩
    · rw [hbroken] at ht
      cases ht
    · rw [hbroken] at ht
      cases ht
  | ok value =>
    obtain ⟨-, -, hbroken, hle, hsame, answers, hanswers, hharmless⟩ := h.ended rfl
    refine ⟨by rw [hreader], by rw [hreader], h.sound, fun hb => hbroken.trans hb, hle,
      fun _ heq => (hsame heq).2, h.drains, ⟨answers, hanswers, fun _ => hharmless⟩,
      ⟨[], by rw [h.decoded, List.append_nil]⟩⟩

theorem drain_spec (big : Bool) (h : Sound w) :
    Meets environment (fun _ => True) (fun result t u => Advance big r w t u ∧
      (result = .ok () → t.watchBroken = false ∧ Drained w u)) (drainChangesLocked big) r w := by
  refine meets_get_bind.mpr ?_
  by_cases hrefused : r.watchBroken = true ∨ r.watchFD < 0
  · rw [if_pos hrefused]
    exact meets_fail.mpr ⟨trivial, .refl r h, by simp⟩
  · rw [if_neg hrefused]
    have hbroken : r.watchBroken = false := by simpa using fun hb => hrefused (.inl hb)
    refine (drainLoop_end big maxEventBytes h).mono (fun _ => id) fun result t u _ hend => ?_
    refine ⟨hend.advance, ?_⟩
    rintro rfl
    obtain ⟨hdrained, -, hkept, -⟩ := hend.ended rfl
    exact ⟨hkept.trans hbroken, hdrained⟩

structure Quiet (w u : World) : Prop where
  sound : Sound w → Sound u
  taken : taken u = taken w
  drained : u.drained = w.drained
  answers : u.answers = w.answers

theorem Quiet.refl (w : World) : Quiet w w := ⟨id, rfl, rfl, rfl⟩

theorem Quiet.trans (h : Quiet w u) (h' : Quiet u v) : Quiet w v :=
  ⟨fun hw => h'.sound (h.sound hw), h'.taken.trans h.taken, h'.drained.trans h.drained,
    h'.answers.trans h.answers⟩

def outside : Frame Reader World where
  world w u := Quiet w u ∧ u.decoded = w.decoded
  ok r t := t = r
  any r t := t = r
  world_refl w := ⟨.refl w, rfl⟩
  world_trans h h' := ⟨h.1.trans h'.1, h'.2.trans h.2⟩
  ok_refl _ := rfl
  ok_trans h h' := h'.trans h
  any_of_ok h := h
  any_trans h h' := h'.trans h

theorem Quiet.deliver (hr : ∀ x ∈ records, x ≠ []) :
    Quiet w (w.deliver records) :=
  ⟨fun h => h.deliver hr, taken_deliver, rfl, rfl⟩

theorem within_other {q : Request β} (hq : ∀ w b u, Answers q w b u → u = w) :
    Within environment outside (fun _ => True) (Method.request q : Call β) := by
  refine within_request fun w b u hu => ?_
  obtain ⟨records, hr, hanswer⟩ := hu
  rw [hq _ _ _ hanswer]
  exact ⟨.deliver hr, rfl⟩

theorem within_refuseCancelled : Within environment outside (fun _ => True) refuseCancelled := by
  refine (within_other (q := .cancelled) fun _ _ _ h => h).bind fun cancelled _ => ?_
  exact within_refuseIf.mono (fun _ _ => id) (fun _ _ => id) (fun _ _ => id) fun _ _ => trivial

theorem within_stat {q : Request (Option Metadata)} (hq : ∀ w b u, Answers q w b u → u = w) :
    Within environment outside (fun _ => True) (stat q) := by
  refine (within_other hq).bind fun st _ => ?_
  exact within_ofOption.mono (fun _ _ => id) (fun _ _ => id) (fun _ _ => id) fun _ _ => trivial

def Decoded (r : Reader) (w : World) (result : Except Unit (Document × Metadata × Metadata))
    (t : Reader) (u : World) : Prop :=
  t = r ∧ Quiet w u ∧ (∃ documents, u.decoded = w.decoded ++ documents) ∧
    ∀ x, result = .ok x → u.decoded = w.decoded ++ [x.1]

theorem Decoded.of_outside (h : outside.world w u) : Decoded r w (.error ()) r u :=
  ⟨rfl, h.1, ⟨[], by rw [h.2, List.append_nil]⟩, by simp⟩

theorem Decoded.after {result : Except Unit (Document × Metadata × Metadata)}
    (h : outside.world w u) (hd : Decoded r u result t v) : Decoded r w result t v := by
  obtain ⟨hreader, hquiet, hdocuments, hresult⟩ := hd
  rw [h.2] at hdocuments hresult
  exact ⟨hreader, h.1.trans hquiet, hdocuments, hresult⟩

theorem meets_after {A : α → Prop} {f : α → Call (Document × Metadata × Metadata)}
    (hm : Within environment outside A m)
    (hf : ∀ a u, A a → Meets environment (fun _ => True) (Decoded r u) (f a) r u) :
    Meets environment (fun _ => True) (Decoded r w) (m >>= f) r w := by
  have hfirst : Meets environment (fun _ => True)
      (fun result t u => outside.world w u ∧ t = r ∧ ∀ a, result = .ok a → A a) m r w :=
    (hm r w).mono (fun _ _ => trivial) fun result t u hu hresult =>
      ⟨hu, hresult.1, fun a ha => (hresult.2 a ha).2⟩
  refine hfirst.seq ?_ ?_
  · rintro e t u - ⟨hu, rfl, -⟩
    exact .of_outside hu
  · rintro a t u - ⟨hu, rfl, ha⟩
    exact (hf a u (ha a rfl)).mono (fun _ => id) fun _ _ _ _ hd => hd.after hu

theorem within_checks {opened directory : Metadata} {decoded : Option Document} :
    Within environment outside (fun x => decoded = some x.1) (do
      let document ← Method.ofOption decoded ()
      refuseCancelled
      let after ← stat .statOpened
      let named ← stat .statNamed
      let current ← stat .statDirectory
      Method.refuseIf (opened ≠ after ∨ after ≠ named ∨ directory ≠ current) ()
      let closed ← Method.request .closeFile
      Method.refuseIf (closed = false) ()
      return (document, after, current) : Call (Document × Metadata × Metadata)) := by
  refine within_ofOption.bind fun document hdocument => ?_
  refine within_refuseCancelled.bind fun _ _ => ?_
  refine (within_stat (q := .statOpened) fun _ _ _ h => h).bind fun after _ => ?_
  refine (within_stat (q := .statNamed) fun _ _ _ h => h).bind fun named _ => ?_
  refine (within_stat (q := .statDirectory) fun _ _ _ h => h).bind fun current _ => ?_
  refine within_refuseIf.bind fun _ _ => ?_
  refine (within_other (q := .closeFile) fun _ _ _ h => h).bind fun closed _ => ?_
  exact within_refuseIf.bind fun _ _ => within_pure hdocument

theorem readOpened_spec {directory before : Metadata} :
    Meets environment (fun _ => True) (Decoded r w) (readOpened directory before) r w := by
  refine meets_get_bind.mpr (meets_after (within_stat fun _ _ _ h => h) fun opened w _ => ?_)
  refine meets_after within_refuseIf fun _ w _ => ?_
  refine meets_request_bind.mpr ⟨trivial, fun decoded u hu => ?_⟩
  obtain ⟨records, hr, rfl⟩ := hu
  have hdeliver : Quiet w (w.deliver records) := .deliver hr
  refine (within_checks r _).mono (fun _ _ => trivial) ?_
  rintro result t v hv ⟨ht, hresult⟩
  refine ⟨ht, ?_, ⟨decoded.toList, hv.2⟩, fun x hx => ?_⟩
  · exact hdeliver.trans ⟨fun hs => hv.1.sound (hs.of_queue rfl rfl), hv.1.taken, hv.1.drained,
      hv.1.answers⟩
  · rw [hv.2, (hresult x hx).2]
    rfl

theorem readNamed_spec :
    Meets environment (fun _ => True) (Decoded r w) readNamed r w := by
  refine meets_get_bind.mpr (meets_after (within_stat fun _ _ _ h => h) fun directory w _ => ?_)
  refine meets_after within_refuseIf fun _ w _ => ?_
  refine meets_after (within_stat fun _ _ _ h => h) fun before w _ => ?_
  refine meets_after within_refuseIf fun _ w _ => ?_
  refine meets_after (within_other fun _ _ _ h => h) fun opened w _ => ?_
  refine meets_after within_refuseIf fun _ w _ => ?_
  refine meets_attempt_bind.mpr (readOpened_spec.mono (fun _ => id) ?_)
  rintro (e | x) t u - hd
  · refine ⟨trivial, meets_request_bind.mpr ⟨trivial, fun closed v hv => ?_⟩⟩
    obtain ⟨records, hr, rfl⟩ := hv
    obtain ⟨ht, hquiet, hdocuments, -⟩ := hd
    exact meets_fail.mpr ⟨trivial, ht, hquiet.trans (.deliver hr), hdocuments, by simp⟩
  · exact ⟨trivial, meets_pure.mpr ⟨trivial, hd⟩⟩

theorem Quiet.advance (hq : Quiet w u) (h : Sound w)
    (hd : ∃ documents, u.decoded = w.decoded ++ documents) : Advance big r w r u where
  watchID := rfl
  origin := rfl
  sound := hq.sound h
  broken := id
  generation := Nat.le_refl _
  taken := fun _ _ => hq.taken
  drained := ⟨[], by rw [hq.drained, List.append_nil]⟩
  answers := ⟨[], by rw [hq.answers, List.append_nil], fun _ => harmless_nil⟩
  decoded := hd

theorem Sound.of_outside (h : Sound w) (hw : outside.world w u) : Sound u := hw.1.sound h

theorem advance_outside (hw : outside.world w u) (h : Sound w) : Advance big r w r u :=
  hw.1.advance h ⟨[], by rw [hw.2, List.append_nil]⟩

/-- An observation that succeeds: two drains with nothing in between. -/
structure Observed (w : World) (s : Snapshot) (t : Reader) (u : World) : Prop where
  unbroken : t.watchBroken = false
  generation : s.generation = t.generation
  drained : u.drained = w.drained ++ [taken u, taken u]
  decoded : u.decoded = w.decoded ++ [s.document]

/-- A call that only moves forward, and what it is when it succeeds. -/
def Forward {α : Type} (big : Bool) (r : Reader) (w : World) (Q : α → Reader → World → Prop)
    (result : Except Unit α) (t : Reader) (u : World) : Prop :=
  Advance big r w t u ∧ ∀ a, result = .ok a → Q a t u

theorem Forward.error {Q : α → Reader → World → Prop} (h : Advance big r w t u) :
    Forward big r w Q (.error ()) t u := ⟨h, by simp⟩

theorem Forward.seq {P : α → Reader → World → Prop} {Q : β → Reader → World → Prop}
    {f : α → Call β} (hm : Meets environment (fun _ => True) (Forward big r w P) m r w)
    (hf : ∀ a t u, Advance big r w t u → P a t u →
      Meets environment (fun _ => True) (Forward big t u Q) (f a) t u) :
    Meets environment (fun _ => True) (Forward big r w Q) (m >>= f) r w := by
  refine Meets.seq hm ?_ ?_
  · rintro e t u - ⟨ha, -⟩
    exact .error ha
  · rintro a t u - ⟨ha, hp⟩
    refine (hf a t u ha (hp a rfl)).mono (fun _ => id) ?_
    rintro result q v - ⟨ha', hq⟩
    exact ⟨ha.trans ha', hq⟩

theorem Forward.post {P Q : α → Reader → World → Prop}
    (hm : Meets environment (fun _ => True) (Forward big r w P) m r w)
    (h : ∀ a t u, P a t u → Q a t u) :
    Meets environment (fun _ => True) (Forward big r w Q) m r w :=
  hm.mono (fun _ => id) fun _ _ _ _ hf => ⟨hf.1, fun a ha => h a _ _ (hf.2 a ha)⟩

theorem forward_drain (big : Bool) (h : Sound w) :
    Meets environment (fun _ => True)
      (Forward big r w fun _ t u => t.watchBroken = false ∧ Drained w u)
      (drainChangesLocked big) r w :=
  (drain_spec big h).mono (fun _ => id) fun _ _ _ _ hd => ⟨hd.1, fun _ ha => hd.2 ha⟩

theorem forward_readNamed (h : Sound w) :
    Meets environment (fun _ => True)
      (Forward big r w fun x t u => t = r ∧ Quiet w u ∧ u.decoded = w.decoded ++ [x.1])
      readNamed r w := by
  refine readNamed_spec.mono (fun _ => id) ?_
  rintro result t u - ⟨rfl, hquiet, hdocuments, hresult⟩
  exact ⟨hquiet.advance h hdocuments, fun x hx => ⟨rfl, hquiet, hresult x hx⟩⟩

theorem forward_outside {A : α → Prop} (h : Sound w) (hm : Within environment outside A m) :
    Meets environment (fun _ => True) (Forward big r w fun a t u => t = r ∧ outside.world w u ∧ A a)
      m r w := by
  refine (hm r w).mono (fun _ _ => trivial) ?_
  rintro result t u hu ⟨rfl, hresult⟩
  exact ⟨advance_outside hu h, fun a ha => ⟨rfl, hu, (hresult a ha).2⟩⟩

theorem forward_observe (big : Bool) (h : Sound w) :
    Meets environment (fun _ => True) (Forward big r w (Observed w)) (observeLocked big) r w := by
  refine Forward.seq (forward_drain big h) fun _ t u ha hfirst => meets_get_bind.mpr ?_
  refine Forward.seq (forward_readNamed ha.sound) fun x t' u₁ hread hx => ?_
  obtain ⟨rfl, hquiet, hdecoded⟩ := hx
  refine Forward.seq (forward_drain big hread.sound) fun _ q v hdrain hlast => ?_
  refine meets_get_bind.mpr (Forward.seq (forward_outside hdrain.sound within_refuseIf) ?_)
  rintro _ q' v₁ - ⟨rfl, hsame, hgeneration⟩
  refine Forward.seq (forward_outside (hdrain.sound.of_outside hsame) within_refuseCancelled) ?_
  rintro _ q' v₂ hend ⟨rfl, hcalm, -⟩
  have hequal : taken v = taken u := by
    rw [hdrain.taken hlast.1 (not_not.mp hgeneration).symm, hquiet.taken]
  have hlastly : taken v₂ = taken v := by rw [hcalm.1.taken, hsame.1.taken]
  refine meets_pure.mpr ⟨trivial, .refl _ hend.sound, ?_⟩
  intro s hs
  cases hs
  refine ⟨hlast.1, not_not.mp hgeneration, ?_, ?_⟩
  · rw [hcalm.1.drained, hsame.1.drained, hlast.2.drained, hquiet.drained, hfirst.2.drained,
      hlastly, hequal, List.append_assoc]
    rfl
  · rw [hcalm.2, hsame.2, hlast.2.decoded, hdecoded, hfirst.2.decoded]

theorem forward_refuseUnready (h : Sound w) :
    Meets environment (fun _ => True)
      (Forward big r w fun _ t u => t = r ∧ outside.world w u) refuseUnready r w := by
  refine meets_get_bind.mpr (Forward.seq (forward_outside h within_refuseIf) ?_)
  rintro _ t u ha ⟨rfl, hsame, -⟩
  refine Forward.post (forward_outside ha.sound within_refuseCancelled) ?_
  rintro _ q v ⟨rfl, hcalm, -⟩
  exact ⟨rfl, outside.world_trans hsame hcalm⟩

theorem Observed.after {s : Snapshot} (hw : outside.world w u) (h : Observed u s t v) :
    Observed w s t v :=
  ⟨h.unbroken, h.generation, by rw [h.drained, hw.1.drained], by rw [h.decoded, hw.2]⟩

theorem forward_read (big : Bool) (h : Sound w) :
    Meets environment (fun _ => True) (Forward big r w (Observed w)) (read big) r w := by
  refine Forward.seq (forward_refuseUnready h) ?_
  rintro _ t u ha ⟨rfl, hsame⟩
  exact Forward.post (forward_observe big ha.sound) fun s q v hobserved => hobserved.after hsame

/-- A recheck that succeeds. The generation is that of the earlier snapshot after the first of
its three drains. -/
def Rechecked (big : Bool) (previous : Snapshot) (r : Reader) (w : World) (t : Reader)
    (u : World) : Prop :=
  ∃ q v document, Advance big r w q v ∧ q.watchBroken = false ∧
    previous.generation = q.generation ∧ u.drained = w.drained ++ [taken v, taken u, taken u] ∧
    u.decoded = w.decoded ++ [document] ∧ sameClaims document previous.document = true ∧
    t.watchBroken = false

theorem forward_recheck (big : Bool) (previous : Snapshot) (h : Sound w) :
    Meets environment (fun _ => True) (Forward big r w fun _ => Rechecked big previous r w)
      (recheck big previous) r w := by
  refine Forward.seq (forward_refuseUnready h) ?_
  rintro _ t u ha ⟨rfl, hready⟩
  refine meets_get_bind.mpr (Forward.seq (forward_outside ha.sound within_refuseIf) ?_)
  rintro _ t' u₁ ha₁ ⟨rfl, hvalid, -⟩
  refine Forward.seq (forward_drain big ha₁.sound) fun _ q v hdrain hfirst => ?_
  refine meets_get_bind.mpr (Forward.seq (forward_outside hdrain.sound within_refuseIf) ?_)
  rintro _ q' v₁ ha₂ ⟨rfl, hsame, hgeneration⟩
  refine Forward.seq (forward_observe big ha₂.sound) fun s q v₂ hobserve hobserved => ?_
  refine Forward.post (forward_outside hobserve.sound within_refuseIf) ?_
  rintro _ q₁ v₃ ⟨rfl, hlast, hclaims⟩
  have hbefore := outside.world_trans hready hvalid
  refine ⟨q', v, s.document, ((ha.trans ha₁).trans hdrain), hfirst.1, not_not.mp hgeneration,
    ?_, ?_, ?_, hobserved.unbroken⟩
  · rw [hlast.1.drained, hobserved.drained, hsame.1.drained, hfirst.2.drained, hbefore.1.drained,
      hlast.1.taken, List.append_assoc]
    rfl
  · rw [hlast.2, hobserved.decoded, hsame.2, hfirst.2.decoded, hbefore.2]
  · simpa using fun hf => hclaims (.inr (.inr hf))

theorem forward_close (big : Bool) (h : Sound w) :
    Meets environment (fun _ => True) (Forward big r w fun _ _ _ => True) close r w := by
  refine meets_get_bind.mpr (Forward.seq (forward_outside h within_refuseIf) fun _ t u ha _ => ?_)
  have hmodify : Meets environment (fun _ => True) (Forward big t u fun _ _ _ => True)
      (Method.modify fun r => { r with closed := true }) t u :=
    meets_modify.mpr ⟨trivial, .of_flags ha.sound rfl rfl rfl rfl, fun _ _ => trivial⟩
  refine Forward.seq hmodify fun _ t u hclosed _ => ?_
  refine Forward.seq (forward_outside hclosed.sound
    (within_other (q := .closeWatch) fun _ _ _ h => h)) fun watch t u hwatch _ => ?_
  refine Forward.seq (forward_outside hwatch.sound
    (within_other (q := .closeDirectory) fun _ _ _ h => h)) fun directory t u hdirectory _ => ?_
  exact Forward.post (forward_outside hdirectory.sound within_refuseIf) fun _ _ _ _ => trivial

abbrev System := Reader × World

inductive Event where
  | read (result : Option Snapshot) (drains : List Nat) (answers : List ReadAnswer)
  | recheck (previous : Snapshot) (accepted : Bool) (drains : List Nat)
      (answers : List ReadAnswer) (documents : List Document)
  | close

def Event.answers : Event → List ReadAnswer
  | .read _ _ answers => answers
  | .recheck _ _ _ answers _ => answers
  | .close => []

def Event.succeeds : Event → Bool
  | .read result _ _ => result.isSome
  | .recheck _ accepted _ _ _ => accepted
  | .close => false

def newDrains (w u : World) : List Nat := u.drained.drop w.drained.length
def newAnswers (w u : World) : List ReadAnswer := u.answers.drop w.answers.length
def newDocuments (w u : World) : List Document := u.decoded.drop w.decoded.length

inductive Step (big : Bool) : System → Event → System → Prop
  | read {r t w u result} : Runs environment (read big r) w (some (result, t)) u →
      Step big (r, w) (.read result.toOption (newDrains w u) (newAnswers w u)) (t, u)
  | recheck {r t w u previous result} :
      Runs environment (recheck big previous r) w (some (result, t)) u →
      Step big (r, w) (.recheck previous result.isOk (newDrains w u) (newAnswers w u)
        (newDocuments w u)) (t, u)
  | close {r t w u result} : Runs environment (close r) w (some (result, t)) u →
      Step big (r, w) .close (t, u)

/-- `previous` comes from the first event and the second accepts it. -/
def Confirms (previous : Snapshot) (drains later : List Nat) (e e' : Event) : Prop :=
  (∃ answers, e = .read (some previous) drains answers) ∧
    ∃ answers documents, e' = .recheck previous true later answers documents

/-- What observations are meant to be worth. -/
structure Trustworthy (big : Bool) (watchID : Nat) (events : List Event) : Prop where
  fresh : events.Pairwise fun e e' => ∀ previous drains later, Confirms previous drains later e e' →
    ∃ n, drains.getLast? = some n ∧ later.getLast? = some n
  within : ∀ s drains answers, Event.read (some s) drains answers ∈ events →
    ∃ n, drains = [n, n]
  claims : ∀ previous drains answers documents,
    Event.recheck previous true drains answers documents ∈ events →
    ∃ d, documents = [d] ∧ d.format = previous.document.format ∧
      d.schemaVersion = previous.document.schemaVersion ∧
      d.revision = previous.document.revision ∧
      d.volumes.items = previous.document.volumes.items
  failing : ∀ e ∈ events, Troubled big watchID 0 e.answers → e.succeeds = false
  sticky : events.Pairwise fun e e' => Troubled big watchID 0 e.answers → e'.succeeds = false
  bounded : ∀ data, consumeChanges big watchID data ≠ .outOfRange

/-- No record arrives between the first two drains of a recheck. -/
def Calm (events : List Event) : Prop :=
  ∀ previous accepted drains answers documents,
    Event.recheck previous accepted drains answers documents ∈ events →
    2 ≤ drains.length → drains[0]? = drains[1]?

def Undisturbed (events : List Event) : Prop :=
  events.Pairwise fun e e' => ∀ previous drains later, Confirms previous drains later e e' →
    later[0]? = later[1]?

def Since (generation n : Nat) (r : Reader) (w : World) : Prop :=
  generation ≤ r.generation ∧ (r.watchBroken = false → r.generation = generation → taken w = n)

theorem Since.advance {generation n : Nat} (hs : Since generation n r w)
    (h : Advance big r w t u) : Since generation n t u := by
  refine ⟨Nat.le_trans hs.1 h.generation, fun ht heq => ?_⟩
  have hle := h.generation
  have hle' := hs.1
  rw [h.taken ht (by omega)]
  exact hs.2 (h.unbroken ht) (by omega)

structure Effect (big : Bool) (r : Reader) (w : World) (e : Event) (t : Reader) (u : World) :
    Prop where
  advance : Advance big r w t u
  harmless : t.watchBroken = false → ¬ Troubled big r.watchID 0 e.answers
  succeeds : e.succeeds = true → t.watchBroken = false
  read : ∀ s drains answers, e = .read (some s) drains answers →
    drains = [taken u, taken u] ∧ s.generation = t.generation
  recheck : ∀ previous drains answers documents,
    e = .recheck previous true drains answers documents →
    ∃ q v d, Advance big r w q v ∧ q.watchBroken = false ∧ previous.generation = q.generation ∧
      drains = [taken v, taken u, taken u] ∧ documents = [d] ∧
      sameClaims d previous.document = true

theorem Advance.newAnswers_harmless (h : Advance big r w t u) (ht : t.watchBroken = false) :
    ¬ Troubled big r.watchID 0 (newAnswers w u) := by
  obtain ⟨answers, hanswers, hharmless⟩ := h.answers
  rw [newAnswers, hanswers, List.drop_left]
  exact (hharmless ht).not_troubled

theorem step_effect {e : Event} (h : Sound w) (hstep : Step big (r, w) e (t, u)) :
    Effect big r w e t u := by
  cases hstep with
  | @read _ _ _ _ result hruns =>
    obtain ⟨ha, hresult⟩ := ((forward_read big h).sound hruns).2 _ rfl
    cases result with
    | error => exact ⟨ha, ha.newAnswers_harmless, by simp [Event.succeeds, Except.toOption],
        by simp [Except.toOption], by simp⟩
    | ok s =>
      have hs := hresult s rfl
      refine ⟨ha, ha.newAnswers_harmless, fun _ => hs.unbroken, ?_, by simp⟩
      rintro s' drains answers heq
      cases heq
      exact ⟨by rw [newDrains, hs.drained, List.drop_left], hs.generation⟩
  | @recheck _ _ _ _ previous result hruns =>
    obtain ⟨ha, hresult⟩ := ((forward_recheck big previous h).sound hruns).2 _ rfl
    cases result with
    | error => exact ⟨ha, ha.newAnswers_harmless, by simp [Event.succeeds, Except.isOk,
        Except.toBool], by simp, by simp [Except.isOk, Except.toBool]⟩
    | ok a =>
      obtain ⟨q, v, d, hq, hbroken, hgeneration, hdrains, hdocuments, hclaims, ht⟩ := hresult a rfl
      refine ⟨ha, ha.newAnswers_harmless, fun _ => ht, by simp, ?_⟩
      rintro previous' drains answers documents heq
      cases heq
      refine ⟨q, v, d, hq, hbroken, hgeneration, ?_, ?_, hclaims⟩
      · rw [newDrains, hdrains, List.drop_left]
      · rw [newDocuments, hdocuments, List.drop_left]
  | close hruns =>
    obtain ⟨ha, -⟩ := ((forward_close big h).sound hruns).2 _ rfl
    exact ⟨ha, fun _ ht => ht, by simp [Event.succeeds], by simp, by simp⟩

structure History (big : Bool) (watchID : Nat) (events : List Event) (r : Reader) (w : World) :
    Prop where
  sound : Sound w
  watch : r.watchID = watchID
  reads : ∀ s drains answers, Event.read (some s) drains answers ∈ events →
    ∃ n, drains = [n, n] ∧ Since s.generation n r w
  claims : ∀ previous drains answers documents,
    Event.recheck previous true drains answers documents ∈ events →
    ∃ d, documents = [d] ∧ sameClaims d previous.document = true
  troubled : ∀ e ∈ events, Troubled big watchID 0 e.answers →
    r.watchBroken = true ∧ e.succeeds = false
  sticky : events.Pairwise fun e e' => Troubled big watchID 0 e.answers → e'.succeeds = false
  linked : events.Pairwise fun e e' => ∀ previous drains later,
    Confirms previous drains later e e' → ∃ n m, drains = [n, n] ∧ later = [n, m, m]

theorem history_nil (h : Sound w) : History big r.watchID [] r w :=
  ⟨h, rfl, by simp, by simp, by simp, .nil, .nil⟩

theorem pairwise_snoc {R : α → α → Prop} {l : List α} {a : α} (h : l.Pairwise R)
    (ha : ∀ b ∈ l, R b a) : (l ++ [a]).Pairwise R :=
  List.pairwise_append.mpr ⟨h, List.pairwise_singleton R a, fun b hb _ hc =>
    List.mem_singleton.mp hc ▸ ha b hb⟩

variable {events : List Event}

/-- One call extends the history by what it drained. -/
theorem History.step {e : Event} (h : History big watchID events r w)
    (hstep : Step big (r, w) e (t, u)) : History big watchID (events ++ [e]) t u := by
  have heffect := step_effect h.sound hstep
  have ha := heffect.advance
  have hharmless : t.watchBroken = false → ¬ Troubled big watchID 0 e.answers :=
    h.watch ▸ heffect.harmless
  have hbroken : r.watchBroken = true → e.succeeds = false := by
    intro hr
    by_contra hs
    have ht := heffect.succeeds (by simpa using hs)
    rw [ha.unbroken ht] at hr
    cases hr
  refine ⟨ha.sound, ha.watchID.trans h.watch, ?_, ?_, ?_, pairwise_snoc h.sticky ?_,
    pairwise_snoc h.linked ?_⟩
  · intro s drains answers hmem
    rcases List.mem_append.mp hmem with hmem | hmem
    · obtain ⟨n, hdrains, hsince⟩ := h.reads s drains answers hmem
      exact ⟨n, hdrains, hsince.advance ha⟩
    · obtain ⟨hdrains, hgeneration⟩ :=
        heffect.read s drains answers (List.mem_singleton.mp hmem).symm
      exact ⟨taken u, hdrains, Nat.le_of_eq hgeneration, fun _ _ => rfl⟩
  · intro previous drains answers documents hmem
    rcases List.mem_append.mp hmem with hmem | hmem
    · exact h.claims previous drains answers documents hmem
    · obtain ⟨-, -, d, -, -, -, -, hdocuments, hclaims⟩ :=
        heffect.recheck previous drains answers documents (List.mem_singleton.mp hmem).symm
      exact ⟨d, hdocuments, hclaims⟩
  · intro e' hmem htrouble
    rcases List.mem_append.mp hmem with hmem | hmem
    · obtain ⟨hr, hfailed⟩ := h.troubled e' hmem htrouble
      exact ⟨ha.broken hr, hfailed⟩
    · rw [List.mem_singleton.mp hmem] at htrouble ⊢
      have ht : t.watchBroken = true := by
        by_contra ht
        exact hharmless (by simpa using ht) htrouble
      refine ⟨ht, ?_⟩
      by_contra hs
      rw [heffect.succeeds (by simpa using hs)] at ht
      cases ht
  · intro e' hmem htrouble
    exact hbroken (h.troubled e' hmem htrouble).1
  · rintro e' hmem previous drains later ⟨⟨answers, rfl⟩, answers', documents, he⟩
    obtain ⟨n, hdrains, hsince⟩ := h.reads previous drains answers hmem
    obtain ⟨q, v, d, hq, hunbroken, hgeneration, hlater, -⟩ :=
      heffect.recheck previous later answers' documents he
    -- the generation of the snapshot is still current after the first drain of the recheck
    have hfirst : taken v = n := (hsince.advance hq).2 hunbroken hgeneration.symm
    exact ⟨n, taken u, hdrains, by rw [hlater, hfirst]⟩

theorem history_of_run {s s' : System} (h : Execution (Step big) s events s') (hs : Sound s.2) :
    History big s.1.watchID events s'.1 s'.2 := by
  induction h with
  | nil => exact history_nil hs
  | snoc _ hstep ih => exact ih.step hstep

theorem sameClaims_iff {a b : Document} : sameClaims a b = true ↔ a.format = b.format ∧
    a.schemaVersion = b.schemaVersion ∧ a.revision = b.revision ∧
    a.volumes.items = b.volumes.items := by
  simp [sameClaims, and_assoc]

theorem History.fresh_iff (h : History big watchID events r w) :
    (events.Pairwise fun e e' => ∀ previous drains later, Confirms previous drains later e e' →
      ∃ n, drains.getLast? = some n ∧ later.getLast? = some n) ↔ Undisturbed events := by
  refine ⟨fun hfresh => (hfresh.and h.linked).imp ?_, fun hcalm =>
    (List.Pairwise.and hcalm h.linked).imp ?_⟩
  · rintro e e' ⟨hpair, hlinked⟩ previous drains later hconfirms
    obtain ⟨n, m, rfl, rfl⟩ := hlinked previous drains later hconfirms
    obtain ⟨k, hn, hm⟩ := hpair previous _ _ hconfirms
    simp only [List.getLast?_cons_cons, List.getLast?_singleton, Option.some.injEq] at hn hm
    simp [hn, hm]
  · rintro e e' ⟨hpair, hlinked⟩ previous drains later hconfirms
    obtain ⟨n, m, rfl, rfl⟩ := hlinked previous drains later hconfirms
    have hsame := hpair previous _ _ hconfirms
    simp only [List.getElem?_cons_zero, List.getElem?_cons_succ, Option.some.injEq] at hsame
    exact ⟨n, by simp, by simp [hsame]⟩

theorem History.undisturbed_of_calm (h : History big watchID events r w) (hcalm : Calm events) :
    Undisturbed events := by
  refine h.linked.imp_of_mem ?_
  rintro e e' - hmem hlinked previous drains later hconfirms
  obtain ⟨n, m, -, rfl⟩ := hlinked previous drains later hconfirms
  obtain ⟨-, answers, documents, rfl⟩ := hconfirms
  exact hcalm previous true _ answers documents hmem (by simp)

/-- A recheck misses a change exactly when the record arrives between the drain after which it
compares the generations and the first drain of the observation it makes then. -/
theorem recheck_trustworthy {r : Reader} {events : List Event} {s : System}
    (h : Execution (Step big) (r, World.start) events s) :
    (Calm events → Trustworthy big r.watchID events) ∧
      (Trustworthy big r.watchID events ↔ Undisturbed events) := by
  have hhistory := history_of_run h sound_start
  have hiff : Trustworthy big r.watchID events ↔ Undisturbed events := by
    refine ⟨fun ht => hhistory.fresh_iff.mp ht.fresh, fun hu => ?_⟩
    refine ⟨hhistory.fresh_iff.mpr hu, fun s drains answers hmem => ?_,
      fun previous drains answers documents hmem => ?_, fun e hmem ht => ?_, hhistory.sticky,
      fun data => consumeLoop_inRange⟩
    · obtain ⟨n, hdrains, -⟩ := hhistory.reads s drains answers hmem
      exact ⟨n, hdrains⟩
    · obtain ⟨d, hdocuments, hclaims⟩ := hhistory.claims previous drains answers documents hmem
      exact ⟨d, hdocuments, sameClaims_iff.mp hclaims⟩
    · exact (hhistory.troubled e hmem ht).2
  exact ⟨fun hcalm => hiff.mpr (hhistory.undisturbed_of_calm hcalm), hiff⟩

def sampleReader : Reader where
  uid := 0
  ready := true
  closed := false
  origin := some 1
  watchFD := 4
  watchID := 1
  generation := 0
  watchBroken := false

def sampleDirectory : Metadata := ⟨1, 2, 2, 0x41c0, 0, 0, 60, 0, 0, 0, 0⟩

def sampleFile : Metadata := ⟨1, 3, 1, 0x8180, 0, 0, 90, 0, 0, 0, 0⟩

def sampleDocument : Document := ⟨ascii "phantowd-volume-registry", 1, 1, some []⟩

def sampleSnapshot : Snapshot := ⟨sampleDocument, true, some 1, 0, sampleDirectory, sampleFile⟩

def sampleRecord : Bytes := [1, 0, 0, 0, 2, 0, 0, 0, 0, 0, 0, 0, 0, 0, 0, 0]

/-- The answers of a system in which nothing fails; with `change`, a record arrives once three
drains have found nothing. -/
def sampleAnswer (change : Bool) : {β : Type} → Request β → World → β × World
  | _, .readWatch, w =>
    if w.queue ≠ [] then (.failed, { w with answers := w.answers ++ [.failed] })
    else if change = true ∧ w.drained.length = 3 ∧ w.delivered = [] then
      (.data sampleRecord, { w with
        queue := [], delivered := w.delivered ++ [sampleRecord],
        answers := w.answers ++ [.data sampleRecord] })
    else (.again, { w with
      drained := w.drained ++ [w.delivered.length], answers := w.answers ++ [.again] })
  | _, .decode, w => (some sampleDocument, { w with decoded := w.decoded ++ [sampleDocument] })
  | _, .cancelled, w => (false, w)
  | _, .statDirectory, w => (some sampleDirectory, w)
  | _, .statNamed, w => (some sampleFile, w)
  | _, .statOpened, w => (some sampleFile, w)
  | _, .openNamed, w => (true, w)
  | _, .closeFile, w => (true, w)
  | _, .closeWatch, w => (true, w)
  | _, .closeDirectory, w => (true, w)

theorem sampleAnswer_environment (change : Bool) (q : Request β) (w : World) :
    environment q w (sampleAnswer change q w).1 (sampleAnswer change q w).2 := by
  have hnothing : w.deliver [] = w := by simp [World.deliver]
  cases q with
  | readWatch =>
    by_cases hqueue : w.queue ≠ []
    · refine ⟨[], by simp, ?_⟩
      simp only [sampleAnswer, if_pos hqueue]
      rw [hnothing]
      exact .failed
    · have hempty : w.queue = [] := not_not.mp hqueue
      by_cases hchange : change = true ∧ w.drained.length = 3 ∧ w.delivered = []
      · refine ⟨[sampleRecord], by decide, ?_⟩
        simp only [sampleAnswer, if_neg hqueue, if_pos hchange]
        exact .data (w := w.deliver [sampleRecord]) [sampleRecord] []
          (by simp [World.deliver, hempty]) (by simp) (by decide)
      · refine ⟨[], by simp, ?_⟩
        simp only [sampleAnswer, if_neg hqueue, if_neg hchange]
        rw [hnothing]
        exact .again hempty
  | decode => exact ⟨[], by simp, by rw [hnothing]; rfl⟩
  | _ => exact ⟨[], by simp, hnothing.symm⟩

def afterRead (change : Bool) : (Except Unit Snapshot × Reader) × World :=
  (read false sampleReader).run (sampleAnswer change) World.start

def afterRecheck (change : Bool) : (Except Unit Unit × Reader) × World :=
  (recheck false sampleSnapshot (afterRead change).1.2).run (sampleAnswer change)
    (afterRead change).2

theorem sample_run (change : Bool) (hread : (afterRead change).1.1.toOption = some sampleSnapshot) :
    Execution (Step false) (sampleReader, World.start)
      [.read (some sampleSnapshot) (newDrains World.start (afterRead change).2)
          (newAnswers World.start (afterRead change).2),
        .recheck sampleSnapshot (afterRecheck change).1.1.isOk
          (newDrains (afterRead change).2 (afterRecheck change).2)
          (newAnswers (afterRead change).2 (afterRecheck change).2)
          (newDocuments (afterRead change).2 (afterRecheck change).2)]
      ((afterRecheck change).1.2, (afterRecheck change).2) := by
  have hfirst : Step false (sampleReader, World.start) _ ((afterRead change).1.2, _) :=
    .read (Program.runs_run (sampleAnswer_environment change) (read false sampleReader) World.start)
  have hsecond : Step false ((afterRead change).1.2, (afterRead change).2) _ _ :=
    .recheck (Program.runs_run (sampleAnswer_environment change)
      (recheck false sampleSnapshot (afterRead change).1.2) (afterRead change).2)
  rw [← hread]
  exact .snoc (.snoc (.nil _) hfirst) hsecond

/-- Nothing arrives and the recheck confirms the snapshot. -/
theorem quiet_recheck_trustworthy :
    Trustworthy false 1
      [.read (some sampleSnapshot) [0, 0] [.again, .again],
        .recheck sampleSnapshot true [0, 0, 0] [.again, .again, .again] [sampleDocument]] :=
  (recheck_trustworthy (sample_run false (by rfl))).1 (by
    intro previous accepted drains answers documents hmem _
    simp only [List.mem_cons, List.not_mem_nil, or_false] at hmem
    rcases hmem with hmem | hmem
    · cases hmem
    · cases hmem
      rfl)

/-- A change that arrives inside the recheck is not noticed: the recheck succeeds. -/
theorem recheck_misses_change : ∃ events s,
    Execution (Step false) (sampleReader, World.start) events s ∧
      s.2.delivered = [sampleRecord] ∧ IsMutation false 1 sampleRecord ∧
      (∃ drains later, (∃ e ∈ events, ∃ e' ∈ events,
        Confirms sampleSnapshot drains later e e') ∧ drains.getLast? = some 0 ∧
        later.getLast? = some 1) ∧ ¬ Trustworthy false 1 events := by
  refine ⟨_, _, sample_run true (by rfl), by rfl, ?_, ⟨[0, 0], [0, 1, 1], ?_, rfl, rfl⟩, ?_⟩
  · exact ⟨1, 2, 0, by decide⟩
  · exact ⟨_, .head _, _, .tail _ (.head _), ⟨_, rfl⟩, _, _, rfl⟩
  · intro htrust
    have hpair := (List.pairwise_cons.mp htrust.fresh).1 _ (List.mem_singleton_self _)
    obtain ⟨n, hn, hm⟩ := hpair sampleSnapshot [0, 0] [0, 1, 1] ⟨⟨_, rfl⟩, _, _, rfl⟩
    cases hn
    cases hm

end RegistryFreshness
