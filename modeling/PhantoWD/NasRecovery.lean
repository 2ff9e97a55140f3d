import PhantoWD.NasBootstrap

/-!
Whatever prefix of its effects a commit got to, a fresh observation is eligible exactly when
nothing was done or everything was.
-/
namespace NasRecovery

open GoText EffectProgram NasEvidence NasDirectory NasWriter NasBootstrap
open RevisionStore (cleanAbsolute)

variable {P : Type} {c : PolicyCode P} {euid : Nat} {installation : Bytes} {content : Content}

def kindOf (c : PolicyCode P) (installation : Bytes) (content : Content) : Kind :=
  nasEvidenceKind c installation (content .policy) (content .intent) (content .receipt)
    (content .base)

def present (content : Content) : Nat :=
  (Role.all.filter fun role => (content role).isSome).length

structure Settled (c : PolicyCode P) (installation : Bytes) (content : Content) : Prop where
  pending : content .pending = none
  picture : (kindOf c installation content = .noRecordedOperation ∧ present content = 2) ∨
    (kindOf c installation content = .matchingLocalRecords ∧ present content = 5)

theorem isSome_content (files : Files) (role : Role) :
    (files.content role).isSome = (files role).isSome := by
  simp [Files.content]

theorem count_eq_present {d : Directory} (h : d.foreign = []) :
    d.count = present d.file.content := by
  simp only [Directory.count, present, h, List.length_nil, Nat.add_zero, isSome_content]

theorem eligible_observation (d : Directory) (h : d.foreign = []) :
    Observation.eligible (evidence c installation d).observation = true ↔
      Settled c installation d.file.content := by
  have hp : d.file.content .pending = none ↔ d.file .pending = none := by simp [Files.content]
  cases hf : d.file .pending with
  | some f =>
    constructor
    · simp [Observation.eligible, evidence, hf]
    · intro hs
      rw [hp.mp hs.pending] at hf
      cases hf
  | none =>
    constructor
    · intro hs
      refine ⟨hp.mpr hf, ?_⟩
      simpa [Observation.eligible, evidence, hf, count_eq_present h, kindOf] using hs
    · intro hs
      simpa [Observation.eligible, evidence, hf, count_eq_present h, kindOf] using hs.picture

theorem present_le (content : Content) : present content ≤ 6 :=
  (List.length_filter_le _ _).trans (by decide)

/-- On a sane directory only the contents decide. -/
theorem settles_iff {m : Machine} (hs : Sane euid m) :
    Settles c euid installation m ↔
      validInstallation installation = true ∧ headerRefused installation m.dir.file = false ∧
        m.dir.file.content .policy ≠ none ∧ Settled c installation m.dir.file.content := by
  have hpolicy : m.dir.file.content .policy ≠ none ↔ m.dir.file .policy ≠ none := by
    simp [Files.content]
  rw [hpolicy]
  constructor
  · intro h
    exact ⟨h.valid, h.admissible.header, h.admissible.policy,
      (eligible_observation m.dir hs.known).mp h.eligible⟩
  · rintro ⟨hvalid, hheader, hpol, hset⟩
    refine ⟨hvalid, ⟨hs.mode, hs.owner⟩, ⟨?_, hs.known, ?_, ?_, hheader, hpol⟩,
      (eligible_observation m.dir hs.known).mpr hset⟩
    · rw [count_eq_present hs.known]
      exact Nat.lt_succ_of_le (present_le _)
    · rw [List.all_eq_true]
      intro role _
      unfold entrySafe
      cases hf : m.dir.file role with
      | none => rfl
      | some f => exact hs.safe role f hf
    · rw [List.all_eq_true]
      intro role _
      unfold readable
      cases hf : m.dir.file role with
      | none => rfl
      | some f => simp [hs.sized role f hf]

theorem Sane.of_settles {m : Machine} (h : Settles c euid installation m) : Sane euid m := by
  have hset := (eligible_observation m.dir h.admissible.known).mp h.eligible
  have hmem : ∀ role : Role, role ∈ Role.all := by intro role; cases role <;> decide
  refine ⟨h.admissible.known, h.root.1, h.root.2, fun role f hf => ?_, fun role f hf => ?_⟩
  · have hsafe := List.all_eq_true.mp h.admissible.safe role (hmem role)
    simpa [entrySafe, hf] using hsafe
  · have hread := List.all_eq_true.mp h.admissible.readable role (hmem role)
    have hne : role ≠ .pending := by
      rintro rfl
      exact absurd hset.pending (by simp [Files.content, hf])
    simp only [readable, hf, hne, decide_false, Bool.false_or, decide_eq_true_eq] at hread
    exact hread.symm

theorem not_settled_of_pending (h : content .pending ≠ none) : ¬ Settled c installation content :=
  fun hs => h hs.pending

theorem not_settled_of_unconfirmed {t : Bytes} (hi : content .intent = some t)
    (hr : content .receipt = none) : ¬ Settled c installation content := by
  intro hs
  rcases hs.picture with ⟨hk, _⟩ | ⟨hk, _⟩
  · have hn := (inspect_noRecorded.mp (kind_noRecorded.mp hk).1).2.2.1
    rw [hi] at hn
    cases hn
  · obtain ⟨s, t', u, i, _, _, hu, _⟩ := inspect_matching.mp (kind_matching.mp hk).1
    rw [hr] at hu
    cases hu

/-- Records that match the policy start from another revision than the policy's. -/
theorem not_settled_of_same_base {s : Bytes} (hp : content .policy = some s)
    (hb : content .base = some s) : ¬ Settled c installation content := by
  intro hs
  rcases hs.picture with ⟨hk, _⟩ | ⟨hk, _⟩
  · have hn := (kind_noRecorded.mp hk).2
    rw [hb] at hn
    cases hn
  · obtain ⟨hm, hbase⟩ := kind_matching.mp hk
    obtain ⟨s', t, u, i, hs', ht, _, hmatch⟩ := inspect_matching.mp hm
    obtain rfl : s = s' := Option.some.inj (hp.symm.trans hs')
    have hagree := hbase s hb
    rw [ht] at hagree
    obtain ⟨⟨p, hdp, hrev⟩, _⟩ := (baseAgrees_iff hmatch.intent).mp hagree
    obtain ⟨q, hdq, hnext⟩ := hmatch.policy
    obtain rfl : p = q := Option.some.inj (hdp.symm.trans hdq)
    have hsucc := (decode_spec hmatch.intent).2.1
    simp only [Record.valid, Bool.and_eq_true, decide_eq_true_eq] at hsucc
    have := hsucc.1.1.2
    omega

/-- The contents of the finished operation, over those it started from. -/
structure Published (content content' : Content) (base intent next receipt : Bytes) : Prop where
  header : content' .header = content .header
  pending : content' .pending = none
  base : content' .base = some base
  intent : content' .intent = some intent
  policy : content' .policy = some next
  receipt : content' .receipt = some receipt

theorem Published.settled {content' : Content} {operation base next intent receipt : Bytes}
    {i : Record} (h : Published content content' base intent next receipt)
    (hop : Operation c installation operation base next intent receipt i)
    (hheader : content .header ≠ none) : Settled c installation content' := by
  have hmatch : Matches c installation next intent receipt i :=
    ⟨hop.installation, hop.intent_decodes, hop.owner, hop.receipt_decodes, hop.next_revision,
      hop.next_digest⟩
  refine ⟨h.pending, .inr ⟨kind_matching.mpr ⟨?_, ?_⟩, ?_⟩⟩
  · exact inspect_matching.mpr ⟨next, intent, receipt, i, h.policy, h.intent, h.receipt, hmatch⟩
  · intro b hb
    obtain rfl : b = base := Option.some.inj (hb.symm.trans h.base)
    rw [h.intent]
    exact (baseAgrees_iff hop.intent_decodes).mpr ⟨hop.base_revision, hop.base_digest⟩
  · rw [← h.header] at hheader
    obtain ⟨x, hx⟩ := Option.ne_none_iff_exists'.mp hheader
    simp [present, Role.all, hx, h.pending, h.base, h.intent, h.policy, h.receipt]

section Cuts

variable {base next intent receipt operation : Bytes} {i : Record} {before after : List Action}

def commitEffects (retire : Bool) (base intent next receipt : Bytes) : List Effect :=
  [.create, .write base, .rename .base, .create, .write intent, .rename .intent] ++
    (if retire then [.unlinkReceipt] else []) ++
    [.create, .write next, .rename .policy, .create, .write receipt, .rename .receipt]

theorem plan_first (h : content .receipt = none) :
    plan content (steps base intent next receipt) =
      [.replace .base base, .replace .intent intent, .replace .policy next,
        .replace .receipt receipt] := by
  simp [plan, steps, turn, Action.apply, h]

theorem plan_later (h : content .receipt ≠ none) :
    plan content (steps base intent next receipt) =
      [.replace .base base, .replace .intent intent, .retire, .replace .policy next,
        .replace .receipt receipt] := by
  simp [plan, steps, turn, Action.apply, h]

theorem effectsOf_plan :
    effectsOf (plan content (steps base intent next receipt)) =
      commitEffects (content .receipt).isSome base intent next receipt := by
  cases h : content .receipt with
  | none => rw [plan_first h]; rfl
  | some u => rw [plan_later (by simp [h])]; rfl

variable {actions : List Action}

theorem effectsOf_ne_nil (h : actions ≠ []) : effectsOf actions ≠ [] := by
  cases actions with
  | nil => exact absurd rfl h
  | cons a rest => cases a <;> simp [Action.effects]

/-- No cut between the two ends of the plan looks finished. -/
theorem not_settled_between (hp : content .policy = some base)
    (h : plan content (steps base intent next receipt) = before ++ after) (hb : before ≠ [])
    (ha : after ≠ []) : ¬ Settled c installation (applyAll content before) := by
  have hsame : applyAll content before .policy = some base →
      applyAll content before .base = some base → ¬ Settled c installation _ :=
    not_settled_of_same_base
  have hopen : applyAll content before .intent = some intent →
      applyAll content before .receipt = none → ¬ Settled c installation _ :=
    not_settled_of_unconfirmed
  by_cases hr : content .receipt = none
  · rw [plan_first hr] at h
    simp only [List.cons_eq_append_iff, List.nil_eq_append_iff] at h
    rcases h with ⟨rfl, _⟩ | ⟨_, rfl, ⟨rfl, _⟩ | ⟨_, rfl, ⟨rfl, _⟩ | ⟨_, rfl, ⟨rfl, _⟩ |
      ⟨_, rfl, _, h⟩⟩⟩⟩
    · exact absurd rfl hb
    · exact hsame (by simp [Action.apply, hp]) (by simp [Action.apply])
    · exact hsame (by simp [Action.apply, hp]) (by simp [Action.apply])
    · exact hopen (by simp [Action.apply]) (by simp [Action.apply, hr])
    · exact absurd h ha
  · rw [plan_later hr] at h
    simp only [List.cons_eq_append_iff, List.nil_eq_append_iff] at h
    rcases h with ⟨rfl, _⟩ | ⟨_, rfl, ⟨rfl, _⟩ | ⟨_, rfl, ⟨rfl, _⟩ | ⟨_, rfl, ⟨rfl, _⟩ |
      ⟨_, rfl, ⟨rfl, _⟩ | ⟨_, rfl, _, h⟩⟩⟩⟩⟩
    · exact absurd rfl hb
    · exact hsame (by simp [Action.apply, hp]) (by simp [Action.apply])
    · exact hsame (by simp [Action.apply, hp]) (by simp [Action.apply])
    · exact hsame (by simp [Action.apply, hp]) (by simp [Action.apply])
    · exact hopen (by simp [Action.apply]) (by simp [Action.apply])
    · exact absurd h ha

def Outside : Action → Prop
  | .replace role _ => role ≠ .header ∧ role ≠ .pending
  | .retire => True

theorem plan_outside (content : Content) :
    ∀ a ∈ plan content (steps base intent next receipt), Outside a := by
  by_cases hr : content .receipt = none
  · simp [plan_first hr, Outside]
  · simp [plan_later hr, Outside]

theorem apply_outside {a : Action} (h : Outside a) (content : Content) :
    a.apply content .header = content .header ∧ a.apply content .pending = content .pending ∧
      (content .policy ≠ none → a.apply content .policy ≠ none) := by
  cases a with
  | retire => simp [Action.apply]
  | replace role data =>
    refine ⟨Function.update_of_ne h.1.symm _ _, Function.update_of_ne h.2.symm _ _, fun hp => ?_⟩
    by_cases hr : role = .policy
    · subst hr
      simp [Action.apply]
    · simpa [Action.apply, Function.update_of_ne (Ne.symm hr)] using hp

theorem applyAll_outside (h : ∀ a ∈ actions, Outside a) (content : Content) :
    applyAll content actions .header = content .header ∧
      applyAll content actions .pending = content .pending ∧
      (content .policy ≠ none → applyAll content actions .policy ≠ none) := by
  induction actions generalizing content with
  | nil => simp
  | cons a rest ih =>
    obtain ⟨h1, h2, h3⟩ := apply_outside (h a (by simp)) content
    obtain ⟨r1, r2, r3⟩ := ih (fun b hb => h b (by simp [hb])) (a.apply content)
    exact ⟨r1.trans h1, r2.trans h2, fun hp => r3 (h3 hp)⟩

/-- A commit's effects were cut short, possibly in the middle of a write. -/
def IsCut (full es : List Effect) : Prop :=
  es <+: full ∨ ∃ before data k, es = before ++ [.write (data.take k)] ∧
    before ++ [.write data] <+: full

variable {content' : Content}

theorem isCut_of_cut {es : List Effect} (h : Cut actions content content' es) :
    IsCut (effectsOf actions) es := by
  cases h with
  | @between before after h =>
    subst h
    exact .inl ⟨effectsOf after, by simp⟩
  | @created before after role data h =>
    subst h
    exact .inl ⟨[.write data, .rename role] ++ effectsOf after, by simp [Action.effects]⟩
  | @written before after role data k h =>
    subst h
    exact .inr ⟨effectsOf before ++ [.create], data, k, by simp,
      [.rename role] ++ effectsOf after, by simp [Action.effects]⟩

theorem published_plan (hpending : content .pending = none) (base intent next receipt : Bytes) :
    Published content (applyAll content (plan content (steps base intent next receipt))) base intent
      next receipt := by
  obtain ⟨h1, h2, _⟩ := applyAll_outside (plan_outside content) content
  refine ⟨h1, h2.trans hpending, ?_, ?_, ?_, ?_⟩ <;> by_cases hr : content .receipt = none
  all_goals first
    | simp [plan_first hr, Action.apply]
    | simp [plan_later hr, Action.apply]

/-- A cut is settled exactly at the two ends of the plan. -/
theorem settled_cut_iff {es : List Effect} (hset : Settled c installation content)
    (hheader : content .header ≠ none) (hp : content .policy = some base)
    (hop : Operation c installation operation base next intent receipt i)
    (h : Cut (plan content (steps base intent next receipt)) content content' es) :
    Settled c installation content' ↔
      es = [] ∨ es = effectsOf (plan content (steps base intent next receipt)) := by
  cases h with
  | @between before after h =>
    by_cases hb : before = []
    · subst hb
      simpa using hset
    · have hne : effectsOf before ≠ [] := effectsOf_ne_nil hb
      by_cases ha : after = []
      · subst ha
        rw [List.append_nil] at h
        rw [← h]
        simp [(published_plan hset.pending base intent next receipt).settled hop hheader]
      · have hna : effectsOf after ≠ [] := effectsOf_ne_nil ha
        simp [h, hne, hna, not_settled_between hp h hb ha]
  | @created before after role data h =>
    have hn : ¬ Settled c installation
        (Function.update (applyAll content before) .pending (some [])) :=
      not_settled_of_pending (by simp)
    simp [h, hn, Action.effects]
  | @written before after role data k h =>
    have hn : ¬ Settled c installation
        (Function.update (applyAll content before) .pending (some (data.take k))) :=
      not_settled_of_pending (by simp)
    simp [h, hn, Action.effects]

theorem effectsOf_eq_nil (h : effectsOf actions = []) : actions = [] :=
  by_contra fun hn => effectsOf_ne_nil hn h

theorem cut_nothing (h : Cut actions content content' []) : content' = content := by
  generalize hes : ([] : List Effect) = es at h
  cases h with
  | between h => rw [effectsOf_eq_nil hes.symm, applyAll_nil]
  | created | written => simp at hes

theorem cut_everything (h : Cut actions content content' (effectsOf actions)) :
    content' = applyAll content actions := by
  generalize hes : effectsOf actions = es at h
  cases h with
  | @between before after h =>
    subst h
    have hafter : after = [] := effectsOf_eq_nil (by simpa using hes)
    rw [hafter, List.append_nil]
  | created h | written k h =>
    subst h
    simp [Action.effects] at hes

theorem cut_keeps {es : List Effect} (hp : content .policy ≠ none)
    (h : Cut (plan content (steps base intent next receipt)) content content' es) :
    content' .header = content .header ∧ content' .policy ≠ none := by
  have hprefix : ∀ before after,
      plan content (steps base intent next receipt) = before ++ after →
        applyAll content before .header = content .header ∧
          applyAll content before .policy ≠ none := by
    intro before after hba
    obtain ⟨h1, _, h3⟩ := applyAll_outside
      (fun a ha => plan_outside content a (by rw [hba]; exact List.mem_append_left _ ha)) content
    exact ⟨h1, h3 hp⟩
  cases h with
  | between h => exact hprefix _ _ h
  | created h | written k h => simpa using hprefix _ _ h

end Cuts

/-- The whole effect list of a fresh operation, with the state it ends in. -/
def Completed (c : PolicyCode P) (installation : Bytes) (m m' : Machine) (base next : Bytes)
    (es : List Effect) : Prop :=
  ∃ operation intent receipt,
    Fresh c installation m.dir.file operation base next intent receipt ∧
      es = commitEffects (m.dir.file.content .receipt).isSome base intent next receipt ∧
      Published m.dir.file.content m'.dir.file.content base intent next receipt

theorem headerRefused_congr {files files' : Files}
    (h : files'.content .header = files.content .header) :
    headerRefused installation files' = headerRefused installation files := by
  unfold headerRefused
  rw [h]

theorem header_present {files : Files} (h : headerRefused installation files = false) :
    files.content .header ≠ none := by
  intro hn
  simp [headerRefused, hn] at h

section Outcome

variable {m m' : Machine} {base next intent receipt operation directory : Bytes}

structure Outcome (c : PolicyCode P) (euid : Nat) (installation directory : Bytes) (m m' : Machine)
    (base next : Bytes) (es : List Effect) : Prop where
  effects : m'.effects = m.effects ++ es
  untouched : es = [] → m'.dir.file.content = m.dir.file.content
  ordered : es ≠ [] → ∃ operation intent receipt,
    Fresh c installation m.dir.file operation base next intent receipt ∧
      IsCut (commitEffects (m.dir.file.content .receipt).isSome base intent next receipt) es
  eligible : Eligible c euid directory installation m' ↔
    es = [] ∨ Completed c installation m m' base next es

/-- Every stop of a commit has one of the outcomes. -/
theorem outcome_of_reached (hdir : cleanAbsolute directory = true)
    (hstart : Settles c euid installation m)
    (hF : Fresh c installation m.dir.file operation base next intent receipt)
    (h : Reached euid m (plan m.dir.file.content (steps base intent next receipt)) m') :
    ∃ es, Outcome c euid installation directory m m' base next es := by
  obtain ⟨es, heffects, hcut⟩ := h.cut
  obtain ⟨i, hop⟩ := encodeOperation_spec c hF.2.1
  obtain ⟨hvalid, hheader, hpolicy, hset⟩ := (settles_iff (Sane.of_settles hstart)).mp hstart
  obtain ⟨hkeep, hpolicy'⟩ := cut_keeps hpolicy hcut
  have hiff := settled_cut_iff hset (header_present hheader) hF.1 hop hcut
  have hall : Eligible c euid directory installation m' ↔
      Settled c installation m'.dir.file.content := by
    rw [eligible_iff hdir, settles_iff h.sane, headerRefused_congr hkeep]
    exact ⟨fun hs => hs.2.2.2, fun hs => ⟨hvalid, hheader, hpolicy', hs⟩⟩
  refine ⟨es, heffects, fun hes => ?_, fun _ => ?_, ?_⟩
  · subst hes
    exact cut_nothing hcut
  · exact ⟨operation, intent, receipt, hF, effectsOf_plan ▸ isCut_of_cut hcut⟩
  rw [hall]
  constructor
  · intro hs
    rcases hiff.mp hs with hes | hes
    · exact .inl hes
    · refine .inr ⟨operation, intent, receipt, hF, hes.trans effectsOf_plan, ?_⟩
      subst hes
      rw [cut_everything hcut]
      exact published_plan hset.pending base intent next receipt
  · rintro (hes | ⟨op, intent', receipt', hF', _, hpub⟩)
    · exact hiff.mpr (.inl hes)
    · obtain ⟨j, hop'⟩ := encodeOperation_spec c hF'.2.1
      exact hpub.settled hop' (header_present hheader)

theorem outcome_untouched (hstart : Eligible c euid directory installation m) :
    Outcome c euid installation directory m m base next [] :=
  ⟨by simp, fun _ => rfl, fun h => absurd rfl h, ⟨fun _ => .inl rfl, fun _ => hstart⟩⟩

/-- From any eligible directory and wherever a commit stops or whatever it returns: its effects
are a cut of the fixed sequence of one fresh operation, and a fresh bootstrap is eligible
exactly when there were none or all of them. A commit that reports success did all of them. -/
theorem commit_crash_consistent {w : Writer} {o : Option (Except Failure Unit × Writer)}
    (hdir : cleanAbsolute directory = true)
    (hstart : Eligible c euid directory w.installation m)
    (hrun : Runs (filesystem euid) (commit c euid base next w) m o m') :
    ∃ es, Outcome c euid w.installation directory m m' base next es ∧
      ∀ w', o = some (.ok (), w') → Completed c w.installation m m' base next es := by
  have hsettles := (eligible_iff hdir).mp hstart
  have hsane := Sane.of_settles hsettles
  have hset := ((settles_iff hsane).mp hsettles).2.2.2
  have hpending : m.dir.file .pending = none := by
    have := hset.pending
    simpa [Files.content] using this
  obtain ⟨hI, hQ⟩ := (commit_spec hsane hpending base next).sound hrun
  obtain ⟨es, hout⟩ : ∃ es, Outcome c euid w.installation directory m m' base next es := by
    rcases hI with rfl | ⟨operation, intent, receipt, hF, hreached⟩
    · exact ⟨[], outcome_untouched hstart⟩
    · exact outcome_of_reached hdir hsettles hF hreached
  refine ⟨es, hout, fun w' ho => ?_⟩
  obtain ⟨operation, intent, receipt, hF, hb⟩ := hQ _ ho rfl
  have hes : es = effectsOf (plan m.dir.file.content (steps base intent next receipt)) :=
    List.append_cancel_left (hout.effects.symm.trans hb.effects)
  refine ⟨operation, intent, receipt, hF, hes.trans effectsOf_plan, ?_⟩
  rw [hb.content]
  exact published_plan hset.pending base intent next receipt

def demoHeader : Bytes :=
  ascii ("\x7b\"format\":\"phantowd-nas-evidence-container\",\"schema_version\":1," ++
    "\"installation_id\":\"0123456789abcdef0123456789abcdef\"\x7d")

def demoRoot : Stat := { (default : Stat) with mode := privateDirectory, inode := 3, links := 2 }

def demoFiles : Files
  | .header => some (freshFile 0 demoRoot demoHeader)
  | .policy => some (freshFile 0 demoRoot [1])
  | _ => none

def demoMachine : Machine := ⟨⟨demoFiles, []⟩, demoRoot, []⟩

def demoWriter : Writer where
  retention := { initial := demoRoot, opened := true, watching := true }
  installation := demoInstallation
  stamp := demoRoot
  files := demoFiles

theorem demoMachine_eligible :
    Eligible byteCode 0 (ascii "/d") demoWriter.installation demoMachine := by
  have hadm : Admissible 0 demoRoot demoInstallation demoMachine.dir :=
    ⟨by decide +kernel, rfl, by decide +kernel, by decide +kernel, by decide +kernel, by decide⟩
  exact eligible_of_settles (by decide) ⟨by decide, ⟨rfl, rfl⟩, hadm, by decide +kernel⟩

def demoRun : (Except Failure Unit × Writer) × Machine :=
  (commit byteCode 0 [1] [2] demoWriter).run (undisturbed 0 (List.replicate 16 7)) demoMachine

/-- The first operation of a directory, undisturbed. -/
theorem first_operation_completes :
    demoRun.1.1.isOk = true ∧
      ∃ es, Outcome byteCode 0 demoInstallation (ascii "/d") demoMachine demoRun.2 [1] [2] es ∧
        ∀ w', some demoRun.1 = some (.ok (), w') →
          Completed byteCode demoInstallation demoMachine demoRun.2 [1] [2] es := by
  refine ⟨by decide +kernel, ?_⟩
  exact commit_crash_consistent (w := demoWriter) (by decide) demoMachine_eligible
    (Program.runs_run (undisturbed_admitted 0 _) _ demoMachine)

end Outcome

end NasRecovery
