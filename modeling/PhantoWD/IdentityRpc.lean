import PhantoWD.ConfigJson
import PhantoWD.IdentityProvision
import PhantoWD.SmbProvision

/-!
The server reports a journal as one JSON object of four fields. The client screens the bytes
and then applies its own table of phases and revisions, which it keeps apart from the schemas
of the journals.
-/
namespace IdentityRpc

open GoText GoJson ConfigJson

def maxFrame : Nat := 1024

def smbRPCVersion : Int := 2

structure Response where
  version : Int
  code : Bytes
  revision : Nat
  phase : Bytes
  deriving DecidableEq

def smbPhase : SmbProvision.Phase → Bytes
  | .reserved => ascii "reserved"
  | .createIntent => ascii "create-disabled-intent"
  | .disabledNoPassword => ascii "disabled-no-password"
  | .passwordIntent => ascii "set-password-disabled-intent"
  | .credentialSetDisabled => ascii "credential-set-disabled"
  | .enableIntent => ascii "enable-intent"
  | .enabled => ascii "enabled"
  | .disableIntent => ascii "disable-intent"
  | .disabled => ascii "disabled"
  | .reviewRequired => ascii "review-required"

def identityPhase : IdentityProvision.Phase → Bytes
  | .reserved => ascii "reserved"
  | .groupIntent => ascii "group-intent"
  | .groupConfirmed => ascii "group-confirmed"
  | .userIntent => ascii "user-intent"
  | .unixConfirmed => ascii "unix-confirmed"
  | .reviewRequired => ascii "review-required"

def ok : Bytes := ascii "ok"
def pending : Bytes := ascii "pending"
def unavailable : Bytes := ascii "unavailable"
def conflict : Bytes := ascii "conflict"
def review : Bytes := ascii "review"
def invalid : Bytes := ascii "invalid"
def busy : Bytes := ascii "busy"

def validSMBResponse (response : Response) : Bool :=
  let phase := response.phase
  let revision := response.revision
  if phase = smbPhase .reserved then revision = 1
  else if phase = smbPhase .createIntent then revision = 2
  else if phase = smbPhase .disabledNoPassword then revision = 3
  else if phase = smbPhase .passwordIntent then revision = 4
  else if phase = smbPhase .credentialSetDisabled then revision = 5
  else if phase = smbPhase .enableIntent then revision = 6
  else if phase = smbPhase .enabled then 7 ≤ revision && revision % 2 = 1
  else if phase = smbPhase .disableIntent then 8 ≤ revision && revision % 2 = 0
  else if phase = smbPhase .disabled then 9 ≤ revision && revision % 2 = 1
  else if phase = smbPhase .reviewRequired then 2 ≤ revision
  else false

def Response.valid (r : Response) : Bool :=
  if r.version ≠ 1 ∧ r.version ≠ 2 then false
  else if r.code ≠ ok then
    if r.code ∈ [busy, conflict, review, unavailable, invalid] then
      r.revision = 0 && r.phase = []
    else if r.code = pending then r.version = 2 && r.revision = 0 && r.phase = []
    else false
  else if r.version = 2 then validSMBResponse r
  else
    (r.phase = identityPhase .reserved && r.revision = 1) ||
      (r.phase = identityPhase .groupIntent && r.revision = 2) ||
      (r.phase = identityPhase .groupConfirmed && r.revision = 3) ||
      (r.phase = identityPhase .userIntent && r.revision = 4) ||
      (r.phase = identityPhase .unixConfirmed && r.revision = 5) ||
      (r.phase = identityPhase .reviewRequired && 2 ≤ r.revision && r.revision ≤ 6)

def responseNames : List Bytes :=
  [ascii "version", ascii "code", ascii "revision", ascii "phase"]

def Response.members (r : Response) : List (Bytes × Value) :=
  [(ascii "version", .num (formatInt r.version)), (ascii "code", .str r.code),
    (ascii "revision", .num (formatUint r.revision)), (ascii "phase", .str r.phase)]

def marshalResponse (r : Response) : Bytes := (Value.obj (.ofList r.members)).render

def unmarshalResponse : Value → Option Response
  | .obj members =>
    let field := fun name => bound responseNames (ascii name) members.toList
    if knownFields responseNames members.toList = false then none
    else do
      let version ← bindInt (field "version")
      let code ← bindString (field "code")
      let revision ← bindUint (field "revision")
      let phase ← bindString (field "phase")
      some ⟨version, code, revision, phase⟩
  | _ => none

def fourFields (data : Bytes) : Bool :=
  match structMembers data with
  | some members => (members.map Prod.fst).dedup.length = 4
  | none => false

def decodeResponse (data : Bytes) (version : Int) : Option Response := do
  let value ← decodeValue data maxFrame 1 responseNames
  let reply ← unmarshalResponse value
  if fourFields data = false ∨ reply.version ≠ version ∨ reply.valid = false then none
  else some reply

/-- Which sentinel errors `errors.Is` finds in an error. -/
structure Sentinels where
  conflict : Bool
  review : Bool
  pending : Bool
  invalid : Bool
  deriving DecidableEq

def failure (version : Int) (code : Bytes) : Response := ⟨version, code, 0, []⟩

def smbErrorCode (err : Sentinels) : Bytes :=
  if err.conflict then conflict
  else if err.review then review
  else if err.pending then pending
  else if err.invalid then invalid
  else unavailable

def smbStateResponse (accountID : Bytes) (j : SmbProvision.Journal) : Response :=
  if j.validate = false ∨ j.account.id ≠ accountID then failure smbRPCVersion unavailable
  else ⟨smbRPCVersion, ok, j.revision, smbPhase j.phase⟩

inductive SMBAction where
  | status | begin | step | setPasswordDisabled | enable | disable
  deriving DecidableEq

/-- What a bound operation answered: the mutation of the request, if it has one, and the
load that follows. -/
structure SMBAnswers where
  mutation : Option Sentinels
  load : Except Sentinels SmbProvision.Journal

def loadedSMB (accountID : Bytes) (load : Except Sentinels SmbProvision.Journal) : Response :=
  match load with
  | .error err => failure smbRPCVersion (smbErrorCode err)
  | .ok journal => smbStateResponse accountID journal

/-- `executeSMB`; no operation stands for every way of being unavailable, and no action for
one outside the list. -/
def executeSMB (accountID : Bytes) (action : Option SMBAction) (op : Option SMBAnswers) :
    Response :=
  match op with
  | none => failure smbRPCVersion unavailable
  | some answers =>
    match action with
    | none => failure smbRPCVersion invalid
    | some .status => loadedSMB accountID answers.load
    | some _ =>
      match answers.mutation with
      | some err => failure smbRPCVersion (smbErrorCode err)
      | none => loadedSMB accountID answers.load

/-- The version 1 operation: the first load, then for a step its error and the second load. -/
structure Answers where
  load : Option IdentityProvision.Journal
  step : Option Sentinels
  reload : Option IdentityProvision.Journal

def identityResponse (j : IdentityProvision.Journal) : Response :=
  ⟨1, ok, j.revision, identityPhase j.phase⟩

def steppedResponse (bound : ServiceAccounts.Account) (step : Option Sentinels)
    (reload : Option IdentityProvision.Journal) : Response :=
  match step with
  | some err =>
    if err.conflict then failure 1 conflict
    else if err.review then failure 1 review
    else failure 1 unavailable
  | none =>
    match reload with
    | none => failure 1 unavailable
    | some j =>
      if j.validate = false ∨ j.account ≠ bound then failure 1 unavailable
      else identityResponse j

def execute (accountID : Bytes) (isStep : Bool) (op : Option Answers) : Response :=
  match op with
  | none => failure 1 unavailable
  | some answers =>
    match answers.load with
    | none => failure 1 unavailable
    | some j =>
      if j.validate = false then failure 1 unavailable
      else if accountID ≠ j.account.id then failure 1 conflict
      else if isStep then steppedResponse j.account answers.step answers.reload
      else identityResponse j

/-- Replies as the server builds them: version 1 or 2, short plain texts, a 64-bit revision. -/
structure Response.Encodable (r : Response) : Prop where
  version : r.version = 1 ∨ r.version = 2
  code : r.code.all plain = true
  codeLength : r.code.length ≤ 16
  revision : r.revision < 2 ^ 64
  phase : r.phase.all plain = true
  phaseLength : r.phase.length ≤ 32

variable {r : Response}

theorem Response.Encodable.version_digit (h : r.Encodable) :
    ∃ n, formatInt r.version = formatUint n ∧ n < 10 := by
  rcases h.version with hv | hv
  · exact ⟨1, by rw [hv]; rfl, by decide⟩
  · exact ⟨2, by rw [hv]; rfl, by decide⟩

theorem Response.Encodable.printable (h : r.Encodable) :
    (Value.obj (.ofList r.members)).Printable := by
  obtain ⟨n, hn, _⟩ := h.version_digit
  exact ⟨rfl, ⟨n, hn⟩, rfl, h.code, rfl, ⟨_, rfl⟩, rfl, h.phase, trivial⟩

theorem Response.Encodable.length_le (h : r.Encodable) :
    (marshalResponse r).length ≤ maxFrame := by
  obtain ⟨n, hn, hlt⟩ := h.version_digit
  have hversion : (formatInt r.version).length ≤ 20 := by
    rw [hn]
    exact length_formatUint_le (by omega)
  have hrevision := length_formatUint_le h.revision
  have hcode := h.codeLength
  have hphase := h.phaseLength
  have hkeys : (quoted (ascii "version")).length = 9 ∧ (quoted (ascii "code")).length = 6 ∧
      (quoted (ascii "revision")).length = 10 ∧ (quoted (ascii "phase")).length = 7 := by
    decide
  obtain ⟨h1, h2, h3, h4⟩ := hkeys
  have htext (s : Bytes) (hs : s.all plain = true) : (quoted s).length = s.length + 2 := by
    simp [quoted_plain hs]
  have hc := htext _ h.code
  have hp := htext _ h.phase
  simp only [marshalResponse, Response.members, Members.ofList, Value.render, Members.render,
    List.length_cons, List.length_append, List.length_nil, h1, h2, h3, h4, hc, hp, maxFrame]
  omega

theorem structMembers_marshal (h : r.Encodable) :
    structMembers (marshalResponse r) = some r.members := by
  simp [structMembers, marshalResponse, parse_render h.printable.encodable]

theorem unmarshal_members (h : r.Encodable) :
    unmarshalResponse (.obj (.ofList r.members)) = some r := by
  have hversion : bindInt [.num (formatInt r.version)] = some r.version := by
    rcases h.version with hv | hv <;> rw [hv] <;> rfl
  have hrevision : bindUint [.num (formatUint r.revision)] = some r.revision := by
    simp [bindUint, parseUint_formatUint h.revision]
  have hfields : bound responseNames (ascii "version") r.members = [.num (formatInt r.version)] ∧
      bound responseNames (ascii "code") r.members = [.str r.code] ∧
      bound responseNames (ascii "revision") r.members = [.num (formatUint r.revision)] ∧
      bound responseNames (ascii "phase") r.members = [.str r.phase] := ⟨rfl, rfl, rfl, rfl⟩
  have hcode : bindString [.str r.code] = some r.code := rfl
  have hphase : bindString [.str r.phase] = some r.phase := rfl
  have hknown : knownFields responseNames r.members = true := rfl
  obtain ⟨h1, h2, h3, h4⟩ := hfields
  simp only [unmarshalResponse, Members.toList_ofList, hknown, Bool.true_eq_false, if_false, h1, h2,
    h3, h4, hversion, hcode, hrevision, hphase, Option.bind_eq_bind, Option.bind_some]

theorem decode_marshal_response (h : r.Encodable) (version : Int) :
    decodeResponse (marshalResponse r) version =
      if r.version = version ∧ r.valid = true then some r else none := by
  have hvalue : decodeValue (marshalResponse r) maxFrame 1 responseNames =
      some (.obj (.ofList r.members)) :=
    decodeValue_render h.printable.encodable (by decide) h.length_le rfl
  have hfour : fourFields (marshalResponse r) = true := by
    simp only [fourFields, structMembers_marshal h]
    rfl
  simp only [decodeResponse, hvalue, unmarshal_members h, hfour, Option.bind_eq_bind,
    Option.bind_some, Bool.true_eq_false, false_or]
  by_cases hv : r.version = version <;> cases hr : r.valid <;> simp [hv]

/-- The phases and revisions of a version 2 reply that the client accepts. -/
def replyAdmits : SmbProvision.Phase → Nat → Bool
  | .reserved, n => n = 1
  | .createIntent, n => n = 2
  | .disabledNoPassword, n => n = 3
  | .passwordIntent, n => n = 4
  | .credentialSetDisabled, n => n = 5
  | .enableIntent, n => n = 6
  | .enabled, n => 7 ≤ n && n % 2 = 1
  | .disableIntent, n => 8 ≤ n && n % 2 = 0
  | .disabled, n => 9 ≤ n && n % 2 = 1
  | .reviewRequired, n => 2 ≤ n

theorem smbPhase_valid (p : SmbProvision.Phase) (n : Nat) :
    (⟨2, ok, n, smbPhase p⟩ : Response).valid = replyAdmits p n := by
  cases p <;> rfl

theorem identityPhase_valid (p : IdentityProvision.Phase) (n : Nat) :
    (⟨1, ok, n, identityPhase p⟩ : Response).valid = p.admits n := by
  cases p <;> simp [Response.valid, identityPhase, ok, ascii, IdentityProvision.Phase.admits]

theorem smbPhase_plain (p : SmbProvision.Phase) :
    (smbPhase p).all plain = true ∧ (smbPhase p).length ≤ 32 := by
  cases p <;> decide

theorem identityPhase_plain (p : IdentityProvision.Phase) :
    (identityPhase p).all plain = true ∧ (identityPhase p).length ≤ 32 := by
  cases p <;> decide

theorem ok_length : ok.length ≤ 16 := by decide

theorem decode_smbStateResponse {j : SmbProvision.Journal} (hv : j.validate = true)
    (hlt : j.revision < 2 ^ 64) :
    decodeResponse (marshalResponse (smbStateResponse j.account.id j)) 2 =
      if replyAdmits j.phase j.revision then some ⟨2, ok, j.revision, smbPhase j.phase⟩
      else none := by
  have hstate : smbStateResponse j.account.id j = ⟨2, ok, j.revision, smbPhase j.phase⟩ := by
    simp [smbStateResponse, hv, smbRPCVersion]
  obtain ⟨hplain, hlen⟩ := smbPhase_plain j.phase
  rw [hstate, decode_marshal_response ⟨.inr rfl, rfl, ok_length, hlt, hplain, hlen⟩,
    smbPhase_valid]
  simp

theorem decode_identityResponse {j : IdentityProvision.Journal} (hv : j.validate = true) :
    decodeResponse (marshalResponse (identityResponse j)) 1 =
      some ⟨1, ok, j.revision, identityPhase j.phase⟩ := by
  have hphase : j.phase.admits j.revision = true := by
    simp only [IdentityProvision.Journal.validate, Bool.and_eq_true] at hv
    exact hv.2
  have hlt : j.revision < 2 ^ 64 := by
    cases hp : j.phase <;> rw [hp] at hphase <;>
      simp [IdentityProvision.Phase.admits] at hphase <;> omega
  obtain ⟨hplain, hlen⟩ := identityPhase_plain j.phase
  unfold identityResponse
  rw [decode_marshal_response ⟨.inl rfl, rfl, ok_length, hlt, hplain, hlen⟩,
    identityPhase_valid, hphase]
  simp

def failureCodes (version : Int) : List Bytes :=
  [conflict, review, unavailable, invalid] ++ if version = 2 then [pending] else []

theorem decode_failure {version : Int} (hv : version = 1 ∨ version = 2) {code : Bytes}
    (hc : code ∈ failureCodes version) :
    decodeResponse (marshalResponse (failure version code)) version =
      some (failure version code) := by
  have hcodes : ∀ c ∈ failureCodes version, c.all plain = true ∧ c.length ≤ 16 ∧
      (failure version c).valid = true := by
    rcases hv with rfl | rfl <;> decide
  obtain ⟨hplain, hlen, hvalid⟩ := hcodes code hc
  have henc : (failure version code).Encodable :=
    ⟨hv, hplain, hlen, Nat.two_pow_pos 64, rfl, Nat.zero_le _⟩
  rw [decode_marshal_response henc]
  exact if_pos ⟨rfl, hvalid⟩

theorem smbErrorCode_mem (err : Sentinels) : smbErrorCode err ∈ failureCodes 2 := by
  unfold smbErrorCode
  split_ifs <;> decide

/-- A reply is a listed failure or the state of a valid journal of the account. -/
theorem executeSMB_cases (accountID : Bytes) (action : Option SMBAction)
    (op : Option SMBAnswers) :
    (∃ code ∈ failureCodes 2, executeSMB accountID action op = failure 2 code) ∨
      ∃ answers j, op = some answers ∧ answers.load = .ok j ∧ j.validate = true ∧
        j.account.id = accountID ∧
          executeSMB accountID action op = smbStateResponse accountID j := by
  have hload : ∀ load : Except Sentinels SmbProvision.Journal,
      (∃ code ∈ failureCodes 2, loadedSMB accountID load = failure 2 code) ∨
        ∃ j, load = .ok j ∧ j.validate = true ∧ j.account.id = accountID ∧
          loadedSMB accountID load = smbStateResponse accountID j := by
    intro load
    cases load with
    | error err => exact .inl ⟨_, smbErrorCode_mem err, rfl⟩
    | ok j =>
      by_cases hj : j.validate = false ∨ j.account.id ≠ accountID
      · refine .inl ⟨unavailable, by decide, ?_⟩
        simp only [loadedSMB, smbStateResponse, if_pos hj]
        rfl
      · simp only [not_or, Bool.not_eq_false, Decidable.not_not] at hj
        exact .inr ⟨j, rfl, hj.1, hj.2, rfl⟩
  cases op with
  | none => exact .inl ⟨unavailable, by decide, rfl⟩
  | some answers =>
    have hlast := hload answers.load
    have hreport : executeSMB accountID action (some answers) = loadedSMB accountID answers.load →
        (∃ code ∈ failureCodes 2, executeSMB accountID action (some answers) = failure 2 code) ∨
          ∃ given j, some answers = some given ∧ given.load = .ok j ∧ j.validate = true ∧
            j.account.id = accountID ∧
            executeSMB accountID action (some answers) = smbStateResponse accountID j := by
      intro heq
      rw [heq]
      rcases hlast with hfail | ⟨j, hj, hvalid, hid, hres⟩
      · exact .inl hfail
      · exact .inr ⟨answers, j, rfl, hj, hvalid, hid, hres⟩
    cases action with
    | none => exact .inl ⟨invalid, by decide, rfl⟩
    | some a =>
      cases hm : answers.mutation with
      | none =>
        apply hreport
        cases a <;> simp only [executeSMB, hm]
      | some err =>
        cases a with
        | status => exact hreport rfl
        | _ =>
          refine .inl ⟨_, smbErrorCode_mem err, ?_⟩
          simp only [executeSMB, hm]
          rfl

theorem execute_cases (accountID : Bytes) (isStep : Bool) (op : Option Answers) :
    (∃ code ∈ failureCodes 1, execute accountID isStep op = failure 1 code) ∨
      ∃ j : IdentityProvision.Journal, j.validate = true ∧
        execute accountID isStep op = identityResponse j := by
  cases op with
  | none => exact .inl ⟨unavailable, by decide, rfl⟩
  | some answers =>
    cases hload : answers.load with
    | none => exact .inl ⟨unavailable, by decide, by simp only [execute, hload]⟩
    | some j =>
      cases hv : j.validate with
      | false => exact .inl ⟨unavailable, by decide, by simp [execute, hload, hv]⟩
      | true =>
        by_cases hid : accountID = j.account.id
        · cases isStep with
          | false => exact .inr ⟨j, hv, by simp [execute, hload, hv, hid]⟩
          | true =>
            have heq : execute accountID true (some answers) =
                steppedResponse j.account answers.step answers.reload := by
              simp [execute, hload, hv, hid]
            rw [heq]
            unfold steppedResponse
            cases answers.step with
            | some err =>
              simp only
              split_ifs
              · exact .inl ⟨conflict, by decide, rfl⟩
              · exact .inl ⟨review, by decide, rfl⟩
              · exact .inl ⟨unavailable, by decide, rfl⟩
            | none =>
              cases answers.reload with
              | none => exact .inl ⟨unavailable, by decide, rfl⟩
              | some k =>
                simp only
                split_ifs with hk
                · exact .inl ⟨unavailable, by decide, rfl⟩
                · simp only [not_or, Bool.not_eq_false] at hk
                  exact .inr ⟨k, hk.1, rfl⟩
        · exact .inl ⟨conflict, by decide, by simp [execute, hload, hv, hid]⟩

/-!
The client knows the password and enabling phases at one revision each. They come back at
later revisions when a password is set again or a disabled account is enabled again.
-/

open EffectProgram RevisionStore RevisionEngine JournaledCommands
open SmbProvision (Journal Phase Failure Observation Mutation schema program)

def Understood (j : Journal) : Prop := replyAdmits j.phase j.revision = true

instance : DecidablePred Understood := fun _ => inferInstanceAs (Decidable (_ = true))

/-- Setting a password starts from no phase that already has one, and enabling from no phase
that was enabled before. -/
def FirstPass (call : SmbProvision.Call) (w : SmbProvision.State) : Prop :=
  match call with
  | .setPasswordDisabled _ _ _ _ => ∀ j, w.engine.visible = some j →
      j.phase ≠ .credentialSetDisabled ∧ j.phase ≠ .disabled
  | .enable _ _ _ => ∀ j, w.engine.visible = some j → j.phase ≠ .disabled
  | _ => True

def sharedPhase : Phase → Bool
  | .passwordIntent | .credentialSetDisabled | .enableIntent => false
  | _ => true

theorem understood_of_valid {n : Journal} (hv : n.validate = true)
    (hp : sharedPhase n.phase = true) : Understood n := by
  have hadmits := ((SmbProvision.validate_iff n).mp hv).2.2.1
  unfold Understood
  cases h : n.phase <;> rw [h] at hadmits hp <;> first | exact hadmits | cases hp

section Walk

variable {w : SmbProvision.State} {α : Type}

abbrev Reported (m : SmbProvision.Operation α) (w : SmbProvision.State) : Prop :=
  Meets (environment schema) (Holds Understood) (fun _ _ _ => True) m () w

theorem walks_understood : SmbProvision.Walks (Holds Understood) where
  observe h hu := h.observe hu
  review h _ _ hu := h.commit (fun hadm => understood_of_valid hadm.valid rfl) hu

theorem perform_reported (h : Holds Understood w) {j intent : Journal}
    {command : SmbProvision.Command} {accept : Observation → Bool}
    {confirmed : Observation → Journal} (hnot : intent.phase ≠ .reviewRequired)
    (hintent : Admissible schema w.engine.visible j.revision intent → Understood intent)
    (hconfirmed : Admissible schema w.engine.visible j.revision intent → ∀ o,
      Admissible schema (some intent) intent.revision (confirmed o) → Understood (confirmed o)) :
    Reported (SmbProvision.perform j intent command accept confirmed) w := by
  refine SmbProvision.perform_walk walks_understood h hnot (fun r u hu => h.commit hintent hu)
    (fun u hu _ _ => hu.of_engine rfl) ?_
  intro hadm o v r x _ hv heng _ hx
  refine hv.commit (fun hnext => hconfirmed hadm o ?_) hx
  rw [heng] at hnext
  exact hnext

theorem createStep_reported (h : Holds Understood w) (j : Journal) :
    Reported (SmbProvision.createStep j) w :=
  perform_reported h nofun (fun hadm => understood_of_valid hadm.valid rfl)
    fun _ _ hadm => understood_of_valid hadm.valid rfl

theorem mutation_reported (h : Holds Understood w) {m : Mutation} {j : Journal}
    (hnot : m.intent ≠ .reviewRequired)
    (hintent : replyAdmits m.intent (j.revision + 1) = true)
    (hconfirmed : replyAdmits m.confirmed (j.revision + 2) = true) :
    Reported (m.performs j) w := by
  refine perform_reported h hnot (fun hadm => ?_) fun hfirst _ hadm => ?_
  · unfold Understood
    rw [show (j.advance m.intent).revision = j.revision + 1 from hadm.revision]
    exact hintent
  · have hnext : (j.advance m.intent).revision = j.revision + 1 := hfirst.revision
    have hlast : ((j.advance m.intent).advance m.confirmed).revision =
        (j.advance m.intent).revision + 1 := hadm.revision
    unfold Understood
    rw [hlast, hnext]
    exact hconfirmed

theorem passwordSetting_first {secret : Bytes} {j : Journal} (hj : Understood j)
    (hfirst : j.phase ≠ .credentialSetDisabled ∧ j.phase ≠ .disabled)
    (hs : (SmbProvision.passwordSetting secret).source j.phase = true) :
    replyAdmits .passwordIntent (j.revision + 1) = true ∧
      replyAdmits .credentialSetDisabled (j.revision + 2) = true := by
  have hp : j.phase = .disabledNoPassword := by
    simp only [SmbProvision.passwordSetting, Bool.or_eq_true, decide_eq_true_eq] at hs
    rcases hs with (hs | hs) | hs
    · exact hs
    · exact absurd hs hfirst.1
    · exact absurd hs hfirst.2
  have hrev : j.revision = 3 := by simpa [Understood, hp, replyAdmits] using hj
  rw [hrev]
  exact ⟨rfl, rfl⟩

theorem enabling_first {j : Journal} (hj : Understood j) (hfirst : j.phase ≠ .disabled)
    (hs : SmbProvision.enabling.source j.phase = true) :
    replyAdmits .enableIntent (j.revision + 1) = true ∧
      replyAdmits .enabled (j.revision + 2) = true := by
  have hp : j.phase = .credentialSetDisabled := by
    simp only [SmbProvision.enabling, Bool.or_eq_true, decide_eq_true_eq] at hs
    exact hs.resolve_right hfirst
  have hrev : j.revision = 5 := by simpa [Understood, hp, replyAdmits] using hj
  rw [hrev]
  exact ⟨rfl, rfl⟩

theorem disabling_always {j : Journal} (hj : Understood j)
    (hs : SmbProvision.disabling.source j.phase = true) :
    replyAdmits .disableIntent (j.revision + 1) = true ∧
      replyAdmits .disabled (j.revision + 2) = true := by
  have hp : j.phase = .enabled := by simpa [SmbProvision.disabling] using hs
  unfold Understood at hj
  rw [hp] at hj
  simp only [replyAdmits, Bool.and_eq_true, decide_eq_true_eq] at hj ⊢
  omega

theorem mutation_first {call : SmbProvision.Call} (hfirst : FirstPass call w) {m : Mutation}
    (hm : call.mutation = some m) {j : Journal} (hj : w.engine.visible = some j)
    (hu : Understood j) (hs : m.source j.phase = true) :
    replyAdmits m.intent (j.revision + 1) = true ∧
      replyAdmits m.confirmed (j.revision + 2) = true := by
  cases call with
  | setPasswordDisabled ctx backend expected secret =>
    obtain rfl := Option.some.inj hm
    exact passwordSetting_first hu (hfirst j hj) hs
  | enable ctx backend expected =>
    obtain rfl := Option.some.inj hm
    exact enabling_first hu (hfirst j hj) hs
  | disable ctx backend expected =>
    obtain rfl := Option.some.inj hm
    exact disabling_always hu hs
  | _ => cases hm

theorem program_reported (call : SmbProvision.Call) (w : SmbProvision.State)
    (h : Holds Understood w) (hfirst : FirstPass call w) :
    Safe (environment schema) (Holds Understood) (fun _ _ => True) (program call) w := by
  refine SmbProvision.program_walk walks_understood h call
    (fun _ j hu _ _ => createStep_reported hu j) ?_
    fun u n r v hu hv hp hcommit => hu.commit (fun _ => understood_of_valid hv (hp ▸ rfl)) hcommit
  intro m hm u j hu heng hj hs
  obtain ⟨hintent, hconfirmed⟩ := mutation_first hfirst hm (heng ▸ hj) (hu.1 j hj) hs
  refine mutation_reported hu (fun hp => ?_) hintent hconfirmed
  have hisIntent := (SmbProvision.mutation_fits hm).isIntent
  rw [hp] at hisIntent
  cases hisIntent

end Walk

/-- Histories of one Samba journal in which every call that commits is on its first pass. -/
abbrev FirstPassRun : SmbProvision.State → List (Event SmbProvision.Call SmbProvision.Answer) →
    SmbProvision.State → Prop :=
  Execution fun w l u => Step schema program w l u ∧
    ∀ call, l.call = some call → Commits w u → FirstPass call w

variable {w : SmbProvision.State} {ls : List (Event SmbProvision.Call SmbProvision.Answer)}

theorem FirstPassRun.run {v : SmbProvision.State} (h : FirstPassRun w ls v) :
    Execution (Step schema program) w ls v := by
  induction h with
  | nil => exact .nil _
  | snoc _ hs ih => exact .snoc ih hs.1

/-- On a first pass the client understands every journal. -/
theorem reachable_understood (h : FirstPassRun SmbProvision.emptyOperation ls w) :
    Holds Understood w := by
  refine run_holds program_reported ⟨?_, ?_⟩ h
  · intro j hj
    cases hj
  · intro j hj
    cases hj

theorem reachable_valid (h : Execution (Step schema program) SmbProvision.emptyOperation ls w)
    {j : Journal} (hj : w.engine.visible = some j ∨ w.engine.durable = some j) :
    j.validate = true ∧ j.revision < 2 ^ 64 := by
  have hsound := SmbProvision.reachable_sound h
  have hvalid : j.validate = true ∧ j.revision ≤ maxUint64 := by
    rcases hj with hj | hj
    · exact SmbProvision.visible_valid hsound hj
    · exact SmbProvision.extends_valid hsound.reached (by simp) hj
  have hmax : maxUint64 < 2 ^ 64 := by decide
  exact ⟨hvalid.1, by omega⟩

/-- While no commit sets a password a second time or enables a disabled account again, every
journal of a history is reported and read back unchanged. Version 1 replies and all failures
are read back in any case. -/
theorem first_pass_replies_understood {w : SmbProvision.State}
    {ls : List (Event SmbProvision.Call SmbProvision.Answer)}
    (h : FirstPassRun SmbProvision.emptyOperation ls w) :
    (∀ j, w.engine.visible = some j ∨ w.engine.durable = some j →
      decodeResponse (marshalResponse (smbStateResponse j.account.id j)) 2 =
        some ⟨2, ok, j.revision, smbPhase j.phase⟩) ∧
    (∀ j : IdentityProvision.Journal, j.validate = true →
      decodeResponse (marshalResponse (identityResponse j)) 1 =
        some ⟨1, ok, j.revision, identityPhase j.phase⟩) ∧
    (∀ accountID isStep op, decodeResponse (marshalResponse (execute accountID isStep op)) 1 =
      some (execute accountID isStep op)) ∧
    (∀ accountID action op, (executeSMB accountID action op).code ≠ ok →
      decodeResponse (marshalResponse (executeSMB accountID action op)) 2 =
        some (executeSMB accountID action op)) ∧
    ∀ version : Int, version = 1 ∨ version = 2 →
      decodeResponse (marshalResponse (failure version invalid)) version =
        some (failure version invalid) := by
  refine ⟨?_, fun j => decode_identityResponse, ?_, ?_, ?_⟩
  · intro j hj
    obtain ⟨hv, hlt⟩ := reachable_valid h.run hj
    have hu : Understood j := hj.elim ((reachable_understood h).1 j) ((reachable_understood h).2 j)
    rw [decode_smbStateResponse hv hlt]
    exact if_pos hu
  · intro accountID isStep op
    rcases execute_cases accountID isStep op with ⟨code, hcode, heq⟩ | ⟨j, hv, heq⟩
    · rw [heq]
      exact decode_failure (.inl rfl) hcode
    · rw [heq]
      exact decode_identityResponse hv
  · intro accountID action op hne
    rcases executeSMB_cases accountID action op with
      ⟨code, hcode, heq⟩ | ⟨_, j, _, _, hv, hid, heq⟩
    · rw [heq]
      exact decode_failure (.inr rfl) hcode
    · refine absurd ?_ hne
      rw [heq]
      simp [smbStateResponse, hv, hid]
  · intro version hv
    refine decode_failure hv ?_
    rcases hv with rfl | rfl <;> decide

open SmbProvision (alice aliceSID honestPassdb afterCall emptyOperation)

def secret : Bytes := ascii "correct horse"

def aliceOpened : SmbProvision.State := ⟨.ready none, []⟩
def aliceBegun : SmbProvision.State := afterCall aliceOpened (.begin true true 5 alice)
def aliceCreated : SmbProvision.State := afterCall aliceBegun (.step true true 1)
def aliceSecret : SmbProvision.State :=
  afterCall aliceCreated (.setPasswordDisabled true true 3 secret)
def aliceRotated : SmbProvision.State :=
  afterCall aliceSecret (.setPasswordDisabled true true 5 secret)

theorem alice_first_password_understood :
    aliceSecret.engine.visible =
        some ⟨SmbProvision.formatName, 1, 5, 5, alice, aliceSID, .credentialSetDisabled⟩ ∧
      decodeResponse (marshalResponse (smbStateResponse alice.id
          ⟨SmbProvision.formatName, 1, 5, 5, alice, aliceSID, .credentialSetDisabled⟩)) 2 =
        some ⟨2, ok, 5, smbPhase .credentialSetDisabled⟩ := by
  have hvisible : aliceSecret.engine.visible =
      some ⟨SmbProvision.formatName, 1, 5, 5, alice, aliceSID, .credentialSetDisabled⟩ := by
    decide
  have hrun : FirstPassRun emptyOperation _ aliceSecret :=
    .snoc (.snoc (.snoc (.snoc (.nil _)
      ⟨.moved .opens, by simp [Event.call]⟩)
      ⟨step_serve schema honestPassdb program (.begin true true 5 alice) aliceOpened,
        by rintro _ ⟨⟩ -; trivial⟩)
      ⟨step_serve schema honestPassdb program (.step true true 1) aliceBegun,
        by rintro _ ⟨⟩ -; trivial⟩)
      ⟨step_serve schema honestPassdb program (.setPasswordDisabled true true 3 secret)
        aliceCreated, by
          rintro _ ⟨⟩ - j hj
          have hknown : aliceCreated.engine.visible = some ⟨SmbProvision.formatName, 1, 3, 5,
              alice, aliceSID, .disabledNoPassword⟩ := by decide
          change aliceCreated.engine.visible = some j at hj
          rw [hknown] at hj
          cases hj
          exact ⟨by decide, by decide⟩⟩
  exact ⟨hvisible, (first_pass_replies_understood hrun).1 _ (.inl hvisible)⟩

/-- A password set again is committed and reported, and the client rejects the report. -/
theorem rotated_password_misread :
    ∃ ls w j, Execution (Step schema program) emptyOperation ls w ∧
      w.engine = .ready (some j) ∧ j.phase = .credentialSetDisabled ∧ j.revision = 7 ∧
      smbStateResponse j.account.id j = ⟨2, ok, 7, smbPhase .credentialSetDisabled⟩ ∧
      decodeResponse (marshalResponse (smbStateResponse j.account.id j)) 2 = none := by
  refine ⟨_, aliceRotated,
    ⟨SmbProvision.formatName, 1, 7, 5, alice, aliceSID, .credentialSetDisabled⟩,
    .snoc (.snoc (.snoc (.snoc (.snoc (.nil _) (.moved .opens))
      (step_serve schema honestPassdb program (.begin true true 5 alice) aliceOpened))
      (step_serve schema honestPassdb program (.step true true 1) aliceBegun))
      (step_serve schema honestPassdb program (.setPasswordDisabled true true 3 secret)
        aliceCreated))
      (step_serve schema honestPassdb program (.setPasswordDisabled true true 5 secret)
        aliceSecret), by decide, rfl, rfl, by decide, by decide +kernel⟩

end IdentityRpc
