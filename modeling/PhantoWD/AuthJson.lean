import PhantoWD.JsonKeys

/-!
`decodeAuthJSON` reads one small JSON document into a flat struct of strings. Repeated keys are
refused by spelling before the struct decoder, which matches names without regard to case, sees
the body.
-/
namespace AuthJson

open GoText GoJson JsonKeys

def maxAuthBodySize : Nat := 2048

/-- The service decodes a password change elsewhere, with an exact table of keys; as a
destination it differs from the others in its names only. -/
inductive Destination where
  | login
  | setup
  | passwordChange
  deriving DecidableEq

def Destination.names : Destination → List Bytes
  | .login | .setup => [ascii "username", ascii "password"]
  | .passwordChange => [ascii "current_password", ascii "new_password"]

structure Request where
  contentTypes : List Bytes
  contentEncoding : Bytes
  rawQuery : Bytes
  forceQuery : Bool
  contentLength : Int
  body : Bytes
  readFails : Bool := false
  deriving DecidableEq

/-- `rejectDuplicateJSONKeys`. A number outside the range of a float also fails the scan; no
field of a destination takes a number, so the decoder refuses the body in any case. -/
def rejectDuplicateJSONKeys (data : Bytes) : Bool :=
  (parse data).any fun v => uniqueValue none 0 v

/-- `decoder.Decode` with `DisallowUnknownFields`, then nothing but white space. -/
def decodeStruct (names : List Bytes) (data : Bytes) : Option (List Bytes) := do
  let members ← structMembers data
  guard (knownFields names members)
  names.mapM fun name => bindString (bound names name members)

def decodeAuthJSON (parseMediaType : Bytes → Option Bytes) (d : Destination) (r : Request) :
    Option (List Bytes) :=
  match r.contentTypes with
  | [contentType] =>
    if r.contentEncoding != [] then none
    else if parseMediaType contentType != some (ascii "application/json") || r.rawQuery != [] ||
        r.forceQuery || (maxAuthBodySize : Int) < r.contentLength then none
    else if r.readFails || maxAuthBodySize < r.body.length ||
        !rejectDuplicateJSONKeys r.body then none
    else decodeStruct d.names r.body
  | _ => none

variable {parseMediaType : Bytes → Option Bytes} {d : Destination} {r : Request}
  {fields : List Bytes}

theorem decodeStruct_some {names : List Bytes} {data : Bytes}
    (h : decodeStruct names data = some fields) : ∃ members, structMembers data = some members ∧
      (∀ m ∈ members, (fieldOf names m.1).isSome = true) ∧
      names.mapM (fun name => bindString (bound names name members)) = some fields := by
  simp only [decodeStruct, Option.bind_eq_bind, Option.bind_eq_some_iff] at h
  obtain ⟨members, hm, h⟩ := h
  rw [← Option.bind_eq_some_iff, guard_bind] at h
  rw [knownFields, List.all_eq_true] at h
  exact ⟨members, hm, h.1, h.2⟩

theorem decodeAuthJSON_some (h : decodeAuthJSON parseMediaType d r = some fields) :
    rejectDuplicateJSONKeys r.body = true ∧ decodeStruct d.names r.body = some fields := by
  rw [decodeAuthJSON] at h
  split at h
  · split_ifs at h with _ _ hbody
    simp only [Bool.or_eq_true, Bool.not_eq_true', not_or, Bool.not_eq_false] at hbody
    exact ⟨hbody.2, h⟩
  · simp at h

theorem names_distinct (d : Destination) : Distinct d.names := by
  cases d <;> decide +kernel

/-- One JSON value; every member of a top-level object binds a field, and no field is bound
twice, so that taking the first or the last of its members makes no difference. -/
def Unambiguous (names : List Bytes) (body : Bytes) : Prop :=
  ∃ v, parse body = some v ∧ ∀ members, v = .obj members →
    (∀ m ∈ members.toList, ∃ name ∈ names, fieldOf names m.1 = some name) ∧
      ∀ name ∈ names, (bound names name members.toList).length ≤ 1 ∧
        (bound names name members.toList).head? = (bound names name members.toList).getLast?

/-- No two members of the top-level object have names that differ in letter case only. -/
def SpelledOnce (body : Bytes) : Prop :=
  ∀ members, parse body = some (.obj members) → ¬ CaseVariants members.toList

theorem head_getLast {α : Type} {l : List α} (h : l.length ≤ 1) : l.head? = l.getLast? := by
  match l with
  | [] => rfl
  | [_] => rfl
  | _ :: _ :: _ => simp at h

/-- An accepted body is unambiguous exactly when no name has two spellings in it. -/
theorem accepted_body_unambiguous_iff (parseMediaType : Bytes → Option Bytes) (d : Destination)
    (r : Request) (fields : List Bytes)
    (h : decodeAuthJSON parseMediaType d r = some fields) :
    Unambiguous d.names r.body ↔ SpelledOnce r.body := by
  obtain ⟨hunique, hstruct⟩ := decodeAuthJSON_some h
  obtain ⟨bound_members, hmembers, hknown, _⟩ := decodeStruct_some hstruct
  rw [rejectDuplicateJSONKeys, Option.any_eq_true] at hunique
  obtain ⟨v, hparse, hunique⟩ := hunique
  constructor
  · rintro ⟨w, hw, hobject⟩ members hobj hvariants
    rw [hobj, Option.some.injEq] at hw
    obtain ⟨hselect, honce⟩ := hobject members hw.symm
    have hv : v = .obj members := by simpa [hparse] using hobj
    have hnodup : (members.toList.map Prod.fst).Nodup := uniqueValue_nodup (hv ▸ hunique)
    have hsome : ∀ m ∈ members.toList, (fieldOf d.names m.1).isSome = true := by
      intro m hm
      obtain ⟨name, _, hname⟩ := hselect m hm
      rw [hname]
      rfl
    obtain ⟨name, hname, htwice⟩ :=
      (boundTwice_iff (names_distinct d) hnodup hsome).mpr hvariants
    exact absurd (honce name hname).1 (by omega)
  · intro honce
    refine ⟨v, hparse, ?_⟩
    rintro members rfl
    have hsame : bound_members = members.toList := by
      rw [structMembers, hparse] at hmembers
      exact (Option.some.inj hmembers).symm
    rw [hsame] at hknown
    have hnodup : (members.toList.map Prod.fst).Nodup := uniqueValue_nodup hunique
    constructor
    · intro m hm
      obtain ⟨name, hname⟩ := Option.isSome_iff_exists.mp (hknown m hm)
      exact ⟨name, (fieldOf_folds hname).1, hname⟩
    · intro name hname
      have hle : (bound d.names name members.toList).length ≤ 1 := by
        by_contra hlt
        exact honce members hparse ((boundTwice_iff (names_distinct d) hnodup hknown).mp
          ⟨name, hname, by omega⟩)
      exact ⟨hle, head_getLast hle⟩

def loginRequest (body : Bytes) : Request :=
  ⟨[ascii "application/json"], [], [], false, body.length, body, false⟩

def plainLogin : Bytes := ascii "\x7b\"username\":\"nas-admin\",\"Password\":\"secret\"\x7d"

def doubledLogin : Bytes :=
  ascii ("\x7b\"username\":\"nas-admin\",\"Username\":\"other\"," ++
    "\"password\":\"secret\"\x7d")

theorem plain_login_unambiguous :
    decodeAuthJSON some .login (loginRequest plainLogin) =
        some [ascii "nas-admin", ascii "secret"] ∧
      (Unambiguous Destination.login.names plainLogin ↔ SpelledOnce plainLogin) := by
  have h : decodeAuthJSON some .login (loginRequest plainLogin) =
      some [ascii "nas-admin", ascii "secret"] := by decide +kernel
  exact ⟨h, accepted_body_unambiguous_iff some .login _ _ h⟩

/-- Two spellings of one name pass the duplicate check, and the decoder binds both. -/
theorem doubled_login_ambiguous :
    decodeAuthJSON some .login (loginRequest doubledLogin) =
        some [ascii "other", ascii "secret"] ∧
      ¬ Unambiguous Destination.login.names doubledLogin := by
  refine ⟨by decide +kernel, ?_⟩
  rintro ⟨v, hv, hobject⟩
  have hparse : parse doubledLogin = some (.obj (.ofList
      [(ascii "username", .str (ascii "nas-admin")), (ascii "Username", .str (ascii "other")),
        (ascii "password", .str (ascii "secret"))])) := by decide +kernel
  rw [hparse, Option.some.injEq] at hv
  have hbound := ((hobject _ hv.symm).2 (ascii "username") (by decide)).1
  exact absurd hbound (by decide +kernel)

end AuthJson
