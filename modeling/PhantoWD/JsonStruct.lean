import PhantoWD.ConfigJson
import PhantoWD.TextFields

/-!
A struct is a list of named fields. Marshalling writes them in order; unmarshalling visits the
members of an object in the order of the text and stores each in the field its key selects.
-/
namespace JsonStruct

open GoText GoJson ConfigJson

/-- How a type is written and read. Reading starts from what the variable holds. -/
structure Codec (α : Type) where
  zero : α
  write : α → Value
  read : Value → α → Option α

structure Field (S : Type) where
  name : Bytes
  write : S → Option Value
  read : Value → S → Option S

def Codec.string : Codec Bytes where
  zero := []
  write := .str
  read v old := match v with
    | .str text => some text
    | .null => some old
    | _ => none

def Codec.uint (bits : Nat) : Codec Nat where
  zero := 0
  write n := .num (formatUint n)
  read v old := match v with
    | .num literal => asUint bits (.num literal)
    | .null => some old
    | _ => none

def Codec.via {α β : Type} (c : Codec α) (ofModel : α → β) (toModel : β → α) : Codec β where
  zero := ofModel c.zero
  write b := c.write (toModel b)
  read v old := (c.read v (toModel old)).map ofModel

def Codec.uint64 : Codec UInt64 := (Codec.uint 64).via UInt64.ofNat UInt64.toNat
def Codec.uint32 : Codec UInt32 := (Codec.uint 32).via UInt32.ofNat UInt32.toNat
def Codec.uint16 : Codec UInt16 := (Codec.uint 16).via UInt16.ofNat UInt16.toNat

def Codec.int : Codec Int where
  zero := 0
  write n := .num (formatInt n)
  read v old := match v with
    | .num literal => parseInt literal
    | .null => some old
    | _ => none

def Codec.slice {α : Type} (c : Codec α) : Codec (Slice α) where
  zero := none
  write s := match s with
    | none => .null
    | some l => .arr (.ofList (l.map c.write))
  read v _ := match v with
    | .arr items => (items.toList.mapM fun v => c.read v c.zero).map some
    | .null => some none
    | _ => none

def Codec.pointer {α : Type} (c : Codec α) : Codec (Option α) where
  zero := none
  write p := match p with
    | none => .null
    | some a => c.write a
  read v old := if v = .null then some none else (c.read v (old.getD c.zero)).map some

def store {S : Type} (fields : List (Field S)) (s : S) (m : Bytes × Value) : Option S := do
  let name ← fieldOf (fields.map Field.name) m.1
  let field ← fields.find? fun f => f.name = name
  field.read m.2 s

def Codec.struct {S : Type} (zero : S) (fields : List (Field S)) : Codec S where
  zero := zero
  write s := .obj (.ofList (fields.filterMap fun f => (f.write s).map fun v => (f.name, v)))
  read v old := match v with
    | .obj members => members.toList.foldlM (store fields) old
    | .null => some old
    | _ => none

def Field.of {S α : Type} (name : Bytes) (c : Codec α) (get : S → α) (set : α → S → S) :
    Field S where
  name := name
  write s := some (c.write (get s))
  read v s := (c.read v (get s)).map fun a => set a s

def Field.omitEmpty {S : Type} (name : Bytes) (get : S → Bytes) (set : Bytes → S → S) :
    Field S where
  name := name
  write s := if get s = [] then none else some (.str (get s))
  read := (Field.of name .string get set).read

def decodeDocument {α : Type} (c : Codec α) (data : Bytes) (maxBytes maxDepth : Nat)
    (keys : List Bytes) : Option α :=
  (decodeValue data maxBytes maxDepth keys).bind fun v => c.read v c.zero

def unmarshal {α : Type} (c : Codec α) (raw : Bytes) : Option α :=
  (parse raw).bind fun v => c.read v c.zero

/-- The document passes the screen of a decoder with these keys and this nesting limit. An
envelope has no key set of its own for what it encloses. -/
structure Fits (keys : Option (List Bytes)) (height : Nat) (v : Value) : Prop where
  encodable : v.Encodable
  scans : ∀ depth maxDepth, depth + height ≤ maxDepth → scanValue maxDepth keys depth v = true

structure Carries {α : Type} (keys : Option (List Bytes)) (height : Nat) (c : Codec α)
    (v : Value) (a : α) : Prop where
  fits : Fits keys height v
  reads : c.read v c.zero = some a

section Rules

variable {keys : Option (List Bytes)} {height : Nat} {α S : Type} {c : Codec α}

variable {v : Value}

/-- A scalar nests in nothing, so it fits at every height. -/
theorem fits_scalar (he : v.Encodable)
    (hs : ∀ depth maxDepth, scanValue maxDepth keys depth v = decide (depth ≤ maxDepth)) :
    Fits keys height v := by
  refine ⟨he, fun depth maxDepth hd => ?_⟩
  rw [hs, decide_eq_true_eq]
  omega

theorem carries_string {text : Bytes} (h : validString text = true) :
    Carries keys height .string (.str text) text :=
  ⟨fits_scalar h fun _ _ => rfl, rfl⟩

theorem carries_uint {bits n : Nat} (hb : bits ≤ 64) (h : n < 2 ^ bits) :
    Carries keys height (.uint bits) (.num (formatUint n)) n :=
  ⟨fits_scalar ⟨n, rfl⟩ fun _ _ => rfl, asUint_formatUint hb h⟩

theorem carries_via {β : Type} {ofModel : α → β} {toModel : β → α} {b : β}
    (hz : toModel (ofModel c.zero) = c.zero) (hb : ofModel (toModel b) = b)
    (h : Carries keys height c v (toModel b)) :
    Carries keys height (c.via ofModel toModel) v b := by
  refine ⟨h.fits, ?_⟩
  change (c.read v (toModel (ofModel c.zero))).map ofModel = some b
  rw [hz, h.reads, Option.map_some, hb]

theorem carries_uint64 (n : UInt64) :
    Carries keys height .uint64 (.num (formatUint n.toNat)) n :=
  carries_via rfl UInt64.ofNat_toNat (carries_uint (Nat.le_refl 64) n.toNat_lt)

theorem carries_uint32 (n : UInt32) :
    Carries keys height .uint32 (.num (formatUint n.toNat)) n :=
  carries_via rfl UInt32.ofNat_toNat (carries_uint (by decide) n.toNat_lt)

theorem carries_uint16 (n : UInt16) :
    Carries keys height .uint16 (.num (formatUint n.toNat)) n :=
  carries_via rfl UInt16.ofNat_toNat (carries_uint (by decide) n.toNat_lt)

/-- The integer fields of the documents are small and not negative. -/
theorem carries_int {n : Nat} (h : n < 2 ^ 63) :
    Carries keys height .int (.num (formatInt n)) n := by
  have hformat : formatInt n = formatUint n := by
    rw [formatInt, if_neg (by omega), Int.toNat_natCast]
  have hparse : parseInt (formatUint n) = some n := by
    obtain ⟨b, t, hf, hb, _⟩ := formatUint_cons n
    have hsign : (formatUint n).head? ≠ some 0x2d := by
      rw [hf]
      simpa using isDigit_ne hb rfl
    have hbound : n < 9223372036854775808 := h
    rw [parseInt, if_neg hsign, parseUint_formatUint (Nat.lt_trans h (by decide))]
    simp [hbound]
  rw [hformat]
  exact ⟨fits_scalar ⟨n, rfl⟩ fun _ _ => rfl, hparse⟩

/-- The schema version of every document. -/
theorem carries_schema {n : Int} (h : n = 1) : Carries keys height .int (.num (formatInt n)) n := by
  subst h
  exact carries_int (n := 1) (by decide)

theorem carries_slice_map {β : Type} {l : List β} {one : β → Value} {out : β → α}
    (h : ∀ b ∈ l, Carries keys height c (one b) (out b)) :
    Carries keys (height + 1) c.slice (.arr (.ofList (l.map one))) (some (l.map out)) := by
  have hencodable : (Elements.ofList (l.map one)).Encodable := by
    induction l with
    | nil => trivial
    | cons b rest ih =>
      exact ⟨(h b (by simp)).fits.encodable, ih fun d hd => h d (by simp [hd])⟩
  have hscan : ∀ depth maxDepth, depth + height ≤ maxDepth →
      scanElements maxDepth keys depth (.ofList (l.map one)) = true := by
    intro depth maxDepth hd
    clear hencodable
    induction l with
    | nil => rfl
    | cons b rest ih =>
      have hhead := (h b (by simp)).fits.scans depth maxDepth hd
      have htail := ih fun d hd => h d (by simp [hd])
      simp [Elements.ofList, scanElements, hhead, htail]
  have hreads : (l.map one).mapM (fun v => c.read v c.zero) = some (l.map out) :=
    TextFields.mapM_some fun b hb => (h b hb).reads
  refine ⟨⟨hencodable, ?_⟩, ?_⟩
  · intro depth maxDepth hd
    have hdepth : depth ≤ maxDepth := by omega
    simp [scanValue, hdepth, hscan (depth + 1) maxDepth (by omega)]
  · simp [Codec.slice, hreads]

theorem carries_slice {l : List α} {one : α → Value}
    (h : ∀ a ∈ l, Carries keys height c (one a) a) :
    Carries keys (height + 1) c.slice (.arr (.ofList (l.map one))) (some l) := by
  have hmap := @carries_slice_map keys height α c α l one id h
  rwa [List.map_id] at hmap

theorem carries_pointer {a : α} (h : Carries keys height c v a) (hv : v ≠ .null) :
    Carries keys height c.pointer v (some a) := by
  refine ⟨h.fits, ?_⟩
  change (if v = .null then some none else (c.read v c.zero).map some) = some (some a)
  rw [if_neg hv, h.reads]
  rfl

/-- The members fill the fields, one after another, and lead from one struct to another. A field
without a member keeps what it holds. -/
inductive Filled (keys : Option (List Bytes)) (height : Nat) :
    List (Field S) → List (Bytes × Value) → S → S → Prop
  | nil {s : S} : Filled keys height [] [] s s
  | put {f : Field S} {fields : List (Field S)} {v : Value} {members : List (Bytes × Value)}
      {s s₁ s' : S} (hv : Fits keys height v) (hr : f.read v s = some s₁)
      (rest : Filled keys height fields members s₁ s') :
      Filled keys height (f :: fields) ((f.name, v) :: members) s s'
  | skip {f : Field S} {fields : List (Field S)} {members : List (Bytes × Value)} {s s' : S}
      (rest : Filled keys height fields members s s') :
      Filled keys height (f :: fields) members s s'

variable {fields : List (Field S)} {members : List (Bytes × Value)} {s s' : S}

theorem Filled.field {name : Bytes} {get : S → α} {set : α → S → S} {a : α}
    (h : Carries keys height c v a) (rest : Filled keys height fields members (set a s) s')
    (hz : get s = c.zero := by rfl) :
    Filled keys height (.of name c get set :: fields) ((name, v) :: members) s s' := by
  refine .put (f := .of name c get set) h.fits ?_ rest
  change (c.read v (get s)).map (fun a => set a s) = some (set a s)
  rw [hz, h.reads]
  rfl

theorem Filled.text {name text : Bytes} {get : S → Bytes} {set : Bytes → S → S}
    (h : validString text = true) (rest : Filled keys height fields members (set text s) s')
    (hz : get s = [] := by rfl) :
    Filled keys height (.of name .string get set :: fields) ((name, .str text) :: members) s s' :=
  .field (carries_string h) rest hz

theorem Filled.optional {name text : Bytes} {get : S → Bytes} {set : Bytes → S → S}
    (h : Carries keys height .string (.str text) text)
    (rest : Filled keys height fields members (set text s) s') (hz : get s = [] := by rfl) :
    Filled keys height (.omitEmpty name get set :: fields) ((name, .str text) :: members) s s' := by
  refine .put (f := .omitEmpty name get set) h.fits ?_ rest
  change (Codec.string.read (.str text) (get s)).map (fun a => set a s) = some (set text s)
  rw [hz]
  rfl

theorem Filled.names_sublist (h : Filled keys height fields members s s') :
    (members.map Prod.fst).Sublist (fields.map Field.name) := by
  induction h with
  | nil => exact .slnil
  | put _ _ _ ih => exact ih.cons_cons _
  | skip _ ih => exact ih.cons _

theorem Filled.values (h : Filled keys height fields members s s') :
    ∀ m ∈ members, Fits keys height m.2 := by
  induction h with
  | nil => simp
  | put hv _ _ ih =>
    intro m hm
    rcases List.mem_cons.mp hm with rfl | hm
    · exact hv
    · exact ih m hm
  | skip _ ih => exact ih

theorem store_of_mem {all : List (Field S)} (hn : (all.map Field.name).Nodup) {f : Field S}
    (hf : f ∈ all) (v : Value) (s : S) : store all s (f.name, v) = f.read v s := by
  have hname : f.name ∈ all.map Field.name := List.mem_map_of_mem hf
  have hfind : all.find? (fun g => g.name = f.name) = some f := by
    induction all with
    | nil => simp at hf
    | cons g rest ih =>
      rw [List.map_cons, List.nodup_cons] at hn
      rcases List.mem_cons.mp hf with rfl | hf
      · simp
      · have hne : g.name ≠ f.name := fun heq =>
          hn.1 (heq ▸ List.mem_map_of_mem hf)
        rw [List.find?_cons_of_neg (by simpa using hne)]
        exact ih hn.2 hf (List.mem_map_of_mem hf)
  simp [store, fieldOf_exact hname, hfind]

theorem Filled.foldlM {all : List (Field S)} (hn : (all.map Field.name).Nodup)
    (h : Filled keys height fields members s s') (hsub : ∀ f ∈ fields, f ∈ all) :
    members.foldlM (store all) s = some s' := by
  induction h with
  | nil => rfl
  | put _ hr _ ih =>
    rw [List.foldlM_cons, store_of_mem hn (hsub _ (by simp)), hr]
    exact ih fun f hf => hsub f (by simp [hf])
  | skip _ ih => exact ih fun f hf => hsub f (by simp [hf])

theorem scanMembers_ofList {maxDepth depth : Nat} {seen : List Bytes}
    (hkeys : ∀ m ∈ members, keys.all (fun ks => ks.contains m.1) = true)
    (hn : (members.map Prod.fst).Nodup) (hseen : ∀ m ∈ members, m.1 ∉ seen)
    (hv : ∀ m ∈ members, scanValue maxDepth keys depth m.2 = true) :
    scanMembers maxDepth keys depth seen (.ofList members) = true := by
  induction members generalizing seen with
  | nil => rfl
  | cons m rest ih =>
    rw [List.map_cons, List.nodup_cons] at hn
    have htail : scanMembers maxDepth keys depth (m.1 :: seen) (.ofList rest) = true := by
      refine ih (fun p hp => hkeys p (by simp [hp])) hn.2 ?_ fun p hp => hv p (by simp [hp])
      intro p hp hmem
      rcases List.mem_cons.mp hmem with heq | hmem
      · exact hn.1 (heq ▸ List.mem_map_of_mem hp)
      · exact hseen p (by simp [hp]) hmem
    have hkey := hkeys m (by simp)
    simp only [List.contains_eq_mem] at hkey
    simp [Members.ofList, scanMembers, hseen m (by simp), hkey, hv m (by simp), htail]

def goodKey (keys : Option (List Bytes)) (key : Bytes) : Bool :=
  key.all plain && keys.all fun ks => ks.contains key

theorem fits_obj (hkeys : (members.map Prod.fst).all (goodKey keys) = true)
    (hn : (members.map Prod.fst).Nodup) (hv : ∀ m ∈ members, Fits keys height m.2) :
    Fits keys (height + 1) (.obj (.ofList members)) := by
  have hgood : ∀ m ∈ members, m.1.all plain = true ∧
      keys.all (fun ks => ks.contains m.1) = true := by
    intro m hm
    have hm := List.all_eq_true.mp hkeys m.1 (List.mem_map_of_mem hm)
    simpa only [goodKey, Bool.and_eq_true] using hm
  have hencodable : (Members.ofList members).Encodable := by
    clear hn hkeys
    induction members with
    | nil => trivial
    | cons m rest ih =>
      have hkey : validString m.1 = true := validString_plain (hgood m (by simp)).1
      exact ⟨hkey, (hv m (by simp)).encodable,
        ih (fun p hp => hv p (by simp [hp])) fun p hp => hgood p (by simp [hp])⟩
  refine ⟨hencodable, ?_⟩
  intro depth maxDepth hd
  have hdepth : depth ≤ maxDepth := by omega
  have hscan : scanMembers maxDepth keys (depth + 1) [] (.ofList members) = true :=
    scanMembers_ofList (fun m hm => (hgood m hm).2) hn (by simp)
      fun m hm => (hv m hm).scans _ _ (by omega)
  simp [scanValue, hdepth, hscan]

theorem carries_struct {zero : S} (h : Filled keys height fields members zero s)
    (hnames : (fields.map Field.name).all (goodKey keys) = true := by decide)
    (hn : (fields.map Field.name).Nodup := by decide) :
    Carries keys (height + 1) (.struct zero fields) (.obj (.ofList members)) s := by
  have hsub := h.names_sublist
  constructor
  · refine fits_obj ?_ (hsub.nodup hn) h.values
    rw [List.all_eq_true] at hnames ⊢
    exact fun n hm => hnames n (hsub.subset hm)
  · change (Members.ofList members).toList.foldlM (store fields) zero = some s
    rw [Members.toList_ofList]
    exact h.foldlM hn fun f hf => hf

theorem decodeDocument_render {a : α} {maxBytes maxDepth : Nat} {ks : List Bytes}
    (h : Carries (some ks) height c v a) (hlen : v.render.length ≤ maxBytes)
    (hdepth : height ≤ maxDepth) (hpos : ¬ (maxBytes = 0 ∨ maxDepth = 0)) :
    decodeDocument c v.render maxBytes maxDepth ks = some a := by
  rw [decodeDocument, decodeValue_render h.fits.encodable hpos hlen
    (h.fits.scans 0 maxDepth (by omega)), Option.bind_some, h.reads]

theorem unmarshal_render {a : α} (h : Carries keys height c v a) :
    unmarshal c v.render = some a := by
  rw [unmarshal, parse_render h.fits.encodable, Option.bind_some, h.reads]

end Rules

/-!
`json.RawMessage` keeps the bytes of a member's value for a decoder of its own.
-/

def rawMember (parse : Bytes → Option (Value × Bytes)) (s : Bytes) :
    Option ((Bytes × Bytes) × Bytes) := do
  let s := skipSpace s
  if s.head? = some 0x22 then
    let (key, rest) ← stringBody s.length s.tail
    let rest := skipSpace rest
    if rest.head? = some 0x3a then
      let body := skipSpace rest.tail
      let (_, rest) ← parse body
      some ((key, body.take (body.length - rest.length)), rest)
    else none
  else none

def rawRest : Nat → Bytes → Option (List (Bytes × Bytes) × Bytes)
  | 0, _ => none
  | fuel + 1, s =>
    let s := skipSpace s
    if s.head? = some 0x7d then some ([], s.tail)
    else if s.head? = some 0x2c then do
      let (m, rest) ← rawMember (parseValue fuel) s.tail
      let (more, rest) ← rawRest fuel rest
      some (m :: more, rest)
    else none

def rawObject (data : Bytes) : Option (List (Bytes × Bytes)) := do
  let s := skipSpace data
  if s.head? = some 0x7b then
    if (skipSpace s.tail).head? = some 0x7d then
      if skipSpace (skipSpace s.tail).tail = [] then some [] else none
    else do
      let (m, rest) ← rawMember (parseValue data.length) s.tail
      let (more, rest) ← rawRest data.length rest
      if skipSpace rest = [] then some (m :: more) else none
  else none

def rawField (fields : List (Bytes × Bytes)) (name : Bytes) : Option Bytes :=
  (fields.find? fun m => m.1 = name).map Prod.snd

/-- `DecodeEnvelope` with the bytes it keeps of every member. -/
def envelopeFields (data : Bytes) (maxBytes maxDepth : Nat) (required : List Bytes) :
    Option (List (Bytes × Bytes)) :=
  (decodeEnvelope data maxBytes maxDepth required).bind fun _ => rawObject data

def rendered (members : List (Bytes × Value)) : List (Bytes × Bytes) :=
  members.map fun m => (m.1, m.2.render)

theorem rawMember_render {key : Bytes} (hk : validString key = true) {value : Value}
    (hv : value.Encodable) {parse : Bytes → Option (Value × Bytes)} {rest : Bytes}
    (hp : parse (value.render ++ rest) = some (value, rest)) :
    rawMember parse (quoted key ++ 0x3a :: (value.render ++ rest)) =
      some ((key, value.render), rest) := by
  have hhead : (quoted key ++ 0x3a :: (value.render ++ rest)).head? = some 0x22 := rfl
  have hc : isSpace 0x3a = false := rfl
  rw [rawMember, skipSpace_quoted]
  simp only [if_pos hhead, quoted_reads hk]
  simp [skipSpace_cons hc, Value.skipSpace_render hv, hp]

theorem rawRest_render (members : List (Bytes × Value))
    (hk : ∀ m ∈ members, validString m.1 = true) (hv : ∀ m ∈ members, m.2.Encodable)
    (rest : Bytes) {fuel : Nat} (hf : (Members.ofList members).render.length ≤ fuel) :
    rawRest fuel ((Members.ofList members).render ++ rest) = some (rendered members, rest) := by
  induction members generalizing fuel with
  | nil =>
    obtain ⟨fuel, rfl⟩ : ∃ k, fuel = k + 1 :=
      ⟨fuel - 1, by simp [Members.ofList, Members.render] at hf; omega⟩
    rfl
  | cons m tail ih =>
    obtain ⟨fuel, rfl⟩ : ∃ k, fuel = k + 1 :=
      ⟨fuel - 1, by simp [Members.ofList, Members.render] at hf; omega⟩
    have hparse : parseValue fuel (m.2.render ++ ((Members.ofList tail).render ++ rest)) =
        some (m.2, (Members.ofList tail).render ++ rest) :=
      parseValue_render m.2 (hv m (by simp))
        (by simp [Members.ofList, Members.render] at hf; omega)
        fun _ => (Members.ofList tail).render_stops rest
    have hmember := rawMember_render (hk m (by simp)) (hv m (by simp)) hparse
    have htail := ih (fun p hp => hk p (by simp [hp])) (fun p hp => hv p (by simp [hp]))
      (show (Members.ofList tail).render.length ≤ fuel by
        simp [Members.ofList, Members.render] at hf; omega)
    rw [rawRest, ((Members.ofList (m :: tail)).render_stops rest).skipSpace]
    simp [Members.ofList, Members.render, rendered, hmember, htail]

/-- The bytes kept of each member are those its value was rendered to. -/
theorem rawObject_render {members : List (Bytes × Value)}
    (hk : ∀ m ∈ members, validString m.1 = true) (hv : ∀ m ∈ members, m.2.Encodable) :
    rawObject (Value.obj (.ofList members)).render = some (rendered members) := by
  cases members with
  | nil => rfl
  | cons m tail =>
    have hlength : (Value.obj (.ofList (m :: tail))).render.length =
        (quoted m.1).length + m.2.render.length + (Members.ofList tail).render.length + 2 := by
      simp [Members.ofList, Value.render]
      omega
    have hparse : parseValue (Value.obj (.ofList (m :: tail))).render.length
        (m.2.render ++ ((Members.ofList tail).render ++ [])) =
          some (m.2, (Members.ofList tail).render ++ []) :=
      parseValue_render m.2 (hv m (by simp)) (by omega)
        fun _ => (Members.ofList tail).render_stops []
    have hmember := rawMember_render (hk m (by simp)) (hv m (by simp)) hparse
    have htail := rawRest_render tail (fun p hp => hk p (by simp [hp]))
      (fun p hp => hv p (by simp [hp])) []
      (show (Members.ofList tail).render.length ≤
        (Value.obj (.ofList (m :: tail))).render.length by omega)
    have hopen : skipSpace (Value.obj (.ofList (m :: tail))).render =
        0x7b :: (quoted m.1 ++ 0x3a :: (m.2.render ++ ((Members.ofList tail).render ++ []))) := by
      simp [Members.ofList, Value.render, skipSpace_cons (show isSpace 0x7b = false from rfl)]
    have hkey : (skipSpace (quoted m.1 ++ 0x3a ::
        (m.2.render ++ ((Members.ofList tail).render ++ [])))).head? ≠ some 0x7d := by
      rw [skipSpace_quoted]
      simp [quoted]
    rw [rawObject, hopen]
    simp only [List.head?_cons, List.tail_cons, if_true, if_neg hkey, hmember,
      Option.bind_eq_bind, Option.bind_some, htail]
    rfl

@[simp] theorem names_rendered (members : List (Bytes × Value)) :
    (rendered members).map Prod.fst = members.map Prod.fst := by
  simp [rendered]

theorem length_members (members : List (Bytes × Value)) :
    (Members.ofList members).render.length =
      (members.map fun m => (quoted m.1).length + m.2.render.length + 2).sum + 1 := by
  induction members with
  | nil => rfl
  | cons m rest ih =>
    simp only [Members.ofList, Members.render, List.length_cons, List.length_append, ih,
      List.map_cons, List.sum_cons]
    omega

/-- Every member costs its key, its value and two separators; the object costs one brace more. -/
theorem length_obj {members : List (Bytes × Value)} (h : members ≠ []) :
    (Value.obj (.ofList members)).render.length =
      (members.map fun m => (quoted m.1).length + m.2.render.length + 2).sum + 1 := by
  cases members with
  | nil => exact absurd rfl h
  | cons m rest =>
    rw [← length_members]
    simp [Members.ofList, Value.render, Members.render]

/-- What an object costs depends on what each of its fields costs only. -/
theorem length_struct {zero : S} {fields : List (Field S)} {s t : S}
    (h : ∀ f ∈ fields, (f.write s).map (fun v => v.render.length) =
      (f.write t).map fun v => v.render.length) :
    ((Codec.struct zero fields).write s).render.length =
      ((Codec.struct zero fields).write t).render.length := by
  have hwidths : ((fields.filterMap fun f => (f.write s).map fun v => (f.name, v)).map
        fun m => (quoted m.1).length + m.2.render.length + 2) =
      (fields.filterMap fun f => (f.write t).map fun v => (f.name, v)).map
        fun m => (quoted m.1).length + m.2.render.length + 2 := by
    rw [List.map_filterMap, List.map_filterMap]
    refine List.filterMap_congr fun f hf => ?_
    have hf := congrArg (Option.map fun n => (quoted f.name).length + n + 2) (h f hf)
    simpa only [Option.map_map, Function.comp_def] using hf
  simp only [Codec.struct]
  by_cases hnil : (fields.filterMap fun f => (f.write s).map fun v => (f.name, v)) = []
  · rw [hnil] at hwidths
    rw [hnil, List.map_eq_nil_iff.mp hwidths.symm]
  · rw [length_obj hnil, length_obj (fun ht => hnil ?_), hwidths]
    exact List.map_eq_nil_iff.mp (hwidths.trans (List.map_eq_nil_iff.mpr ht))

theorem length_elements (l : List Value) :
    (Elements.ofList l).render.length = (l.map fun v => v.render.length + 1).sum + 1 := by
  induction l with
  | nil => rfl
  | cons v rest ih =>
    simp only [Elements.ofList, Elements.render, List.cons_append, List.length_cons,
      List.length_append, ih, List.map_cons, List.sum_cons]
    omega

theorem length_arr (l : List Value) : (Value.arr (.ofList l)).render.length =
    if l = [] then 2 else (l.map fun v => v.render.length + 1).sum + 1 := by
  cases l with
  | nil => rfl
  | cons v rest =>
    rw [if_neg (by simp), ← length_elements]
    simp [Elements.ofList, Value.render, Elements.render]

mutual
theorem scanValue_open {maxDepth depth : Nat} {keys : List Bytes} (v : Value)
    (h : scanValue maxDepth (some keys) depth v = true) :
    scanValue maxDepth none depth v = true := by
  cases v with
  | null => exact h
  | bool b => exact h
  | num literal => exact h
  | str text => exact h
  | arr items =>
    simp only [scanValue, Bool.and_eq_true] at h ⊢
    exact ⟨h.1, scanElements_open items h.2⟩
  | obj members =>
    simp only [scanValue, Bool.and_eq_true] at h ⊢
    exact ⟨h.1, scanMembers_open members h.2⟩
theorem scanElements_open {maxDepth depth : Nat} {keys : List Bytes} (items : Elements)
    (h : scanElements maxDepth (some keys) depth items = true) :
    scanElements maxDepth none depth items = true := by
  cases items with
  | nil => rfl
  | cons value items =>
    simp only [scanElements, Bool.and_eq_true] at h ⊢
    exact ⟨scanValue_open value h.1, scanElements_open items h.2⟩
theorem scanMembers_open {maxDepth depth : Nat} {keys seen : List Bytes} (members : Members)
    (h : scanMembers maxDepth (some keys) depth seen members = true) :
    scanMembers maxDepth none depth seen members = true := by
  cases members with
  | nil => rfl
  | cons key value members =>
    simp only [scanMembers, Bool.and_eq_true] at h ⊢
    exact ⟨⟨⟨h.1.1.1, rfl⟩, scanValue_open value h.1.2⟩, scanMembers_open members h.2⟩
end

theorem Fits.not_null {keys : Option (List Bytes)} {height : Nat} {v : Value}
    (h : Fits keys height v) : v.render ≠ ascii "null" := by
  intro heq
  have hparse := parse_render h.encodable
  rw [heq, show parse (ascii "null") = some .null by decide, Option.some.injEq] at hparse
  have hscan := h.scans 0 height (by omega)
  rw [← hparse] at hscan
  simp [scanValue] at hscan

theorem Fits.open {keys : List Bytes} {height : Nat} {v : Value}
    (h : Fits (some keys) height v) : Fits none height v :=
  ⟨h.encodable, fun depth maxDepth hd => scanValue_open v (h.scans depth maxDepth hd)⟩

end JsonStruct
