import PhantoWD.ServicePreview
import PhantoWD.IscsiPolicy

/-!
Shares, exports and backing files are kept apart by tests on text. Over the paths the validators
accept, every such test compares the lists of path components.
-/
namespace PathOverlap

open GoText ShareConfig PolicyOrder

/-- The components of a relative path; `.` has none. -/
def components (p : Bytes) : List Bytes := if p = ascii "." then [] else split p 0x2f

def Nested (p q : Bytes) : Prop :=
  components p <+: components q ∨ components q <+: components p

theorem intercalate_append {sep : UInt8} {xs ys : List Bytes} (hx : xs ≠ []) (hy : ys ≠ []) :
    [sep].intercalate (xs ++ ys) = [sep].intercalate xs ++ sep :: [sep].intercalate ys := by
  obtain ⟨x, xs, rfl⟩ := List.exists_cons_of_ne_nil hx
  obtain ⟨y, ys, rfl⟩ := List.exists_cons_of_ne_nil hy
  simp [TextFields.intercalate_cons]

/-- Continuing after a slash is extending the list of components. -/
theorem closed_prefix_iff (a b : Bytes) :
    a = b ∨ below b a = true ↔ split a 0x2f <+: split b 0x2f := by
  rw [below, List.isPrefixOf_iff_prefix]
  constructor
  · rintro (rfl | ⟨r, rfl⟩)
    · exact List.prefix_rfl
    · have happ : split (a ++ 0x2f :: r) 0x2f = split a 0x2f ++ split r 0x2f :=
        List.splitOn_append_cons_self a r
      rw [List.append_assoc, List.singleton_append, happ]
      exact List.prefix_append _ _
  · rintro ⟨r, hr⟩
    have ha : [0x2f].intercalate (split a 0x2f) = a := List.intercalate_splitOn 0x2f
    have hb : [0x2f].intercalate (split b 0x2f) = b := List.intercalate_splitOn 0x2f
    by_cases hnil : r = []
    · subst hnil
      rw [List.append_nil] at hr
      exact .inl (by rw [← ha, ← hb, hr])
    · right
      have hne : split a 0x2f ≠ [] := List.splitOn_ne_nil _ _
      rw [← hb, ← hr, intercalate_append hne hnil, ha]
      exact ⟨[0x2f].intercalate r, by simp⟩

theorem overlap_iff_split (a b : Bytes) :
    (a == b || below a b || below b a) = true ↔
      split a 0x2f <+: split b 0x2f ∨ split b 0x2f <+: split a 0x2f := by
  rw [← closed_prefix_iff, ← closed_prefix_iff, Bool.or_eq_true, Bool.or_eq_true, beq_iff_eq]
  constructor
  · rintro ((heq | hba) | hab)
    · exact .inl (.inl heq)
    · exact .inr (.inr hba)
    · exact .inl (.inr hab)
  · rintro ((heq | hab) | (heq | hba))
    · exact .inl (.inl heq)
    · exact .inr hab
    · exact .inl (.inl heq.symm)
    · exact .inl (.inr hba)

structure Kept (e : Bytes) : Prop where
  nonempty : e ≠ []
  here : e ≠ ascii "."
  parent : e ≠ ascii ".."
  whole : 0x2f ∉ e

theorem foldl_kept {es kept : List Bytes} (h : ∀ e ∈ es, Kept e) :
    es.foldl cleanElement kept = es.reverse ++ kept := by
  induction es generalizing kept with
  | nil => rfl
  | cons e rest ih =>
    obtain ⟨he, hrest⟩ := List.forall_mem_cons.mp h
    have hkeep : cleanElement kept e = e :: kept := by
      simp [cleanElement, he.nonempty, he.here, he.parent]
    rw [List.foldl_cons, hkeep, ih hrest]
    simp

theorem not_mem_part {s e : Bytes} (he : e ∈ split s 0x2f) : 0x2f ∉ e := by
  induction s generalizing e with
  | nil =>
    simp only [split, List.splitOn_nil, List.mem_singleton] at he
    simp [he]
  | cons b rest ih =>
    obtain ⟨first, parts, hsplit⟩ := List.exists_cons_of_ne_nil (List.splitOn_ne_nil 0x2f rest)
    simp only [split, List.splitOn, List.splitOnP_cons_eq_if_modifyHead] at he hsplit ih
    rw [hsplit] at he ih
    by_cases hb : b = 0x2f
    · simp only [hb, beq_self_eq_true, if_true, List.mem_cons] at he
      rcases he with rfl | he
      · simp
      · exact ih (List.mem_cons.mpr he)
    · simp only [beq_iff_eq, hb, if_false, List.modifyHead_cons, List.mem_cons] at he
      rcases he with rfl | he
      · simpa [Ne.symm hb] using ih List.mem_cons_self
      · exact ih (List.mem_cons_of_mem _ he)

variable {p q v : Bytes}

theorem components_kept (h : validPath p = true) : ∀ e ∈ components p, Kept e := by
  intro e he
  rw [components] at he
  by_cases hdot : p = ascii "."
  · simp [hdot] at he
  · rw [if_neg hdot] at he
    simp only [validPath, Bool.and_eq_true, Bool.or_eq_true, beq_iff_eq, hdot,
      false_or, List.all_eq_true, bne_iff_ne] at h
    obtain ⟨⟨hne, hhere⟩, hparent⟩ := h.2 e he
    exact ⟨hne, hhere, hparent, not_mem_part he⟩

def Rooted (base : Bytes) (bs : List Bytes) : Prop :=
  (split base 0x2f).foldl cleanElement [] = bs.reverse

theorem joinRooted_valid {base : Bytes} {bs : List Bytes} (hbase : Rooted base bs)
    (hp : validPath p = true) :
    joinRooted base p = 0x2f :: [0x2f].intercalate (bs ++ components p) := by
  have happ : split (base ++ 0x2f :: p) 0x2f = split base 0x2f ++ split p 0x2f :=
    List.splitOn_append_cons_self base p
  rw [joinRooted, happ, List.foldl_append, show (split base 0x2f).foldl cleanElement [] = _ from
    hbase]
  by_cases hdot : p = ascii "."
  · have hone : (split (ascii ".") 0x2f).foldl cleanElement bs.reverse = bs.reverse := by rfl
    rw [components, if_pos hdot, hdot, hone, List.reverse_reverse, List.append_nil]
  · have hkept := components_kept hp
    rw [components, if_neg hdot] at hkept ⊢
    rw [foldl_kept hkept, List.reverse_append, List.reverse_reverse, List.reverse_reverse]

theorem split_rooted {es : List Bytes} (hne : es ≠ []) (h : ∀ e ∈ es, Kept e) :
    split (0x2f :: [0x2f].intercalate es) 0x2f = [] :: es := by
  have happ : split ([] ++ 0x2f :: [0x2f].intercalate es) 0x2f =
      split [] 0x2f ++ split ([0x2f].intercalate es) 0x2f := List.splitOn_append_cons_self [] _
  have hes : split ([0x2f].intercalate es) 0x2f = es :=
    List.splitOn_intercalate 0x2f (fun e he => (h e he).whole) hne
  rw [← List.nil_append (0x2f :: _), happ, hes]
  rfl

/-- Two paths joined to one base overlap as texts exactly when they are nested. -/
theorem joined_overlap {base : Bytes} {bs : List Bytes} (hbase : Rooted base bs)
    (hbs : ∀ e ∈ bs, Kept e) (hp : validPath p = true)
    (hq : validPath q = true) (hpne : bs ++ components p ≠ [])
    (hqne : bs ++ components q ≠ []) :
    (joinRooted base p == joinRooted base q || below (joinRooted base p) (joinRooted base q) ||
      below (joinRooted base q) (joinRooted base p)) = true ↔ Nested p q := by
  have hall : ∀ {r : Bytes}, validPath r = true → ∀ e ∈ bs ++ components r, Kept e :=
    fun hr e he => (List.mem_append.mp he).elim (hbs e) (components_kept hr e)
  rw [overlap_iff_split, joinRooted_valid hbase hp, joinRooted_valid hbase hq,
    split_rooted hpne (hall hp), split_rooted hqne (hall hq), List.cons_prefix_cons,
    List.cons_prefix_cons, List.prefix_append_right_inj, List.prefix_append_right_inj, Nested]
  simp only [true_and]

theorem share_validPath (h : ShareConfig.relativePath p = true) :
    validPath p = true := by
  simp only [ShareConfig.relativePath, Bool.and_eq_true] at h
  exact h.1.1.2

theorem export_validPath (h : NfsConfig.relativePath p = true) :
    validPath p = true := by
  simp only [NfsConfig.relativePath, Bool.and_eq_true] at h
  exact h.1.1.2

theorem identifier_kept (h : identifier v = true) : Kept v := by
  have hvalid := identifier_valid h
  rw [identifier, Bool.and_eq_true, Bool.and_eq_true] at h
  obtain ⟨⟨-, hstart⟩, hall⟩ := h
  refine ⟨?_, ?_, ?_, not_mem_of_runes hvalid hall (by decide) (by decide)⟩
  all_goals
    rintro rfl
    exact absurd hstart (by decide)

def mountRoot : List Bytes := [ascii "srv", ascii "phantowd", ascii "volumes"]

theorem mountRoot_kept : ∀ e ∈ mountRoot, Kept e := by
  have hplain : ∀ e ∈ mountRoot, e ≠ [] ∧ e ≠ ascii "." ∧ e ≠ ascii ".." ∧ 0x2f ∉ e := by
    decide +kernel
  intro e he
  obtain ⟨hne, hhere, hparent, hwhole⟩ := hplain e he
  exact ⟨hne, hhere, hparent, hwhole⟩

theorem mountPath_kept (h : identifier v = true) : ∀ e ∈ mountRoot ++ [v], Kept e := by
  intro e he
  rcases List.mem_append.mp he with he | he
  · exact mountRoot_kept e he
  · rw [List.mem_singleton.mp he]
    exact identifier_kept h

theorem mountPath_rooted (h : identifier v = true) :
    Rooted (SmbConfig.mountPath v) (mountRoot ++ [v]) := by
  have hv := identifier_kept h
  have hroot : (split volumeMountRoot 0x2f).foldl cleanElement [] = mountRoot.reverse := by
    decide +kernel
  have happ : split (volumeMountRoot ++ 0x2f :: v) 0x2f =
      split volumeMountRoot 0x2f ++ split v 0x2f := List.splitOn_append_cons_self _ _
  have hone : split v 0x2f = [v] := List.splitOn_eq_singleton hv.whole
  have hpath : SmbConfig.mountPath v = 0x2f :: [0x2f].intercalate (mountRoot ++ [v]) := by
    rw [SmbConfig.mountPath, joinRooted, happ, hone, List.foldl_append, hroot,
      foldl_kept (by simpa using hv)]
    simp
  rw [Rooted, hpath, split_rooted (by simp) (mountPath_kept h), List.foldl_cons,
    foldl_kept (mountPath_kept h)]
  simp [cleanElement]

theorem smb_overlaps_iff (hv : identifier v = true) (hp : ShareConfig.relativePath p = true)
    (hq : ShareConfig.relativePath q = true) :
    SmbConfig.overlaps (joinRooted (SmbConfig.mountPath v) p)
      (joinRooted (SmbConfig.mountPath v) q) = true ↔ Nested p q :=
  joined_overlap (mountPath_rooted hv) (mountPath_kept hv) (share_validPath hp)
    (share_validPath hq) (by simp) (by simp)

theorem slash_rooted : Rooted (ascii "/") [] := by
  unfold Rooted
  decide +kernel

theorem joinRooted_slash_iff (hp : validPath p = true) :
    joinRooted (ascii "/") p = ascii "/" ↔ components p = [] := by
  rw [joinRooted_valid slash_rooted hp, List.nil_append]
  constructor
  · intro h
    by_contra hne
    have hsplit := split_rooted hne (components_kept hp)
    rw [h, show split (ascii "/") 0x2f = [[], []] by rfl, List.cons.injEq] at hsplit
    exact (components_kept hp [] (by simp [← hsplit.2])).nonempty rfl
  · intro h
    rw [h]
    rfl

theorem slash_overlap (hp : validPath p = true) (hq : validPath q = true) :
    NfsConfig.overlaps (joinRooted (ascii "/") p) (joinRooted (ascii "/") q) = true ↔
      Nested p q := by
  by_cases hproot : components p = []
  · have hnested : Nested p q := .inl (hproot ▸ List.nil_prefix)
    simp [NfsConfig.overlaps, (joinRooted_slash_iff hp).mpr hproot, hnested]
  · by_cases hqroot : components q = []
    · have hnested : Nested p q := .inr (hqroot ▸ List.nil_prefix)
      simp [NfsConfig.overlaps, (joinRooted_slash_iff hq).mpr hqroot, hnested]
    · rw [← joined_overlap slash_rooted (by simp) hp hq hproot hqroot]
      simp [NfsConfig.overlaps, mt (joinRooted_slash_iff hp).mp hproot,
        mt (joinRooted_slash_iff hq).mp hqroot]

theorem backing_overlap_iff (hp : IscsiPolicy.filePath p = true)
    (hq : IscsiPolicy.filePath q = true) : IscsiPolicy.pathOverlap p q = true ↔ Nested p q := by
  rw [IscsiPolicy.filePath, Bool.and_eq_true, bne_iff_ne] at hp hq
  rw [IscsiPolicy.pathOverlap, overlap_iff_split, Nested, components, components, if_neg hp.1,
    if_neg hq.1]

theorem placeShares_placed {isolated : Bool} {i : Nat} {placed out : List (Bytes × Bytes)}
    {ss : List Share} (h : SmbConfig.placeShares isolated i placed ss = .ok out) :
    out = placed ++ ss.map fun s => (s.volumeID, resolved s) := by
  induction ss generalizing i placed with
  | nil =>
    rw [SmbConfig.placeShares, Except.ok.injEq] at h
    simp [h]
  | cons s rest ih =>
    rw [SmbConfig.placeShares] at h
    split_ifs at h
    rw [ih h]
    simp [resolved]

/-- No two entries of one volume where one contains the other. -/
def Separate {α : Type} (volume path : α → Bytes) (entries : List α) : Prop :=
  entries.Pairwise fun a b => volume a = volume b → ¬ Nested (path a) (path b)

theorem shares_separate {c : Config} {isolated : Bool} {placed : List (Bytes × Bytes)}
    (h : SmbConfig.build c isolated = .ok placed) :
    Separate Share.volumeID Share.relativePath c.shares.items := by
  obtain ⟨hv, hlen⟩ := SmbConfig.build_ok h
  have hapart := SmbConfig.build_apart h
  rw [SmbConfig.build, hv] at h
  simp only [if_neg (Nat.not_lt.mpr hlen)] at h
  have hsound := validate_iff.mp hv
  rw [placeShares_placed h, SmbConfig.Apart, List.nil_append, List.pairwise_map] at hapart
  refine hapart.imp_of_mem fun {s t} hs ht hst heq hnested => ?_
  obtain ⟨v, hvol, hid⟩ := List.mem_map.mp (hsound.shares s hs).volume
  have hident : identifier s.volumeID = true := hid ▸ (hsound.volumes v hvol).1
  have hoverlap := (smb_overlaps_iff hident (hsound.shares s hs).path
    (hsound.shares t ht).path).mpr hnested
  have hfree := hst heq
  rw [resolved, resolved, ← heq, hoverlap] at hfree
  cases hfree

theorem exports_separate {netip : NfsConfig.Netip} {p : NfsConfig.Policy} {c : Config}
    (h : p.validate netip c = .ok ()) :
    Separate NfsConfig.Export.volumeID NfsConfig.Export.relativePath p.exports.items := by
  obtain ⟨-, hsound⟩ := NfsConfig.policy_validate_iff.mp h
  refine hsound.apart.imp_of_mem fun {e f} he hf hef heq hnested => ?_
  have hoverlap := (slash_overlap (export_validPath (hsound.exports e he).path)
    (export_validPath (hsound.exports f hf).path)).mpr hnested
  rw [hef.2 heq] at hoverlap
  cases hoverlap

theorem backings_separate {p : IscsiPolicy.Policy} {volumes : Config}
    (h : p.validate volumes = true) :
    Separate IscsiPolicy.Backing.volumeID IscsiPolicy.Backing.relativePath p.backings.items := by
  simp only [IscsiPolicy.Policy.validate, Bool.and_eq_true] at h
  obtain ⟨hgood, hapart⟩ := IscsiPolicy.checkBackings_start.mp h.1.1.2
  refine hapart.imp_of_mem fun {a b} ha hb hab heq hnested => ?_
  have hoverlap := (backing_overlap_iff (hgood a ha).path (hgood b hb).path).mpr hnested
  rw [hab.2 heq] at hoverlap
  cases hoverlap

/-- Every overlap test on accepted paths is containment of components, and no accepted policy
holds two entries on one volume where one contains the other. -/
theorem overlap_is_containment :
    (∀ v p q, identifier v = true → ShareConfig.relativePath p = true →
      ShareConfig.relativePath q = true →
        (SmbConfig.overlaps (joinRooted (SmbConfig.mountPath v) p)
          (joinRooted (SmbConfig.mountPath v) q) = true ↔ Nested p q)) ∧
    (∀ p q, NfsConfig.relativePath p = true → NfsConfig.relativePath q = true →
      (NfsConfig.overlaps (joinRooted (ascii "/") p) (joinRooted (ascii "/") q) = true ↔
        Nested p q)) ∧
    (∀ p q, ShareConfig.relativePath p = true → NfsConfig.relativePath q = true →
      (ServicePreview.configuredPathsOverlap p q = true ↔ Nested p q)) ∧
    (∀ p q, IscsiPolicy.filePath p = true → IscsiPolicy.filePath q = true →
      (IscsiPolicy.pathOverlap p q = true ↔ Nested p q)) ∧
    (∀ c isolated placed, SmbConfig.build c isolated = .ok placed →
      Separate Share.volumeID Share.relativePath c.shares.items) ∧
    (∀ netip (p : NfsConfig.Policy) c, p.validate netip c = .ok () →
      Separate NfsConfig.Export.volumeID NfsConfig.Export.relativePath p.exports.items) ∧
    (∀ (p : IscsiPolicy.Policy) volumes, p.validate volumes = true →
      Separate IscsiPolicy.Backing.volumeID IscsiPolicy.Backing.relativePath
        p.backings.items) := by
  refine ⟨fun v p q => smb_overlaps_iff, fun p q hp hq => ?_, fun p q hp hq => ?_,
    fun p q => backing_overlap_iff, fun c isolated placed => shares_separate,
    fun netip p c => exports_separate, fun p volumes => backings_separate⟩
  · exact slash_overlap (export_validPath hp) (export_validPath hq)
  · exact slash_overlap (share_validPath hp) (export_validPath hq)

theorem media_contains_films :
    identifier (ascii "data") = true ∧ ShareConfig.relativePath (ascii "media") = true ∧
      ShareConfig.relativePath (ascii "media/films") = true ∧
      SmbConfig.overlaps (joinRooted (SmbConfig.mountPath (ascii "data")) (ascii "media"))
        (joinRooted (SmbConfig.mountPath (ascii "data")) (ascii "media/films")) = true := by
  have hv : identifier (ascii "data") = true := by decide +kernel
  have hp : ShareConfig.relativePath (ascii "media") = true := by decide +kernel
  have hq : ShareConfig.relativePath (ascii "media/films") = true := by decide +kernel
  have hnested : Nested (ascii "media") (ascii "media/films") := by
    unfold Nested
    decide +kernel
  exact ⟨hv, hp, hq, (overlap_is_containment.1 _ _ _ hv hp hq).mpr hnested⟩

/-- A name that only extends another one stays apart; the root contains everything. -/
example : SmbConfig.overlaps (ascii "/srv/a") (ascii "/srv/ab") = false ∧
    NfsConfig.overlaps (ascii "/") (ascii "/ab") = true := by decide +kernel

end PathOverlap
