import ObsMcp.Arguments.Validate

/-!
# What the normalization of arguments keeps

`Normalized` says how a normalized value differs from the one it came from: an object keeps the
members its schema declares, each normalized, loses the others and gains defaults. The combinators,
`const`, `enum` and `propertyNames` judge an object as it is given, so a normalized object can be
refused where the object was not: `Judged` says that they accept it too, and
`normalization_keeps_declared` that this is all that is asked for a second normalization to change
nothing.
-/

namespace ObsMcp.Arguments

open Foundations List Option

/-! ### The declared members -/

section Collect

variable {s values start output : Members} {normalize : Bool} {l : Members}

/-- What a collection finds for each member: nothing new where nothing is given, and otherwise the
value that is validated. -/
theorem get_foldlM (hdistinct : (Members.keys l).Nodup)
    (hfold : l.foldlM (collectStep values normalize) start = some output) :
    (∀ member ∈ l,
      (given values normalize member.1 member.2 = none →
        Members.get output member.1 = Members.get start member.1) ∧
      ∀ v, given values normalize member.1 member.2 = some v →
        ∃ x, validate member.2 v normalize = some x ∧ Members.get output member.1 = some x) ∧
    ∀ name, name ∉ Members.keys l → Members.get output name = Members.get start name := by
  induction l generalizing start with
  | nil =>
    cases hfold
    exact ⟨fun _ hmember ↦ absurd hmember not_mem_nil, fun _ _ ↦ rfl⟩
  | cons first l ih =>
    obtain ⟨hfirst, hrest⟩ := nodup_cons.mp hdistinct
    rw [foldlM_cons] at hfold
    obtain ⟨next, hstep, hfold⟩ := bind_eq_some_iff.mp hfold
    obtain ⟨hmembers, hothers⟩ := ih hrest hfold
    have hlast := hothers first.1 hfirst
    have hnext : ∀ name, name ≠ first.1 → Members.get next name = Members.get start name := by
      intro name hname
      unfold collectStep at hstep
      split at hstep
      · rw [some.inj hstep]
      · obtain ⟨x, -, rfl⟩ := map_eq_some_iff.mp hstep
        rw [Members.get_insert, if_neg hname]
    refine ⟨fun member hmember ↦ ?_, fun name hname ↦ ?_⟩
    · rcases mem_cons.mp hmember with rfl | hmember
      · unfold collectStep at hstep
        refine ⟨fun hnone ↦ ?_, fun v hv ↦ ?_⟩
        · rw [hnone] at hstep
          rw [hlast, some.inj hstep]
        · rw [hv] at hstep
          obtain ⟨x, hx, rfl⟩ := map_eq_some_iff.mp hstep
          exact ⟨x, hx, by rw [hlast, Members.get_insert, if_pos rfl]⟩
      · obtain ⟨hnone, hsome⟩ := hmembers member hmember
        have hne : member.1 ≠ first.1 := fun hsame ↦
          hfirst (hsame ▸ mem_map_of_mem hmember)
        exact ⟨fun h ↦ (hnone h).trans (hnext _ hne), hsome⟩
    · have hne : name ≠ first.1 := fun hsame ↦ hname (hsame ▸ mem_cons_self)
      have habsent : name ∉ Members.keys l := fun hmem ↦ hname (mem_cons_of_mem _ hmem)
      exact (hothers name habsent).trans (hnext name hne)

theorem foldlM_congr {α β : Type} {f g : β → α → Option β} {l : List α}
    (hsame : ∀ x ∈ l, ∀ b, f b x = g b x) (start : β) : l.foldlM f start = l.foldlM g start := by
  induction l generalizing start with
  | nil => rfl
  | cons x l ih =>
    rw [foldlM_cons, foldlM_cons, hsame x mem_cons_self]
    refine congrArg ((g start x).bind ·) (funext fun next ↦ ?_)
    exact ih (fun y hy ↦ hsame y (mem_cons_of_mem _ hy)) next

/-- The declared members of a schema without double keys have different names. -/
theorem nodup_declared (hschema : (Json.object s).WellFormed) :
    (Members.keys (declared s)).Nodup ∧ ∀ member ∈ declared s, member.2.WellFormed := by
  obtain ⟨-, hmembers⟩ := hschema
  rw [Json.wellFormedMembers_iff] at hmembers
  unfold declared
  cases hget : Members.get s "properties" with
  | none => exact ⟨nodup_nil, fun _ hmember ↦ absurd hmember not_mem_nil⟩
  | some properties =>
    have hproperties := hmembers _ (Members.mem_of_get_eq_some hget)
    cases properties with
    | object members => exact ⟨hproperties.1, Json.wellFormedMembers_iff.mp hproperties.2⟩
    | _ => exact ⟨nodup_nil, fun _ hmember ↦ absurd hmember not_mem_nil⟩

end Collect

/-! ### What is kept -/

/-- The value that a value is normalized to. What is not declared by the schema itself is dropped
from an object, what is declared is there with its own normalized value, and what was not there is a
default. -/
inductive Normalized : Json → Json → Json → Prop
  | same (schema value : Json) (hvalue : value.isObject = false) : Normalized schema value value
  | anything (value : Json) : Normalized (.bool true) value value
  | object {s values output : Members}
      (present : ∀ member ∈ declared s, ∀ v, Members.get values member.1 = some v →
        ∃ w, Members.get output member.1 = some w ∧ validate member.2 v true = some w)
      (kept : ∀ member ∈ declared s, ∀ v w, Members.get values member.1 = some v →
        Members.get output member.1 = some w → Normalized member.2 v w)
      (only : ∀ name w, Members.get output name = some w → ∃ member ∈ declared s, member.1 = name ∧
        (Members.get values name = none →
          ∃ d, member.2.get "default" = some d ∧ validate member.2 d true = some w)) :
      Normalized (.object s) (.object values) (.object output)

/-- The keywords that judge an object as a whole accept every object that is reached through the
declared members. -/
inductive Judged : Json → Json → Prop
  | same (schema value : Json) (hvalue : value.isObject = false) : Judged schema value
  | anything (value : Json) : Judged (.bool true) value
  | object {s output : Members} (combined : combines s (.object output) true = true)
      (listed : isListed s (.object output) = true)
      (named : ∀ name ∈ Members.keys output, namesAdmit s name = true)
      (parts : ∀ member ∈ declared s, ∀ w, Members.get output member.1 = some w →
        Judged member.2 w) : Judged (.object s) (.object output)

/-- The keywords that judge an object as a whole stand only where no object is accepted. -/
inductive Plain : Json → Prop
  | bool (allowed : Bool) : Plain (.bool allowed)
  | scalar {s : Members} (refuses : ∀ values, validate (.object s) (.object values) true = none) :
      Plain (.object s)
  | object {s : Members}
      (absent : ∀ key ∈ ["anyOf", "oneOf", "allOf", "const", "enum", "propertyNames"],
        Members.get s key = none)
      (parts : ∀ member ∈ declared s, Plain member.2) : Plain (.object s)

section Objects

variable {s values output : Members} {schema value w x : Json}

theorem hasType_object (type : Option Json) (a b : Members) :
    hasType type (.object a) = hasType type (.object b) := by
  have hmatches : matchesType (.object a) = matchesType (.object b) := by
    funext type
    unfold matchesType
    split <;> rfl
  unfold hasType
  split
  · rfl
  · rw [hmatches]
  · rw [hmatches]
  · rfl

/-- Of an object only the enumerations and the type are asked. -/
theorem fits_object (s values : Members) :
    fits s (.object values) =
      (isListed s (.object values) && hasType (Members.get s "type") (.object [])) := by
  rw [← hasType_object _ values []]
  simp [fits, Json.asF64, Json.asNumber, Json.asStr, Json.asArray]

/-- The schema of an accepted value is `true` or an object of keywords. -/
theorem schema_of_validate {normalize : Bool}
    (haccepted : validate schema value normalize = some w) :
    (schema = .bool true ∧ w = value) ∨ ∃ s, schema = .object s := by
  cases schema with
  | bool allowed =>
    rw [validate] at haccepted
    split_ifs at haccepted with hallowed
    exact .inl ⟨congrArg Json.bool hallowed, (some.inj haccepted).symm⟩
  | object s => exact .inr ⟨s, rfl⟩
  | null | number | string | array => simp [validate] at haccepted

/-- A value is an object or accepted as it is. -/
theorem isObject_cases (value : Json) :
    value.isObject = false ∨ ∃ values, value = .object values := by
  cases value with
  | object values => exact .inr ⟨values, rfl⟩
  | _ => exact .inl rfl

theorem normalized_of_validate (hschema : schema.WellFormed)
    (haccepted : validate schema value true = some w) : Normalized schema value w := by
  induction hsize : sizeOf schema using Nat.strongRecOn generalizing schema value w with
  | ind size ih =>
    rcases isObject_cases value with hvalue | ⟨values, rfl⟩
    · rw [eq_of_validate hvalue haccepted]
      exact .same schema value hvalue
    · rcases schema_of_validate haccepted with ⟨rfl, rfl⟩ | ⟨s, rfl⟩
      · exact .anything _
      · obtain ⟨-, output, hcollect, -, -, rfl⟩ := validate_object_iff.mp haccepted
        obtain ⟨hdistinct, hparts⟩ := nodup_declared hschema
        obtain ⟨hmembers, hothers⟩ := get_foldlM hdistinct hcollect
        have hgiven : ∀ member ∈ declared s, ∀ v, Members.get values member.1 = some v →
            given values true member.1 member.2 = some v := by
          intro member _ v hv
          rw [given, hv, some_or]
        refine .object (fun member hmember v hv ↦ ?_) (fun member hmember v w hv hw ↦ ?_)
          fun name w hw ↦ ?_
        · obtain ⟨x, hx, hget⟩ := (hmembers member hmember).2 v (hgiven member hmember v hv)
          exact ⟨x, hget, hx⟩
        · obtain ⟨x, hx, hget⟩ := (hmembers member hmember).2 v (hgiven member hmember v hv)
          cases hw.symm.trans hget
          exact ih _ (hsize ▸ sizeOf_declared hmember) (hparts member hmember) hx rfl
        · have hname : name ∈ Members.keys (declared s) := by
            by_contra hname
            rw [hothers name hname] at hw
            exact absurd hw (by simp [Members.get])
          obtain ⟨member, hmember, rfl⟩ := mem_map.mp hname
          refine ⟨member, hmember, rfl, fun habsent ↦ ?_⟩
          have hdefault : given values true member.1 member.2 = member.2.get "default" := by
            rw [given, habsent, none_or, if_pos rfl]
          cases hd : member.2.get "default" with
          | none =>
            rw [(hmembers member hmember).1 (hdefault.trans hd)] at hw
            exact absurd hw (by simp [Members.get])
          | some d =>
            obtain ⟨x, hx, hget⟩ := (hmembers member hmember).2 d (hdefault.trans hd)
            cases hw.symm.trans hget
            exact ⟨d, rfl, hx⟩

/-! ### The second normalization -/

/-- A normalized value that is judged again is accepted as it is. -/
theorem validate_of_judged (hschema : schema.WellFormed)
    (haccepted : validate schema value true = some w) (hjudged : Judged schema w) :
    validate schema w true = some w := by
  induction hsize : sizeOf schema using Nat.strongRecOn generalizing schema value w with
  | ind size ih =>
    rcases isObject_cases value with hvalue | ⟨values, rfl⟩
    · obtain rfl := eq_of_validate hvalue haccepted
      exact haccepted
    · rcases schema_of_validate haccepted with ⟨rfl, rfl⟩ | ⟨s, rfl⟩
      · exact haccepted
      · obtain ⟨hjudges, output, hcollect, hrequired, -, rfl⟩ := validate_object_iff.mp haccepted
        obtain ⟨hdistinct, hparts⟩ := nodup_declared hschema
        obtain ⟨hmembers, hothers⟩ := get_foldlM hdistinct hcollect
        obtain ⟨hcombined, hlisted, hnamed, hjudgedParts⟩ :
            combines s (.object output) true = true ∧ isListed s (.object output) = true ∧
            (∀ name ∈ Members.keys output, namesAdmit s name = true) ∧
            ∀ member ∈ declared s, ∀ w, Members.get output member.1 = some w →
              Judged member.2 w := by
          cases hjudged with
          | same _ _ hvalue => exact absurd hvalue (by simp [Json.isObject, Json.asObject])
          | object combined listed named parts => exact ⟨combined, listed, named, parts⟩
        have hstep : ∀ member ∈ declared s, ∀ acc,
            collectStep output true acc member = collectStep values true acc member := by
          intro member hmember acc
          obtain ⟨hnone, hsome⟩ := hmembers member hmember
          unfold collectStep
          cases hgiven : given values true member.1 member.2 with
          | none =>
            have habsent : Members.get output member.1 = none := hnone hgiven
            have hdefault : member.2.get "default" = none :=
              (or_eq_none_iff.mp hgiven).2
            have hagain : given output true member.1 member.2 = none := by
              rw [given, habsent, none_or, if_pos rfl, hdefault]
            rw [hagain]
          | some v =>
            obtain ⟨x, hx, hget⟩ := hsome v hgiven
            have hagain : given output true member.1 member.2 = some x := by
              rw [given, hget, some_or]
            have hstable := ih _ (hsize ▸ sizeOf_declared hmember) (hparts member hmember) hx
              (hjudgedParts member hmember x hget) rfl
            rw [hagain]
            dsimp only
            rw [hstable, hx]
        rw [validate_object_iff]
        refine ⟨?_, output, (foldlM_congr hstep _).trans hcollect, hrequired, ?_, rfl⟩
        · simp only [judges, fits_object, Bool.and_eq_true] at hjudges ⊢
          exact ⟨⟨hjudges.1.1, hcombined⟩, hlisted, hjudges.2.2⟩
        · unfold admits
          refine all_eq_true.mpr fun member hmember ↦ ?_
          have hkey : member.1 ∈ Members.keys output := mem_map_of_mem hmember
          have hdeclared : member.1 ∈ Members.keys (declared s) := by
            by_contra hname
            have hnone := hothers member.1 hname
            exact Members.mem_keys_iff.mp hkey (hnone.trans rfl)
          rw [hnamed _ hkey, Members.containsKey_iff.mpr hdeclared]
          rfl

/-- What is accepted by a normalization that changes nothing is judged. -/
theorem judged_of_validate (hschema : schema.WellFormed)
    (haccepted : validate schema w true = some x) : Judged schema w := by
  induction hsize : sizeOf schema using Nat.strongRecOn generalizing schema w x with
  | ind size ih =>
    rcases isObject_cases w with hvalue | ⟨output, rfl⟩
    · exact .same schema w hvalue
    · rcases schema_of_validate haccepted with ⟨rfl, rfl⟩ | ⟨s, rfl⟩
      · exact .anything _
      · obtain ⟨hjudges, last, hcollect, -, hadmits, rfl⟩ := validate_object_iff.mp haccepted
        obtain ⟨hdistinct, hparts⟩ := nodup_declared hschema
        obtain ⟨hmembers, -⟩ := get_foldlM hdistinct hcollect
        simp only [judges, fits_object, Bool.and_eq_true] at hjudges
        refine .object hjudges.1.2 hjudges.2.1 (fun name hname ↦ ?_) fun member hmember w hw ↦ ?_
        · obtain ⟨member, hmember, rfl⟩ := mem_map.mp hname
          have hadmitted := all_eq_true.mp hadmits member hmember
          exact (Bool.and_eq_true_iff.mp hadmitted).1
        · have hgiven : given output true member.1 member.2 = some w := by
            rw [given, hw, some_or]
          obtain ⟨x, hx, -⟩ := (hmembers member hmember).2 w hgiven
          exact ih _ (hsize ▸ sizeOf_declared hmember) (hparts member hmember) hx rfl

/-- A type that is not that of objects refuses them. -/
theorem validate_object_of_type (htype : hasType (Members.get s "type") (.object []) = false) :
    validate (.object s) (.object values) true = none := by
  refine eq_none_iff_forall_ne_some.mpr fun w haccepted ↦ ?_
  obtain ⟨hjudges, -⟩ := validate_object_iff.mp haccepted
  simp only [judges, fits_object, htype, Bool.and_false, Bool.false_eq_true] at hjudges

/-- Where the judging keywords take no object, every normalized value is judged. -/
theorem judged_of_plain (hplain : Plain schema) (hschema : schema.WellFormed)
    (haccepted : validate schema value true = some w) : Judged schema w := by
  induction hplain generalizing value w with
  | bool allowed =>
    rw [validate] at haccepted
    split_ifs at haccepted with hallowed
    rw [hallowed]
    exact .anything w
  | scalar refuses =>
    rename_i s
    rcases isObject_cases value with hvalue | ⟨values, rfl⟩
    · obtain rfl := eq_of_validate hvalue haccepted
      exact .same _ _ hvalue
    · exact absurd (haccepted.symm.trans (refuses values)) (some_ne_none w)
  | object absent parts ih =>
    rename_i s
    rcases isObject_cases value with hvalue | ⟨values, rfl⟩
    · obtain rfl := eq_of_validate hvalue haccepted
      exact .same _ _ hvalue
    · obtain ⟨-, output, hcollect, -, -, rfl⟩ := validate_object_iff.mp haccepted
      obtain ⟨hdistinct, hparts⟩ := nodup_declared hschema
      obtain ⟨hmembers, -⟩ := get_foldlM hdistinct hcollect
      refine .object ?_ ?_ (fun name _ ↦ ?_) fun member hmember x hx ↦ ?_
      · unfold combines
        refine all_eq_true.mpr fun combinator hcombinator ↦ ?_
        rw [absent combinator (by simp only [mem_cons] at hcombinator ⊢; tauto)]
      · simp [isListed, absent]
      · rw [namesAdmit, absent "propertyNames" (by simp)]
      · cases hgiven : given values true member.1 member.2 with
        | none =>
          rw [(hmembers member hmember).1 hgiven] at hx
          exact absurd hx (by simp [Members.get])
        | some v =>
          obtain ⟨y, hy, hget⟩ := (hmembers member hmember).2 v hgiven
          cases hx.symm.trans hget
          exact ih member hmember (hparts member hmember) hy

/-- A normalized value has what its schema declares. It is its own normalization exactly when the
keywords that judge an object as a whole accept it too, and is refused otherwise; where these
keywords take no object, it always is. -/
theorem normalization_keeps_declared (schema value w : Json) (hschema : schema.WellFormed)
    (haccepted : validate schema value true = some w) :
    Normalized schema value w ∧
    (Judged schema w → validate schema w true = some w) ∧
    (¬Judged schema w → validate schema w true = none) ∧
    (Plain schema → validate schema w true = some w) := by
  refine ⟨normalized_of_validate hschema haccepted, validate_of_judged hschema haccepted,
    fun hunjudged ↦ ?_, fun hplain ↦ ?_⟩
  · by_contra hsome
    obtain ⟨x, hx⟩ := ne_none_iff_exists'.mp hsome
    exact hunjudged (judged_of_validate hschema hx)
  · exact validate_of_judged hschema haccepted (judged_of_plain hplain hschema haccepted)

end Objects

/-- One optional integer from 0 to 5. -/
def counts : Json :=
  .object [("properties", .object [("count", .object [("default", .number (.posInt 2)),
      ("maximum", .number (.posInt 5)), ("minimum", .number (.posInt 0)),
      ("type", .string "integer")])]),
    ("required", .array [.string "count"]), ("type", .string "object")]

/-- A member that is not declared is dropped, the default is added, and then nothing changes. -/
theorem normalization_keeps_declared_count :
    Normalized counts (.object [("extra", .number (.posInt 9))])
      (.object [("count", .number (.posInt 2))]) ∧
    validate counts (.object [("count", .number (.posInt 2))]) true =
      some (.object [("count", .number (.posInt 2))]) := by
  have hschema : counts.WellFormed := by
    simp [counts, Json.WellFormed, Json.WellFormedMembers, Json.WellFormedItems, Members.keys]
  have haccepted : validate counts (.object [("extra", .number (.posInt 9))]) true =
      some (.object [("count", .number (.posInt 2))]) := by
    with_unfolding_all rfl
  have hplain : Plain counts := by
    refine .object (by decide) fun member hmember ↦ ?_
    obtain rfl := mem_singleton.mp hmember
    exact .scalar fun _ ↦ validate_object_of_type rfl
  obtain ⟨hnormalized, -, -, hstable⟩ :=
    normalization_keeps_declared counts _ _ hschema haccepted
  exact ⟨hnormalized, hstable hplain⟩

/-! ### A member that only a variant declares -/

def needsX : Json :=
  .object [("properties", .object [("x", .bool true)]), ("required", .array [.string "x"])]

def anyOfX : Json :=
  .object [("anyOf", .array [needsX])]

def one : Json :=
  .object [("x", .number (.posInt 1))]

/-- The accepting variant declares the member and it is dropped, and what is left is refused. -/
theorem variant_member_dropped : validate needsX one true = some one ∧
    validate anyOfX one true = some (.object []) ∧ validate anyOfX (.object []) true = none := by
  with_unfolding_all exact ⟨rfl, rfl, rfl⟩

end ObsMcp.Arguments
