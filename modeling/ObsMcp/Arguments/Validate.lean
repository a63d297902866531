import ObsMcp.Foundations.Json

/-!
# The validator of arguments

`validate` checks a value against a schema of the generated catalog and, when it normalizes, keeps
of an object the members that the schema itself declares and adds the defaults of those that are
missing. The keywords that judge a value, the combinators among them, judge it as it is given.

`validate_object_iff` says what is asked of an object: `judges` for the value as a whole, `collect`
for the declared members, the required keys, and `Admits` for each member.
-/

namespace ObsMcp.Arguments

open Foundations List Option

def supported : List String :=
  ["$schema", "type", "properties", "required", "default", "description", "title", "minimum",
    "maximum", "minLength", "maxLength", "enum", "additionalProperties", "items", "anyOf", "oneOf",
    "allOf", "const", "minItems", "maxItems", "propertyNames"]

/-! ### Parts of a schema -/

/-- The schemas of the declared members. -/
def declared (s : Members) : Members :=
  ((Members.get s "properties").bind Json.asObject).getD []

variable {key : String} {s : Members}

theorem sizeOf_get {value : Json} (hget : Members.get s key = some value) :
    sizeOf value < sizeOf (Json.object s) := by
  have hmem := sizeOf_lt_of_mem (Members.mem_of_get_eq_some hget)
  simp only [Json.object.sizeOf_spec, Prod.mk.sizeOf_spec] at hmem ⊢
  omega

theorem sizeOf_item {items : List Json} {item : Json}
    (hget : Members.get s key = some (.array items)) (hitem : item ∈ items) :
    sizeOf item < sizeOf (Json.object s) := by
  have hitems := sizeOf_get hget
  have hlt := sizeOf_lt_of_mem hitem
  simp only [Json.array.sizeOf_spec] at hitems
  omega

theorem sizeOf_declared {member : String × Json} (hmember : member ∈ declared s) :
    sizeOf member.2 < sizeOf (Json.object s) := by
  unfold declared at hmember
  cases hget : Members.get s "properties" with
  | none => simp [hget] at hmember
  | some properties =>
    have hproperties := sizeOf_get hget
    cases properties with
    | object members =>
      have hmem : member ∈ members := by simpa [hget, Json.asObject] using hmember
      have hlt := sizeOf_lt_of_mem hmem
      obtain ⟨key, value⟩ := member
      simp only [Json.object.sizeOf_spec, Prod.mk.sizeOf_spec] at hproperties hlt ⊢
      omega
    | _ => simp [hget, Json.asObject] at hmember

/-! ### What judges a value without a further schema -/

/-- The verdict of a combinator of which so many variants accept. -/
def verdict (combinator : String) (variants accepting : ℕ) : Bool :=
  !((combinator = "allOf" && accepting ≠ variants) || (combinator = "oneOf" && accepting ≠ 1) ||
    (combinator = "anyOf" && accepting = 0))

/-- A finite number without a fraction. -/
def isInteger (x : Float) : Bool :=
  x.isFinite && Binary64.floor x == x

def matchesType (value : Json) (type : String) : Bool :=
  match type with
  | "object" => value.isObject
  | "array" => value.isArray
  | "string" => value.isString
  | "number" => value.asF64.any Float.isFinite
  | "integer" => value.asF64.any isInteger
  | "boolean" => value.asBool.isSome
  | "null" => value.isNull
  | _ => false

/-- The value has the type, or one of the types. -/
def hasType (type : Option Json) (value : Json) : Bool :=
  match type with
  | none => true
  | some (.string type) => matchesType value type
  | some (.array types) => types.any fun type ↦ type.asStr.any (matchesType value)
  | some _ => false

/-- The value is the constant and one of the enumeration. -/
def isListed (s : Members) (value : Json) : Bool :=
  (Members.get s "const").all (Json.beq · value) &&
    (Members.get s "enum").all fun values ↦ values.asArray.any fun values ↦
      values.any (Json.beq · value)

/-- A number is within the bounds of the schema. -/
def inRange (s : Members) (n : Float) : Bool :=
  !(((Members.get s "minimum").bind Json.asF64).any fun m ↦ n < m) &&
    !((Members.get s "maximum").bind Json.asF64).any fun m ↦ m < n

/-- A length is within the two bounds of the schema. -/
def lengthWithin (s : Members) (min max : String) (count : ℕ) : Bool :=
  !(((Members.get s min).bind Json.asU64).any fun m ↦ count < m.toNat) &&
    !((Members.get s max).bind Json.asU64).any fun m ↦ m.toNat < count

/-- The keywords that look only at the value. -/
def fits (s : Members) (value : Json) : Bool :=
  isListed s value && hasType (Members.get s "type") value && value.asF64.all (inRange s) &&
    value.asStr.all (fun text ↦ lengthWithin s "minLength" "maxLength" text.length) &&
    value.asArray.all fun items ↦ lengthWithin s "minItems" "maxItems" items.length

/-- The members the schema requires are there. -/
def hasRequired (s : Members) (output : Members) : Bool :=
  match Members.get s "required" with
  | none => true
  | some (.array names) => names.all fun name ↦ name.asStr.any (Members.containsKey output)
  | some _ => false

/-! ### The validator -/

/-- The value of a declared member: that of the object or, when it normalizes, the default. -/
def given (values : Members) (normalize : Bool) (name : String) (property : Json) : Option Json :=
  (Members.get values name).or (if normalize then property.get "default" else none)

def validate (schema value : Json) (normalize : Bool) : Option Json :=
  match schema with
  | .bool allowed => if allowed then some value else none
  | .object s =>
    if s.any (fun member ↦ member.1 ∉ supported) then none
    else if !(["anyOf", "oneOf", "allOf"].all fun combinator ↦
      match _hvariants : Members.get s combinator with
      | none => true
      | some (.array variants) => verdict combinator variants.length
          (variants.attach.countP fun variant ↦ (validate variant.1 value normalize).isSome)
      | some _ => false) then none
    else if !fits s value then none
    else
      match value with
      | .array items =>
        match _hitems : Members.get s "items" with
        | none => some value
        | some schema =>
          if items.all fun item ↦ (validate schema item false).isSome then some value else none
      | .object values =>
        let output := (declared s).attach.foldlM (fun output member ↦
          match given values normalize member.1.1 member.1.2 with
          | none => some output
          | some v => (validate member.1.2 v normalize).map (Members.insert output member.1.1))
          (if normalize then [] else values)
        output.bind fun output ↦
          if !hasRequired s output then none
          else if values.all (fun member ↦
            (match _hnames : Members.get s "propertyNames" with
            | none => true
            | some names => (validate names (.string member.1) false).isSome) &&
            (Members.containsKey (declared s) member.1 ||
              match _hextra : Members.get s "additionalProperties" with
              | none => true
              | some (.bool allowed) => allowed || normalize
              | some (.object extra) => (validate (.object extra) member.2 false).isSome
              | some _ => true)) then some (.object output)
          else none
      | _ => some value
  | _ => none
termination_by sizeOf schema
decreasing_by
  all_goals first
    | exact sizeOf_get ‹_›
    | exact sizeOf_item ‹_› (Subtype.property _)
    | exact sizeOf_declared (Subtype.property _)

/-! ### What is asked of an object -/

/-- The combinators accept the value. -/
def combines (s : Members) (value : Json) (normalize : Bool) : Bool :=
  ["anyOf", "oneOf", "allOf"].all fun combinator ↦
    match Members.get s combinator with
    | none => true
    | some (.array variants) => verdict combinator variants.length
        (variants.countP fun variant ↦ (validate variant value normalize).isSome)
    | some _ => false

/-- One step of the collection of the declared members. -/
def collectStep (values : Members) (normalize : Bool) (output : Members)
    (member : String × Json) : Option Members :=
  match given values normalize member.1 member.2 with
  | none => some output
  | some v => (validate member.2 v normalize).map (Members.insert output member.1)

/-- The declared members of an object, put over what is kept without them. -/
def collect (s values : Members) (normalize : Bool) : Option Members :=
  (declared s).foldlM (collectStep values normalize) (if normalize then [] else values)

/-- The name of a member is allowed. -/
def namesAdmit (s : Members) (name : String) : Bool :=
  match Members.get s "propertyNames" with
  | none => true
  | some names => (validate names (.string name) false).isSome

/-- A member that is not declared is allowed. -/
def extraAdmits (s : Members) (value : Json) (normalize : Bool) : Bool :=
  match Members.get s "additionalProperties" with
  | none => true
  | some (.bool allowed) => allowed || normalize
  | some (.object extra) => (validate (.object extra) value false).isSome
  | some _ => true

/-- Every member is allowed. -/
def admits (s values : Members) (normalize : Bool) : Bool :=
  values.all fun member ↦ namesAdmit s member.1 &&
    (Members.containsKey (declared s) member.1 || extraAdmits s member.2 normalize)

/-- The keywords that judge a value as a whole accept it. -/
def judges (s : Members) (value : Json) (normalize : Bool) : Bool :=
  s.all (fun member ↦ member.1 ∈ supported) && combines s value normalize && fits s value

section Object

variable {s values : Members} {value w : Json} {normalize : Bool}

theorem foldlM_attach {α β : Type} (l : List α) (f : β → α → Option β) (start : β) :
    l.attach.foldlM (fun b x ↦ f b x.1) start = l.foldlM f start := by
  have hmap : (l.attach.map Subtype.val).foldlM f start =
      l.attach.foldlM (fun b x ↦ f b x.1) start := foldlM_map
  rw [← hmap, List.attach_map_subtype_val]

theorem combines_eq (s : Members) (value : Json) (normalize : Bool) :
    (["anyOf", "oneOf", "allOf"].all (fun combinator ↦
      match _hvariants : Members.get s combinator with
      | none => true
      | some (.array variants) => verdict combinator variants.length
          (variants.attach.countP fun variant ↦ (validate variant.1 value normalize).isSome)
      | some _ => false)) = combines s value normalize := by
  unfold combines
  refine congrArg (["anyOf", "oneOf", "allOf"].all ·) (funext fun combinator ↦ ?_)
  split
  · rename_i hnone
    rw [hnone]
  · rename_i variants hvariants
    rw [hvariants]
    exact congrArg (verdict combinator variants.length)
      (@countP_attach _ variants fun variant ↦ (validate variant value normalize).isSome)
  · rename_i other hother hvariants
    rw [hvariants]
    cases other with
    | array variants => exact (hother variants rfl).elim
    | _ => rfl

/-- The elements of an array are accepted. -/
def itemsAccepted (s : Members) (items : List Json) : Bool :=
  match Members.get s "items" with
  | none => true
  | some schema => items.all fun item ↦ (validate schema item false).isSome

theorem itemsAccepted_eq (s : Members) (items : List Json) (value : Json) :
    (match _hitems : Members.get s "items" with
      | none => some value
      | some schema =>
        if items.all fun item ↦ (validate schema item false).isSome then some value else none) =
      if itemsAccepted s items then some value else none := by
  unfold itemsAccepted
  split
  · rename_i hnone
    rw [hnone]
    rfl
  · rename_i schema hschema
    rw [hschema]

theorem collect_eq (s values : Members) (normalize : Bool) :
    (declared s).attach.foldlM (fun output member ↦
      match given values normalize member.1.1 member.1.2 with
      | none => some output
      | some v => (validate member.1.2 v normalize).map (Members.insert output member.1.1))
      (if normalize then [] else values) = collect s values normalize :=
  foldlM_attach (declared s) (collectStep values normalize) _

theorem namesAdmit_eq (s : Members) (name : String) :
    (match _hnames : Members.get s "propertyNames" with
      | none => true
      | some names => (validate names (.string name) false).isSome) = namesAdmit s name := by
  unfold namesAdmit
  split
  · rename_i hnone
    rw [hnone]
  · rename_i names hnames
    rw [hnames]

theorem extraAdmits_eq (s : Members) (value : Json) (normalize : Bool) :
    (match _hextra : Members.get s "additionalProperties" with
      | none => true
      | some (.bool allowed) => allowed || normalize
      | some (.object extra) => (validate (.object extra) value false).isSome
      | some _ => true) = extraAdmits s value normalize := by
  unfold extraAdmits
  split
  · rename_i hnone
    rw [hnone]
  · rename_i allowed hallowed
    rw [hallowed]
  · rename_i extra hextra
    rw [hextra]
  · rename_i other hbool hobject hother
    rw [hother]
    cases other with
    | bool allowed => exact (hbool allowed rfl).elim
    | object extra => exact (hobject extra rfl).elim
    | _ => rfl

theorem validate_eq (s : Members) (value : Json) (normalize : Bool) :
    validate (.object s) value normalize =
      if judges s value normalize then
        match value with
        | .array items => if itemsAccepted s items then some value else none
        | .object values => (collect s values normalize).bind fun output ↦
          if hasRequired s output && admits s values normalize then some (.object output) else none
        | _ => some value
      else none := by
  rw [validate.eq_def]
  dsimp only
  rw [combines_eq, judges]
  simp only [itemsAccepted_eq, namesAdmit_eq, extraAdmits_eq, collect_eq]
  have hknown : (s.any fun member ↦ decide (member.1 ∉ supported)) =
      !(s.all fun member ↦ decide (member.1 ∈ supported)) := by
    rw [all_eq_not_any_not, Bool.not_not]
    simp
  have hend : ∀ values output, (if (!hasRequired s output) = true then none
      else if admits s values normalize then some (Json.object output) else none) =
        if hasRequired s output && admits s values normalize then some (.object output)
        else none := by
    intro values output
    cases hasRequired s output <;> rfl
  rw [hknown]
  cases s.all fun member ↦ decide (member.1 ∈ supported)
  · rfl
  · cases combines s value normalize
    · rfl
    · cases fits s value
      · rfl
      · cases value with
        | object values =>
          exact congrArg (collect s values normalize).bind (funext (hend values))
        | _ => rfl

/-- An accepted object is the collection of its declared members. -/
theorem validate_object_iff :
    validate (.object s) (.object values) normalize = some w ↔
      judges s (.object values) normalize = true ∧
      ∃ output, collect s values normalize = some output ∧ hasRequired s output = true ∧
        admits s values normalize = true ∧ w = .object output := by
  rw [validate_eq]
  split_ifs with hjudges
  · simp only [true_and, hjudges, bind_eq_some_iff]
    refine exists_congr fun output ↦ and_congr_right fun _ ↦ ?_
    cases hasRequired s output <;> cases admits s values normalize <;> simp [eq_comm]
  · simp [hjudges]

/-- A value that is no object is accepted as it is. -/
theorem eq_of_validate {schema : Json} (hvalue : value.isObject = false)
    (haccepted : validate schema value normalize = some w) : w = value := by
  cases schema with
  | bool allowed =>
    rw [validate] at haccepted
    split_ifs at haccepted
    exact (some.inj haccepted).symm
  | object s =>
    rw [validate_eq] at haccepted
    split_ifs at haccepted with hjudges
    cases value with
    | object values => exact absurd hvalue (by simp [Json.isObject, Json.asObject])
    | array items =>
      dsimp only at haccepted
      split_ifs at haccepted
      exact (some.inj haccepted).symm
    | _ => exact (some.inj haccepted).symm
  | null | number | string | array =>
    simp [validate] at haccepted

end Object

end ObsMcp.Arguments
