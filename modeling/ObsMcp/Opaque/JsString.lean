import ObsMcp.Scenes.ApplyScene

/-!
# The JavaScript text of a JSON value

`appendJsString` writes the text JavaScript's `String` gives a JSON value behind a given text, with
a bound on the bytes. It walks nested arrays with a stack of what is left of each of them, so it
needs no recursion. `jsString` is that text by recursion over the value: an array is its elements
joined by commas, a null element is empty, and an object that shadows `toString` has none.

`appendJsString_eq_ok_iff` says that the loop writes exactly this text, and that it fails exactly
when there is none or the bound is too small.
-/

namespace ObsMcp.Opaque

open Foundations Scenes

/-! ### The loop -/

inductive JsStringError
  | toPrimitive
  | byteCapacity
  deriving DecidableEq

def appendStringPiece (output piece : String) (maxBytes : ℕ) : Except JsStringError String :=
  if maxBytes < output.utf8ByteSize + piece.utf8ByteSize then .error .byteCapacity
  else .ok (output ++ piece)

/-- The text of a JSON number. -/
def numberText (numerals : Numerals) (n : Number) : String :=
  numerals.jsNumber ⟨n.asF64, n.asF64_isFinite⟩

/-- One turn of the loop on a value without elements: an absent value, a null, which is silent as an
element of an array, a scalar, an object or an empty array. -/
def appendLeaf (numerals : Numerals) (maxBytes : ℕ) (output : String) :
    Option Json → Bool → Except JsStringError String
  | none, _ => appendStringPiece output "undefined" maxBytes
  | some .null, false => appendStringPiece output "null" maxBytes
  | some .null, true => .ok output
  | some (.bool b), _ => appendStringPiece output (if b then "true" else "false") maxBytes
  | some (.number n), _ => appendStringPiece output (numberText numerals n) maxBytes
  | some (.string s), _ => appendStringPiece output s maxBytes
  | some (.object members), _ =>
    if Members.containsKey members "toString" then .error .toPrimitive
    else appendStringPiece output "[object Object]" maxBytes
  | some (.array _), _ => .ok output

/-- The next element of the innermost array that has one left, and the arrays left then. -/
def nextElement : List (List Json) → Option (Json × List (List Json))
  | [] => none
  | [] :: parents => nextElement parents
  | (next :: rest) :: parents => some (next, rest :: parents)

theorem sizeOf_nextElement {parents rest : List (List Json)} {next : Json}
    (hnext : nextElement parents = some (next, rest)) :
    sizeOf next + sizeOf rest < sizeOf parents := by
  induction parents with
  | nil => cases hnext
  | cons items parents ih =>
    cases items with
    | nil =>
      have hless := ih hnext
      simp only [List.cons.sizeOf_spec]
      omega
    | cons item items =>
      cases hnext
      simp only [List.cons.sizeOf_spec]
      omega

/-- The loop: the value in hand, whether it is an element of an array, and what is left of the
arrays it lies in, innermost first. -/
def appendLoop (numerals : Numerals) (maxBytes : ℕ) (output : String) (value : Option Json)
    (arrayElement : Bool) (parents : List (List Json)) : Except JsStringError String :=
  match value with
  | some (.array (first :: rest)) =>
    appendLoop numerals maxBytes output (some first) true (rest :: parents)
  | value =>
    match appendLeaf numerals maxBytes output value arrayElement with
    | .error error => .error error
    | .ok output =>
      match _hnext : nextElement parents with
      | none => .ok output
      | some (next, parents) =>
        match appendStringPiece output "," maxBytes with
        | .error error => .error error
        | .ok output => appendLoop numerals maxBytes output (some next) true parents
  termination_by sizeOf value + sizeOf parents
  decreasing_by
    · simp only [Option.some.sizeOf_spec, Json.array.sizeOf_spec, List.cons.sizeOf_spec]
      omega
    · have hless := sizeOf_nextElement _hnext
      have hvalue : 0 < sizeOf value := by cases value <;> simp
      simp only [Option.some.sizeOf_spec]
      omega

/-- `append_js_string`: the text of a value behind a given text. A failure leaves the given text as
it was, so only the successful text is an outcome here. -/
def appendJsString (numerals : Numerals) (output : String) (value : Option Json) (maxBytes : ℕ) :
    Except JsStringError String :=
  if maxBytes < output.utf8ByteSize then .error .byteCapacity
  else appendLoop numerals maxBytes output value false []

/-! ### The text by recursion -/

/-- Two texts in a row, when there are both. -/
def appendTexts (text rest : Option String) : Option String :=
  text.bind fun text ↦ rest.map fun rest ↦ text ++ rest

mutual

/-- The text of an element of an array. -/
def elementText (numerals : Numerals) : Json → Option String
  | .null => some ""
  | .bool b => some (if b then "true" else "false")
  | .number n => some (numberText numerals n)
  | .string s => some s
  | .object members =>
    if Members.containsKey members "toString" then none else some "[object Object]"
  | .array [] => some ""
  | .array (first :: rest) => appendTexts (elementText numerals first) (tailText numerals rest)

/-- The text of the further elements of an array, each behind a comma. -/
def tailText (numerals : Numerals) : List Json → Option String
  | [] => some ""
  | item :: items =>
    appendTexts (some ",") (appendTexts (elementText numerals item) (tailText numerals items))

end

/-- The text of a value, as an element of an array or by itself. -/
def textOf (numerals : Numerals) (value : Option Json) (arrayElement : Bool) : Option String :=
  match value, arrayElement with
  | none, _ => some "undefined"
  | some .null, false => some "null"
  | some value, _ => elementText numerals value

/-- The JavaScript text of a JSON value that may be absent. -/
def jsString (numerals : Numerals) (value : Option Json) : Option String :=
  textOf numerals value false

/-- The text of what is left of the arrays around a value. -/
def restText (numerals : Numerals) : List (List Json) → Option String
  | [] => some ""
  | items :: parents => appendTexts (tailText numerals items) (restText numerals parents)

/-! ### The loop writes the text -/

section Loop

variable {numerals : Numerals} {maxBytes : ℕ} {output result : String} {value : Option Json}
  {arrayElement : Bool} {parents : List (List Json)}

/-- An outcome is the output with a text behind it that the bound admits. -/
def Writes (maxBytes : ℕ) (output : String) (text : Option String) (result : String) : Prop :=
  ∃ written, text = some written ∧ result = output ++ written ∧ result.utf8ByteSize ≤ maxBytes

theorem appendTexts_assoc (a b c : Option String) :
    appendTexts (appendTexts a b) c = appendTexts a (appendTexts b c) := by
  cases a <;> cases b <;> cases c <;> simp [appendTexts, String.append_assoc]

@[simp] theorem appendTexts_empty (a : Option String) : appendTexts a (some "") = a := by
  cases a <;> simp [appendTexts]

@[simp] theorem empty_appendTexts (a : Option String) : appendTexts (some "") a = a := by
  cases a <;> simp [appendTexts]

theorem appendStringPiece_eq_ok_iff {piece : String} :
    appendStringPiece output piece maxBytes = .ok result ↔
      Writes maxBytes output (some piece) result := by
  unfold appendStringPiece Writes
  split_ifs with hfull
  · simp only [false_iff, not_exists, not_and]
    rintro written hwritten rfl hbound
    cases hwritten
    rw [String.utf8ByteSize_append] at hbound
    omega
  · simp only [Except.ok.injEq, Option.some.injEq]
    constructor
    · rintro rfl
      refine ⟨piece, rfl, rfl, ?_⟩
      rw [String.utf8ByteSize_append]
      omega
    · rintro ⟨written, rfl, rfl, -⟩
      rfl

/-- What is written in two parts is written behind each other. -/
theorem writes_appendTexts {text rest : Option String} :
    Writes maxBytes output (appendTexts text rest) result ↔
      ∃ middle, Writes maxBytes output text middle ∧ Writes maxBytes middle rest result := by
  constructor
  · rintro ⟨written, htext, rfl, hbound⟩
    cases text with
    | none => cases htext
    | some text =>
      cases rest with
      | none => cases htext
      | some rest =>
        obtain rfl : text ++ rest = written := Option.some.inj htext
        rw [← String.append_assoc] at hbound ⊢
        refine ⟨output ++ text, ⟨text, rfl, rfl, ?_⟩, rest, rfl, rfl, hbound⟩
        rw [String.utf8ByteSize_append] at hbound
        omega
  · rintro ⟨middle, ⟨text, rfl, rfl, -⟩, rest, rfl, rfl, hbound⟩
    exact ⟨text ++ rest, rfl, String.append_assoc, hbound⟩

/-- Nothing more is written behind a text within the bound. -/
theorem ok_iff_writes_empty (hroom : output.utf8ByteSize ≤ maxBytes) :
    (.ok output : Except JsStringError String) = .ok result ↔
      Writes maxBytes output (some "") result := by
  simp only [Except.ok.injEq, Writes, Option.some.injEq]
  constructor
  · rintro rfl
    exact ⟨"", rfl, by simp, hroom⟩
  · rintro ⟨written, rfl, rfl, -⟩
    simp

theorem appendLeaf_eq_ok_iff (hroom : output.utf8ByteSize ≤ maxBytes)
    (hleaf : ∀ first rest, value ≠ some (.array (first :: rest))) :
    appendLeaf numerals maxBytes output value arrayElement = .ok result ↔
      Writes maxBytes output (textOf numerals value arrayElement) result := by
  match value, arrayElement with
  | none, _ => exact appendStringPiece_eq_ok_iff
  | some .null, false => exact appendStringPiece_eq_ok_iff
  | some .null, true => exact ok_iff_writes_empty hroom
  | some (.bool b), _ => exact appendStringPiece_eq_ok_iff
  | some (.number n), _ => exact appendStringPiece_eq_ok_iff
  | some (.string s), _ => exact appendStringPiece_eq_ok_iff
  | some (.object members), _ =>
    simp only [appendLeaf, textOf, elementText]
    split_ifs with hshadow
    · simp [Writes]
    · exact appendStringPiece_eq_ok_iff
  | some (.array []), _ => exact ok_iff_writes_empty hroom
  | some (.array (first :: rest)), _ => exact absurd rfl (hleaf first rest)

theorem restText_of_nextElement_none (hnext : nextElement parents = none) :
    restText numerals parents = some "" := by
  induction parents with
  | nil => rfl
  | cons items parents ih =>
    cases items with
    | nil => simp [restText, tailText, ih hnext]
    | cons item items => cases hnext

theorem restText_of_nextElement {next : Json} {rest : List (List Json)}
    (hnext : nextElement parents = some (next, rest)) :
    restText numerals parents =
      appendTexts (some ",")
        (appendTexts (elementText numerals next) (restText numerals rest)) := by
  induction parents with
  | nil => cases hnext
  | cons items parents ih =>
    cases items with
    | nil => simpa [restText, tailText] using ih hnext
    | cons item items =>
      cases hnext
      simp [restText, tailText, appendTexts_assoc]

theorem textOf_element (value : Json) : textOf numerals (some value) true =
    elementText numerals value := by
  cases value <;> rfl

theorem writes_leaf_iff (hroom : output.utf8ByteSize ≤ maxBytes)
    (hleaf : ∀ first rest, value ≠ some (.array (first :: rest))) {rest : Option String} :
    Writes maxBytes output (appendTexts (textOf numerals value arrayElement) rest) result ↔
      ∃ middle, appendLeaf numerals maxBytes output value arrayElement = .ok middle ∧
        Writes maxBytes middle rest result := by
  rw [writes_appendTexts]
  simp only [appendLeaf_eq_ok_iff hroom hleaf]

theorem writes_comma_iff {rest : Option String} :
    Writes maxBytes output (appendTexts (some ",") rest) result ↔
      ∃ middle, appendStringPiece output "," maxBytes = .ok middle ∧
        Writes maxBytes middle rest result := by
  rw [writes_appendTexts]
  simp only [appendStringPiece_eq_ok_iff]

theorem room_of_appendStringPiece {piece : String}
    (hpiece : appendStringPiece output piece maxBytes = .ok result) :
    result.utf8ByteSize ≤ maxBytes := by
  obtain ⟨_, _, _, hbound⟩ := appendStringPiece_eq_ok_iff.mp hpiece
  exact hbound

/-- The turn of the loop on a value without elements, without the evidence that it ends. -/
theorem appendLoop_leaf (hleaf : ∀ first rest, value ≠ some (.array (first :: rest))) :
    appendLoop numerals maxBytes output value arrayElement parents =
      match appendLeaf numerals maxBytes output value arrayElement with
      | .error error => .error error
      | .ok output =>
        match nextElement parents with
        | none => .ok output
        | some (next, parents) =>
          match appendStringPiece output "," maxBytes with
          | .error error => .error error
          | .ok output => appendLoop numerals maxBytes output (some next) true parents := by
  rw [appendLoop.eq_def]
  split
  · exact absurd rfl (hleaf _ _)
  · cases appendLeaf numerals maxBytes output value arrayElement with
    | error error => rfl
    | ok written =>
      dsimp only
      split <;> rename_i hnext <;> rw [hnext]

/-- The loop writes the text of the value in hand, then that of what is left around it. -/
theorem appendLoop_eq_ok_iff (hroom : output.utf8ByteSize ≤ maxBytes) :
    appendLoop numerals maxBytes output value arrayElement parents = .ok result ↔
      Writes maxBytes output
        (appendTexts (textOf numerals value arrayElement) (restText numerals parents)) result := by
  induction output, value, arrayElement, parents
    using appendLoop.induct numerals maxBytes with
  | case1 output arrayElement parents first rest ih =>
    rw [appendLoop, ih hroom, textOf_element]
    simp only [restText, textOf, elementText, appendTexts_assoc]
  | case2 output arrayElement parents value hleaf error hfail =>
    rw [appendLoop_leaf hleaf, writes_leaf_iff hroom hleaf]
    simp [hfail]
  | case3 output arrayElement parents value hleaf written hok hnext =>
    obtain ⟨_, _, _, hbound⟩ := (appendLeaf_eq_ok_iff hroom hleaf).mp hok
    rw [appendLoop_leaf hleaf, writes_leaf_iff hroom hleaf, restText_of_nextElement_none hnext]
    simp [hok, hnext, ← ok_iff_writes_empty hbound]
  | case4 output arrayElement parents value hleaf written hok next rest hnext error hfail =>
    rw [appendLoop_leaf hleaf, writes_leaf_iff hroom hleaf, restText_of_nextElement hnext]
    simp [hok, hnext, hfail, writes_comma_iff]
  | case5 output arrayElement parents value hleaf written hok next rest hnext comma hcomma ih =>
    rw [appendLoop_leaf hleaf, writes_leaf_iff hroom hleaf, restText_of_nextElement hnext]
    simp [hok, hnext, hcomma, writes_comma_iff, ih (room_of_appendStringPiece hcomma),
      textOf_element]

/-- The projection writes the JavaScript text of the value behind the output, within the bound. -/
theorem appendJsString_eq_ok_iff :
    appendJsString numerals output value maxBytes = .ok result ↔
      Writes maxBytes output (jsString numerals value) result := by
  unfold appendJsString
  split_ifs with hfull
  · simp only [false_iff]
    rintro ⟨written, -, rfl, hbound⟩
    rw [String.utf8ByteSize_append] at hbound
    omega
  · rw [appendLoop_eq_ok_iff (Nat.not_lt.mp hfull), restText, appendTexts_empty]
    rfl

end Loop

end ObsMcp.Opaque
