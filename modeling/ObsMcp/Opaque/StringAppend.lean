import Mathlib.Data.String.Basic
import ObsMcp.Foundations.Text
import ObsMcp.Opaque.JsString

/-!
# Appending a JavaScript text in place

`append_js_string` writes into the text it is given and cuts back to the old length when it fails,
at whatever depth that is. `appendInPlace` is that call with what it leaves behind: the partial
output of the walk, and the cut, which would be a panic inside a character. `projection` is the
JavaScript text by recursion over the value, an array being the texts of its elements joined with
commas.

`append_projection` says that the call appends the projection when it fits, and that every other
call fails and leaves the text as it was.
-/

namespace ObsMcp.Opaque

open Foundations Scenes

/-! ### The call -/

/-- `String::truncate`: the text up to a length, which has to be the end of a character. -/
def truncate (text : String) (length : ℕ) : Option String :=
  if text.utf8ByteSize ≤ length then some text
  else (Text.takeBytes length text.toList).map String.ofList

/-- The walk with the text it has written when it stops. -/
def writeLoop (numerals : Numerals) (maxBytes : ℕ) (output : String) (value : Option Json)
    (arrayElement : Bool) (parents : List (List Json)) : String × Except JsStringError Unit :=
  match value with
  | some (.array (first :: rest)) =>
    writeLoop numerals maxBytes output (some first) true (rest :: parents)
  | value =>
    match appendLeaf numerals maxBytes output value arrayElement with
    | .error error => (output, .error error)
    | .ok output =>
      match _hnext : nextElement parents with
      | none => (output, .ok ())
      | some (next, parents) =>
        match appendStringPiece output "," maxBytes with
        | .error error => (output, .error error)
        | .ok output => writeLoop numerals maxBytes output (some next) true parents
  termination_by sizeOf value + sizeOf parents
  decreasing_by
    · simp only [Option.some.sizeOf_spec, Json.array.sizeOf_spec, List.cons.sizeOf_spec]
      omega
    · have hless := sizeOf_nextElement _hnext
      have hvalue : 0 < sizeOf value := by cases value <;> simp
      simp only [Option.some.sizeOf_spec]
      omega

/-- `append_js_string` with the text after the call; nothing stands for a panic. -/
def appendInPlace (numerals : Numerals) (output : String) (value : Option Json) (maxBytes : ℕ) :
    Option (String × Except JsStringError Unit) :=
  let originalLen := output.utf8ByteSize
  let written :=
    if maxBytes < originalLen then (output, .error .byteCapacity)
    else writeLoop numerals maxBytes output value false []
  match written.2 with
  | .ok () => some written
  | .error error => (truncate written.1 originalLen).map fun text ↦ (text, .error error)

/-! ### The projection -/

mutual

/-- The JavaScript text of a value. -/
def projection (numerals : Numerals) : Json → Option String
  | .null => some "null"
  | .bool b => some (if b then "true" else "false")
  | .number n => some (numberText numerals n)
  | .string s => some s
  | .object members =>
    if Members.containsKey members "toString" then none else some "[object Object]"
  | .array items => (elementProjections numerals items).map (String.intercalate ",")

/-- The texts of the elements of an array, where a null is empty. -/
def elementProjections (numerals : Numerals) : List Json → Option (List String)
  | [] => some []
  | .null :: items => (elementProjections numerals items).map ("" :: ·)
  | item :: items =>
    (projection numerals item).bind fun text ↦
      (elementProjections numerals items).map (text :: ·)

end

/-- The JavaScript text of a value that may be undefined. -/
def jsProjection (numerals : Numerals) : Option Json → Option String
  | none => some "undefined"
  | some value => projection numerals value

section Projection

variable {numerals : Numerals}

/-- The text of an element of an array. -/
def elementProjection (numerals : Numerals) : Json → Option String
  | .null => some ""
  | item => projection numerals item

theorem elementProjections_cons (item : Json) (items : List Json) :
    elementProjections numerals (item :: items) =
      (elementProjection numerals item).bind fun text ↦
        (elementProjections numerals items).map (text :: ·) := by
  cases item <;> rfl

/-- Elements behind a text are joined to it with commas. -/
theorem tailText_eq {items : List Json}
    (hitems : ∀ item ∈ items, elementText numerals item = elementProjection numerals item)
    (text : String) :
    (tailText numerals items).map (text ++ ·) =
      (elementProjections numerals items).map fun texts ↦
        String.intercalate "," (text :: texts) := by
  induction items generalizing text with
  | nil => simp [tailText, elementProjections]
  | cons item items ih =>
    obtain ⟨hitem, hrest⟩ := List.forall_mem_cons.mp hitems
    rw [tailText, hitem, elementProjections_cons]
    cases elementProjection numerals item with
    | none => rfl
    | some next =>
      have htail := congrArg (Option.map (text ++ "," ++ ·)) (ih hrest next)
      simpa [appendTexts, Function.comp_def, String.append_assoc] using htail

/-- The text of a nonempty array as the loop writes it is the join of its elements. -/
theorem elementText_eq (value : Json) :
    elementText numerals value = elementProjection numerals value := by
  induction value using Json.induct with
  | null => rfl
  | bool b => rfl
  | number n => rfl
  | string s => rfl
  | object members ih => rfl
  | array items ih =>
    cases items with
    | nil => simp [elementText, elementProjection, projection, elementProjections]
    | cons first rest =>
      obtain ⟨hfirst, hrest⟩ := List.forall_mem_cons.mp ih
      have hprojection : elementProjection numerals (.array (first :: rest)) =
          (elementProjections numerals (first :: rest)).map (String.intercalate ",") := rfl
      rw [elementText, hfirst, hprojection, elementProjections_cons]
      cases elementProjection numerals first with
      | none => rfl
      | some text =>
        have htail := tailText_eq hrest text
        simpa [appendTexts, Function.comp_def] using htail

theorem jsString_eq_projection (value : Option Json) :
    jsString numerals value = jsProjection numerals value := by
  cases value with
  | none => rfl
  | some value =>
    cases value with
    | null => rfl
    | _ => exact elementText_eq _

end Projection

/-! ### What the call leaves behind -/

section Call

variable {numerals : Numerals} {maxBytes : ℕ} {output result : String} {value : Option Json}
  {arrayElement : Bool} {parents : List (List Json)} {error : JsStringError}

/-- What is written last is behind what was there. -/
theorem appendStringPiece_extends {piece : String}
    (hpiece : appendStringPiece output piece maxBytes = .ok result) :
    ∃ tail, result = output ++ tail := by
  obtain ⟨written, -, hresult, -⟩ := appendStringPiece_eq_ok_iff.mp hpiece
  exact ⟨written, hresult⟩

theorem appendLeaf_extends (hroom : output.utf8ByteSize ≤ maxBytes)
    (hleaf : ∀ first rest, value ≠ some (.array (first :: rest)))
    (hwrite : appendLeaf numerals maxBytes output value arrayElement = .ok result) :
    ∃ tail, result = output ++ tail ∧ result.utf8ByteSize ≤ maxBytes := by
  obtain ⟨written, -, hresult, hbound⟩ := (appendLeaf_eq_ok_iff hroom hleaf).mp hwrite
  exact ⟨written, hresult, hbound⟩

/-- A turn of the walk on a value without elements. -/
theorem writeLoop_leaf (hleaf : ∀ first rest, value ≠ some (.array (first :: rest))) :
    writeLoop numerals maxBytes output value arrayElement parents =
      match appendLeaf numerals maxBytes output value arrayElement with
      | .error error => (output, .error error)
      | .ok output =>
        match nextElement parents with
        | none => (output, .ok ())
        | some (next, parents) =>
          match appendStringPiece output "," maxBytes with
          | .error error => (output, .error error)
          | .ok output => writeLoop numerals maxBytes output (some next) true parents := by
  rw [writeLoop.eq_def]
  split
  · exact absurd rfl (hleaf _ _)
  · cases appendLeaf numerals maxBytes output value arrayElement with
    | error error => rfl
    | ok written =>
      dsimp only
      split <;> rename_i hnext <;> rw [hnext]

/-- The walk in place ends as the walk over texts does, with what it has written behind the old
text. -/
theorem writeLoop_spec (hroom : output.utf8ByteSize ≤ maxBytes) :
    (∃ tail, (writeLoop numerals maxBytes output value arrayElement parents).1 = output ++ tail) ∧
      (writeLoop numerals maxBytes output value arrayElement parents).2 =
        (appendLoop numerals maxBytes output value arrayElement parents).map (fun _ ↦ ()) ∧
      ∀ result, appendLoop numerals maxBytes output value arrayElement parents = .ok result →
        (writeLoop numerals maxBytes output value arrayElement parents).1 = result := by
  induction output, value, arrayElement, parents
    using appendLoop.induct numerals maxBytes with
  | case1 output arrayElement parents first rest ih =>
    have happend : appendLoop numerals maxBytes output (some (.array (first :: rest))) arrayElement
        parents = appendLoop numerals maxBytes output (some first) true (rest :: parents) := by
      rw [appendLoop]
    have hwrite : writeLoop numerals maxBytes output (some (.array (first :: rest))) arrayElement
        parents = writeLoop numerals maxBytes output (some first) true (rest :: parents) := by
      rw [writeLoop]
    rw [happend, hwrite]
    exact ih hroom
  | case2 output arrayElement parents value hleaf error hfail =>
    rw [appendLoop_leaf hleaf, writeLoop_leaf hleaf, hfail]
    exact ⟨⟨"", by simp⟩, rfl, by simp⟩
  | case3 output arrayElement parents value hleaf written hok hnext =>
    obtain ⟨tail, hwritten, -⟩ := appendLeaf_extends hroom hleaf hok
    rw [appendLoop_leaf hleaf, writeLoop_leaf hleaf, hok]
    dsimp only
    rw [hnext]
    exact ⟨⟨tail, hwritten⟩, rfl, fun result hresult ↦ Except.ok.inj hresult⟩
  | case4 output arrayElement parents value hleaf written hok next rest hnext error hfail =>
    obtain ⟨tail, hwritten, -⟩ := appendLeaf_extends hroom hleaf hok
    rw [appendLoop_leaf hleaf, writeLoop_leaf hleaf, hok]
    dsimp only
    rw [hnext]
    dsimp only
    rw [hfail]
    exact ⟨⟨tail, hwritten⟩, rfl, by simp⟩
  | case5 output arrayElement parents value hleaf written hok next rest hnext comma hcomma ih =>
    obtain ⟨tail, hwritten, -⟩ := appendLeaf_extends hroom hleaf hok
    obtain ⟨more, hmore⟩ := appendStringPiece_extends hcomma
    obtain ⟨⟨last, hlast⟩, hend⟩ := ih (room_of_appendStringPiece hcomma)
    rw [appendLoop_leaf hleaf, writeLoop_leaf hleaf, hok]
    dsimp only
    rw [hnext]
    dsimp only
    rw [hcomma]
    refine ⟨⟨tail ++ more ++ last, ?_⟩, hend⟩
    rw [hlast, hmore, hwritten]
    simp only [String.append_assoc]

theorem size_toList (text : String) : Text.size text.toList = text.utf8ByteSize := by
  rw [← String.utf8Len_toList]
  induction text.toList with
  | nil => rfl
  | cons c cs ih => rw [Text.size, ih, String.utf8Len_cons, Nat.add_comm]

/-- Cutting back to the old length gives the old text. -/
theorem truncate_append (text tail : String) :
    truncate (text ++ tail) text.utf8ByteSize = some text := by
  rw [truncate]
  split_ifs with hshort
  · rw [String.utf8ByteSize_append] at hshort
    have hempty : tail = "" := String.utf8ByteSize_eq_zero_iff.mp (by omega)
    rw [hempty, String.append_empty]
  · rw [String.toList_append, ← size_toList, Text.takeBytes_append, Option.map_some,
      String.ofList_toList]

/-- The call ends as the walk over texts does, and leaves the old text when it fails. -/
theorem appendInPlace_eq :
    appendInPlace numerals output value maxBytes =
      match appendJsString numerals output value maxBytes with
      | .ok result => some (result, .ok ())
      | .error error => some (output, .error error) := by
  have hcut := truncate_append output ""
  rw [String.append_empty] at hcut
  unfold appendInPlace appendJsString
  dsimp only
  split_ifs with hfull
  · rw [hcut]
    rfl
  · obtain ⟨⟨tail, hwritten⟩, hend, hresult⟩ :=
      @writeLoop_spec numerals maxBytes output value false [] (Nat.not_lt.mp hfull)
    cases hloop : appendLoop numerals maxBytes output value false [] with
    | ok result =>
      rw [hloop] at hend
      rw [hend]
      exact congrArg some (Prod.ext (hresult result hloop) hend)
    | error error =>
      rw [hloop] at hend
      rw [hend, hwritten, truncate_append]
      rfl

/-- The call appends the projection of the value when there is one and it fits; otherwise it fails,
and the text is what it was. -/
theorem append_projection (numerals : Numerals) (output : String) (value : Option Json)
    (maxBytes : ℕ) :
    (∀ text, jsProjection numerals value = some text →
        output.utf8ByteSize + text.utf8ByteSize ≤ maxBytes →
      appendInPlace numerals output value maxBytes = some (output ++ text, .ok ())) ∧
    ((∀ text, jsProjection numerals value = some text →
        maxBytes < output.utf8ByteSize + text.utf8ByteSize) →
      ∃ error, appendInPlace numerals output value maxBytes = some (output, .error error)) := by
  rw [appendInPlace_eq, ← jsString_eq_projection]
  constructor
  · intro text htext hroom
    have hwrites : Writes maxBytes output (jsString numerals value) (output ++ text) := by
      refine ⟨text, htext, rfl, ?_⟩
      rw [String.utf8ByteSize_append]
      exact hroom
    rw [appendJsString_eq_ok_iff.mpr hwrites]
  · intro hlong
    cases hcall : appendJsString numerals output value maxBytes with
    | error error => exact ⟨error, rfl⟩
    | ok result =>
      obtain ⟨text, htext, rfl, hbound⟩ := appendJsString_eq_ok_iff.mp hcall
      rw [String.utf8ByteSize_append] at hbound
      exact absurd (hlong text htext) (Nat.not_lt.mpr hbound)

end Call

end ObsMcp.Opaque
