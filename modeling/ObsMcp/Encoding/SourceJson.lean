import ObsMcp.Foundations.Fallible
import ObsMcp.Opaque.Commands
import ObsMcp.Receipts.Identity

/-!
# The encoder of source JSON

A frame is checked and counted before it is admitted and written when it is sent, each time by a
walk over the same value. `check` bounds the depth and the number of nodes, `emit` writes the value
to any writer, and `Prepared` is a value that was checked and counted. A writer is a state and what
it makes of a piece: `count` only adds lengths up to a limit, `vec` collects the bytes.

`emit_eq` says that every writer is handed the same pieces. So the count is the length of the bytes
(`encodedLen_eq_ok_iff`), and the node budget, a node a byte, refuses no value whose bytes fit.
-/

namespace ObsMcp.Encoding

open Foundations Scenes Opaque Receipts List Option

variable {σ : Type} {numerals : Numerals}

/-! ### The check -/

inductive NumericNormalizationError
  | depth
  | encodedBytes
  | numberUnavailable
  deriving DecidableEq

structure Limits where
  maxDepth : ℕ
  maxEncodedBytes : ℕ

mutual

/-- The nodes that are left of a budget when the nodes of a value are taken from it. -/
def check (maxDepth depth : ℕ) (value : Json) (nodes : ℕ) : Except NumericNormalizationError ℕ :=
  if maxDepth < depth then .error .depth
  else if nodes = 0 then .error .encodedBytes
  else
    match value with
    | .number n => if n.asF64.isFinite then .ok (nodes - 1) else .error .numberUnavailable
    | .array items => checkItems maxDepth (depth + 1) items (nodes - 1)
    | .object members => checkMembers maxDepth (depth + 1) members (nodes - 1)
    | _ => .ok (nodes - 1)

def checkItems (maxDepth depth : ℕ) (items : List Json) (nodes : ℕ) :
    Except NumericNormalizationError ℕ :=
  match items with
  | [] => .ok nodes
  | item :: items => do
    let nodes ← check maxDepth depth item nodes
    checkItems maxDepth depth items nodes

def checkMembers (maxDepth depth : ℕ) (members : List (String × Json)) (nodes : ℕ) :
    Except NumericNormalizationError ℕ :=
  match members with
  | [] => .ok nodes
  | (_, value) :: members => do
    let nodes ← check maxDepth depth value nodes
    checkMembers maxDepth depth members nodes

end

/-! ### Writers -/

/-- What a writer makes of a piece; nothing is said of a refusal but that it is one. -/
structure Writer (σ : Type) where
  write : σ → List UInt8 → Option σ

variable (writer : Writer σ)

/-- `write_all`: an empty piece is not handed to the writer. -/
def Writer.writeAll (state : σ) (piece : List UInt8) : Option σ :=
  if piece = [] then some state else writer.write state piece

/-- `Count`: adds up lengths, up to a limit. -/
def count (limit : ℕ) : Writer ℕ where
  write used piece := if used + piece.length ≤ limit then some (used + piece.length) else none

/-- A vector of bytes. -/
def vec : Writer (List UInt8) where
  write bytes piece := some (bytes ++ piece)

/-! ### The encoder -/

/-- A hexadecimal digit in lower case. -/
def hexDigit (n : ℕ) : Char :=
  if n < 10 then Char.ofNat (48 + n) else Char.ofNat (87 + n)

/-- A character as it stands in a JSON string. -/
def escapeChar (c : Char) : String :=
  if c = '"' then "\\\""
  else if c = '\\' then "\\\\"
  else if c = '\x08' then "\\b"
  else if c = '\x0c' then "\\f"
  else if c = '\n' then "\\n"
  else if c = '\r' then "\\r"
  else if c = '\t' then "\\t"
  else if c.toNat < 32 then
    "\\u00" ++ String.ofList [hexDigit (c.toNat / 16), hexDigit (c.toNat % 16)]
  else String.singleton c

/-- A JSON string, piece by piece; where the pieces are cut does not matter to a writer. -/
def stringPieces (text : String) : List String :=
  "\"" :: text.toList.map escapeChar ++ ["\""]

def writePieces (pieces : List String) (state : σ) : Option σ :=
  pieces.foldlM (fun state piece ↦ writer.writeAll state (utf8 piece)) state

mutual

def emit (numerals : Numerals) (writer : Writer σ) (value : Json) (output : σ) : Option σ :=
  match value with
  | .number n => writer.writeAll output (utf8 (numberText numerals n))
  | .array items => do
    let output ← writer.writeAll output (utf8 "[")
    let output ← emitItems numerals writer true items output
    writer.writeAll output (utf8 "]")
  | .object members => do
    let output ← writer.writeAll output (utf8 "\x7b")
    let output ← emitMembers numerals writer true members output
    writer.writeAll output (utf8 "\x7d")
  | .null => writePieces writer ["null"] output
  | .bool b => writePieces writer [if b then "true" else "false"] output
  | .string text => writePieces writer (stringPieces text) output

/-- The items of an array, the first of which has no comma before it. -/
def emitItems (numerals : Numerals) (writer : Writer σ) (first : Bool) (items : List Json)
    (output : σ) : Option σ :=
  match items with
  | [] => some output
  | item :: items => do
    let output ← if first then some output else writer.writeAll output (utf8 ",")
    let output ← emit numerals writer item output
    emitItems numerals writer false items output

/-- The members of an object, the first of which has no comma before it. -/
def emitMembers (numerals : Numerals) (writer : Writer σ) (first : Bool)
    (members : List (String × Json)) (output : σ) : Option σ :=
  match members with
  | [] => some output
  | (key, value) :: members => do
    let output ← if first then some output else writer.writeAll output (utf8 ",")
    let output ← writePieces writer (stringPieces key) output
    let output ← writer.writeAll output (utf8 ":")
    let output ← emit numerals writer value output
    emitMembers numerals writer false members output

end

/-- A value that was checked, and its length. -/
structure Prepared where
  value : Json
  length : ℕ

namespace Prepared

def new (numerals : Numerals) (value : Json) (limits : Limits) :
    Except NumericNormalizationError Prepared := do
  let _ ← check limits.maxDepth 0 value limits.maxEncodedBytes
  match emit numerals (count limits.maxEncodedBytes) value 0 with
  | some used => .ok ⟨value, used⟩
  | none => .error .encodedBytes

def writeTo (numerals : Numerals) (prepared : Prepared) (writer : Writer σ) (output : σ) :
    Option σ :=
  emit numerals writer prepared.value output

def intoBuffer (numerals : Numerals) (prepared : Prepared) :
    Except NumericNormalizationError (List UInt8) :=
  match prepared.writeTo numerals vec [] with
  | some bytes => .ok bytes
  | none => .error .encodedBytes

end Prepared

def encodedLen (numerals : Numerals) (value : Json) (limits : Limits) :
    Except NumericNormalizationError ℕ := do
  let prepared ← Prepared.new numerals value limits
  return prepared.length

def encodeSourceJson (numerals : Numerals) (value : Json) (limits : Limits) :
    Except NumericNormalizationError (List UInt8) := do
  let prepared ← Prepared.new numerals value limits
  prepared.intoBuffer numerals

/-! ### The pieces of a value -/

mutual

/-- The pieces that a value is written in. -/
def pieces (numerals : Numerals) : Json → List String
  | .number n => [numberText numerals n]
  | .array items => "[" :: itemPieces numerals true items ++ ["]"]
  | .object members => "\x7b" :: memberPieces numerals true members ++ ["\x7d"]
  | .null => ["null"]
  | .bool b => [if b then "true" else "false"]
  | .string text => stringPieces text

def itemPieces (numerals : Numerals) : Bool → List Json → List String
  | _, [] => []
  | first, item :: items =>
    (if first then [] else [","]) ++ pieces numerals item ++ itemPieces numerals false items

def memberPieces (numerals : Numerals) : Bool → List (String × Json) → List String
  | _, [] => []
  | first, (key, value) :: members =>
    (if first then [] else [","]) ++ stringPieces key ++ ":" :: pieces numerals value ++
      memberPieces numerals false members

end

/-- The bytes of a value. -/
def bytes (numerals : Numerals) (value : Json) : List UInt8 :=
  (pieces numerals value).flatMap utf8

/-! ### Every writer is handed the same pieces -/

theorem writePieces_append (xs ys : List String) (state : σ) :
    writePieces writer (xs ++ ys) state =
      (writePieces writer xs state).bind (writePieces writer ys) := by
  rw [writePieces, foldlM_append]
  rfl

theorem writePieces_singleton (piece : String) (state : σ) :
    writePieces writer [piece] state = writer.writeAll state (utf8 piece) := by
  rw [writePieces, foldlM_cons]
  exact bind_pure _

theorem writePieces_cons (piece : String) (xs : List String) (state : σ) :
    writePieces writer (piece :: xs) state =
      (writer.writeAll state (utf8 piece)).bind (writePieces writer xs) :=
  foldlM_cons

variable {items : List Json} {members : List (String × Json)}

theorem emitItems_eq (hitems : ∀ item ∈ items, ∀ state,
      emit numerals writer item state = writePieces writer (pieces numerals item) state)
    (first : Bool) (state : σ) :
    emitItems numerals writer first items state =
      writePieces writer (itemPieces numerals first items) state := by
  induction items generalizing first state with
  | nil => rfl
  | cons item items ih =>
    obtain ⟨hitem, hrest⟩ := forall_mem_cons.mp hitems
    rw [emitItems, itemPieces, writePieces_append, writePieces_append]
    cases first
    · simp only [Bool.false_eq_true, if_false, writePieces_singleton, hitem, ih hrest,
        bind_eq_bind, bind_assoc]
    · simp only [if_true, hitem, ih hrest, bind_eq_bind, bind_assoc]
      rfl

theorem emitMembers_eq (hmembers : ∀ member ∈ members, ∀ state,
      emit numerals writer member.2 state = writePieces writer (pieces numerals member.2) state)
    (first : Bool) (state : σ) :
    emitMembers numerals writer first members state =
      writePieces writer (memberPieces numerals first members) state := by
  induction members generalizing first state with
  | nil => rfl
  | cons member members ih =>
    obtain ⟨key, value⟩ := member
    obtain ⟨hmember, hrest⟩ := forall_mem_cons.mp hmembers
    rw [emitMembers, memberPieces]
    simp only [writePieces_append, writePieces_cons]
    cases first
    · simp only [Bool.false_eq_true, if_false, writePieces_singleton, hmember, ih hrest,
        bind_eq_bind, bind_assoc]
    · simp only [if_true, hmember, ih hrest, bind_eq_bind, bind_assoc]
      rfl

/-- The encoder hands its pieces to the writer, one after the other. -/
theorem emit_eq (value : Json) (state : σ) :
    emit numerals writer value state = writePieces writer (pieces numerals value) state := by
  induction value using Json.induct generalizing state with
  | null => rfl
  | bool b => rfl
  | number n => exact (writePieces_singleton _ _ _).symm
  | string text => rfl
  | array items ih =>
    rw [emit, pieces, cons_append, writePieces_cons]
    simp only [writePieces_append, writePieces_singleton, emitItems_eq writer ih,
      bind_eq_bind]
  | object members ih =>
    rw [emit, pieces, cons_append, writePieces_cons]
    simp only [writePieces_append, writePieces_singleton, emitMembers_eq writer ih,
      bind_eq_bind]

/-! ### Counting and collecting -/

theorem writePieces_vec (xs : List String) (state : List UInt8) :
    writePieces vec xs state = some (state ++ xs.flatMap utf8) := by
  induction xs generalizing state with
  | nil => simp [writePieces]
  | cons piece xs ih =>
    have hwrite : vec.writeAll state (utf8 piece) = some (state ++ utf8 piece) := by
      rw [Writer.writeAll]
      split_ifs with hempty
      · rw [hempty, append_nil]
      · rfl
    rw [writePieces_cons, hwrite, bind_some, ih, flatMap_cons, append_assoc]

/-- The count is refused when the bytes exceed the limit. -/
theorem writePieces_count {limit used : ℕ} (hused : used ≤ limit) (xs : List String) :
    writePieces (count limit) xs used =
      if used + (xs.flatMap utf8).length ≤ limit then some (used + (xs.flatMap utf8).length)
      else none := by
  induction xs generalizing used with
  | nil => simp [writePieces, hused]
  | cons piece xs ih =>
    have hwrite : (count limit).writeAll used (utf8 piece) =
        if used + (utf8 piece).length ≤ limit then some (used + (utf8 piece).length) else none := by
      rw [Writer.writeAll]
      split_ifs with hempty hroom hroom
      · rw [hempty, length_nil, Nat.add_zero]
      · rw [hempty, length_nil, Nat.add_zero] at hroom
        exact absurd hused hroom
      · exact if_pos hroom
      · exact if_neg hroom
    rw [writePieces_cons, hwrite, flatMap_cons, length_append, ← Nat.add_assoc]
    by_cases hroom : used + (utf8 piece).length ≤ limit
    · rw [if_pos hroom, bind_some, ih hroom]
    · rw [if_neg hroom, if_neg (by omega)]
      rfl

theorem emit_vec (value : Json) (state : List UInt8) :
    emit numerals vec value state = some (state ++ bytes numerals value) := by
  rw [emit_eq, writePieces_vec, bytes]

theorem emit_count (limit : ℕ) (value : Json) :
    emit numerals (count limit) value 0 =
      if (bytes numerals value).length ≤ limit then some (bytes numerals value).length
      else none := by
  rw [emit_eq, writePieces_count (Nat.zero_le limit), Nat.zero_add, bytes]

/-! ### What the check lets through -/

variable {depth maxDepth : ℕ} {text : String}

/-- A budget pays for two parts one after the other. -/
theorem exists_left_iff {p q : Prop} {first second nodes rest : ℕ} :
    (∃ left, (p ∧ nodes = first + left) ∧ q ∧ left = second + rest) ↔
      (p ∧ q) ∧ nodes = first + second + rest := by
  simp only [Nat.add_assoc, ← and_assoc, exists_eq_right]
  tauto

theorem checkItems_eq_ok_iff
    (hitems : ∀ item ∈ items, ∀ nodes rest, check maxDepth depth item nodes = .ok rest ↔
      withinDepth maxDepth depth item = true ∧ nodes = nodeCount item + rest) (nodes rest : ℕ) :
    checkItems maxDepth depth items nodes = .ok rest ↔
      itemsWithinDepth maxDepth depth items = true ∧ nodes = itemsCount items + rest := by
  induction items generalizing nodes with
  | nil => simp [checkItems, itemsWithinDepth, itemsCount]
  | cons item items ih =>
    obtain ⟨hitem, hrest⟩ := forall_mem_cons.mp hitems
    rw [checkItems, bind_eq_ok_iff, itemsWithinDepth, itemsCount, Bool.and_eq_true]
    simp only [hitem, ih hrest, exists_left_iff]

theorem checkMembers_eq_ok_iff
    (hmembers : ∀ member ∈ members, ∀ nodes rest, check maxDepth depth member.2 nodes = .ok rest ↔
      withinDepth maxDepth depth member.2 = true ∧ nodes = nodeCount member.2 + rest)
    (nodes rest : ℕ) :
    checkMembers maxDepth depth members nodes = .ok rest ↔
      membersWithinDepth maxDepth depth members = true ∧
        nodes = membersCount members + rest := by
  induction members generalizing nodes with
  | nil => simp [checkMembers, membersWithinDepth, membersCount]
  | cons member members ih =>
    obtain ⟨key, value⟩ := member
    obtain ⟨hmember, hrest⟩ := forall_mem_cons.mp hmembers
    rw [checkMembers, bind_eq_ok_iff, membersWithinDepth, membersCount, Bool.and_eq_true]
    simp only [hmember, ih hrest, exists_left_iff]

/-- The check takes one node of the budget for each node of the value, and refuses depth; every
number has a finite double. -/
theorem check_eq_ok_iff (maxDepth depth : ℕ) (value : Json) (nodes rest : ℕ) :
    check maxDepth depth value nodes = .ok rest ↔
      withinDepth maxDepth depth value = true ∧ nodes = nodeCount value + rest := by
  induction value using Json.induct generalizing depth nodes rest with
  | array items ih =>
    have hitems := checkItems_eq_ok_iff (fun item hitem ↦ ih item hitem (depth + 1)) (nodes - 1)
      rest
    rw [check, withinDepth, nodeCount]
    split_ifs with hdeep hspent
    · simp [Nat.not_le.mpr hdeep]
    · simp [hspent]
      omega
    · rw [hitems, decide_eq_true (Nat.not_lt.mp hdeep), Bool.true_and]
      exact and_congr_right fun _ ↦ by omega
  | object members ih =>
    have hmembers := checkMembers_eq_ok_iff (fun member hmember ↦ ih member hmember (depth + 1))
      (nodes - 1) rest
    rw [check, withinDepth, nodeCount]
    split_ifs with hdeep hspent
    · simp [Nat.not_le.mpr hdeep]
    · simp [hspent]
      omega
    · rw [hmembers, decide_eq_true (Nat.not_lt.mp hdeep), Bool.true_and]
      exact and_congr_right fun _ ↦ by omega
  | number n =>
    simp only [check, withinDepth, nodeCount, if_pos n.asF64_isFinite]
    split_ifs with hdeep hspent <;> simp <;> omega
  | null | bool b | string text =>
    simp only [check, withinDepth, nodeCount]
    split_ifs with hdeep hspent <;> simp <;> omega

theorem utf8_ne_nil (htext : text ≠ "") : utf8 text ≠ [] := by
  intro hnil
  have hlength : (utf8 text).length = text.utf8ByteSize := rfl
  rw [hnil, length_nil] at hlength
  exact htext (String.utf8ByteSize_eq_zero_iff.mp hlength.symm)

theorem one_le_utf8 (htext : text ≠ "") : 1 ≤ (utf8 text).length :=
  length_pos_of_ne_nil (utf8_ne_nil htext)

/-- The numbers of an encoding are not empty. -/
def Printed (numerals : Numerals) : Prop :=
  ∀ n, numberText numerals n ≠ ""

theorem itemsCount_le (hitems : ∀ item ∈ items, nodeCount item ≤ (bytes numerals item).length)
    (first : Bool) :
    itemsCount items ≤ ((itemPieces numerals first items).flatMap utf8).length := by
  induction items generalizing first with
  | nil => exact Nat.zero_le _
  | cons item items ih =>
    obtain ⟨hitem, hrest⟩ := forall_mem_cons.mp hitems
    have htail := ih hrest false
    rw [bytes] at hitem
    rw [itemsCount, itemPieces]
    simp only [flatMap_append, length_append]
    omega

theorem membersCount_le
    (hmembers : ∀ member ∈ members, nodeCount member.2 ≤ (bytes numerals member.2).length)
    (first : Bool) :
    membersCount members ≤ ((memberPieces numerals first members).flatMap utf8).length := by
  induction members generalizing first with
  | nil => exact Nat.zero_le _
  | cons member members ih =>
    obtain ⟨key, value⟩ := member
    obtain ⟨hmember, hrest⟩ := forall_mem_cons.mp hmembers
    have htail := ih hrest false
    dsimp only [bytes] at hmember
    rw [membersCount, memberPieces]
    simp only [flatMap_append, flatMap_cons, length_append]
    omega

/-- Every node of a value takes at least one byte. -/
theorem nodeCount_le (hprinted : Printed numerals) (value : Json) :
    nodeCount value ≤ (bytes numerals value).length := by
  induction value using Json.induct with
  | null =>
    have hnull : 1 ≤ (utf8 "null").length := one_le_utf8 (by decide)
    simpa only [nodeCount, bytes, pieces, flatMap_singleton] using hnull
  | bool b =>
    have hbool : 1 ≤ (utf8 (if b then "true" else "false")).length :=
      one_le_utf8 (by cases b <;> decide)
    simpa only [nodeCount, bytes, pieces, flatMap_singleton] using hbool
  | number n =>
    simp only [nodeCount, bytes, pieces, flatMap_singleton]
    exact one_le_utf8 (hprinted n)
  | string text =>
    simp only [nodeCount, bytes, pieces, stringPieces, cons_append, flatMap_cons,
      length_append]
    have hquote : 1 ≤ (utf8 "\"").length := one_le_utf8 (by decide)
    omega
  | array items ih =>
    have hitems := itemsCount_le ih true
    have hopen : 1 ≤ (utf8 "[").length := one_le_utf8 (by decide)
    simp only [nodeCount, bytes, pieces, cons_append, flatMap_cons, flatMap_append,
      length_append]
    omega
  | object members ih =>
    have hmembers := membersCount_le ih true
    have hopen : 1 ≤ (utf8 "\x7b").length := one_le_utf8 (by decide)
    simp only [nodeCount, bytes, pieces, cons_append, flatMap_cons, flatMap_append,
      length_append]
    omega

/-! ### Prepared values -/

variable {value : Json} {limits : Limits}

/-- A value is prepared when it is not too deep and its bytes fit; the node budget asks for no
more. -/
theorem new_eq_ok_iff (hprinted : Printed numerals) {prepared : Prepared} :
    Prepared.new numerals value limits = .ok prepared ↔
      withinDepth limits.maxDepth 0 value = true ∧
      (bytes numerals value).length ≤ limits.maxEncodedBytes ∧
      prepared = ⟨value, (bytes numerals value).length⟩ := by
  rw [Prepared.new, bind_eq_ok_iff, emit_count]
  simp only [check_eq_ok_iff]
  constructor
  · rintro ⟨rest, ⟨hdepth, -⟩, hcount⟩
    split_ifs at hcount with hroom
    exact ⟨hdepth, hroom, (Except.ok.inj hcount).symm⟩
  · rintro ⟨hdepth, hroom, rfl⟩
    have hnodes := nodeCount_le hprinted value
    refine ⟨limits.maxEncodedBytes - nodeCount value, ⟨hdepth, by omega⟩, ?_⟩
    rw [if_pos hroom]

theorem encodedLen_eq_ok_iff (hprinted : Printed numerals) {length : ℕ} :
    encodedLen numerals value limits = .ok length ↔
      withinDepth limits.maxDepth 0 value = true ∧
      (bytes numerals value).length ≤ limits.maxEncodedBytes ∧
      length = (bytes numerals value).length := by
  rw [encodedLen, bind_eq_ok_iff]
  simp only [new_eq_ok_iff hprinted, pure_eq_ok_iff]
  constructor
  · rintro ⟨prepared, ⟨hdepth, hroom, rfl⟩, rfl⟩
    exact ⟨hdepth, hroom, rfl⟩
  · rintro ⟨hdepth, hroom, rfl⟩
    exact ⟨_, ⟨hdepth, hroom, rfl⟩, rfl⟩

theorem encodeSourceJson_eq_ok_iff (hprinted : Printed numerals) {encoded : List UInt8} :
    encodeSourceJson numerals value limits = .ok encoded ↔
      withinDepth limits.maxDepth 0 value = true ∧
      (bytes numerals value).length ≤ limits.maxEncodedBytes ∧
      encoded = bytes numerals value := by
  rw [encodeSourceJson, bind_eq_ok_iff]
  simp only [new_eq_ok_iff hprinted, Prepared.intoBuffer, Prepared.writeTo]
  constructor
  · rintro ⟨prepared, ⟨hdepth, hroom, rfl⟩, hbuffer⟩
    rw [emit_vec, nil_append] at hbuffer
    exact ⟨hdepth, hroom, (Except.ok.inj hbuffer).symm⟩
  · rintro ⟨hdepth, hroom, rfl⟩
    refine ⟨_, ⟨hdepth, hroom, rfl⟩, ?_⟩
    rw [emit_vec, nil_append]

end ObsMcp.Encoding
