import ObsMcp.Foundations.LastWins
import ObsMcp.Foundations.Text
import ObsMcp.Session.Response
import ObsMcp.Transform.Strings

/-!
# The canonical text of a transform

`ordered_transform.rs` answers a transform readback with the JSON text that a JavaScript client
would print for it. It keeps the raw text of the peer and rewrites it: `Scanner.value` finds the end
of a value, `object` and `array` cut a span into the spans of its parts, `fields` merges duplicate
keys and puts them in the order of JavaScript, and `emit` writes a span by writing those of its
parts. `canonical` runs `emit` twice, once to count and once to write.

A text is a list of characters here; the source walks over its bytes, and every place where it stops
is the start of a character. A depth is counted down: a call at depth `d` of the source is one with
`maxDepth + 1 - d` levels left. The loop over the items of an array or an object has a turn for
each character that is left and one more, which it cannot use up. Numbers are read and rendered by
parameters (`Numbers`). The deadline and the cancellation, which can only replace a result by an
error, are left out.
-/

namespace ObsMcp.Transform

open Foundations

open Session (ProjectionError)

/-- The deepest nesting. -/
def maxDepth : ℕ := 128

/-- The bytes of a frame, and the values a scanner may visit. -/
def maxIncomingBytes : ℕ := 8 * 1024 * 1024 + 64 * 1024

/-! ### Numbers -/

def IsDigits (text : List Char) : Prop :=
  text ≠ [] ∧ ∀ c ∈ text, c.isDigit = true

/-- A JSON number: a sign, an integer part without a leading zero, a fraction and an exponent. -/
def IsNumber (token : List Char) : Prop :=
  ∃ sign whole fraction exponent, token = sign ++ whole ++ fraction ++ exponent ∧
    (sign = [] ∨ sign = ['-']) ∧
    (whole = ['0'] ∨ IsDigits whole ∧ whole.head? ≠ some '0') ∧
    (fraction = [] ∨ ∃ digits, IsDigits digits ∧ fraction = '.' :: digits) ∧
    (exponent = [] ∨ ∃ e sign digits, (e = 'e' ∨ e = 'E') ∧
      (sign = [] ∨ sign = ['+'] ∨ sign = ['-']) ∧ IsDigits digits ∧ exponent = e :: sign ++ digits)

/-- The numbers of the language: which tokens `serde_json` accepts, which finite float a token is
read as, and how a float is rendered. -/
structure Numbers where
  Float : Type
  accepts : List Char → Bool
  read : List Char → Option Float
  render : Float → List Char
  isNumber_of_accepts : ∀ {token}, accepts token = true → IsNumber token
  accepts_render : ∀ x, accepts (render x) = true

/-- The characters of a number token. -/
def isNumberChar (c : Char) : Bool :=
  c.isDigit || c ∈ ['-', '+', '.', 'e', 'E']

/-! ### The scanner -/

/-- The text that is left, and the values that may still be visited. -/
structure Scanner where
  rest : List Char
  nodes : ℕ

namespace Scanner

def new (text : List Char) : Scanner where
  rest := text
  nodes := maxIncomingBytes

def isBlank (c : Char) : Bool :=
  c ∈ [' ', '\n', '\r', '\t']

def ws (rest : List Char) : List Char :=
  rest.dropWhile isBlank

/-- The text behind an expected character. -/
def take (expected : Char) (rest : List Char) : Except ProjectionError (List Char) :=
  match ws rest with
  | [] => .error .malformed
  | c :: rest => if c = expected then .ok rest else .error .malformed

/-- The part of a text before what is left of it. -/
def slice (start rest : List Char) : List Char :=
  start.take (start.length - rest.length)

/-- A string token and the text behind it. -/
def string (rest : List Char) : Except ProjectionError (List Char × List Char) := do
  let start ← take '"' rest
  match quoted start with
  | none => .error .malformed
  | some rest => .ok (slice ('"' :: start) rest, rest)

/-- The items up to a closing character, separated by commas. -/
def loop {α : Type} (close : Char) (item : Scanner → Except ProjectionError (α × Scanner)) :
    ℕ → Scanner → Except ProjectionError (List α × Scanner)
  | 0, _ => .error .malformed
  | turns + 1, scan => do
    let (a, scan) ← item scan
    match ws scan.rest with
    | [] => .error .malformed
    | c :: rest =>
      if c = ',' then do
        let (as, scan) ← loop close item turns { scan with rest }
        return (a :: as, scan)
      else if c = close then .ok ([a], { scan with rest })
      else .error .malformed

/-- The items of an array or an object whose opening character has been read. -/
def enclosed {α : Type} (close : Char) (item : Scanner → Except ProjectionError (α × Scanner))
    (scan : Scanner) : Except ProjectionError (List α × Scanner) :=
  let rest := ws scan.rest
  if rest.head? = some close then .ok ([], { scan with rest := rest.tail })
  else loop close item (rest.length + 1) { scan with rest }

/-- A member of an object, its key read in some way. -/
def member {κ : Type} (readKey : List Char → Option κ)
    (value : Scanner → Except ProjectionError (List Char × Scanner)) (scan : Scanner) :
    Except ProjectionError ((κ × List Char) × Scanner) := do
  let (token, rest) ← string scan.rest
  match readKey token with
  | none => .error .malformed
  | some key =>
    let rest ← take ':' rest
    let (span, scan) ← value { scan with rest }
    return ((key, span), scan)

/-- The word that a literal with a given first letter must be. -/
def literal (first : Char) : List Char :=
  if first = 't' then ['t', 'r', 'u', 'e']
  else if first = 'f' then ['f', 'a', 'l', 's', 'e']
  else ['n', 'u', 'l', 'l']

/-- The end of a value that starts with a given character, among the values of which each `inner`
scans one. -/
def valueEnd (numbers : Numbers) (inner : Scanner → Except ProjectionError (List Char × Scanner))
    (first : Char) (scan : Scanner) : Except ProjectionError Scanner :=
  if first = '"' then do
    let (_, rest) ← string scan.rest
    return { scan with rest }
  else if first = '\x7b' then do
    let (_, scan) ← enclosed '\x7d' (member some inner) { scan with rest := scan.rest.tail }
    return scan
  else if first = '[' then do
    let (_, scan) ← enclosed ']' inner { scan with rest := scan.rest.tail }
    return scan
  else if first = 't' ∨ first = 'f' ∨ first = 'n' then
    if (literal first).isPrefixOf scan.rest then
      .ok { scan with rest := scan.rest.drop (literal first).length }
    else .error .malformed
  else if first = '-' ∨ first.isDigit = true then
    if numbers.accepts (scan.rest.takeWhile isNumberChar) then
      .ok { scan with rest := scan.rest.dropWhile isNumberChar }
    else .error .malformed
  else .error .malformed

/-- The span of the next value. -/
def value (numbers : Numbers) : ℕ → Scanner → Except ProjectionError (List Char × Scanner)
  | 0, _ => .error .depth
  | levels + 1, scan =>
    if scan.nodes = 0 then .error .malformed
    else
      match ws scan.rest with
      | [] => .error .malformed
      | first :: rest => do
        let next ← valueEnd numbers (value numbers levels) first
          { rest := first :: rest, nodes := scan.nodes - 1 }
        return (slice (first :: rest) next.rest, next)

/-- Nothing but blanks is left. -/
def finish (scan : Scanner) : Except ProjectionError Unit :=
  if ws scan.rest = [] then .ok () else .error .malformed

end Scanner

open Scanner

/-! ### Cutting a span -/

/-- The members of an object, with their keys read in some way and the spans of their values. -/
def object {κ : Type} (numbers : Numbers) (readKey : List Char → Option κ) (raw : List Char) :
    Except ProjectionError (List (κ × List Char)) := do
  let rest ← take '\x7b' raw
  let (entries, scan) ←
    enclosed '\x7d' (member readKey (value numbers maxDepth)) { Scanner.new raw with rest }
  finish scan
  return entries

/-- The number an array index stands for: `u32::from_str`, but not `u32::MAX` and only in canonical
form. -/
def index (key : List Char) : Option ℕ :=
  (Text.readU64 key).filter fun n ↦
    decide (n < 2 ^ 32) && decide (n ≠ 2 ^ 32 - 1) && (toString n).toList == key

/-- The members of an object as JavaScript holds them: one for each key, the array indices first. -/
def fields (numbers : Numbers) (raw : List Char) :
    Except ProjectionError (List (List Char × List Char)) := do
  let entries ← object numbers decode raw
  return LastWins.arrange index (LastWins.collect entries)

def array (numbers : Numbers) (raw : List Char) : Except ProjectionError (List (List Char)) := do
  let rest ← take '[' raw
  let (spans, scan) ← enclosed ']' (value numbers maxDepth) { Scanner.new raw with rest }
  finish scan
  return spans

/-! ### Writing -/

/-- An output that texts are written to one after the other. -/
structure Writer (σ : Type) where
  write : σ → List Char → Option σ
  write_nil : ∀ state, write state [] = some state
  write_append : ∀ state first second,
    write state (first ++ second) = (write state first).bind (write · second)

/-- The bytes written so far, with the bytes that may be written. -/
structure Count where
  used : ℕ
  limit : ℕ
  bounded : used ≤ limit

/-- The output that only counts. -/
def Count.writer : Writer Count where
  write count text :=
    if h : count.used + Text.size text ≤ count.limit then
      some { used := count.used + Text.size text, limit := count.limit, bounded := h }
    else none
  write_nil count := by
    have hsize : count.used + Text.size [] = count.used := rfl
    simp only [hsize, count.bounded, dite_true]
  write_append count first second := by
    simp only [Text.size_append]
    by_cases hfirst : count.used + Text.size first ≤ count.limit
    · simp only [hfirst, dite_true, Option.bind_some, Nat.add_assoc]
    · have hboth : ¬ count.used + (Text.size first + Text.size second) ≤ count.limit := by omega
      simp only [hfirst, hboth, dite_false, Option.bind_none]

/-- The output that keeps what is written. -/
def textWriter : Writer (List Char) where
  write written text := some (written ++ text)
  write_nil written := by rw [List.append_nil]
  write_append written first second := by rw [Option.bind_some, List.append_assoc]

section Emit

variable {σ : Type} (out : Writer σ)

def write (state : σ) (text : List Char) : Except ProjectionError σ :=
  match out.write state text with
  | some state => .ok state
  | none => .error .textCapacity

/-- The comma before each piece of a row but the first. -/
def comma (turn : ℕ) (state : σ) : Except ProjectionError σ :=
  if turn ≠ 0 then write out state [','] else .ok state

/-- A row of pieces, with a comma before each but the first. -/
def emitRow {α : Type} (piece : α → σ × ℕ → Except ProjectionError (σ × ℕ)) :
    ℕ → List α → σ × ℕ → Except ProjectionError (σ × ℕ)
  | _, [], state => .ok state
  | turn, a :: as, (state, nodes) => do
    let state ← comma out turn state
    let state ← piece a (state, nodes)
    emitRow piece (turn + 1) as state

/-- A member of an object: its key, a colon and the value of its span. -/
def emitField (emit : List Char → σ × ℕ → Except ProjectionError (σ × ℕ))
    (field : List Char × List Char) (state : σ × ℕ) : Except ProjectionError (σ × ℕ) := do
  let written ← write out state.1 (encode field.1)
  let written ← write out written [':']
  emit field.2 (written, state.2)

/-- Write the value of a span; the number is what is left of the values that may be written. -/
def emit (numbers : Numbers) :
    ℕ → List Char → σ × ℕ → Except ProjectionError (σ × ℕ)
  | 0, _, _ => .error .depth
  | levels + 1, raw, (state, nodes) =>
    if nodes = 0 then .error .textCapacity
    else
      match raw with
      | [] => .error .malformed
      | first :: rest =>
        if first = '\x7b' then do
          let state ← write out state ['\x7b']
          let fields ← fields numbers (first :: rest)
          let (state, nodes) ←
            emitRow out (emitField out (emit numbers levels)) 0 fields (state, nodes - 1)
          let state ← write out state ['\x7d']
          return (state, nodes)
        else if first = '[' then do
          let spans ← array numbers (first :: rest)
          let state ← write out state ['[']
          let (state, nodes) ← emitRow out (emit numbers levels) 0 spans (state, nodes - 1)
          let state ← write out state [']']
          return (state, nodes)
        else if first = '"' then
          match decode (first :: rest) with
          | none => .error .malformed
          | some text => do
            let state ← write out state (encode text)
            return (state, nodes - 1)
        else if first = 't' ∨ first = 'f' ∨ first = 'n' then do
          let state ← write out state (first :: rest)
          return (state, nodes - 1)
        else
          match numbers.read (first :: rest) with
          | none => .error .malformed
          | some x => do
            let state ← write out state (numbers.render x)
            return (state, nodes - 1)

end Emit

/-- The pass that counts the bytes of the canonical text. -/
def countPass (numbers : Numbers) (raw : List Char) (limit : ℕ) :
    Except ProjectionError (Count × ℕ) :=
  emit Count.writer numbers (maxDepth + 1) raw
    ({ used := 0, limit, bounded := Nat.zero_le limit }, limit)

/-- The pass that writes the canonical text. -/
def writePass (numbers : Numbers) (raw : List Char) (limit : ℕ) :
    Except ProjectionError (List Char × ℕ) :=
  emit textWriter numbers (maxDepth + 1) raw ([], limit)

/-- The canonical text of a span, when it has at most as many bytes as may be written and as the
pool has free. -/
def canonical (numbers : Numbers) (raw : List Char) (limit free : ℕ) :
    Except ProjectionError (List Char) := do
  let (count, _) ← countPass numbers raw limit
  if free < count.used then .error .textCapacity
  else do
    let (text, _) ← writePass numbers raw limit
    return text

end ObsMcp.Transform
