import Mathlib.Data.List.DropRight
import Mathlib.Tactic.Ring

/-!
# Text and byte offsets

A text is a list of characters, and an offset counts the bytes of its UTF-8 encoding. `dropBytes`,
`takeBytes` and `slice` cut a text at offsets and answer nothing where the offset is past the end or
inside a character, or where the end of a slice stands before its start. `dropBytes_append` and
`takeBytes_append` say that the offset at the end of a part cuts after the part, `slice_append` what
is cut out between two offsets, and `findBytes_eq_some` that a found offset is the end of a part.
-/

namespace ObsMcp.Foundations.Text

open List Option

/-- The number of bytes of a text. -/
def size : List Char → ℕ
  | [] => 0
  | c :: cs => c.utf8Size + size cs

/-- The text from an offset on. -/
def dropBytes : ℕ → List Char → Option (List Char)
  | 0, cs => some cs
  | _ + 1, [] => none
  | n + 1, c :: cs => if c.utf8Size ≤ n + 1 then dropBytes (n + 1 - c.utf8Size) cs else none

/-- The text up to an offset. -/
def takeBytes : ℕ → List Char → Option (List Char)
  | 0, _ => some []
  | _ + 1, [] => none
  | n + 1, c :: cs =>
    if c.utf8Size ≤ n + 1 then (takeBytes (n + 1 - c.utf8Size) cs).map (c :: ·) else none

/-- The text between two offsets. -/
def slice (start stop : ℕ) (cs : List Char) : Option (List Char) :=
  if start ≤ stop then (takeBytes stop cs).bind (dropBytes start) else none

/-- The offset of the first occurrence of a pattern. -/
def findBytes (pattern : List Char) : List Char → Option ℕ
  | [] => if pattern = [] then some 0 else none
  | c :: cs =>
    if pattern.isPrefixOf (c :: cs) then some 0
    else (findBytes pattern cs).map (c.utf8Size + ·)

/-- The parts before and after the first occurrence of a pattern. -/
def splitOnce (pattern : List Char) : List Char → Option (List Char × List Char)
  | [] => if pattern = [] then some ([], []) else none
  | c :: cs =>
    if pattern.isPrefixOf (c :: cs) then some ([], (c :: cs).drop pattern.length)
    else (splitOnce pattern cs).map (fun parts ↦ (c :: parts.1, parts.2))

/-- The text without the characters of a class at its two ends. -/
def trimMatches (inside : Char → Bool) (cs : List Char) : List Char :=
  (cs.dropWhile inside).rdropWhile inside

/-- The part before the first character of a class. -/
def firstPart (inside : Char → Bool) (cs : List Char) : List Char :=
  cs.takeWhile (fun c ↦ !inside c)

/-- The characters that `char::is_whitespace` accepts. -/
def isWhitespace (c : Char) : Bool :=
  let n := c.toNat
  (0x9 ≤ n && n ≤ 0xd) || n == 0x20 || n == 0x85 || n == 0xa0 || n == 0x1680 ||
    (0x2000 ≤ n && n ≤ 0x200a) || n == 0x2028 || n == 0x2029 || n == 0x202f || n == 0x205f ||
    n == 0x3000

/-- The text behind a given start, if it starts so. -/
def afterStart (start cs : List Char) : Option (List Char) :=
  if start.isPrefixOf cs then some (cs.drop start.length) else none

/-- The lines of a text, each without its line feed and the carriage return before it. -/
def lines (cs : List Char) : List (List Char) :=
  let parts := cs.splitOn '\n'
  let last := parts.getLastD []
  parts.dropLast.map (fun line ↦ if line.getLast? = some '\r' then line.dropLast else line) ++
    (if last = [] then [] else [last])

/-- The value of a nonempty list of decimal digits. -/
def readDigits (digits : List Char) : Option ℕ :=
  if digits ≠ [] ∧ digits.all Char.isDigit then
    some (digits.foldl (fun value digit ↦ 10 * value + (digit.toNat - '0'.toNat)) 0)
  else none

/-- An unsigned number of 64 bits, with or without a plus sign. -/
def readU64 : List Char → Option ℕ
  | '+' :: digits => (readDigits digits).filter (· < 2 ^ 64)
  | digits => (readDigits digits).filter (· < 2 ^ 64)

/-- A signed number of 64 bits. -/
def readI64 : List Char → Option ℤ
  | '-' :: digits => ((readDigits digits).filter (· ≤ 2 ^ 63)).map fun value ↦ -(value : ℤ)
  | '+' :: digits => ((readDigits digits).filter (· < 2 ^ 63)).map fun value ↦ (value : ℤ)
  | digits => ((readDigits digits).filter (· < 2 ^ 63)).map fun value ↦ (value : ℤ)

/-- The texts agree up to the case of their ASCII letters. -/
def eqIgnoreAsciiCase (cs ds : List Char) : Bool :=
  cs.map Char.toLower == ds.map Char.toLower

section Offsets

variable {cs xs ys zs : List Char}

@[simp] theorem size_append (xs ys : List Char) : size (xs ++ ys) = size xs + size ys := by
  induction xs with
  | nil => simp [size]
  | cons c xs ih => simp [size, ih, Nat.add_assoc]

/-- The size of a text counts its first character. -/
theorem size_cons (c : Char) (xs : List Char) :
    ∃ n, size (c :: xs) = n + 1 ∧ c.utf8Size ≤ n + 1 ∧ n + 1 - c.utf8Size = size xs := by
  have hpos := c.utf8Size_pos
  exact ⟨c.utf8Size + size xs - 1, by rw [size]; omega, by omega, by omega⟩

/-- The end of the first part cuts off the second. -/
theorem dropBytes_append (xs ys : List Char) : dropBytes (size xs) (xs ++ ys) = some ys := by
  induction xs with
  | nil => simp [size, dropBytes]
  | cons c xs ih =>
    obtain ⟨n, hn, hfits, hrest⟩ := size_cons c xs
    rw [hn, cons_append, dropBytes, if_pos hfits, hrest, ih]

theorem takeBytes_append (xs ys : List Char) : takeBytes (size xs) (xs ++ ys) = some xs := by
  induction xs with
  | nil => simp [size, takeBytes]
  | cons c xs ih =>
    obtain ⟨n, hn, hfits, hrest⟩ := size_cons c xs
    rw [hn, cons_append, takeBytes, if_pos hfits, hrest, ih, map_some]

/-- A part that was taken is followed by the rest of the text. -/
theorem takeBytes_eq_some {n : ℕ} (htake : takeBytes n cs = some xs) :
    ∃ ys, cs = xs ++ ys ∧ size xs = n := by
  induction cs generalizing n xs with
  | nil =>
    cases n with
    | zero =>
      obtain rfl : [] = xs := by simpa [takeBytes] using htake
      exact ⟨[], rfl, rfl⟩
    | succ n => simp [takeBytes] at htake
  | cons c cs ih =>
    cases n with
    | zero =>
      obtain rfl : [] = xs := by simpa [takeBytes] using htake
      exact ⟨c :: cs, rfl, rfl⟩
    | succ n =>
      rw [takeBytes] at htake
      split_ifs at htake with hfits
      obtain ⟨rest, hrest, rfl⟩ := map_eq_some_iff.mp htake
      obtain ⟨ys, rfl, hsize⟩ := ih hrest
      refine ⟨ys, rfl, ?_⟩
      rw [size]
      omega

/-- What stands between the ends of two parts. -/
theorem slice_append (xs ys zs : List Char) :
    slice (size xs) (size xs + size ys) (xs ++ ys ++ zs) = some ys := by
  rw [slice, if_pos (Nat.le_add_right _ _), ← size_append, takeBytes_append, bind_some,
    dropBytes_append]

/-- What stands around the first occurrence of a pattern. -/
theorem splitOnce_eq_some {pattern : List Char} (hsplit : splitOnce pattern cs = some (xs, ys)) :
    cs = xs ++ pattern ++ ys := by
  induction cs generalizing xs with
  | nil =>
    rw [splitOnce] at hsplit
    split_ifs at hsplit with hpattern
    cases hsplit
    rw [hpattern]
    rfl
  | cons c cs ih =>
    rw [splitOnce] at hsplit
    split_ifs at hsplit with hfront
    · cases hsplit
      obtain ⟨rest, hrest⟩ := isPrefixOf_iff_prefix.mp hfront
      rw [← hrest, drop_left, nil_append]
    · obtain ⟨parts, hparts, hmap⟩ := map_eq_some_iff.mp hsplit
      cases hmap
      rw [ih hparts]
      rfl

/-- A found offset is the end of the part before the pattern. -/
theorem findBytes_eq_some {pattern : List Char} {offset : ℕ}
    (hfound : findBytes pattern cs = some offset) :
    ∃ before after, cs = before ++ pattern ++ after ∧ size before = offset := by
  induction cs generalizing offset with
  | nil =>
    rw [findBytes] at hfound
    split_ifs at hfound with hempty
    cases hfound
    exact ⟨[], [], by simp [hempty], rfl⟩
  | cons c cs ih =>
    rw [findBytes] at hfound
    split_ifs at hfound with hhere
    · cases hfound
      obtain ⟨after, hafter⟩ := isPrefixOf_iff_prefix.mp hhere
      exact ⟨[], after, by simp [hafter], rfl⟩
    · obtain ⟨found, hrest, rfl⟩ := map_eq_some_iff.mp hfound
      obtain ⟨before, after, hsplit, rfl⟩ := ih hrest
      exact ⟨c :: before, after, by simp [hsplit], rfl⟩

end Offsets

end ObsMcp.Foundations.Text
