import Mathlib.Data.List.Basic

/-!
# JSON strings

The string tokens of `ordered_transform.rs`. `quoted` is the scanner's walk to the closing quote,
`decode` is the reading of a token as a string and `encode` its writing, as `serde_json` does both.

The scanner only looks at the shape of an escape, so it also accepts tokens that stand for no
string: the halves of a surrogate pair are such tokens when they stand alone, and `decode` is
undefined there. `quoted_of_quotable` and `quotable_of_quoted` say that the scanner finds the end
of the tokens of the grammar (`Quotable`), and `decode_encode` that what is written reads back.
-/

namespace ObsMcp.Transform

open List

/-! ### Escapes -/

/-- The value of an ASCII hexadecimal digit. -/
def hexValue (c : Char) : Option ℕ :=
  if '0' ≤ c ∧ c ≤ '9' then some (c.toNat - 48)
  else if 'a' ≤ c ∧ c ≤ 'f' then some (c.toNat - 87)
  else if 'A' ≤ c ∧ c ≤ 'F' then some (c.toNat - 55)
  else none

def isHexDigit (c : Char) : Bool :=
  (hexValue c).isSome

/-- The letters of the two-character escapes. -/
def escapeLetters : List Char :=
  ['"', '\\', '/', 'b', 'f', 'n', 'r', 't']

/-- The character that a two-character escape stands for. -/
def unescape : Char → Option Char
  | '"' => some '"'
  | '\\' => some '\\'
  | '/' => some '/'
  | 'b' => some (Char.ofNat 8)
  | 'f' => some (Char.ofNat 12)
  | 'n' => some '\n'
  | 'r' => some '\r'
  | 't' => some '\t'
  | _ => none

/-- The number that four hexadecimal digits stand for. -/
def hex4 (a b c d : Char) : Option ℕ := do
  let a ← hexValue a
  let b ← hexValue b
  let c ← hexValue c
  let d ← hexValue d
  return ((a * 16 + b) * 16 + c) * 16 + d

/-! ### The walk to the closing quote -/

/-- The text after the closing quote of a string whose opening quote has been read; none when the
text is malformed. -/
def quoted : List Char → Option (List Char)
  | [] => none
  | c :: rest =>
    if c = '"' then some rest
    else if c = '\\' then
      match rest with
      | [] => none
      | letter :: rest =>
        if letter ∈ escapeLetters then quoted rest
        else if letter = 'u' then
          match rest with
          | a :: b :: c :: d :: rest =>
            if isHexDigit a && isHexDigit b && isHexDigit c && isHexDigit d then quoted rest
            else none
          | _ => none
        else none
    else if c.toNat ≤ 31 then none
    else quoted rest

/-- The text between the quotes of a string token. -/
inductive Quotable : List Char → Prop
  | nil : Quotable []
  | plain {c : Char} {rest : List Char} (hquote : c ≠ '"') (hescape : c ≠ '\\')
      (hcontrol : 31 < c.toNat) (hrest : Quotable rest) : Quotable (c :: rest)
  | escape {letter : Char} {rest : List Char} (hletter : letter ∈ escapeLetters)
      (hrest : Quotable rest) : Quotable ('\\' :: letter :: rest)
  | unicode {a b c d : Char} {rest : List Char}
      (hdigits : (isHexDigit a && isHexDigit b && isHexDigit c && isHexDigit d) = true)
      (hrest : Quotable rest) : Quotable ('\\' :: 'u' :: a :: b :: c :: d :: rest)

/-- A string token: a quotable text between quotes. -/
def IsString (token : List Char) : Prop :=
  ∃ body, Quotable body ∧ token = '"' :: body ++ ['"']

theorem Quotable.append {first second : List Char} (hfirst : Quotable first)
    (hsecond : Quotable second) : Quotable (first ++ second) := by
  induction hfirst with
  | nil => exact hsecond
  | plain hquote hescape hcontrol _ ih => exact .plain hquote hescape hcontrol ih
  | escape hletter _ ih => exact .escape hletter ih
  | unicode hdigits _ ih => exact .unicode hdigits ih

theorem quoted_quote (rest : List Char) : quoted ('"' :: rest) = some rest := by
  rw [quoted.eq_def]
  simp

variable {a b c d letter : Char} {n : ℕ}

theorem quoted_plain (hquote : c ≠ '"') (hescape : c ≠ '\\') (hcontrol : 31 < c.toNat)
    (rest : List Char) : quoted (c :: rest) = quoted rest := by
  rw [quoted.eq_def]
  simp [hquote, hescape, Nat.not_le.mpr hcontrol]

theorem quoted_escape (hletter : letter ∈ escapeLetters) (rest : List Char) :
    quoted ('\\' :: letter :: rest) = quoted rest := by
  rw [quoted.eq_def]
  simp [hletter]

theorem quoted_unicode
    (hdigits : (isHexDigit a && isHexDigit b && isHexDigit c && isHexDigit d) = true)
    (rest : List Char) : quoted ('\\' :: 'u' :: a :: b :: c :: d :: rest) = quoted rest := by
  have hletter : 'u' ∉ escapeLetters := by decide
  rw [quoted.eq_def]
  simp only [hletter, hdigits]
  simp

theorem quoted_of_quotable {body : List Char} (hbody : Quotable body) (rest : List Char) :
    quoted (body ++ '"' :: rest) = some rest := by
  induction hbody with
  | nil => exact quoted_quote rest
  | plain hquote hescape hcontrol _ ih => rw [cons_append, quoted_plain hquote hescape hcontrol, ih]
  | escape hletter _ ih => rw [cons_append, cons_append, quoted_escape hletter, ih]
  | unicode hdigits _ ih => simp only [cons_append, quoted_unicode hdigits, ih]

theorem quotable_of_quoted {text rest : List Char} (hquoted : quoted text = some rest) :
    ∃ body, Quotable body ∧ text = body ++ '"' :: rest := by
  fun_induction quoted text with
  | case1 => cases hquoted
  | case2 tail =>
    cases hquoted
    exact ⟨[], .nil, rfl⟩
  | case3 => cases hquoted
  | case4 letter tail hletter _ ih =>
    obtain ⟨body, hbody, rfl⟩ := ih hquoted
    exact ⟨'\\' :: letter :: body, .escape hletter hbody, rfl⟩
  | case5 a b c d tail hdigits _ _ ih =>
    obtain ⟨body, hbody, rfl⟩ := ih hquoted
    exact ⟨'\\' :: 'u' :: a :: b :: c :: d :: body, .unicode hdigits hbody, rfl⟩
  | case6 => cases hquoted
  | case7 => cases hquoted
  | case8 => cases hquoted
  | case9 => cases hquoted
  | case10 c tail hquote hescape hcontrol ih =>
    obtain ⟨body, hbody, rfl⟩ := ih hquoted
    exact ⟨c :: body, .plain hquote hescape (by omega) hbody, rfl⟩

/-! ### Reading and writing -/

/-- The string that the text between the quotes stands for: the escapes of a surrogate pair are one
character, and one half alone is an error. -/
def decodeBody : List Char → Option (List Char)
  | [] => some []
  | c :: rest =>
    if c ≠ '\\' then (decodeBody rest).map (c :: ·)
    else
      match rest with
      | [] => none
      | letter :: rest =>
        match unescape letter with
        | some found => (decodeBody rest).map (found :: ·)
        | none =>
          match letter, rest with
          | 'u', a :: b :: c :: d :: rest =>
            match hex4 a b c d with
            | none => none
            | some unit =>
              if 0xDC00 ≤ unit ∧ unit ≤ 0xDFFF then none
              else if unit < 0xD800 ∨ 0xDBFF < unit then
                (decodeBody rest).map (Char.ofNat unit :: ·)
              else
                match rest with
                | '\\' :: 'u' :: e :: f :: g :: h :: rest =>
                  match hex4 e f g h with
                  | none => none
                  | some low =>
                    if 0xDC00 ≤ low ∧ low ≤ 0xDFFF then
                      (decodeBody rest).map
                        (Char.ofNat ((unit - 0xD800) * 0x400 + (low - 0xDC00) + 0x10000) :: ·)
                    else none
                | _ => none
          | _, _ => none

/-- `serde_json::from_str::<String>` on a string token. -/
def decode (token : List Char) : Option (List Char) :=
  decodeBody (token.drop 1).dropLast

/-- A lowercase hexadecimal digit. -/
def hexDigit (n : ℕ) : Char :=
  if n < 10 then Char.ofNat (48 + n) else Char.ofNat (87 + n)

/-- The text of one character of a string. -/
def encodeChar (c : Char) : List Char :=
  if c = '"' then ['\\', '"']
  else if c = '\\' then ['\\', '\\']
  else if c = Char.ofNat 8 then ['\\', 'b']
  else if c = '\t' then ['\\', 't']
  else if c = '\n' then ['\\', 'n']
  else if c = Char.ofNat 12 then ['\\', 'f']
  else if c = '\r' then ['\\', 'r']
  else if c.toNat ≤ 31 then
    ['\\', 'u', '0', '0', hexDigit (c.toNat / 16), hexDigit (c.toNat % 16)]
  else [c]

/-- `serde_json::to_writer` on a string. -/
def encode (s : List Char) : List Char :=
  '"' :: s.flatMap encodeChar ++ ['"']

/-- The ways a character is written: as a two-character escape, as a number, or as it is. -/
theorem encodeChar_cases (c : Char) :
    (∃ letter ∈ escapeLetters, unescape letter = some c ∧ encodeChar c = ['\\', letter]) ∨
      (c.toNat ≤ 31 ∧ encodeChar c =
        ['\\', 'u', '0', '0', hexDigit (c.toNat / 16), hexDigit (c.toNat % 16)]) ∨
      (c ≠ '"' ∧ c ≠ '\\' ∧ 31 < c.toNat ∧ encodeChar c = [c]) := by
  unfold encodeChar
  split_ifs with hquote hescape hback htab hline hfeed hreturn hcontrol
  · exact .inl ⟨'"', by decide, by rw [hquote]; rfl, rfl⟩
  · exact .inl ⟨'\\', by decide, by rw [hescape]; rfl, rfl⟩
  · exact .inl ⟨'b', by decide, by rw [hback]; rfl, rfl⟩
  · exact .inl ⟨'t', by decide, by rw [htab]; rfl, rfl⟩
  · exact .inl ⟨'n', by decide, by rw [hline]; rfl, rfl⟩
  · exact .inl ⟨'f', by decide, by rw [hfeed]; rfl, rfl⟩
  · exact .inl ⟨'r', by decide, by rw [hreturn]; rfl, rfl⟩
  · exact .inr (.inl ⟨hcontrol, rfl⟩)
  · exact .inr (.inr ⟨hquote, hescape, by omega, rfl⟩)

theorem hex4_hexDigit (hn : n ≤ 31) :
    hex4 '0' '0' (hexDigit (n / 16)) (hexDigit (n % 16)) = some n := by
  have hall : ∀ n < 32, hex4 '0' '0' (hexDigit (n / 16)) (hexDigit (n % 16)) = some n := by decide
  exact hall n (by omega)

theorem decodeBody_plain (hescape : c ≠ '\\') (rest : List Char) :
    decodeBody (c :: rest) = (decodeBody rest).map (c :: ·) := by
  rw [decodeBody.eq_def]
  simp [hescape]

theorem decodeBody_escape {found : Char} (hletter : unescape letter = some found)
    (rest : List Char) :
    decodeBody ('\\' :: letter :: rest) = (decodeBody rest).map (found :: ·) := by
  rw [decodeBody.eq_def]
  simp [hletter]

theorem decodeBody_unicode {unit : ℕ} (hunit : hex4 a b c d = some unit) (hlow : unit < 0xD800)
    (rest : List Char) :
    decodeBody ('\\' :: 'u' :: a :: b :: c :: d :: rest) =
      (decodeBody rest).map (Char.ofNat unit :: ·) := by
  have hletter : unescape 'u' = none := rfl
  have hsurrogate : ¬ (0xDC00 ≤ unit ∧ unit ≤ 0xDFFF) := by omega
  rw [decodeBody.eq_def]
  simp only [hletter, hunit, hsurrogate, hlow]
  simp

theorem decodeBody_encodeChar (c : Char) (rest : List Char) :
    decodeBody (encodeChar c ++ rest) = (decodeBody rest).map (c :: ·) := by
  rcases encodeChar_cases c with ⟨letter, -, hletter, hencode⟩ | ⟨hcontrol, hencode⟩ |
    ⟨-, hescape, -, hencode⟩
  · rw [hencode]
    exact decodeBody_escape hletter rest
  · rw [hencode]
    have hread := decodeBody_unicode (hex4_hexDigit hcontrol) (by omega) rest
    rw [Char.ofNat_toNat] at hread
    exact hread
  · rw [hencode]
    exact decodeBody_plain hescape rest

/-- What is written reads back. -/
theorem decode_encode (s : List Char) : decode (encode s) = some s := by
  have hbody : ((encode s).drop 1).dropLast = s.flatMap encodeChar := by simp [encode]
  rw [decode, hbody]
  induction s with
  | nil => rfl
  | cons c s ih =>
    have hrest : ((encode s).drop 1).dropLast = s.flatMap encodeChar := by simp [encode]
    rw [flatMap_cons, decodeBody_encodeChar, ih hrest]
    rfl

theorem isHexDigit_hexDigit (hn : n < 16) : isHexDigit (hexDigit n) = true := by
  have hall : ∀ n < 16, isHexDigit (hexDigit n) = true := by decide
  exact hall n hn

theorem quotable_encodeChar (c : Char) : Quotable (encodeChar c) := by
  rcases encodeChar_cases c with ⟨letter, hletter, -, hencode⟩ | ⟨hcontrol, hencode⟩ |
    ⟨hquote, hescape, hcontrol, hencode⟩
  · rw [hencode]
    exact .escape hletter .nil
  · rw [hencode]
    refine .unicode ?_ .nil
    have hzero : isHexDigit '0' = true := rfl
    rw [hzero, isHexDigit_hexDigit (n := c.toNat / 16) (by omega),
      isHexDigit_hexDigit (Nat.mod_lt _ (by decide))]
    rfl
  · rw [hencode]
    exact .plain hquote hescape hcontrol .nil

/-- What is written is a string token. -/
theorem isString_encode (s : List Char) : IsString (encode s) := by
  refine ⟨s.flatMap encodeChar, ?_, rfl⟩
  induction s with
  | nil => exact .nil
  | cons c s ih =>
    rw [flatMap_cons]
    exact (quotable_encodeChar c).append ih

end ObsMcp.Transform
