import Mathlib.Data.List.Basic
import Mathlib.Tactic.Ring

/-!
# Receipt identities and timestamps

The text checks of `operation_store.rs` that every receipt version shares: identifiers
(`validUuid`), endpoint and collection digests (`validHash`), bounded names (`boundedIdentity`) and
UTC timestamps (`validTimestamp`). The source works on the UTF-8 bytes of a `str`, and so does the
model: `utf8` is the byte list of a string and `textLt` the byte order in which the source compares
two timestamps.

`StoreError` lists the refusals of the store, and `maxSafeInteger` and `maxReceipts`
are its constants.
-/

namespace ObsMcp.Receipts

def maxReceipts : ℕ := 1024

def maxSafeInteger : ℕ := 9007199254740991

/-- The refusals of the operation store. -/
inductive StoreError
  | invalidIdentifier
  | invalidTimestamp
  | invalidReceipt
  | unsafePath
  | missing
  | corrupt
  | receiptTooLarge
  | inventoryLimit
  | endpointMismatch
  | conflict
  | identityExhausted
  | unavailable
  | durabilityUncertain
  deriving DecidableEq

/-! ### Bytes of a text -/

/-- The UTF-8 bytes of a text. -/
def utf8 (text : String) : List UInt8 := text.toUTF8.data.toList

/-- The byte order in which the source compares two texts. -/
def textLt (first second : String) : Bool := decide (utf8 first < utf8 second)

theorem textLt_irrefl (text : String) : textLt text text = false := by
  simp [textLt]

/-- `u8::is_ascii_digit`. -/
def isAsciiDigit (byte : UInt8) : Bool := 48 ≤ byte && byte ≤ 57

/-- A byte in `b'a'..=b'f'`. -/
def isLowerHexLetter (byte : UInt8) : Bool := 97 ≤ byte && byte ≤ 102

/-- `u8::is_ascii_hexdigit`. -/
def isAsciiHexDigit (byte : UInt8) : Bool :=
  isAsciiDigit byte || isLowerHexLetter byte || (65 ≤ byte && byte ≤ 70)

/-- The byte at an index, with the zero byte past the end. -/
def byteAt (bytes : List UInt8) (index : ℕ) : UInt8 := bytes.getD index 0

/-! ### Identifiers -/

/-- A lower-case SHA-256 digest. -/
def validHash (value : String) : Bool :=
  (utf8 value).length == 64 &&
    (utf8 value).all fun byte ↦ isAsciiDigit byte || isLowerHexLetter byte

/-- The number of UTF-16 code units of a character. -/
def utf16Units (c : Char) : ℕ := if c.toNat < 0x10000 then 1 else 2

/-- A name of one to 256 UTF-16 code units. -/
def boundedIdentity (value : String) : Bool :=
  let units := (value.toList.map utf16Units).sum
  1 ≤ units && units ≤ 256

/-- A UUID: the nil or the all-ones identifier, or version 1 to 8 of the standard variant. -/
def validUuid (value : String) : Bool :=
  if value == "00000000-0000-0000-0000-000000000000"
      || value == "ffffffff-ffff-ffff-ffff-ffffffffffff" then true
  else
    let bytes := utf8 value
    bytes.length == 36
      && bytes.zipIdx.all (fun (byte, index) ↦
        if [8, 13, 18, 23].contains index then byte == 45 else isAsciiHexDigit byte)
      && (49 ≤ byteAt bytes 14 && byteAt bytes 14 ≤ 56)
      && [56, 57, 97, 98, 65, 66].contains (byteAt bytes 19)

/-! ### Timestamps -/

/-- The punctuation a timestamp has at an index, if any. -/
def timestampMark (index : ℕ) : Option UInt8 :=
  match index with
  | 4 | 7 => some 45
  | 10 => some 84
  | 13 | 16 => some 58
  | _ => none

/-- The decimal value of the bytes in `start..stop`. -/
def decimal (bytes : List UInt8) (start stop : ℕ) : ℕ :=
  ((bytes.take stop).drop start).foldl (fun value byte ↦ value * 10 + (byte.toNat - 48)) 0

/-- The days of a month, zero for a number that is no month. -/
def daysOfMonth (year month : ℕ) : ℕ :=
  match month with
  | 1 | 3 | 5 | 7 | 8 | 10 | 12 => 31
  | 4 | 6 | 9 | 11 => 30
  | 2 => if year % 400 == 0 || (year % 4 == 0 && year % 100 != 0) then 29 else 28
  | _ => 0

/-- A UTC timestamp `YYYY-MM-DDTHH:MM:SS[.fraction]Z` of a real calendar day. -/
def validTimestamp (value : String) : Bool :=
  let bytes := utf8 value
  if bytes.length < 20 || bytes.getLast? != some 90 then false
  else if !((bytes.take 19).zipIdx.all fun (byte, index) ↦
      match timestampMark index with
      | some mark => byte == mark
      | none => isAsciiDigit byte) then false
  else if bytes.length != 20
      && (byteAt bytes 19 != 46 || bytes.length < 22
        || !((bytes.take (bytes.length - 1)).drop 20).all isAsciiDigit) then false
  else
    let day := decimal bytes 8 10
    1 ≤ day && day ≤ daysOfMonth (decimal bytes 0 4) (decimal bytes 5 7)
      && decimal bytes 11 13 ≤ 23 && decimal bytes 14 16 ≤ 59 && decimal bytes 17 19 ≤ 59

example : validTimestamp "2024-02-29T23:59:59.5Z" = true := by decide +kernel

example : validTimestamp "2023-02-29T00:00:00Z" = false := by decide +kernel

end ObsMcp.Receipts
