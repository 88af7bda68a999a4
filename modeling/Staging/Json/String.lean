import Staging.Json.Number

/-!
# JSON strings

The characters between two quotes, with escapes. Characters outside of the basic plane may be
written as two escapes, which must then form a pair of surrogates.
-/

namespace Staging.Json

/-- The value of a hexadecimal digit. -/
def hexValue? (c : Char) : Option Nat :=
  if c.isDigit then some (c.toNat - '0'.toNat)
  else if 'a' ≤ c && c ≤ 'f' then some (c.toNat - 'a'.toNat + 10)
  else if 'A' ≤ c && c ≤ 'F' then some (c.toNat - 'A'.toNat + 10)
  else none

/-- The number of bytes of a text in UTF-8. -/
def byteCount (cs : List Char) : Nat := cs.foldl (fun n c => n + c.utf8Size) 0

/-- The character of a one-letter escape. -/
def simpleEscape? : Char → Option Char
  | '"' => some '"'
  | '\\' => some '\\'
  | '/' => some '/'
  | 'b' => some '\x08'
  | 'f' => some '\x0c'
  | 'n' => some '\n'
  | 'r' => some '\r'
  | 't' => some '\t'
  | _ => none

/-- What a digit was expected for is not one. Four bytes are looked at together, so that a text
which ends within them is reported as ended; `count` of them were digits, and `cs` is what follows.
-/
def badDigit (count : Nat) (cs : List Char) : Error :=
  if count + byteCount (cs.take 4) < 4 then .endInString else .invalidEscape

def isHigh (n : Nat) : Bool := 0xd800 ≤ n && n ≤ 0xdbff

def isLow (n : Nat) : Bool := 0xdc00 ≤ n && n ≤ 0xdfff

/-- The character of a pair of surrogates. Neither half is a character by itself, so that there is
nothing to fall back on when one is missing. -/
def joinPair (high low : Nat) : Char :=
  Char.ofNat (0x10000 + (high - 0xd800) * 0x400 + (low - 0xdc00))

/-- Where a scan stands inside of a string. The place is what makes the scan structural: it goes
from character to character and never looks ahead. -/
inductive StringPlace where
  | plain
  | escape
  /-- Among the digits of an escape: the first half of a pair if one came before, how many digits
  were read, and their value. -/
  | digits (high : Option Nat) (count value : Nat)
  /-- After the first half of a pair, where the backslash of the second half must follow. -/
  | pair (high : Nat)
  /-- After that backslash, where its `u` must follow. -/
  | pairEscape (high : Nat)

/-- What four digits of an escape stand for: a character, or the place after the first half of a
pair. -/
def endDigits (high : Option Nat) (value : Nat) : Except Error (Char ⊕ StringPlace) :=
  match high with
  | some high => if isLow value then .ok (.inl (joinPair high value)) else .error .loneSurrogate
  | none =>
    if isLow value then .error .loneSurrogate
    else if isHigh value then .ok (.inr (.pair value))
    else .ok (.inl (Char.ofNat value))

/-- Reads characters up to the closing quote; `before` holds those read so far, last one first. -/
def readCharacters :
    StringPlace → List Char → List Char → Except Error (String × List Char)
  | _, _, [] => .error .endInString
  | .plain, before, c :: rest =>
    if c = '"' then .ok (String.ofList before.reverse, rest)
    else if c = '\\' then readCharacters .escape before rest
    else if c.toNat < 0x20 then .error .controlCharacter
    else readCharacters .plain (c :: before) rest
  | .escape, before, c :: rest =>
    if c = 'u' then readCharacters (.digits none 0 0) before rest
    else
      match simpleEscape? c with
      | some d => readCharacters .plain (d :: before) rest
      | none => .error .invalidEscape
  | .digits high count value, before, c :: rest =>
    match hexValue? c with
    | none => .error (badDigit count (c :: rest))
    | some d =>
      if count < 3 then readCharacters (.digits high (count + 1) (value * 16 + d)) before rest
      else
        match endDigits high (value * 16 + d) with
        | .ok (.inl char) => readCharacters .plain (char :: before) rest
        | .ok (.inr place) => readCharacters place before rest
        | .error e => .error e
  | .pair high, before, c :: rest =>
    if c = '\\' then readCharacters (.pairEscape high) before rest else .error .surrogateExpected
  | .pairEscape high, before, c :: rest =>
    if c = 'u' then readCharacters (.digits (some high) 0 0) before rest
    else .error .surrogateExpected

/-- Reads what follows the opening quote of a string. -/
def readString : Scan String := readCharacters .plain []

/-- Steps over characters up to the closing quote, without a look at surrogates. -/
def skipCharacters : StringPlace → List Char → Except Error (List Char)
  | _, [] => .error .endInString
  | .escape, c :: rest =>
    if c = 'u' then skipCharacters (.digits none 0 0) rest
    else if (simpleEscape? c).isSome then skipCharacters .plain rest
    else .error .invalidEscape
  | .digits high count value, c :: rest =>
    if (hexValue? c).isNone then .error (badDigit count (c :: rest))
    else if count < 3 then skipCharacters (.digits high (count + 1) value) rest
    else skipCharacters .plain rest
  | _, c :: rest =>
    if c = '"' then .ok rest
    else if c = '\\' then skipCharacters .escape rest
    else if c.toNat < 0x20 then .error .controlCharacter
    else skipCharacters .plain rest

/-- Steps over what follows the opening quote of a string. -/
def skipString (cs : List Char) : Except Error (List Char) := skipCharacters .plain cs

end Staging.Json
