import Staging.Json.Skip
import Staging.Scalar

/-!
# Reading values of a known type

A reader asks for a value of one type and takes it off the front of the text. `list` and `record`
build readers of lists and of records from readers of their parts; a record may be written as an
object, in any order and with further fields, or as a list of its fields in order.
-/

namespace Staging.Json

variable {α ρ : Type}

/-- Takes a value off the front of a text, whose length is at most the number that is given: a list
or a record can have no more parts than that. -/
abbrev Reader := ReaderT Nat Scan

/-- The next character that is not blank, which stays in the text. The blanks before it are gone. -/
def peek : Scan (Option Char) := fun cs =>
  let rest := skipBlank cs
  .ok (rest.head?, rest)

/-- Takes one character. -/
def advance : Scan Unit := fun cs => .ok ((), cs.drop 1)

/-- Takes the rest of a word. -/
def takeWord (word : List Char) : Scan Unit := fun cs => do return ((), ← skipWord word cs)

/-- The value that follows is not of the type asked for; a scalar is read first, because an error in
it comes first. -/
def mismatch (expected : String) : Scan α := do
  match ← peek with
  | none => throw .endInValue
  | some 'n' =>
    advance
    takeWord ['u', 'l', 'l']
    throw (.wrongType .null expected)
  | some 't' =>
    advance
    takeWord ['r', 'u', 'e']
    throw (.wrongType (.boolean true) expected)
  | some 'f' =>
    advance
    takeWord ['a', 'l', 's', 'e']
    throw (.wrongType (.boolean false) expected)
  | some '-' =>
    advance
    let number ← Number.read false
    throw (.wrongType number.found expected)
  | some '"' =>
    advance
    let text ← readString
    throw (.wrongType (.text text) expected)
  | some '[' => throw (.wrongType .sequence expected)
  | some '\x7b' => throw (.wrongType .map expected)
  | some c =>
    if c.isDigit then
      let number ← Number.read true
      throw (.wrongType number.found expected)
    else throw .valueExpected

def number (expected : String) : Scan Number := do
  match ← peek with
  | some '-' =>
    advance
    Number.read false
  | some c => if c.isDigit then Number.read true else mismatch expected
  | none => mismatch expected

/-- Reads a whole number from zero on and below `limit`. -/
def natural (limit : Nat) (expected : String) : Reader Nat := do
  match ← number expected with
  | .natural value =>
    if value < limit then return value
    else throw (.wrongValue (.integer value) expected)
  | .negative value => throw (.wrongValue (.integer (-value)) expected)
  | .float value => throw (.wrongType (.float value) expected)

/-- Reads a scalar. A whole number is rounded once; any other number is rounded to a double first.
-/
def scalar : Reader Scalar := do
  match ← number "f32" with
  | .natural value => return (UInt64.ofNat value).toFloat32
  | .negative value => return -(UInt64.ofNat value).toFloat32
  | .float value => return value.toFloat32

def text : Reader String := do
  match ← peek with
  | some '"' =>
    advance
    readString
  | _ => mismatch "a string"

/-- Reads a value or `null`. A field that is null is not the same as one that is missing: the second
may be an error where the first is not. -/
def optional (read : Reader α) : Reader (Option α) := do
  match ← peek with
  | some 'n' =>
    advance
    takeWord ['u', 'l', 'l']
    return none
  | _ => return some (← read)

/-! ## Lists -/

/-- Is there another element? Takes the comma before it. -/
def elementFollows (first : Bool) : Scan Bool := do
  match ← peek with
  | none => throw .endInList
  | some ']' => return false
  | some c =>
    if first then return true
    else if c == ',' then
      advance
      match ← peek with
      | none => throw .endInValue
      | some ']' => throw .trailingComma
      | some _ => return true
    else throw .listCommaExpected

/-- Reads the elements of a list up to its closing bracket. Each round takes at least one
character. -/
def elements (read : Reader α) : Nat → Bool → Reader (List α)
  | 0, _ => throw .endInList
  | rounds + 1, first => do
    if ← elementFollows first then
      let x ← read
      let rest ← elements read rounds false
      return x :: rest
    else
      advance
      return []

def list (read : Reader α) : Reader (List α) := do
  match ← peek with
  | some '[' =>
    advance
    elements read ((← readThe Nat) + 1) true
  | _ => mismatch "a sequence"

/-! ## Records -/

/-- A field of a record whose parts are gathered in a draft of type `ρ`. Fields come in any order,
so that they can only be put together when the record has ended. -/
structure Field (ρ : Type) where
  key : String
  /-- Is it an error if the field is missing? -/
  required : Bool
  /-- Was the field read before? -/
  isSet : ρ → Bool
  /-- Reads the field into the draft. -/
  read : ρ → Reader ρ

/-- Is there another member? Takes the comma before it and the opening quote of its key. -/
def memberFollows (first : Bool) : Scan Bool := do
  match ← peek with
  | none => throw .endInObject
  | some '\x7d' => return false
  | some c =>
    if first then
      if c == '"' then
        advance
        return true
      else throw .keyNotString
    else if c == ',' then
      advance
      match ← peek with
      | none => throw .endInValue
      | some '"' =>
        advance
        return true
      | some '\x7d' => throw .trailingComma
      | some _ => throw .keyNotString
    else throw .objectCommaExpected

/-- Takes the colon between a key and its value. -/
def colon : Scan Unit := do
  match ← peek with
  | some ':' => advance
  | some _ => throw .colonExpected
  | none => throw .endInObject

/-- Reads the members of an object up to its closing bracket, which stays in the text. -/
def members (fields : List (Field ρ)) : Nat → Bool → ρ → Reader ρ
  | 0, _, _ => throw .endInObject
  | rounds + 1, first, draft => do
    if ← memberFollows first then
      let key ← readString
      match fields.find? fun f => f.key == key with
      | some field =>
        if field.isSet draft then throw (.duplicateField key)
        else
          colon
          let draft ← field.read draft
          members fields rounds false draft
      | none =>
        colon
        skipValue (← readThe Nat)
        members fields rounds false draft
    else return draft

/-- Reads the fields of a record that is written as a list; `index` counts those before. -/
def columns (expected : String) : List (Field ρ) → Nat → ρ → Reader ρ
  | [], _, draft => return draft
  | field :: fields, index, draft => do
    if ← elementFollows (index == 0) then
      let draft ← field.read draft
      columns expected fields (index + 1) draft
    else if field.required then throw (.wrongLength index expected)
    else columns expected fields (index + 1) draft

/-- Takes the closing bracket of a record that is written as a list. -/
def closeColumns : Scan Unit := do
  match ← peek with
  | some ']' => advance
  | some ',' =>
    advance
    match ← peek with
    | some ']' => throw .trailingComma
    | _ => throw .trailingCharacters
  | some _ => throw .trailingCharacters
  | none => throw .endInList

/-- Reads a record into a draft. Of several fields that are missing the first in the order of the
record is reported, not of the text. -/
def record (name : String) (fields : List (Field ρ)) (draft : ρ) : Reader ρ := do
  match ← peek with
  | some '[' =>
    advance
    let expected := "struct " ++ name ++ " with " ++ toString fields.length ++ " elements"
    let draft ← columns expected fields 0 draft
    closeColumns
    return draft
  | some '\x7b' =>
    advance
    let draft ← members fields ((← readThe Nat) + 1) true draft
    match fields.find? fun f => f.required && !f.isSet draft with
    | some field => throw (.missingField field.key)
    | none =>
      advance
      return draft
  | _ => mismatch ("struct " ++ name)

/-- Reads a whole text. Anything but blanks after the value is an error. -/
def decode (read : Reader α) (source : String) : Except Error α := do
  let (value, rest) ← read source.length source.toList
  if (skipBlank rest).isEmpty then return value else throw .trailingCharacters

end Staging.Json
