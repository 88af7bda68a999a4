import Staging.Decimal.Layout
import Staging.Text.Quoted

/-!
# What can be wrong with a JSON text

A text is read from left to right and the first thing wrong with it is reported, whether it breaks
the grammar or has a value of another type than the one that is asked for.
-/

namespace Staging.Json

/-- A value that was met where another one was asked for. It is kept as far as the message shows it:
a scalar with its value, a list or an object only by its kind. -/
inductive Found where
  | null
  | boolean (value : Bool)
  | integer (value : Int)
  | float (value : Float)
  | text (value : String)
  | sequence
  | map

def Found.render : Found → String
  | .null => "null"
  | .boolean true => "boolean `true`"
  | .boolean false => "boolean `false`"
  | .integer value => "integer `" ++ toString value ++ "`"
  | .float value =>
    "floating point `" ++
      Decimal.Style.quoted.render (Decimal.Format.double.read value.toBits.toNat) ++ "`"
  | .text value => "string " ++ Text.quote value
  | .sequence => "sequence"
  | .map => "map"

/-- The first thing wrong with a text. Positions are not part of it. -/
inductive Error where
  | endInValue
  | endInList
  | endInObject
  | endInString
  | valueExpected
  | wordExpected
  | invalidNumber
  | numberOutOfRange
  | trailingComma
  | trailingCharacters
  | keyNotString
  | colonExpected
  | listCommaExpected
  | objectCommaExpected
  | controlCharacter
  | invalidEscape
  | loneSurrogate
  | surrogateExpected
  | wrongType (found : Found) (expected : String)
  | wrongValue (found : Found) (expected : String)
  | wrongLength (given : Nat) (expected : String)
  | duplicateField (key : String)
  | missingField (key : String)

def Error.message : Error → String
  | .endInValue => "EOF while parsing a value"
  | .endInList => "EOF while parsing a list"
  | .endInObject => "EOF while parsing an object"
  | .endInString => "EOF while parsing a string"
  | .valueExpected => "expected value"
  | .wordExpected => "expected ident"
  | .invalidNumber => "invalid number"
  | .numberOutOfRange => "number out of range"
  | .trailingComma => "trailing comma"
  | .trailingCharacters => "trailing characters"
  | .keyNotString => "key must be a string"
  | .colonExpected => "expected `:`"
  | .listCommaExpected => "expected `,` or `]`"
  | .objectCommaExpected => "expected `,` or `\x7d`"
  | .controlCharacter => "control character (\\u0000-\\u001F) found while parsing a string"
  | .invalidEscape => "invalid escape"
  | .loneSurrogate => "lone leading surrogate in hex escape"
  | .surrogateExpected => "unexpected end of hex escape"
  | .wrongType found expected => "invalid type: " ++ found.render ++ ", expected " ++ expected
  | .wrongValue found expected => "invalid value: " ++ found.render ++ ", expected " ++ expected
  | .wrongLength given expected =>
    "invalid length " ++ toString given ++ ", expected " ++ expected
  | .duplicateField key => "duplicate field `" ++ key ++ "`"
  | .missingField key => "missing field `" ++ key ++ "`"

end Staging.Json
