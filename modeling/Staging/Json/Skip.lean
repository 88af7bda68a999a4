import Staging.Json.String

/-!
# Values that are stepped over

The value of a field that nobody asked for has to follow the grammar, but may be nested to any
depth. The brackets that are open are kept on a stack.
-/

namespace Staging.Json

/-- Spaces, tabs and line ends. -/
def isBlank (c : Char) : Bool := c == ' ' || c == '\t' || c == '\n' || c == '\r'

/-- The text from its first character that is not blank. -/
def skipBlank (cs : List Char) : List Char := cs.dropWhile isBlank

/-- Steps over the rest of a word. -/
def skipWord : List Char → List Char → Except Error (List Char)
  | [], cs => .ok cs
  | _ :: _, [] => .error .endInValue
  | w :: word, c :: cs => if c = w then skipWord word cs else .error .wordExpected

/-- An open bracket. -/
inductive Frame where
  | list
  | object
deriving DecidableEq

namespace Frame

/-- The bracket that closes a frame. -/
def closer : Frame → Char
  | .list => ']'
  | .object => '\x7d'

/-- The text ended inside of the frame. -/
def ended : Frame → Error
  | .list => .endInList
  | .object => .endInObject

/-- Neither a comma nor the closing bracket follows an element. -/
def unseparated : Frame → Error
  | .list => .listCommaExpected
  | .object => .objectCommaExpected

end Frame

/-- What is to come next. -/
inductive Place where
  | value
  /-- The first element of the innermost frame, or its end. -/
  | first
  /-- A comma in the innermost frame, or its end. -/
  | next

/-- Steps over a value that is no list and no object. -/
def skipScalar (cs : List Char) : Except Error (List Char) :=
  match cs with
  | 'n' :: rest => skipWord ['u', 'l', 'l'] rest
  | 't' :: rest => skipWord ['r', 'u', 'e'] rest
  | 'f' :: rest => skipWord ['a', 'l', 's', 'e'] rest
  | '-' :: rest => Number.skip rest
  | '"' :: rest => skipString rest
  | c :: rest => if c.isDigit then Number.skip (c :: rest) else .error .valueExpected
  | [] => .error .endInValue

/-- Steps over the key of an element and the colon after it; an element of a list has none. -/
def skipKey (frame : Frame) (cs : List Char) : Except Error (List Char) :=
  match frame with
  | .list => .ok cs
  | .object =>
    match skipBlank cs with
    | '"' :: rest => do
      match skipBlank (← skipString rest) with
      | ':' :: rest => .ok rest
      | _ :: _ => .error .colonExpected
      | [] => .error .endInObject
    | _ :: _ => .error .keyNotString
    | [] => .error .endInObject

/-- Steps over what is left of a value, given the frames that are open. Two rounds take at least one
character. -/
def skipFrom : Nat → Place → List Frame → List Char → Except Error (List Char)
  | 0, _, _, _ => .error .endInValue
  | rounds + 1, .value, frames, cs =>
    match skipBlank cs with
    | '[' :: rest => skipFrom rounds .first (.list :: frames) rest
    | '\x7b' :: rest => skipFrom rounds .first (.object :: frames) rest
    | rest => do
      let rest ← skipScalar rest
      if frames.isEmpty then .ok rest else skipFrom rounds .next frames rest
  | _, _, [], cs => .ok cs
  | rounds + 1, place, frame :: frames, cs =>
    match skipBlank cs with
    | [] => .error frame.ended
    | c :: rest =>
      if c = frame.closer then
        if frames.isEmpty then .ok rest else skipFrom rounds .next frames rest
      else
        match place with
        | .next =>
          if c = ',' then do skipFrom rounds .value (frame :: frames) (← skipKey frame rest)
          else .error frame.unseparated
        | _ => do skipFrom rounds .value (frame :: frames) (← skipKey frame (c :: rest))

/-- Steps over a value of a text with no more than `bound` characters. -/
def skipValue (bound : Nat) : Scan Unit := fun cs => do
  return ((), ← skipFrom (2 * bound + 2) .value [] cs)

end Staging.Json
