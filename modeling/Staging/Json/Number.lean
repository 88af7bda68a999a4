import Staging.Json.Error

/-!
# JSON numbers

A whole number that fits into 64 bits is kept exactly. Any other number is a double: its digits are
gathered as long as they fit into 64 bits, further ones only move the point, and the result is
scaled by a power of ten in double precision.
-/

namespace Staging.Json

/-- Takes something off the front of a text; the state is the text that remains. -/
abbrev Scan := StateT (List Char) (Except Error)

/-- A number as it was written. Whole numbers are kept apart from doubles, because a reader of whole
numbers accepts nothing with a point or an exponent. -/
inductive Number where
  | natural (value : Nat)
  /-- A negative whole number, by its absolute value. -/
  | negative (value : Nat)
  | float (value : Float)

namespace Number

def found : Number → Found
  | .natural value => .integer value
  | .negative value => .integer (-value)
  | .float value => .float value

/-- Gathers digits after `significand` while the result fits into 64 bits: the result, how many
digits were taken, and the rest. -/
def gather (significand : Nat) : List Char → Nat × Nat × List Char
  | [] => (significand, 0, [])
  | c :: rest =>
    let more := significand * 10 + (c.toNat - '0'.toNat)
    if c.isDigit && more < UInt64.size then
      let (result, taken, rest) := gather more rest
      (result, taken + 1, rest)
    else (significand, 0, c :: rest)

def digitNext : List Char → Bool
  | c :: _ => c.isDigit
  | [] => false

def exponentNext : List Char → Bool
  | c :: _ => c == 'e' || c == 'E'
  | [] => false

def powerOfTen (e : Nat) : Float := Float.ofScientific 1 false e

/-- Scales a nonnegative double by `10^e`. Far below the range it is divided until it is zero, which
takes three rounds at most. -/
def scale : Nat → Float → Int → Except Error Float
  | 0, x, _ => .ok x
  | rounds + 1, x, e =>
    if e.natAbs ≤ 308 then
      if 0 ≤ e then
        let y := x * powerOfTen e.natAbs
        if y.isInf then .error .numberOutOfRange else .ok y
      else .ok (x / powerOfTen e.natAbs)
    else if x == 0 then .ok x
    else if 0 ≤ e then .error .numberOutOfRange
    else scale rounds (x / powerOfTen 308) (e + 308)

/-- The double of a sign, a significand and a power of ten. It is rounded twice, once as a
significand and once as it is scaled, and so need not be the nearest double. -/
def ofParts (positive : Bool) (significand : Nat) (e : Int) : Except Error Number := do
  let x ← scale 4 (UInt64.ofNat significand).toFloat e
  return .float (if positive then x else -x)

/-- The value of digits, if it stays below 2^31. -/
def exponentValue? (cs : List Char) : Option Nat :=
  cs.foldlM (fun n c =>
    let n := n * 10 + (c.toNat - '0'.toNat)
    if n < 1 <<< 31 then some n else none) 0

/-- Reads what follows the `e` of a number. -/
def readExponent (positive : Bool) (significand : Nat) (e : Int) : Scan Number := fun cs =>
  let (up, cs) := match cs with
    | '+' :: r => (true, r)
    | '-' :: r => (false, r)
    | r => (true, r)
  let digits := cs.takeWhile Char.isDigit
  let rest := cs.dropWhile Char.isDigit
  if digits.isEmpty then .error (if rest.isEmpty then .endInValue else .invalidNumber)
  else
    match exponentValue? digits with
    | some n => do
      let number ← ofParts positive significand (if up then e + n else e - n)
      return (number, rest)
    | none =>
      if significand != 0 && up then .error .numberOutOfRange
      else .ok (.float (if positive then 0 else -0), rest)

/-- Reads what follows the digits of a number that is a double. -/
def readEnd (positive : Bool) (significand : Nat) (e : Int) : Scan Number := fun cs =>
  if exponentNext cs then readExponent positive significand e (cs.drop 1)
  else do
    let number ← ofParts positive significand e
    return (number, cs)

/-- Reads what follows the point of a number. -/
def readFraction (positive : Bool) (significand : Nat) (e : Int) : Scan Number := fun cs =>
  let (result, taken, rest) := gather significand cs
  if taken == 0 && !digitNext rest then
    .error (if rest.isEmpty then .endInValue else .invalidNumber)
  else readEnd positive result (e - taken) (rest.dropWhile Char.isDigit)

/-- A whole number without its sign. -/
def ofNat (positive : Bool) (value : Nat) : Number :=
  if positive then .natural value
  else if value == 0 || 1 <<< 63 < value then .float (-(UInt64.ofNat value).toFloat)
  else .negative value

/-- Reads what follows the sign of a number. -/
def read (positive : Bool) : Scan Number := fun cs =>
  match cs with
  | [] => .error .endInValue
  | '0' :: rest =>
    if digitNext rest then .error .invalidNumber else finish 0 rest
  | c :: rest =>
    if c.isDigit then
      let (significand, _, rest) := gather (c.toNat - '0'.toNat) rest
      if digitNext rest then
        let dropped := (rest.takeWhile Char.isDigit).length
        match rest.dropWhile Char.isDigit with
        | '.' :: rest => readFraction positive significand dropped rest
        | rest => readEnd positive significand dropped rest
      else finish significand rest
    else .error .invalidNumber
where
  finish (significand : Nat) : Scan Number := fun rest =>
    match rest with
    | '.' :: rest => readFraction positive significand 0 rest
    | rest =>
      if exponentNext rest then readEnd positive significand 0 rest
      else .ok (ofNat positive significand, rest)

/-- Steps over what follows the sign of a number, whatever its value is. -/
def skip (cs : List Char) : Except Error (List Char) :=
  match cs with
  | '0' :: rest => if digitNext rest then .error .invalidNumber else fraction rest
  | c :: rest => if c.isDigit then fraction (rest.dropWhile Char.isDigit) else .error .invalidNumber
  | [] => .error .invalidNumber
where
  exponent (cs : List Char) : Except Error (List Char) :=
    if exponentNext cs then
      let cs := match cs.drop 1 with
        | '+' :: r => r
        | '-' :: r => r
        | r => r
      if digitNext cs then .ok (cs.dropWhile Char.isDigit) else .error .invalidNumber
    else .ok cs
  fraction (cs : List Char) : Except Error (List Char) :=
    match cs with
    | '.' :: rest =>
      if digitNext rest then exponent (rest.dropWhile Char.isDigit) else .error .invalidNumber
    | rest => exponent rest

end Number

end Staging.Json
