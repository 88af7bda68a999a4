import Staging.Decimal.Binary

/-!
# Reading numbers

Whole numbers are an optional plus sign and ASCII digits. A decimal is an optional sign, digits with
at most one point among them and at least one digit, and an optional exponent; it is rounded once,
to the nearest float. The names of the infinities and of what is not a number are read in any case.
-/

namespace Staging.Decimal

/-- The digits at the start of a text, and the rest. -/
def spanDigits (cs : List Char) : List Char × List Char :=
  (cs.takeWhile Char.isDigit, cs.dropWhile Char.isDigit)

/-- The value of ASCII digits. -/
def digitsValue (cs : List Char) : Nat := cs.foldl (fun n c => n * 10 + (c.toNat - '0'.toNat)) 0

/-- A whole number below `limit`: an optional plus sign and digits. -/
def readNat? (limit : Nat) (s : String) : Option Nat :=
  let digits := match s.toList with
    | '+' :: r => r
    | r => r
  if digits.isEmpty || !digits.all Char.isDigit then none
  else
    let n := digitsValue digits
    if n < limit then some n else none

/-- A whole number with an optional sign of either kind, whose value is not negative and below
`limit`. A zero with a minus sign is read as zero, which makes this reader differ from the other
one. -/
def readSigned? (limit : Nat) (s : String) : Option Nat :=
  match s.toList with
  | '-' :: r => if !r.isEmpty && r.all (· == '0') then some 0 else none
  | _ => readNat? limit s

/-- The exponent part of a decimal: nothing, or an `e`, an optional sign and digits. -/
def readExponent? : List Char → Option Int
  | [] => some 0
  | e :: r =>
    if e == 'e' || e == 'E' then
      let (negative, digits) := match r with
        | '-' :: r => (true, r)
        | '+' :: r => (false, r)
        | r => (false, r)
      if digits.isEmpty || !digits.all Char.isDigit then none
      else
        let n : Int := digitsValue digits
        some (if negative then -n else n)
    else none

/-- The nonnegative single-precision float nearest to `digits · 10^scale`. A decimal far outside of
the range of the format is settled by its size alone. -/
def nearestSingle (digits : Nat) (scale : Int) : Nat :=
  let f := Format.single
  let size := scale + (Nat.toDigits 10 digits).length
  if digits == 0 || size < -60 then 0
  else if 60 < size then f.topExponent <<< f.fractionBits
  else
    let (num, den) := scaleTen digits 1 scale
    f.nearest num den

/-- The bits of an unsigned decimal. -/
def readUnsigned? (cs : List Char) : Option Nat :=
  let lower := String.ofList (cs.map Char.toLower)
  if lower == "inf" || lower == "infinity" then some 0x7f800000
  else if lower == "nan" then some 0x7fc00000
  else
    let (whole, rest) := spanDigits cs
    let (fraction, rest) := match rest with
      | '.' :: r => spanDigits r
      | r => ([], r)
    if whole.isEmpty && fraction.isEmpty then none
    else do
      let e ← readExponent? rest
      return nearestSingle (digitsValue (whole ++ fraction)) (e - fraction.length)

def readSingle? (s : String) : Option Float32 :=
  match s.toList with
  | '-' :: r => (readUnsigned? r).map fun b => Float32.ofBits (UInt32.ofNat (b + (1 <<< 31)))
  | '+' :: r => (readUnsigned? r).map fun b => Float32.ofBits (UInt32.ofNat b)
  | r => (readUnsigned? r).map fun b => Float32.ofBits (UInt32.ofNat b)

end Staging.Decimal
