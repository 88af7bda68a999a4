import Staging.Decimal.Shortest

/-!
# Numbers as text

A `Style` says how the shortest decimal of a float is laid out; the three styles in use stand below
it. `fixed` writes a float with a given number of places instead.
-/

namespace Staging.Decimal

/-- How a number is laid out. -/
structure Style where
  /-- Is a number written without an exponent, given the power of ten its first digit counts? -/
  positional : Int → Bool
  /-- Is `.0` added to a whole number that is written without an exponent? -/
  keepPoint : Bool
  /-- Is the sign of a positive exponent written? -/
  exponentPlus : Bool
  /-- Which of two equally near decimals is written. -/
  tie : Tie

namespace Style

/-- Plain notation: no exponent, and no point in a whole number. -/
def plain : Style := ⟨fun _ => true, false, false, .up⟩

/-- Values in a list: a point always, an exponent below 10^-4 and from 10^16 on. -/
def listed : Style := ⟨fun e => -4 ≤ e && e < 16, true, false, .up⟩

/-- Numbers in messages about a text: a point always, a signed exponent below 10^-5 and from 10^16
on, and an even last digit where two are equally near. -/
def quoted : Style := ⟨fun e => -5 ≤ e && e < 16, true, true, .even⟩

def zeros (n : Nat) : List Char := List.replicate n '0'

def exponentText (s : Style) (e : Int) : List Char :=
  let digits := Nat.toDigits 10 e.natAbs
  if e < 0 then '-' :: digits else if s.exponentPlus then '+' :: digits else digits

/-- Lays a positive decimal out. -/
def digitsText (s : Style) (d : Digits) : List Char :=
  let text := d.text
  let e := d.leading
  if s.positional e then
    if e < 0 then '0' :: '.' :: zeros (-e - 1).toNat ++ text
    else
      let whole := e.toNat + 1
      if text.length ≤ whole then
        text ++ zeros (whole - text.length) ++ (if s.keepPoint then ['.', '0'] else [])
      else text.take whole ++ '.' :: text.drop whole
  else
    let tail := text.drop 1
    text.take 1 ++ (if tail.isEmpty then [] else '.' :: tail) ++ 'e' :: s.exponentText e

/-- Writes what the bits of a float stand for. -/
def render (s : Style) (r : Reading) : String :=
  let signed := fun (negative : Bool) (text : List Char) =>
    String.ofList (if negative then '-' :: text else text)
  match r with
  | .nan => "NaN"
  | .infinite negative => signed negative ['i', 'n', 'f']
  | .zero negative => signed negative (if s.keepPoint then ['0', '.', '0'] else ['0'])
  | .finite negative m => signed negative (s.digitsText (shortest s.tie m))

end Style

/-- A nonnegative fraction with `places` digits after the point, a half going to the even digit. -/
def fixedFraction (places num den : Nat) : String :=
  let digits := Nat.toDigits 10 (roundDiv (num * Nat.pow 10 places) den)
  let padded := Style.zeros (places + 1 - digits.length) ++ digits
  let whole := padded.length - places
  String.ofList (padded.take whole ++ '.' :: padded.drop whole)

/-- A float with `places` digits after the point, rounded from its exact value. -/
def fixed (places : Nat) (x : Float) : String :=
  match Format.double.read x.toBits.toNat with
  | .nan => "NaN"
  | .infinite negative => if negative then "-inf" else "inf"
  | .zero negative => (if negative then "-" else "") ++ fixedFraction places 0 1
  | .finite negative m =>
    let (num, den) := scaleTwo m.mantissa 1 m.exponent
    (if negative then "-" else "") ++ fixedFraction places num den

end Staging.Decimal
