/-!
# Binary floating point numbers, exactly

A float of a binary interchange format is read off its bits as an exact number: not a number, an
infinity, a zero, or `m · 2^q` with a sign. Going the other way, `Format.nearest` gives the bits of
the float closest to a fraction, a half going to the even neighbour.
-/

namespace Staging.Decimal

/-- The widths of a binary interchange format. Everything else about the format follows from them.
-/
structure Format where
  /-- Bits of the fraction field. -/
  fractionBits : Nat
  /-- Bits of the exponent field. -/
  exponentBits : Nat

namespace Format

/-- The format with 32 bits. -/
def single : Format := ⟨23, 8⟩

/-- The format with 64 bits. -/
def double : Format := ⟨52, 11⟩

/-- The largest value of the exponent field, which marks infinities and what is not a number. -/
def topExponent (f : Format) : Nat := (1 <<< f.exponentBits) - 1

/-- The exponent of the unit of the fraction field for the smallest floats. -/
def leastExponent (f : Format) : Int := 2 - (1 <<< (f.exponentBits - 1) : Nat) - f.fractionBits

end Format

/-- A positive number `mantissa · 2^exponent`, with what is needed to know of its neighbours. -/
structure Magnitude where
  mantissa : Nat
  exponent : Int
  /-- Is the next smaller float only half as far away as the next larger one? -/
  narrowBelow : Bool
deriving DecidableEq, Repr

/-- What the bits of a float stand for. Every word is one of the four, so that whoever writes a
number has no further case. -/
inductive Reading where
  | nan
  | infinite (negative : Bool)
  | zero (negative : Bool)
  | finite (negative : Bool) (magnitude : Magnitude)
deriving DecidableEq, Repr

def Format.read (f : Format) (bits : Nat) : Reading :=
  let fraction := bits % (1 <<< f.fractionBits)
  let exponent := (bits >>> f.fractionBits) % (1 <<< f.exponentBits)
  let negative := (bits >>> (f.fractionBits + f.exponentBits)) % 2 == 1
  if exponent == f.topExponent then
    if fraction == 0 then .infinite negative else .nan
  else if exponent == 0 then
    if fraction == 0 then .zero negative else .finite negative ⟨fraction, f.leastExponent, false⟩
  else
    .finite negative
      ⟨fraction + (1 <<< f.fractionBits), f.leastExponent + (exponent - 1 : Nat),
        fraction == 0 && exponent != 1⟩

/-- The quotient of two numbers, rounded to the nearest whole number, a half to the even one, which
is how floats are rounded too. -/
def roundDiv (num den : Nat) : Nat :=
  let q := num / den
  let r := num % den
  if 2 * r < den then q else if den < 2 * r then q + 1 else if q % 2 == 0 then q else q + 1

def scaleTwo (num den : Nat) (e : Int) : Nat × Nat :=
  if 0 ≤ e then (num <<< e.toNat, den) else (num, den <<< (-e).toNat)

def scaleTen (num den : Nat) (e : Int) : Nat × Nat :=
  if 0 ≤ e then (num * Nat.pow 10 e.toNat, den) else (num, den * Nat.pow 10 (-e).toNat)

/-- The bits of the nonnegative float that is nearest to `num / den`. The unit of the last place is
estimated from the lengths of the two numbers and corrected at most once; a fraction beyond the
largest float is an infinity. -/
def Format.nearest (f : Format) (num den : Nat) : Nat :=
  if num == 0 then 0
  else
    -- One more than the binary exponent of the fraction, or that exponent itself.
    let top : Int := (num.log2 : Int) - den.log2
    let unit := max f.leastExponent (top - f.fractionBits - 1)
    let (n, d) := scaleTwo num den (-unit)
    let m := roundDiv n d
    -- The estimate of the unit is exact or half of it.
    let (unit, m) :=
      if m < 1 <<< (f.fractionBits + 1) then (unit, m)
      else
        let (n, d) := scaleTwo num den (-(unit + 1))
        (unit + 1, roundDiv n d)
    let (unit, m) := if m < 1 <<< (f.fractionBits + 1) then (unit, m) else (unit + 1, m / 2)
    if m < 1 <<< f.fractionBits then m
    else
      let exponent := (unit - f.leastExponent).toNat + 1
      if exponent < f.topExponent then
        (exponent <<< f.fractionBits) + (m - (1 <<< f.fractionBits))
      else f.topExponent <<< f.fractionBits

end Staging.Decimal
