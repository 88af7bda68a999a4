import Staging.Decimal.Binary

/-!
# Shortest decimals

The decimal with the fewest digits that lies within half a gap of a float, so that reading it back
gives the float again; of two with equally few digits the nearer one, and of two equally near ones
the one that a `Tie` prefers. All arithmetic is on whole numbers.
-/

namespace Staging.Decimal

/-- A positive decimal `digits · 10^scale`. Several of them may stand for the same number, as long
as zeros at the right end are not dropped. -/
structure Digits where
  digits : Nat
  scale : Int
deriving DecidableEq, Repr

namespace Digits

/-- The written digits, highest first. -/
def text (d : Digits) : List Char := Nat.toDigits 10 d.digits

/-- The power of ten that the first digit counts. -/
def leading (d : Digits) : Int := d.scale + (d.text.length - 1 : Nat)

/-- Drops zeros from the right end, at most `fuel` of them. A number has fewer of them than digits,
and so the number of digits is enough fuel. -/
def trim : Nat → Digits → Digits
  | 0, d => d
  | fuel + 1, d =>
    if d.digits != 0 && d.digits % 10 == 0 then trim fuel ⟨d.digits / 10, d.scale + 1⟩ else d

end Digits

/-- Which of two equally near decimals is taken. -/
inductive Tie where
  /-- The larger one. -/
  | up
  /-- The one whose last digit is even. -/
  | even
deriving DecidableEq, Repr

/-- Is `n` preferred to `n + 1`? -/
def Tie.keeps (tie : Tie) (n : Nat) : Bool :=
  match tie with
  | .up => false
  | .even => n % 2 == 0

def width (n : Nat) : Nat := (Nat.toDigits 10 n).length

/-- The power of ten that the first digit of the fraction `num / den` counts. -/
def leadingExponent (num den : Nat) : Int :=
  if den ≤ num then (width (num / den) - 1 : Nat)
  else -(width ((den + num - 1) / num - 1) : Nat)

/-- The numbers that read back as a given float: those between two bounds, which are given with the
float itself as fractions of one denominator. -/
structure Interval where
  low : Nat
  value : Nat
  high : Nat
  den : Nat
  /-- Do the bounds themselves read back? -/
  closed : Bool

namespace Interval

/-- The interval of a float: half of the gap on either side, with the ends if its mantissa is even,
because a half goes to the even neighbour. -/
def ofMagnitude (m : Magnitude) : Interval :=
  let scaled := fun n => scaleTwo n 1 (m.exponent - 2)
  { low := (scaled (4 * m.mantissa - (if m.narrowBelow then 1 else 2))).1
    value := (scaled (4 * m.mantissa)).1
    high := (scaled (4 * m.mantissa + 2)).1
    den := (scaled 1).2
    closed := m.mantissa % 2 == 0 }

/-- The interval with every number divided by a power of ten. -/
def divTen (i : Interval) (e : Int) : Interval :=
  { i with
    low := (scaleTen i.low i.den (-e)).1
    value := (scaleTen i.value i.den (-e)).1
    high := (scaleTen i.high i.den (-e)).1
    den := (scaleTen i.value i.den (-e)).2 }

def contains (i : Interval) (n : Nat) : Bool :=
  if i.closed then i.low ≤ n * i.den && n * i.den ≤ i.high
  else i.low < n * i.den && n * i.den < i.high

/-- The whole number of the interval that is nearest to its float, if there is one among the float's
two neighbours. -/
def whole? (i : Interval) (tie : Tie) : Option Nat :=
  let below := i.value / i.den
  let above := below + 1
  match i.contains below, i.contains above with
  | false, false => none
  | true, false => some below
  | false, true => some above
  | true, true =>
    let down := i.value - below * i.den
    let up := above * i.den - i.value
    if down < up || (down == up && tie.keeps below) then some below else some above

/-- Tries one digit more each time, starting from `count` of them. -/
def search (i : Interval) (tie : Tie) (leading : Int) : Nat → Nat → Digits
  | 0, count =>
    let scale := leading - (count : Int) + 1
    ⟨(i.divTen scale).value / (i.divTen scale).den, scale⟩
  | fuel + 1, count =>
    let scale := leading - (count : Int) + 1
    match (i.divTen scale).whole? tie with
    | some n => ⟨n, scale⟩
    | none => search i tie leading fuel (count + 1)

end Interval

/-- The shortest decimal of a float. Seventeen digits are enough for the widest format. -/
def shortest (tie : Tie) (m : Magnitude) : Digits :=
  let i := Interval.ofMagnitude m
  Digits.trim 20 (i.search tie (leadingExponent i.value i.den) 17 1)

end Staging.Decimal
