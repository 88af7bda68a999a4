import Staging.Decimal.Layout

/-!
# Scalars

The values of a buffer are single-precision floats. Elementary functions are computed in double
precision and rounded once; a maximum prefers a number over what is not a number.

**What it does not establish.** Arithmetic on floats has no theory here. No statement of the library
rests on what a scalar function gives, only on how often and on which values it is called.
-/

namespace Staging

/-- A value of a buffer. It is a type of the compiler, of which statements can only use what its
functions give on given bits. -/
abbrev Scalar := Float32

namespace Scalar

/-- A function computed in double precision and rounded once to single precision. The last places,
in which functions of double precision may be off, are lost in the rounding but for rare cases near
a half. -/
def viaDouble (f : Float → Float) (x : Scalar) : Scalar := (f x.toFloat).toFloat32

def exp (x : Scalar) : Scalar := viaDouble Float.exp x

def ln (x : Scalar) : Scalar := viaDouble Float.log x

def tanh (x : Scalar) : Scalar := viaDouble Float.tanh x

def sin (x : Scalar) : Scalar := viaDouble Float.sin x

def cos (x : Scalar) : Scalar := viaDouble Float.cos x

def pow (x y : Scalar) : Scalar := (Float.pow x.toFloat y.toFloat).toFloat32

/-- The larger value; what is not a number loses against a number. Of two equal ones, such as two
zeros with different signs, it is the first. -/
def max (x y : Scalar) : Scalar :=
  if x.isNaN then y else if y.isNaN then x else if x < y then y else x

/-- One if the first value is smaller, else zero, as there is no type of truth values among buffers.
Nothing is smaller than what is not a number. -/
def less (x y : Scalar) : Scalar := if x < y then 1 else 0

/-- The value below all numbers, from which a maximum starts. -/
def negInfinity : Scalar := Float32.ofBits 0xff800000

def render (style : Decimal.Style) (x : Scalar) : String :=
  style.render (Decimal.Format.single.read x.toBits.toNat)

end Scalar

end Staging
