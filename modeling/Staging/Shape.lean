import Staging.Fault

/-!
# Shapes

A shape lists the dimensions of a row-major array. `count` is the number of values of such an array
as a natural number; `size` is the same number in 64-bit arithmetic, where the product is taken from
left to right and must fit at every step.

Two shapes broadcast when one of them is a suffix of the other or counts a single value.
-/

namespace Staging

/-- The dimensions of a row-major array, outermost first. A dimension may be zero; an array of such
a shape has no values. -/
abbrev Shape := List Nat

namespace Shape

/-- The number of values of an array of this shape, which is one for a shape without axes. -/
def count (s : Shape) : Nat := s.foldr (· * ·) 1

/-- The number of values, if it and every partial product from the left is a size. A zero among the
dimensions does not help those before it: `[2 ^ 32, 2 ^ 32, 0]` counts no values and has no size. -/
def size (s : Shape) : Except Fault Nat := s.foldlM Size.mul 1

/-- The dimensions between brackets. -/
def render (s : Shape) : String := "[" ++ ", ".intercalate (s.map toString) ++ "]"

/-- Does an array of shape `ys` stretch over one of shape `xs`, given that it has `yn` values? A
single value stretches over everything that has no fewer axes. -/
def covers (xs ys : Shape) (yn : Nat) : Bool :=
  (yn == 1 && ys.length ≤ xs.length) || ys.isSuffixOf xs

/-- The shape over which both arrays stretch, if there is one. It is one of the two: a third shape
over which both could be stretched is not looked for. -/
def broadcast (xs ys : Shape) : Except Fault (Option Shape) := do
  let xn ← xs.size
  let yn ← ys.size
  return if covers xs ys yn then some xs else if covers ys xs xn then some ys else none

/-- The shape of a fold along the last axis. An array with fewer than two axes gives one value. -/
def dropLast (s : Shape) : Shape := if 1 < s.length then List.dropLast s else [1]

/-- All axes but the last, of which there must be one. -/
def front : Shape → Except Fault Shape
  | [] => .error .outOfRange
  | d :: s => .ok (List.dropLast (d :: s))

/-- The length of the last axis, which is one for a single value. -/
def last (s : Shape) : Nat := s.getLast?.getD 1

/-- The shape of the product of two matrices, if the rows of the first are as long as the columns of
the second. There are no products of arrays with more axes. -/
def product? (xs ys : Shape) : Option Shape :=
  match xs, ys with
  | [m, k], [k', n] => if k = k' then some [m, n] else none
  | _, _ => none

end Shape

end Staging
