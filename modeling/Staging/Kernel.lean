import Staging.Shape

/-!
# Kernels

The array functions behind the operations, for any type of scalar. Every position is read by checked
index, every remainder is by a checked length, and an array is cut into rows of a checked width; a
check that fails is a fault. Kernels do not look at whether their operands are as long as their
shapes say: that is for those who store them.

**What it does not establish.** Nothing is said of rounding. The functions on scalars are parameters
here, and statements about kernels hold for all of them.
-/

namespace Staging.Kernel

variable {α : Type}

/-- The value at a position, which must lie inside. A position outside is a fault and not a default
value: a kernel that goes wrong must not go on with a number nobody stored. -/
def fetch (xs : Array α) (i : Nat) : Except Fault α :=
  match xs[i]? with
  | some x => .ok x
  | none => .error .outOfRange

/-- The array of `f 0`, …, `f (n - 1)`, unless one of them faults. They are asked for in order, so
that the fault is that of the first position which has one. -/
def tabulate (n : Nat) (f : Nat → Except Fault α) : Except Fault (Array α) :=
  (List.range n).foldlM (fun acc i => (f i).map acc.push) #[]

def unary (f : α → α) (xs : Array α) : Array α := xs.map f

/-- A function of two values at each of `n` positions, where each operand is read again from its
start whenever it ends. That is what broadcasting means where one shape is a suffix of the other:
the shorter array is laid beside the longer one again and again. -/
def binary (n : Nat) (f : α → α → α) (xs ys : Array α) : Except Fault (Array α) :=
  tabulate n fun i => do
    let x ← fetch xs (← Size.rem i xs.size)
    let y ← fetch ys (← Size.rem i ys.size)
    return f x y

/-- The number of rows of `width` values into which `size` values are cut; the last may be shorter.
There is no cutting into rows without values. -/
def rowCount (size width : Nat) : Except Fault Nat :=
  if width = 0 then .error .zeroWidth else .ok ((size + width - 1) / width)

/-- Row `r` of the rows of `width` values. -/
def row (xs : Array α) (width r : Nat) : Array α := xs.extract (r * width) (r * width + width)

/-- The rows of `width` values, in order. Nothing is lost by cutting: a last row that is shorter is
kept as it is. -/
def cut (width : Nat) (xs : Array α) : Except Fault (Array (Array α)) := do
  let rows ← rowCount xs.size width
  return Array.ofFn fun r : Fin rows => row xs width r

/-- The left fold of each row of `width` values. Floats are not associative, so that the direction
of the fold is a part of the result. -/
def foldRows (width : Nat) (init : α) (f : α → α → α) (xs : Array α) : Except Fault (Array α) := do
  return (← cut width xs).map fun r => r.foldl f init

/-- Folds along the last axis of an array of a given shape. Rows of length zero can not be cut off
an array and give the initial value instead. There is taken to be at least one of them, also where
another axis has length zero and the result should have no values. -/
def reduce (shape : Shape) (init : α) (f : α → α → α) (xs : Array α) :
    Except Fault (Array α) := do
  let width := shape.last
  if width = 0 then
    let rows ← Shape.size (← shape.front)
    Size.reserve (max rows 1)
    return Array.replicate (max rows 1) init
  else foldRows width init f xs

/-- Changes what stands at some positions, one after the other, by a function of the position. -/
def alter {β : Type} (f : Nat → β → Except Fault β) (order : List Nat) (xs : Array β) :
    Except Fault (Array β) :=
  order.foldlM (fun xs i => do return xs.setIfInBounds i (← f i (← fetch xs i))) xs

/-- Adds to a row of sums, for value `p` in row `i` of a matrix with rows of `k` values, its
products with row `p` of a matrix with rows of `n` values. -/
def addProducts (add mul : α → α → α) (k n : Nat) (xs ys : Array α) (i p : Nat) (sums : Array α) :
    Except Fault (Array α) := do
  let x ← fetch xs (i * k + p)
  tabulate sums.size fun j => do
    let y ← fetch ys (p * n + j)
    let sum ← fetch sums j
    return add sum (mul x y)

/-- Adds row `i` of a product to a row of sums, which takes one pass over the sums for each value in
row `i` of the first matrix. -/
def addRow (add mul : α → α → α) (k n : Nat) (xs ys : Array α) (i : Nat) (sums : Array α) :
    Except Fault (Array α) :=
  (List.range k).foldlM (fun sums p => addProducts add mul k n xs ys i p sums) sums

/-- The product of an `m` by `k` and a `k` by `n` matrix. It is zero at first, and its rows are then
changed in place; without columns there is nothing to cut into rows. -/
def matmul (zero : α) (add mul : α → α → α) (m k n : Nat) (xs ys : Array α) :
    Except Fault (Array α) := do
  let blank := Array.replicate (m * n) zero
  if n = 0 then return blank
  else
    let rows ← cut n blank
    let rows ← alter (addRow add mul k n xs ys) (List.range rows.size) rows
    return rows.flatten

end Staging.Kernel
