import Staging.Scalar
import Staging.Text.Quoted

/-!
# Operations

The operations of a graph, the number of operands of each, their names, and what the elementwise
ones do to a value. Names are read without regard to ASCII case.
-/

namespace Staging

/-- Operations that bring values in from outside of the graph. A plan can not hold one: what is
computed once for all inputs must not depend on when it is computed. -/
inductive LoadOp where
  | empty
  | random
  | source
  | custom
deriving DecidableEq, Repr

/-- Operations on one value. They keep the shape of their operand. -/
inductive UnaryOp where
  | neg
  | relu
  | exp
  | ln
  | inv
  | sqrt
  | tanh
  | sin
  | cos
deriving DecidableEq, Repr

/-- Operations on two values, whose order matters for some of them. -/
inductive BinaryOp where
  | add
  | sub
  | mul
  | div
  | pow
  | max
  | less
deriving DecidableEq, Repr

/-- Folds along the last axis, which they take away. An array of one axis or none becomes a single
value. -/
inductive ReduceOp where
  | sum
  | max
deriving DecidableEq, Repr

inductive Op where
  | load (op : LoadOp)
  | fill (value : Scalar)
  | unary (op : UnaryOp)
  | binary (op : BinaryOp)
  | reduce (op : ReduceOp)
  | matmul
deriving DecidableEq, Repr

namespace LoadOp

def render : LoadOp → String
  | .empty => "Empty"
  | .random => "Rand"
  | .source => "From"
  | .custom => "Custom"

end LoadOp

namespace UnaryOp

def render : UnaryOp → String
  | .neg => "Neg"
  | .relu => "ReLU"
  | .exp => "Exp"
  | .ln => "Ln"
  | .inv => "Inv"
  | .sqrt => "Sqrt"
  | .tanh => "Tanh"
  | .sin => "Sin"
  | .cos => "Cos"

/-- What the operation does to a value. -/
def apply : UnaryOp → Scalar → Scalar
  | .neg, x => -x
  | .relu, x => Scalar.max x 0
  | .exp, x => Scalar.exp x
  | .ln, x => Scalar.ln x
  | .inv, x => 1 / x
  | .sqrt, x => x.sqrt
  | .tanh, x => Scalar.tanh x
  | .sin, x => Scalar.sin x
  | .cos, x => Scalar.cos x

end UnaryOp

namespace BinaryOp

def render : BinaryOp → String
  | .add => "Add"
  | .sub => "Sub"
  | .mul => "Mul"
  | .div => "Div"
  | .pow => "Pow"
  | .max => "Max"
  | .less => "Cmplt"

/-- What the operation does to two values. -/
def apply : BinaryOp → Scalar → Scalar → Scalar
  | .add, x, y => x + y
  | .sub, x, y => x - y
  | .mul, x, y => x * y
  | .div, x, y => x / y
  | .pow, x, y => Scalar.pow x y
  | .max, x, y => Scalar.max x y
  | .less, x, y => Scalar.less x y

end BinaryOp

namespace ReduceOp

def render : ReduceOp → String
  | .sum => "Sum"
  | .max => "Max"

/-- The value a fold starts from, which is also its result where there is nothing to fold. -/
def start : ReduceOp → Scalar
  | .sum => 0
  | .max => Scalar.negInfinity

/-- One step of the fold. -/
def apply : ReduceOp → Scalar → Scalar → Scalar
  | .sum, x, y => x + y
  | .max, x, y => Scalar.max x y

end ReduceOp

namespace Op

def arity : Op → Nat
  | .load _ | .fill _ => 0
  | .unary _ | .reduce _ => 1
  | .binary _ | .matmul => 2

/-- Does the operation bring values in from outside of the graph? Such an operation is the only
thing that stands in the way of a plan. -/
def isLoad : Op → Bool
  | .load _ => true
  | _ => false

def render : Op → String
  | .load op => "Load(" ++ op.render ++ ")"
  | .fill value => "Fill(" ++ value.render .plain ++ ")"
  | .unary op => op.render
  | .binary op => op.render
  | .reduce op => "Reduce(" ++ op.render ++ ")"
  | .matmul => "MatMul"

/-- The operation of each name, in lower case. Some operations have a second name, by which other
tools know them. -/
def names : List (String × Op) := [
  ("empty", .load .empty), ("rand", .load .random), ("from", .load .source),
  ("custom", .load .custom), ("fill", .fill 0), ("neg", .unary .neg), ("relu", .unary .relu),
  ("exp", .unary .exp), ("ln", .unary .ln), ("log", .unary .ln), ("inv", .unary .inv),
  ("reciprocal", .unary .inv), ("sqrt", .unary .sqrt), ("tanh", .unary .tanh),
  ("sin", .unary .sin), ("cos", .unary .cos), ("add", .binary .add), ("sub", .binary .sub),
  ("mul", .binary .mul), ("div", .binary .div), ("pow", .binary .pow), ("max", .binary .max),
  ("maximum", .binary .max), ("cmplt", .binary .less), ("less", .binary .less),
  ("sum", .reduce .sum), ("reduce_sum", .reduce .sum), ("reduce_max", .reduce .max),
  ("matmul", .matmul), ("dot", .matmul)]

/-- The operation with a given name. A fill has the value zero. -/
def ofName? (name : String) : Option Op := names.lookup name.toLower

/-- Gives a fill its value and leaves every other operation as it is. -/
def withValue (op : Op) (value : Option Scalar) : Op :=
  match op, value with
  | .fill _, some v => .fill v
  | op, _ => op

end Op

end Staging
