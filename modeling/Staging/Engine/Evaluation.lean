import Staging.Buffer.Store
import Staging.Counters
import Staging.Engine.Error
import Staging.Kernel
import Staging.Random.Generator

/-!
# Evaluation of a step

What a step computes, stores and costs, given the buffers it reads and a generator. Operands are
read through a function, so that the result is a matter of the operands alone, wherever they are
held.

**What it does not establish.** The cost is a count, not a measurement: it is what the operation
needs, however it is carried out. A cost that does not fit a word is a fault of the step, although
its values were computed.
-/

namespace Staging.Step

/-- Looks buffers up. An id may have none, and a step that reads it then has an error of its own for
that. -/
abbrev Reader := BufferId → Option Buffer

/-- Operand `i` of a step. A step that has too few operands and one whose operand is not held are
told apart, since only the second is a matter of the state. -/
def operand (s : Step) (read : Reader) (i : Nat) : Result ExecError Buffer :=
  match s.operands[i]? with
  | none => .fail (.ofStep s.output (.operandCount s.op s.operands.length))
  | some x =>
    match read x with
    | none => .fail (.ofStep s.output (.readsMissing s.output x))
    | some b => .ok b

/-- One value at every position of the output. The room is asked for at once, before any value is
written. -/
def repeated (s : Step) (value : Scalar) : Except Fault (Array Scalar) := do
  let n ← s.size
  Size.reserve n
  return Array.replicate n value

/-- Can the values of a buffer be repeated to fill `n` positions? An empty one can not, and is not
divided by. -/
def repeats (b : Buffer) (n : Nat) : Except Fault Bool :=
  if b.data.isEmpty then .ok false else (Size.rem n b.data.size).map (· == 0)

/-- Makes sure that an operand can be repeated to fill `n` positions. An operand without values
never can, not even where there is no position to fill. -/
def checkRepeats (s : Step) (n : Nat) (b : Buffer) : Result ExecError Unit := do
  if ← Result.ofFaulty (repeats b n) then return ()
  else .fail (.ofStep s.output (.noBroadcast b.shape s.shape))

/-- A function of two values at every position of the output. Both operands are looked up before
anything is computed, and the first that does not fit is named in the error. -/
def evaluateBinary (s : Step) (op : BinaryOp) (read : Reader) :
    Result ExecError (Array Scalar) := do
  let x ← s.operand read 0
  let y ← s.operand read 1
  let n ← Result.ofFaulty s.size
  s.checkRepeats n x
  s.checkRepeats n y
  Result.ofFaulty (Size.reserve n)
  Result.ofFaulty (Kernel.binary n op.apply x.data y.data)

def evaluateProduct (s : Step) (read : Reader) : Result ExecError (Array Scalar) := do
  let x ← s.operand read 0
  let y ← s.operand read 1
  match x.shape, y.shape with
  | [m, k], [k', n] =>
    if k = k' then
      let count ← Result.ofFaulty (Size.mul m n)
      Result.ofFaulty (Size.reserve count)
      Result.ofFaulty (Kernel.matmul 0 (· + ·) (· * ·) m k n x.data y.data)
    else .fail (.ofStep s.output (.noProduct x.shape y.shape))
  | _, _ => .fail (.ofStep s.output (.notMatrices x.shape y.shape))

/-- The values that a step computes, and the generator after it. How many values there are is up to
the operands and not to the shape of the step: that the two agree is checked by whoever stores them.
-/
def evaluate (s : Step) (read : Reader) (g : Generator) :
    Result ExecError (Array Scalar × Generator) :=
  match s.op with
  | .load .random => do
    let n ← Result.ofFaulty s.size
    Result.ofFaulty (Size.reserve n)
    let (values, g) := g.draws n
    return (values.toArray, g)
  | .load .empty => do return (← Result.ofFaulty (s.repeated 0), g)
  | .load op => .fail (.ofStep s.output (.noSource op))
  | .fill value => do return (← Result.ofFaulty (s.repeated value), g)
  | .unary op => do
    let x ← s.operand read 0
    return (Kernel.unary op.apply x.data, g)
  | .binary op => do return (← s.evaluateBinary op read, g)
  | .reduce op => do
    let x ← s.operand read 0
    return (← Result.ofFaulty (Kernel.reduce x.shape op.start op.apply x.data), g)
  | .matmul => do return (← s.evaluateProduct read, g)

/-- The number of values read, counting an operand as often as it occurs. -/
def readCount (s : Step) (read : Reader) : Nat :=
  (s.operands.filterMap read).foldl (fun n b => n + b.data.size) 0

/-- The length of the rows of the first operand, or zero if there is none. -/
def innerLength (s : Step) (read : Reader) : Nat :=
  ((s.operands.head?.bind read).bind fun b => b.shape.getLast?).getD 0

/-- The arithmetic operations of a step that writes `n` values. A fold does one for each value that
it reads, a product two for each factor of each sum. -/
def opCount (s : Step) (read : Reader) (n : Nat) : Except Fault Nat :=
  match s.op with
  | .load _ | .fill _ => .ok 0
  | .unary _ | .binary _ => .ok n
  | .reduce _ => .ok (s.readCount read)
  | .matmul => do Size.mul (← Size.mul 2 n) (s.innerLength read)

/-- What a step costs: operations, and bytes read and written at four for each value. These are
products of sizes, and a step whose values all fit may still have a cost that does not. -/
def cost (s : Step) (read : Reader) : Except Fault Cost := do
  let n ← s.size
  let ops ← s.opCount read n
  let mem ← Size.mul (s.readCount read + n) 4
  return { ops := UInt64.ofNat ops, mem := UInt64.ofNat mem }

/-- What a step costs that has computed these values. There must be as many as its shape asks for,
and only then is it asked what they cost. -/
def checkedCost (s : Step) (read : Reader) (data : Array Scalar) : Result ExecError Cost := do
  let n ← Result.ofFaulty s.size
  if data.size ≠ n then .fail (.ofStep s.output (.wrongResult s.op data.size s.shape))
  else Result.ofFaulty (s.cost read)

end Staging.Step
