import Staging.Schedule

/-!
# Errors of engines

Each constructor of `ExecCause` is one way in which storing a buffer or executing a step can go
wrong; `ExecCause.status` sorts the causes into four kinds and `ExecCause.message` puts them into
words.
-/

namespace Staging

inductive Status where
  | missingBuffer
  | shapeMismatch
  | unsupported
  | kernelLaunch
deriving DecidableEq, Repr

def Status.render : Status → String
  | .missingBuffer => "MissingBuffer"
  | .shapeMismatch => "ShapeMismatch"
  | .unsupported => "Unsupported"
  | .kernelLaunch => "KernelLaunch"

inductive ExecCause where
  | wrongSize (shape : Shape) (needed given : Nat)
  | noShape (reason : String)
  | notStored (x : BufferId)
  | operandCount (op : Op) (given : Nat)
  | readsMissing (output x : BufferId)
  | noSource (op : LoadOp)
  | noBroadcast (operand output : Shape)
  | notMatrices (xs ys : Shape)
  | noProduct (xs ys : Shape)
  | wrongResult (op : Op) (given : Nat) (shape : Shape)
  | launchFailed (reason : String)
deriving DecidableEq, Repr

namespace ExecCause

def status : ExecCause → Status
  | .noShape _ | .notStored _ | .readsMissing _ _ => .missingBuffer
  | .noSource _ => .unsupported
  | .launchFailed _ => .kernelLaunch
  | .wrongSize .. | .operandCount .. | .noBroadcast .. | .notMatrices .. | .noProduct ..
  | .wrongResult .. => .shapeMismatch

def message : ExecCause → String
  | .wrongSize shape needed given =>
    "shape " ++ shape.render ++ " needs " ++ toString needed ++ " values, got " ++ toString given
  | .noShape reason => reason
  | .notStored x => x.render ++ " is not stored"
  | .operandCount op given =>
    op.render ++ " needs " ++ toString op.arity ++ " inputs, got " ++ toString given
  | .readsMissing output x => output.render ++ " reads " ++ x.render ++ ", which is not stored"
  | .noSource op => op.render ++ " needs an external source"
  | .noBroadcast operand output =>
    "can not broadcast " ++ operand.render ++ " to " ++ output.render
  | .notMatrices xs ys => "matmul needs two matrices, got " ++ xs.render ++ " and " ++ ys.render
  | .noProduct xs ys => "can not multiply " ++ xs.render ++ " by " ++ ys.render
  | .wrongResult op given shape =>
    op.render ++ " produced " ++ toString given ++ " values, expected shape " ++ shape.render
  | .launchFailed reason => reason

end ExecCause

/-- A cause, with the output of the step it belongs to. An engine may not know the step, in which
case the message speaks of none. -/
structure ExecError where
  step : Option BufferId
  cause : ExecCause
deriving DecidableEq, Repr

namespace ExecError

/-- An error of the step that writes `x`. -/
def ofStep (x : BufferId) (cause : ExecCause) : ExecError := ⟨some x, cause⟩

def status (e : ExecError) : Status := e.cause.status

def message (e : ExecError) : String := e.status.render ++ ": " ++ e.cause.message

end ExecError

end Staging
