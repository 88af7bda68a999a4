import Staging.Json.Error
import Staging.Schedule

/-!
# Errors of graphs

Each constructor is one way in which building or reading a graph can go wrong. They fall into three
kinds: shapes that do not fit, names of nothing, and texts that can not be read as what they should
be.
-/

namespace Staging

/-- What is wrong with a graph, or with a request to it. An error holds what its message names, so
that a caller can look at it without reading the message. -/
inductive GraphError where
  | unknownBuffer (x : BufferId)
  | unknownName (name : String)
  | duplicateName (name : String)
  | weightSize (name : String) (shape : Shape) (given : Nat)
  | operandCount (op : Op) (given : Nat)
  | operandsGiven (op : Op) (given : Nat)
  | shapeNeeded (op : Op)
  | noBroadcast (op : Op) (xs ys : Shape)
  | noProduct (xs ys : Shape)
  | shapeDiffers (op : Op) (inferred requested : Shape)
  | unknownOp (name : String)
  | dataAndFill (name : String)
  | unreadable (cause : Json.Error)

namespace GraphError

inductive Kind where
  | shape
  | unknown
  | parse
deriving DecidableEq, Repr

def kind : GraphError → Kind
  | .unknownBuffer _ | .unknownName _ => .unknown
  | .duplicateName _ | .unknownOp _ | .dataAndFill _ | .unreadable _ => .parse
  | .weightSize .. | .operandCount .. | .operandsGiven .. | .shapeNeeded _ | .noBroadcast ..
  | .noProduct .. | .shapeDiffers .. => .shape

def message : GraphError → String
  | .unknownBuffer x => "unknown buffer " ++ x.render
  | .unknownName name => "unknown buffer " ++ name
  | .duplicateName name => "parse error duplicate name " ++ Text.quote name
  | .weightSize name shape given =>
    "weight " ++ Text.quote name ++ " has shape " ++ shape.render ++ ", but " ++ toString given ++
      " values"
  | .operandCount op given =>
    op.render ++ " takes " ++ toString op.arity ++ " inputs, got " ++ toString given
  | .operandsGiven op given => op.render ++ " takes no inputs, got " ++ toString given
  | .shapeNeeded op => op.render ++ " needs explicit shape"
  | .noBroadcast op xs ys =>
    op.render ++ " can not broadcast " ++ xs.render ++ " with " ++ ys.render
  | .noProduct xs ys => "can not matmul " ++ xs.render ++ " with " ++ ys.render
  | .shapeDiffers op inferred requested =>
    op.render ++ " produces shape " ++ inferred.render ++ ", but " ++ requested.render ++
      " was requested"
  | .unknownOp name => "parse error unknown op " ++ Text.quote name
  | .dataAndFill name => "parse error weight " ++ Text.quote name ++ " has both data and fill"
  | .unreadable cause => "parse error " ++ cause.message

end GraphError

end Staging
