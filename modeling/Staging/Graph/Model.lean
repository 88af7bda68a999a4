import Staging.Graph.Basic
import Staging.Json.Reader

/-!
# Models

A model describes a graph by names: inputs, weights and operations, the operands of an operation
before it, and the outputs. `Model.read` takes one from JSON text and `Graph.ofModel` builds the
graph.
-/

namespace Staging

structure Model.Input where
  name : String
  shape : Shape

/-- A weight of a model: its values, one value for all of them, or zeros. Both at once is refused
when the graph is built, not when the text is read. -/
structure Model.Weight where
  name : String
  shape : Shape
  data : Option (List Scalar)
  fill : Option Scalar

structure Model.Operation where
  name : String
  op : String
  operands : List String
  shape : Option Shape
  value : Option Scalar

/-- The description of a graph. It refers to nodes by names and says nothing of ids, which they get
by being built in order. -/
structure Model where
  inputs : List Model.Input
  weights : List Model.Weight
  operations : List Model.Operation
  outputs : List String

namespace Model

/-! ## Reading -/

def readShape : Json.Reader Shape := Json.list (Json.natural Size.limit "usize")

structure InputDraft where
  name : Option String := none
  shape : Option Shape := none

def inputFields : List (Json.Field InputDraft) := [
  ⟨"name", true, fun d => d.name.isSome, fun d => do return { d with name := some (← Json.text) }⟩,
  ⟨"shape", true, fun d => d.shape.isSome, fun d => do return { d with shape := some (← readShape) }⟩]

def readInput : Json.Reader Input := do
  let d ← Json.record "InputDef" inputFields {}
  return ⟨d.name.getD "", d.shape.getD []⟩

structure WeightDraft where
  name : Option String := none
  shape : Option Shape := none
  data : Option (Option (List Scalar)) := none
  fill : Option (Option Scalar) := none

def weightFields : List (Json.Field WeightDraft) := [
  ⟨"name", true, fun d => d.name.isSome, fun d => do return { d with name := some (← Json.text) }⟩,
  ⟨"shape", true, fun d => d.shape.isSome, fun d => do return { d with shape := some (← readShape) }⟩,
  ⟨"data", false, fun d => d.data.isSome, fun d => do
    return { d with data := some (← Json.optional (Json.list Json.scalar)) }⟩,
  ⟨"fill", false, fun d => d.fill.isSome, fun d => do
    return { d with fill := some (← Json.optional Json.scalar) }⟩]

def readWeight : Json.Reader Weight := do
  let d ← Json.record "WeightDef" weightFields {}
  return ⟨d.name.getD "", d.shape.getD [], d.data.join, d.fill.join⟩

structure OperationDraft where
  name : Option String := none
  op : Option String := none
  operands : Option (List String) := none
  shape : Option (Option Shape) := none
  value : Option (Option Scalar) := none

def operationFields : List (Json.Field OperationDraft) := [
  ⟨"name", true, fun d => d.name.isSome, fun d => do return { d with name := some (← Json.text) }⟩,
  ⟨"op", true, fun d => d.op.isSome, fun d => do return { d with op := some (← Json.text) }⟩,
  ⟨"inputs", false, fun d => d.operands.isSome, fun d => do
    return { d with operands := some (← Json.list Json.text) }⟩,
  ⟨"shape", false, fun d => d.shape.isSome, fun d => do
    return { d with shape := some (← Json.optional readShape) }⟩,
  ⟨"value", false, fun d => d.value.isSome, fun d => do
    return { d with value := some (← Json.optional Json.scalar) }⟩]

def readOperation : Json.Reader Operation := do
  let d ← Json.record "NodeDef" operationFields {}
  return ⟨d.name.getD "", d.op.getD "", d.operands.getD [], d.shape.join, d.value.join⟩

structure Draft where
  inputs : Option (List Input) := none
  weights : Option (List Weight) := none
  operations : Option (List Operation) := none
  outputs : Option (List String) := none

def fields : List (Json.Field Draft) := [
  ⟨"inputs", false, fun d => d.inputs.isSome, fun d => do
    return { d with inputs := some (← Json.list readInput) }⟩,
  ⟨"weights", false, fun d => d.weights.isSome, fun d => do
    return { d with weights := some (← Json.list readWeight) }⟩,
  ⟨"nodes", true, fun d => d.operations.isSome, fun d => do
    return { d with operations := some (← Json.list readOperation) }⟩,
  ⟨"outputs", true, fun d => d.outputs.isSome, fun d => do
    return { d with outputs := some (← Json.list Json.text) }⟩]

/-- Takes a model from the front of a text. Inputs and weights may be left out; operations and
outputs may be empty, but have to be there. -/
def reader : Json.Reader Model := do
  let d ← Json.record "ModelFile" fields {}
  return ⟨d.inputs.getD [], d.weights.getD [], d.operations.getD [], d.outputs.getD []⟩

def read (source : String) : Except Json.Error Model := Json.decode reader source

end Model

namespace Graph

/-! ## Building -/

def weightData (w : Model.Weight) : Result GraphError (Array Scalar) := do
  let n ← Result.ofFaulty w.shape.size
  match w.data, w.fill with
  | some data, none => return data.toArray
  | some _, some _ => .fail (.dataAndFill w.name)
  | none, fill =>
    Result.ofFaulty (Size.reserve n)
    return Array.replicate n (fill.getD 0)

def extendInput (g : Graph) (i : Model.Input) : Result GraphError Graph :=
  (addInput i.name i.shape).exec g

def extendWeight (g : Graph) (w : Model.Weight) : Result GraphError Graph := do
  let data ← weightData w
  (addWeight w.name w.shape data).exec g

def extendOperation (g : Graph) (n : Model.Operation) : Result GraphError Graph := do
  match Op.ofName? n.op with
  | none => .fail (.unknownOp n.op)
  | some op =>
    let op := op.withValue n.value
    let operands ← Result.ofExcept (n.operands.mapM g.find)
    match n.shape with
    | some shape => (pushShaped n.name op operands shape).exec g
    | none => (push n.name op operands).exec g

/-- Wants the value of a name. -/
def extendOutput (g : Graph) (name : String) : Result GraphError Graph := do
  let x ← Result.ofExcept (g.find name)
  (markOutput x).exec g

/-- The graph that a model describes, or the first reason why there is none. What was built up to
there is given up. -/
def ofModel (m : Model) : Result GraphError Graph := do
  let g ← m.inputs.foldlM extendInput empty
  let g ← m.weights.foldlM extendWeight g
  let g ← m.operations.foldlM extendOperation g
  m.outputs.foldlM extendOutput g

def ofJson (source : String) : Result GraphError Graph :=
  match Model.read source with
  | .ok m => ofModel m
  | .error e => .fail (.unreadable e)

end Graph

end Staging
