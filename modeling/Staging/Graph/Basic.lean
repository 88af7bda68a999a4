import Staging.Buffer.Store
import Staging.Graph.Error

/-!
# Graphs

A graph is a list of nodes, each an input, a weight or an operation on nodes before it. The id of a
node is its position. Beside the nodes stand their names, once in the order of the nodes and once
as a map from names to ids, the values of the weights by id, and the nodes whose values are wanted.

A graph grows by `addInput`, `addWeight`, `push` and `pushShaped`, and its outputs by `markOutput`.
Each of them changes several of the five parts, after checks that may fail. That they stay in step,
and that a call which fails leaves all of them as they were, is shown in `Proofs/Representation`.
-/

namespace Staging

inductive Node where
  /-- A value that is given at run time. -/
  | input (shape : Shape)
  /-- A value that is known; the graph holds it beside its nodes. -/
  | weight (shape : Shape)
  /-- A value that is computed. -/
  | apply (op : Op) (operands : List BufferId) (shape : Shape)
deriving DecidableEq, Repr

namespace Node

def shape : Node → Shape
  | .input shape | .weight shape | .apply _ _ shape => shape

/-- The nodes from which the value is computed, in the order in which the operation takes them. A
node may be there twice. -/
def operands : Node → List BufferId
  | .input _ | .weight _ => []
  | .apply _ operands _ => operands

end Node

/-- Nodes with names, the values that are known, and the nodes that are wanted. The parts overlap: a
name stands in two of them, and a weight has a node and values. Nothing in the type holds them
together; the calls that build a graph do. -/
structure Graph where
  nodes : Array Node := #[]
  /-- The name of each node. -/
  labels : Array String := #[]
  /-- The id of each name. -/
  names : Std.ExtTreeMap String BufferId := ∅
  /-- The values of each weight. -/
  initializers : Std.ExtTreeMap BufferId (Array Scalar) := ∅
  outputs : List BufferId := []

namespace Graph

/-- Graphs are compared part by part, and the values of weights in the order of their ids. -/
instance : DecidableEq Graph := fun g g' =>
  decidable_of_iff
    (g.nodes = g'.nodes ∧ g.labels = g'.labels ∧ g.names = g'.names ∧
      g.initializers.toList = g'.initializers.toList ∧ g.outputs = g'.outputs)
    (by rw [Std.ExtTreeMap.toList_inj]; cases g; cases g'; simp)

def empty : Graph := {}

def size (g : Graph) : Nat := g.nodes.size

/-! ## Looking nodes up -/

def node? (g : Graph) (x : BufferId) : Option Node := g.nodes[x.index]?

/-- An id with a node is below the number of nodes. -/
theorem index_lt_of_node? {g : Graph} {x : BufferId} {n : Node} (h : g.node? x = some n) :
    x.index < g.size :=
  (Array.getElem?_eq_some_iff.mp h).1

theorem node?_of_index_lt {g : Graph} {x : BufferId} (h : x.index < g.size) :
    ∃ n, g.node? x = some n :=
  ⟨_, Array.getElem?_eq_getElem h⟩

def node (g : Graph) (x : BufferId) : Except GraphError Node :=
  match g.node? x with
  | some n => .ok n
  | none => .error (.unknownBuffer x)

def shape (g : Graph) (x : BufferId) : Except GraphError Shape := (g.node x).map Node.shape

/-- The name of an id; an id without a node is its own name. -/
def label (g : Graph) (x : BufferId) : String := g.labels[x.index]?.getD x.render

def find? (g : Graph) (name : String) : Option BufferId := g.names[name]?

def find (g : Graph) (name : String) : Except GraphError BufferId :=
  match g.find? name with
  | some x => .ok x
  | none => .error (.unknownName name)

/-- The nodes with their ids. -/
def numbered (g : Graph) : List (BufferId × Node) :=
  g.nodes.toList.zipIdx.map fun (n, i) => (BufferId.ofNat i, n)

/-- The inputs with their shapes, in the order of their nodes, which is the order in which they were
added. -/
def inputs (g : Graph) : List (BufferId × Shape) :=
  g.numbered.filterMap fun
    | (x, .input shape) => some (x, shape)
    | _ => none

/-- The set of the inputs. What depends on one of them has to be computed again for every run. -/
def roots (g : Graph) : IdSet := IdSet.ofList (g.inputs.map Prod.fst)

/-! ## Inferring shapes -/

/-- The shape of an operation on given operands. The number of operands is checked before any of
them is looked up, so that an error about the operation comes before one about a node. An operation
without operands has no shape that could be inferred. -/
def inferShape (g : Graph) (op : Op) (operands : List BufferId) : Result GraphError Shape :=
  if operands.length ≠ op.arity then .fail (.operandCount op operands.length)
  else
    match op, operands with
    | .unary _, [x] => .ofExcept (g.shape x)
    | .reduce _, [x] => .ofExcept ((g.shape x).map Shape.dropLast)
    | .binary _, [x, y] => do
      let xs ← .ofExcept (g.shape x)
      let ys ← .ofExcept (g.shape y)
      match ← Result.ofFaulty (xs.broadcast ys) with
      | some shape => return shape
      | none => .fail (.noBroadcast op xs ys)
    | .matmul, [x, y] => do
      let xs ← .ofExcept (g.shape x)
      let ys ← .ofExcept (g.shape y)
      match xs.product? ys with
      | some shape => return shape
      | none => .fail (.noProduct xs ys)
    | op, _ => .fail (.shapeNeeded op)

/-! ## Building -/

/-- A call that builds a graph. It leaves a graph behind also when it fails, as the graph is changed
in place and whoever called may go on with it. -/
abbrev Build := Action Graph GraphError

/-- A question to the graph as it is, which changes nothing. -/
def ask {α : Type} (question : Graph → Result GraphError α) : Build α := do
  Action.ofResult (question (← get))

/-- Adds a node under a new name. The name has to stand in both lists of names, and the id in the
map has to be the position that the node is put at. -/
def insert (name : String) (node : Node) : Build BufferId := do
  let g ← get
  if g.names.contains name then .fail (.duplicateName name)
  else
    let x := BufferId.ofNat g.size
    modify fun g => { g with
      nodes := g.nodes.push node
      names := g.names.insert name x
      labels := g.labels.push name }
    return x

def addInput (name : String) (shape : Shape) : Build BufferId := insert name (.input shape)

/-- Adds a weight, whose values must be as many as its shape asks for. They are counted first, as a
node that is there already could not be taken back. -/
def addWeight (name : String) (shape : Shape) (data : Array Scalar) : Build BufferId := do
  let n ← .ofResult (.ofFaulty shape.size)
  if n ≠ data.size then .fail (.weightSize name shape data.size)
  else
    let x ← insert name (.weight shape)
    modify fun g => { g with initializers := g.initializers.insert x data }
    return x

/-- Adds an operation whose shape is inferred. The name is looked at last, after everything that is
wrong with the operation itself. -/
def push (name : String) (op : Op) (operands : List BufferId) : Build BufferId := do
  let shape ← ask (inferShape · op operands)
  insert name (.apply op operands shape)

/-- Adds an operation whose shape is given; it must be the inferred one if there are operands. -/
def pushShaped (name : String) (op : Op) (operands : List BufferId) (shape : Shape) :
    Build BufferId := do
  if op.arity = 0 then
    if operands ≠ [] then .fail (.operandsGiven op operands.length)
    else insert name (.apply op operands shape)
  else
    let inferred ← ask (inferShape · op operands)
    if inferred ≠ shape then .fail (.shapeDiffers op inferred shape)
    else insert name (.apply op operands shape)

/-- Wants the value of a node. A node may be wanted twice, and its value is then shown twice. -/
def markOutput (x : BufferId) : Build Unit := do
  let _ ← ask fun g => .ofExcept (g.node x)
  modify fun g => { g with outputs := g.outputs ++ [x] }

end Graph

end Staging
