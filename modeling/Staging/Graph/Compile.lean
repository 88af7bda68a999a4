import Staging.Graph.Order
import Staging.Machine
import Staging.Plan

/-!
# From a graph to a plan

The plan of a graph is the schedule of its outputs, split by what depends on its inputs. A machine
for it holds the weights, and needs a value for every input. Random ones are normally distributed
and drawn one input after the other from one generator.
-/

namespace Staging

/-- Why there is no plan: the outputs are no nodes, or computing them brings values in from outside.
-/
inductive PlanError where
  | graph (e : GraphError)
  | impure (i : Impurity)

namespace Graph

/-- The plan that computes given nodes. Its roots are all inputs of the graph, also those that the
nodes do not need. -/
def compile (g : Graph) (outputs : List BufferId) (mask : DebugMask) : Result PlanError Plan := do
  let schedule ← (g.schedule outputs).mapError .graph
  .ofExcept ((Plan.ofSchedule schedule g.roots mask).mapError .impure)

def compileLog (g : Graph) (outputs : List BufferId) (mask : DebugMask) : List Event :=
  match g.schedule outputs with
  | .ok schedule => Plan.compileLog schedule g.roots mask
  | .error _ => []

/-- The buffer of a weight, whose shape is looked up among the nodes. -/
def weight (g : Graph) (x : BufferId) (data : Array Scalar) : Except ExecError Buffer :=
  match g.shape x with
  | .ok shape => .ok ⟨shape, data⟩
  | .error e => .error (.ofStep x (.noShape e.message))

end Graph

/-- Stores the values of a weight. For a graph that was built by its own calls the shape is found
and the values fit, which the machine checks all the same. -/
def Machine.insertWeight (g : Graph) (m : Machine) (e : BufferId × Array Scalar) :
    Result ExecError Machine := do
  let b ← .ofExcept (g.weight e.1 e.2)
  (insert e.1 b).exec m

/-- A machine that holds the weights of a graph, stored in the order of their ids. A weight that can
not be stored ends it, and there is no machine. -/
def Machine.withWeights (g : Graph) (seed : UInt64) : Result ExecError Machine :=
  g.initializers.toList.foldlM (insertWeight g) (Machine.new seed)

/-! ## Random inputs -/

/-- Values for inputs of given shapes. Each input goes on drawing where the one before it ended. -/
def Generator.buffers (std : Scalar) :
    List (BufferId × Shape) → Generator → Except Fault (List (BufferId × Buffer))
  | [], _ => .ok []
  | (x, shape) :: rest, g => do
    let n ← shape.size
    let (values, g) ← g.sample std n
    return (x, ⟨shape, values⟩) :: (← buffers std rest g)

/-- Values for every input of a graph. One generator goes through all of them, so that the values of
an input depend on the sizes of those before it and on nothing after it. -/
def Graph.randomInputs (g : Graph) (seed : UInt64) (std : Scalar) :
    Except Fault (List (BufferId × Buffer)) :=
  (Generator.ofSeed seed).buffers std g.inputs

end Staging
