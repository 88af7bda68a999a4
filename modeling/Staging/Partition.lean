import Staging.Event

/-!
# Partitions

A buffer depends on the roots when it is one of them or is written by a step that reads a buffer
which does. `Schedule.dependents` finds these buffers in one pass from the first step to the last;
`Schedule.Depends` is the least set that is closed under the rule. They agree on schedules in which
no step reads what a later step writes.

A schedule is split by a set of buffers into the steps that write a member and those that do not.
Both halves keep the order of the schedule.

`Partition.plot` draws a partition as a graph in the DOT language: a node for every buffer that is
written, coloured by its half, a box for every buffer that is only read, and an edge for every
operand.
-/

namespace Staging

/-! ## Dependence on roots -/

namespace Schedule

/-- Adds the output of a step that reads a member. A member stays one: nothing that is written later
takes the dependence away. -/
def visit (depends : IdSet) (s : Step) : IdSet :=
  if s.operands.any (depends.contains ·) then depends.insert s.output else depends

/-- The roots and every buffer that one pass finds to depend on them. -/
def dependents (schedule : Schedule) (roots : IdSet) : IdSet := schedule.foldl visit roots

/-- Dependence on the roots through any number of steps, in any order. It does not know the
positions of steps, and is what one pass is measured against. -/
inductive Depends (schedule : Schedule) (roots : IdSet) : BufferId → Prop where
  | root {x : BufferId} : x ∈ roots → Depends schedule roots x
  | step {s : Step} {x : BufferId} :
      s ∈ schedule → x ∈ s.operands → Depends schedule roots x → Depends schedule roots s.output

end Schedule

/-! ## Splitting -/

/-- The two halves of a schedule. -/
structure Partition where
  /-- Steps whose result is the same for every input. -/
  independent : Schedule := []
  /-- Steps that have to be executed again for each input. -/
  dynamic : Schedule := []
deriving DecidableEq, Repr

/-- Splits a schedule by the buffers that depend on the input. A step goes where its output goes,
and so every step goes to exactly one half. -/
def Schedule.split (schedule : Schedule) (depends : IdSet) : Partition where
  independent := schedule.filter fun s => !depends.contains s.output
  dynamic := schedule.filter fun s => depends.contains s.output

namespace Partition

def size (p : Partition) : Nat := p.dynamic.length + p.independent.length

def render (p : Partition) : String := Event.splitText p.dynamic.length p.independent.length

/-! ## Drawing -/

/-- The line of a node with its text, shape and colour. A node is named by its position, which is
unique, and only shown by its text, which goes into the line as it is. -/
def nodeLine (x : BufferId) (text shape color : String) : String :=
  "  " ++ toString x.index ++ "[label=\"" ++ text ++ "\", shape=" ++ shape ++ ", fillcolor=\"" ++
    color ++ "\", style=filled]"

/-- The line of an edge. -/
def edgeLine (source target : BufferId) : String :=
  "  " ++ toString source.index ++ " -> " ++ toString target.index

/-- The text of a buffer that is written by a step: its label, the operation and the shape, each on
a line of its own. The line ends are those of the DOT language, a backslash and a letter. -/
def stepText (label : BufferId → String) (s : Step) : String :=
  label s.output ++ "\\n" ++ s.op.render ++ "\\n" ++ s.shape.render

/-- The line of a buffer that is written by a step. -/
def stepLine (label : BufferId → String) (color : String) (s : Step) : String :=
  nodeLine s.output (stepText label s) "oval" color

/-- The line of a buffer that is only read. -/
def leafLine (label : BufferId → String) (x : BufferId) : String :=
  nodeLine x (label x) "box" "grey"

/-- The lines of the edges into a step, one for each operand. -/
def edgeLines (s : Step) : List String := s.operands.map fun x => edgeLine x s.output

/-- All steps, the independent ones first. -/
def steps (p : Partition) : Schedule := p.independent ++ p.dynamic

/-- The buffers that are read and written by no step, which for the schedule of a graph are inputs
and weights. They form a set, so that each is drawn once however often it is read. -/
def leaves (p : Partition) : IdSet :=
  IdSet.ofList ((p.steps.flatMap Step.operands).filter fun x => !p.steps.outputs.contains x)

/-- The lines of a drawing. -/
def plotLines (p : Partition) (label : BufferId → String) : List String :=
  ["strict digraph \x7b", "  ordering=in", "  rank=source"] ++
    p.independent.map (stepLine label "lightblue") ++
    p.dynamic.map (stepLine label "lightcoral") ++
    p.leaves.toList.map (leafLine label) ++
    p.steps.flatMap edgeLines ++
    ["\x7d"]

def plot (p : Partition) (label : BufferId → String) : String :=
  "\n".intercalate (p.plotLines label)

end Partition

end Staging
