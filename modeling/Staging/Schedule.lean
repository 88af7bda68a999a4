import Staging.Buffer.Id
import Staging.Op
import Staging.Shape

/-!
# Schedules

A step applies one operation to the buffers it reads and writes one buffer. A schedule is a list of
steps to be executed in order. Nothing here asks that a step comes after those whose results it
reads; functions that need it say so.
-/

namespace Staging

/-- One operation, the buffer it writes, and the buffers it reads in operand order. The shape is
that of the buffer it writes; those of its operands are found where they are held. -/
structure Step where
  op : Op
  output : BufferId
  operands : List BufferId
  shape : Shape
deriving DecidableEq, Repr

namespace Step

/-- The number of values written, which is a fault where the shape has no size. -/
def size (s : Step) : Except Fault Nat := s.shape.size

/-- The written form: output, operation, operands and shape. -/
def render (s : Step) : String :=
  s.output.render ++ " = " ++ s.op.render ++ "(" ++
    ", ".intercalate (s.operands.map BufferId.render) ++ ") " ++ s.shape.render

end Step

/-- Steps in the order of their execution. -/
abbrev Schedule := List Step

namespace Schedule

/-- The buffers that are written, in order. -/
def outputs (s : Schedule) : List BufferId := s.map Step.output

/-- The first step that writes a buffer. Where a schedule writes each buffer once, it is the only
one. -/
def producer? (s : Schedule) (x : BufferId) : Option Step := s.find? fun t => t.output = x

def lines (s : Schedule) : List String := s.map Step.render

end Schedule

end Staging
