import Staging.Engine.Basic
import Staging.Engine.Evaluation

/-!
# The reference machine

A machine holds buffers and a generator and executes steps exactly as they are written. Inputs and
weights have to be stored before a step reads them; results stay until they are removed or written
again.

The values of a step are checked after they were computed, and drawing random ones has moved the
generator by then. That a step which ends in an error leaves the machine as it was is shown in
`Proofs/Run`.
-/

namespace Staging

/-- An engine that holds its buffers in a store. The generator is part of the machine, as a step
that draws random values changes what the next one draws. -/
structure Machine where
  store : Store
  generator : Generator

namespace Machine

def new (seed : UInt64) : Machine := ⟨∅, .ofSeed seed⟩

def read (m : Machine) (x : BufferId) : Option Buffer := m.store.read x

/-- Holds a buffer from now on, in place of the one before it. -/
def put (m : Machine) (x : BufferId) (b : Buffer) : Machine :=
  { m with store := m.store.insert x b }

/-- Stores a buffer whose values must be as many as its shape asks for. The check is made here once,
so that no step has to ask again whether an operand is what its shape says. -/
def insert (x : BufferId) (b : Buffer) : Action Machine ExecError Unit := do
  let n ← .ofResult (.ofFaulty b.shape.size)
  if n ≠ b.data.size then .fail (.ofStep x (.wrongSize b.shape n b.data.size))
  else modify fun m => m.put x b

/-- Stores buffers one after the other. A machine that lacks one of them is of no use. -/
def insertAll (m : Machine) (buffers : List (BufferId × Buffer)) : Result ExecError Machine :=
  buffers.foldlM (fun m (x, b) => (insert x b).exec m) m

/-- The buffer of an id, which must be held. The error names the id that was asked for, as there is
no step that it could belong to. -/
def load (m : Machine) (x : BufferId) : Except ExecError Buffer :=
  match m.read x with
  | some b => .ok b
  | none => .error (.ofStep x (.notStored x))

/-- Holds no buffer for an id from now on. -/
def erase (m : Machine) (x : BufferId) : Machine := { m with store := m.store.erase x }

/-- Executes a step and holds what it computes, once it is known to be what the shape asks for. The
generator moves on before that check; the store is changed last, after everything that can fail. -/
def exec (s : Step) : Action Machine ExecError Cost := do
  let m ← get
  let (data, g) ← .ofResult (s.evaluate m.read m.generator)
  modify fun m => { m with generator := g }
  let cost ← .ofResult (s.checkedCost m.read data)
  modify fun m => m.put s.output ⟨s.shape, data⟩
  return cost

instance : Engine Machine where
  start := id
  exec := exec
  traces := true

end Machine

end Staging
