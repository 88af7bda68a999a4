import Staging.Engine.Basic

/-!
# The probe

An engine that computes nothing: it notes which steps it was given, run by run, and can be told to
fail at one of them. It shows what is executed, in which order, and what a failure leaves behind.
-/

namespace Staging

/-- An engine that only takes notes. Where the reference machine has many errors, this one has a
single error, at the step where it is told to have it. -/
structure Probe where
  /-- The step that fails, by its output. -/
  failAt : Option BufferId := none
  /-- Does the error leave out the step it belongs to? -/
  anonymous : Bool := false
  /-- The outputs of the executed steps, run by run. -/
  runs : List (List BufferId) := []

namespace Probe

/-- A new run with nothing in it. A run without steps leaves an empty list behind, so that the runs
can be counted. -/
def start (p : Probe) : Probe := { p with runs := p.runs ++ [[]] }

/-- Appends an output to the last run. -/
def note (p : Probe) (x : BufferId) : Probe :=
  { p with runs := p.runs.dropLast ++ [p.runs.getLast?.getD [] ++ [x]] }

/-- Notes a step, at the cost of one operation for each value and one byte for each operand. The
step that fails is not noted, and its error may leave out which step it was, as errors of an engine
may. -/
def exec (s : Step) : Action Probe ExecError Cost := do
  let p ← get
  if p.failAt = some s.output then
    .fail ⟨if p.anonymous then none else some s.output, .launchFailed "injected"⟩
  else
    let n ← .ofResult (.ofFaulty s.size)
    modify fun p => p.note s.output
    return ⟨UInt64.ofNat n, UInt64.ofNat s.operands.length, 1⟩

instance : Engine Probe where
  start := start
  exec := exec
  traces := false

end Probe

end Staging
