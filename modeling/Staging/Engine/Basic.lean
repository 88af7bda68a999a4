import Staging.Engine.Error
import Staging.Event

/-!
# Engines

An engine executes one step after another. A run ends with the last step or at the first step that
can not be executed; in both cases the steps before that point stay executed and counted. What the
failing step leaves behind is a matter of the engine.
-/

namespace Staging

/-- What ends a run early: an error of the step, or a fault in the numbers behind it. -/
abbrev Stop := Failure ExecError

/-- Something that executes steps. A step is an action on the engine's state, so that an engine has
to say what a failing step leaves behind. -/
class Engine (σ : Type) where
  /-- The state in which a run begins. -/
  start : σ → σ
  /-- Executes one step, at a cost. -/
  exec : Step → Action σ ExecError Cost
  /-- Is a step worth an event when it has finished? -/
  traces : Bool

structure Outcome (σ : Type) where
  /-- The engine after the last step that was begun. -/
  engine : σ
  /-- The counters after the steps that finished. -/
  counters : Counters
  /-- How many finished. -/
  finished : Nat
  /-- Why the next one did not, if there is a next one. -/
  stop : Option Stop

namespace Engine

variable {σ : Type} [Engine σ]

/-- Executes the remaining steps of a run in which `finished` steps are behind. The counters are
advanced by the step's own cost as soon as it has finished; a step that fails ends the run and adds
nothing to them. -/
def runFrom : Schedule → σ → Counters → Nat → Outcome σ
  | [], e, c, finished => ⟨e, c, finished, none⟩
  | s :: rest, e, c, finished =>
    match (exec s).run e with
    | (.ok cost, e') => runFrom rest e' (c.record cost) (finished + 1)
    | (.error why, e') => ⟨e', c, finished, some why⟩

def run (schedule : Schedule) (e : σ) (c : Counters) : Outcome σ :=
  runFrom schedule (start e) c 0

def runLog (schedule : Schedule) (o : Outcome σ) : List Event :=
  if traces σ then (schedule.take o.finished).map Event.finished else []

end Engine

end Staging
