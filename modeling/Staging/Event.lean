import Staging.Counters
import Staging.Schedule

/-!
# Events

What a run reports while it is under way, as data, and the line that each event is written as. Wall
times are not part of an event: a low line stands for them. A mask of bits selects what is reported
besides results: how settings were found, how long phases took, and how every step was classified.
-/

namespace Staging

/-- Bits that select reports. Bits without a meaning are kept as they were given. -/
structure DebugMask where
  bits : UInt32 := 0
deriving DecidableEq, Repr, Inhabited

namespace DebugMask

/-- Is bit `i` set? A bit beyond the word is not. -/
def has (m : DebugMask) (i : Nat) : Bool := m.bits.toNat.testBit i

/-- Report how settings were found. -/
def dev (m : DebugMask) : Bool := m.has 0

/-- Report phase timings and counters. -/
def perf (m : DebugMask) : Bool := m.has 1

/-- Report every step with its phase. -/
def sched (m : DebugMask) : Bool := m.has 2

end DebugMask

/-- The part of a schedule that is executed: the one that is independent of the inputs, or the one
that depends on them. -/
inductive Phase where
  | static
  | dynamic
deriving DecidableEq, Repr

def Phase.render : Phase → String
  | .static => "static"
  | .dynamic => "dynamic"

/-- Something worth a line in the log. An event holds the data that its line is written from, so
that statements about what is reported need not speak of texts. -/
inductive Event where
  | compiling (steps : Nat)
  | roots (ids : IdSet)
  | classified (position : Nat) (phase : Phase) (step : Step)
  | split (dynamic independent : Nat)
  | running (phase : Phase) (steps : Nat)
  | finished (step : Step)
  | took (phase : Phase)
  | realKernels
  | dynamicWork (counters : Counters)
  | settingsRejected (path : String) (cause : String)
  | settingsRead
  | settingsMissing
  | seedGiven (seed : UInt64)
deriving DecidableEq

namespace Event

/-- How many steps depend on the input and how many do not. The same words stand in the log and in
the text of a partition. -/
def splitText (dynamic independent : Nat) : String :=
  toString dynamic ++ " schedule items depend on the input, " ++ toString independent ++ " don't"

/-- The position and the phase of a step, in columns. The phase is filled up to the length of the
longer one, so that the steps stand below each other in a list of up to ten thousand. -/
def classifiedText (position : Nat) (phase : Phase) : String :=
  Text.padLeft 4 (toString position) ++ " " ++ Text.padRight 7 phase.render ++ " "

def render : Event → String
  | .compiling steps => "SPAN compile steps=" ++ toString steps
  | .roots ids => "INFO roots: " ++ ids.render
  | .classified position phase step => "INFO " ++ classifiedText position phase ++ step.render
  | .split dynamic independent => "INFO " ++ splitText dynamic independent
  | .running phase steps => "SPAN run phase=" ++ phase.render ++ " steps=" ++ toString steps
  | .finished step => "TRACE " ++ step.render
  | .took phase => "INFO " ++ phase.render ++ " phase took _ ms"
  | .realKernels => "INFO **** running real kernels ****"
  | .dynamicWork counters => "INFO dynamic phase: " ++ counters.renderUntimed
  | .settingsRejected path cause => "WARN Failed to parse " ++ path ++ ", " ++ cause
  | .settingsRead => "INFO Config successfully read and parsed."
  | .settingsMissing => "INFO Failed to get config, using defaults."
  | .seedGiven seed => "INFO Using seed " ++ toString seed.toNat ++ " from KILN_SEED"

end Event

end Staging
