import Staging.Engine.Basic
import Staging.Partition

/-!
# Plans

A plan is a schedule without load operations, split by what depends on its roots. The static half is
executed once, the dynamic half for every input. `Plan.execute` does both and counts the dynamic
half only.

The events of each function stand beside it, as a function of the same arguments or of its result.
-/

namespace Staging

/-- A step that brings values in from outside, where none is allowed. The position is that in the
schedule as a whole, which the caller has seen; the halves are not there yet. -/
structure Impurity where
  position : Nat
  output : BufferId
  op : LoadOp
deriving DecidableEq, Repr

def Impurity.message (i : Impurity) : String :=
  "has load ops, can't compile ahead of time: step " ++ toString i.position ++ " is " ++
    i.op.render ++ " writing " ++ i.output.render

/-- The first step at or after a position that brings values in from outside. -/
def Schedule.impurityFrom (position : Nat) : Schedule → Option Impurity
  | [] => none
  | s :: rest =>
    match s.op with
    | .load op => some ⟨position, s.output, op⟩
    | _ => impurityFrom (position + 1) rest

/-- The first step that brings values in from outside. -/
def Schedule.impurity? (schedule : Schedule) : Option Impurity := schedule.impurityFrom 0

/-- A split schedule, with the set that it was split by. The set is kept because the halves alone do
not say which roots they belong to. -/
structure Plan where
  halves : Partition
  /-- The buffers that depend on the roots, and the roots. -/
  depends : IdSet
  mask : DebugMask

/-- A phase that an engine could not finish, and why. The static phase failing is a matter of the
model, the dynamic one also of the inputs, so a reader wants to know which it was. -/
structure PhaseError where
  phase : Phase
  error : ExecError
deriving DecidableEq, Repr

def PhaseError.message (e : PhaseError) : String :=
  e.phase.render ++ " execution failed, " ++ e.error.message

namespace Plan

/-! ## Compiling -/

def ofSchedule (schedule : Schedule) (roots : IdSet) (mask : DebugMask) : Except Impurity Plan :=
  match schedule.impurity? with
  | some i => .error i
  | none =>
    let depends := schedule.dependents roots
    .ok ⟨schedule.split depends, depends, mask⟩

/-- The phase in which a buffer is computed. It is asked of the set and not of the halves, and so
has an answer for roots and weights as well. -/
def phaseOf (depends : IdSet) (x : BufferId) : Phase :=
  if depends.contains x then .dynamic else .static

def classification (schedule : Schedule) (depends : IdSet) : List Event :=
  schedule.zipIdx.map fun (s, i) => .classified i (phaseOf depends s.output) s

/-- The events of splitting a schedule. -/
def compileLog (schedule : Schedule) (roots : IdSet) (mask : DebugMask) : List Event :=
  .compiling schedule.length ::
    match ofSchedule schedule roots mask with
    | .error _ => []
    | .ok plan =>
      (if mask.sched then .roots roots :: classification schedule plan.depends else []) ++
        [.split plan.halves.dynamic.length plan.halves.independent.length]

/-! ## Executing -/

variable {σ : Type} [Engine σ]

def steps (p : Plan) : Phase → Schedule
  | .static => p.halves.independent
  | .dynamic => p.halves.dynamic

def runPhase (p : Plan) (phase : Phase) (e : σ) (c : Counters) : Outcome σ :=
  Engine.run (p.steps phase) e c

/-- Why a phase ended early, if it did. The engine runs a schedule and does not know of phases, so
its error is given the name of the phase here. -/
def phaseFailure? (phase : Phase) (o : Outcome σ) : Option (Failure PhaseError) :=
  o.stop.map fun why => why.map fun e => ⟨phase, e⟩

def phaseLog (p : Plan) (phase : Phase) (o : Outcome σ) : List Event :=
  .running phase (p.steps phase).length :: Engine.runLog (p.steps phase) o ++
    if o.stop.isNone && p.mask.perf then [.took phase] else []

/-- The ends of both phases; there is no dynamic one when the static one stopped early. -/
structure Execution (σ : Type) where
  static : Outcome σ
  dynamic : Option (Outcome σ)

/-- Executes the static half, starts the counters again, and executes the dynamic half. What is
counted in the end is the work that every input costs; that of the static half is paid once and left
out. -/
def execute (p : Plan) (e : σ) (c : Counters) : Execution σ :=
  let static := p.runPhase .static e c
  if static.stop.isNone then ⟨static, some (p.runPhase .dynamic static.engine .zero)⟩
  else ⟨static, none⟩

namespace Execution

/-- The end of the last phase that was begun. -/
def last (x : Execution σ) : Outcome σ := x.dynamic.getD x.static

/-- The last phase that was begun. -/
def phase (x : Execution σ) : Phase := if x.dynamic.isSome then .dynamic else .static

/-- Why the execution ended early, if it did. -/
def failure? (x : Execution σ) : Option (Failure PhaseError) := phaseFailure? x.phase x.last

end Execution

def executeLog (p : Plan) (x : Execution σ) : List Event :=
  p.phaseLog .static x.static ++
    match x.dynamic with
    | none => []
    | some o =>
      .realKernels :: p.phaseLog .dynamic o ++
        if o.stop.isNone && p.mask.perf then [.dynamicWork o.counters] else []

end Plan

end Staging
