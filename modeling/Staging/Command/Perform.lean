import Staging.Command.Arguments
import Staging.Command.Files
import Staging.Graph.Compile
import Staging.Graph.Model
import Staging.Settings

/-!
# Performing a request

`run` compiles a model, draws random inputs, executes both halves of the plan and prints what they
cost and what came out; `inspect` prints the schedule with the phase of each step. Printing is
gathered in a report, which also says how the program ends.
-/

namespace Staging.Command

/-- The end of the program and what it wrote. Nothing is printed on the way: what a command prints
is a part of its result, and two results can be compared. -/
structure Report where
  exit : UInt32
  stdout : String
  stderr : String
deriving DecidableEq, Repr

/-- Something that went wrong, and what led to it, the nearest cause first. The causes are kept
apart from the message because they are numbered only where there are several. -/
structure Complaint where
  message : String
  causes : List String := []

namespace Complaint

/-- A cause with its lines set in, after a number if there are several causes. -/
def causeText (number : Option Nat) (cause : String) : String :=
  match number with
  | some n => Text.padLeft 5 (toString n) ++ ": " ++ cause.replace "\n" "\n       "
  | none => "    " ++ cause.replace "\n" "\n    "

def render (c : Complaint) : String :=
  let causes := match c.causes with
    | [] => []
    | [cause] => ["", "Caused by:", causeText none cause]
    | causes => ["", "Caused by:"] ++ causes.zipIdx.map fun (cause, i) => causeText (some i) cause
  "\n".intercalate (("Error: " ++ c.message) :: causes) ++ "\n"

end Complaint

/-- A command: it prints lines, and may end with a complaint or a fault. The lines lie below the
failure, so that what was printed before it is not lost. -/
abbrev CommandM (m : Type → Type) := ExceptT (Failure Complaint) (StateT (List String) m)

variable {m : Type → Type} [Monad m] [Disk m] {α ε : Type}

def printLine (line : String) : CommandM m Unit := modify (· ++ [line])

/-- Ends with a complaint unless there is a result. -/
def orComplain (complaint : ε → Complaint) (r : Result ε α) : CommandM m α :=
  match r with
  | .ok a => return a
  | .error (.error e) => throw (.error (complaint e))
  | .error (.fault f) => throw (.fault f)

/-- Ends with a fault unless there is a result. -/
def orFault (r : Except Fault α) : CommandM m α :=
  match r with
  | .ok a => return a
  | .error f => throw (.fault f)

/-- What a model failed for. -/
def planMessage : PlanError → String
  | .graph e => e.message
  | .impure i => i.message

/-- The graph of a model file and the wanted outputs, which are those of the model unless the
options name others. -/
def loadGraph (path : String) (o : Options) : CommandM m (Graph × List BufferId) := do
  let context := "Failed to load model from " ++ path
  match ← (Disk.read path : m _) with
  | .error e => throw (.error ⟨context, ["IO " ++ e.message, e.message]⟩)
  | .ok source =>
    let graph ← orComplain (fun e => ⟨context, [e.message]⟩) (Graph.ofJson source)
    let outputs ←
      if o.outputs.isEmpty then pure graph.outputs
      else orComplain (fun e => ⟨e.message, []⟩) (.ofExcept (o.outputs.mapM graph.find))
    if outputs.isEmpty then
      throw (.error ⟨"Model " ++ path ++ " has no outputs, select some with --output", []⟩)
    else return (graph, outputs)

/-- A machine that holds the weights of a graph and values for its inputs. It has everything that a
step of the graph may read before another step writes it. -/
def prepare (g : Graph) (seed : UInt64) (inputs : List (BufferId × Buffer)) :
    Result ExecError Machine := do
  let machine ← Machine.withWeights g seed
  machine.insertAll inputs

/-- The first values of an output. -/
def outputLine (g : Graph) (x : BufferId) (shape : Shape) (data : Array Scalar) : String :=
  let head := data.toList.take 8
  let more := if 8 < data.size then ", ..." else ""
  g.label x ++ " " ++ shape.render ++ " = [" ++
    ", ".intercalate (head.map (Scalar.render .listed)) ++ "]" ++ more

/-- The first position at which two outputs differ in their bits. The order on floats would not do:
a result that is not a number differs from itself there, and two zeros with different signs do not
differ. -/
def firstDifference? (a b : Array Scalar) : Option Nat :=
  (a.toList.zip b.toList).findIdx? fun (x, y) => x.toBits != y.toBits

/-- Executes the schedule as a whole and compares the outputs with those of the split run. Both
begin with machines that were prepared alike, and the comparison is exact: splitting must not change
a single bit. -/
def verify (g : Graph) (outputs : List BufferId) (plan : Plan) (seed : UInt64)
    (inputs : List (BufferId × Buffer)) (split : Machine) : CommandM m Unit := do
  let ofExec := fun (e : ExecError) => (⟨e.message, []⟩ : Complaint)
  let schedule ← orComplain (fun e => ⟨e.message, []⟩) (g.schedule outputs)
  let machine ← orComplain ofExec (prepare g seed inputs)
  let whole := Engine.run schedule machine .zero
  match whole.stop with
  | some why => orComplain ofExec (.error why)
  | none => pure ()
  for x in outputs do
    let a ← orComplain ofExec (.ofExcept (split.load x))
    let b ← orComplain ofExec (.ofExcept (whole.engine.load x))
    match firstDifference? a.data b.data with
    | some i =>
      let plain := fun (v : Option Scalar) => (v.map (Scalar.render .plain)).getD ""
      throw (.error ⟨"Output " ++ g.label x ++ " differs at index " ++ toString i ++ ": " ++
        plain a.data[i]? ++ " != " ++ plain b.data[i]?, []⟩)
    | none => pure ()
  printLine ("verified " ++ toString outputs.length ++ " outputs over " ++
    toString plan.halves.size ++ " steps")

/-- Compiles a model and executes it on random inputs. -/
def run (path : String) (o : Options) (settings : Settings) : CommandM m Unit := do
  let (graph, outputs) ← loadGraph path o
  let plan ← orComplain (fun e => ⟨"Failed to compile model", [planMessage e]⟩)
    (graph.compile outputs settings.mask)
  printLine plan.halves.render
  match o.dot with
  | some target =>
    match ← (Disk.write target (plan.halves.plot graph.label) : m _) with
    | .ok () => pure ()
    | .error e => throw (.error ⟨"Failed to write " ++ target, [e.message]⟩)
  | none => pure ()
  let inputs ← orFault (graph.randomInputs settings.seed settings.inputScale)
  let ofExec := fun (e : ExecError) => (⟨e.message, []⟩ : Complaint)
  let machine ← orComplain ofExec (prepare graph settings.seed inputs)
  let execution := plan.execute machine .zero
  match execution.failure? with
  | some why => orComplain (fun e => ⟨e.message, [e.error.message]⟩) (.error why)
  | none => pure ()
  printLine "static _ ms, dynamic _ ms"
  printLine execution.last.counters.renderUntimed
  for x in outputs do
    let b ← orComplain ofExec (.ofExcept (execution.last.engine.load x))
    let shape ← orComplain (fun e => ⟨e.message, []⟩) (.ofExcept (graph.shape x))
    printLine (outputLine graph x shape b.data)
  if o.verify then
    verify graph outputs plan settings.seed inputs execution.last.engine

/-- Prints the schedule of a model with the phase of each step. -/
def inspect (path : String) (o : Options) (settings : Settings) : CommandM m Unit := do
  let (graph, outputs) ← loadGraph path o
  let schedule ← orComplain (fun e => ⟨e.message, []⟩) (graph.schedule outputs)
  let plan ← orComplain (fun i => ⟨"Failed to compile model", [i.message]⟩)
    (.ofExcept (Plan.ofSchedule schedule graph.roots settings.mask))
  for (s, i) in schedule.zipIdx do
    printLine (Event.classifiedText i (Plan.phaseOf plan.depends s.output) ++
      Text.padRight 16 (graph.label s.output) ++ " " ++ s.render)
  printLine plan.halves.render

/-- Lets the options have their say, which is the last word after the file and the environment. -/
def applyOptions (o : Options) (s : Settings) : Settings where
  seed := o.seed.getD s.seed
  inputScale := o.scale.getD s.inputScale
  debug := o.debug.getD s.debug

/-- The settings of a request. -/
def settingsFor (env : Environment) (o : Options) (file : Option (String × String)) : Settings :=
  applyOptions o (Settings.load env file)

/-- The first file that can be read. One that exists and can not be read is passed over like one
that does not exist. -/
def firstFile? : List String → m (Option (String × String))
  | [] => return none
  | path :: rest => do
    match ← Disk.read path with
    | .ok source => return some (path, source)
    | .error _ => firstFile? rest

def usage : String :=
  "Split a model schedule into static and input dependent kernels\n\n" ++
    "Usage: kiln run [OPTIONS] <GRAPH>\n       kiln inspect [OPTIONS] <GRAPH>\n"

/-- Carries a command out and reports how it ended. A fault ends the program with a status of its
own, apart from that of a complaint. -/
def report (command : CommandM m Unit) : m Report := do
  let (result, lines) ← (command.run).run []
  let stdout := String.join (lines.map (· ++ "\n"))
  match result with
  | .ok () => return ⟨0, stdout, ""⟩
  | .error (.error complaint) => return ⟨1, stdout, complaint.render⟩
  | .error (.fault f) => return ⟨101, stdout, f.message ++ "\n"⟩

/-- Performs the request of a command line. -/
def perform (env : Environment) (args : List String) : m Report := do
  match Request.read args with
  | .error .usage => return ⟨2, "", usage⟩
  | .error .help => return ⟨0, usage, ""⟩
  | .ok .version => return ⟨0, "kiln 0.1.0\n", ""⟩
  | .ok (.perform verb path o) =>
    let file ← firstFile? (Settings.candidates env)
    let settings := settingsFor env o file
    match verb with
    | .run => report (run path o settings)
    | .inspect => report (inspect path o settings)

end Staging.Command
