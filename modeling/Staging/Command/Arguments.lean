import Staging.Decimal.Reader
import Staging.Scalar

/-!
# Arguments

The arguments of the command line: a subcommand, the path of a model, and options in any order. An
option takes its value from the same argument or from the next one, which then must not look like an
option. Every option but `--output` may be given once.
-/

namespace Staging.Command

/-- What the options say, before anything is looked up. An option that was not given is kept apart
from one given its default, since settings may come from elsewhere too. -/
structure Options where
  /-- The path of the model. -/
  graph : Option String := none
  /-- The names of the wanted outputs. -/
  outputs : List String := []
  debug : Option UInt32 := none
  seed : Option UInt64 := none
  scale : Option Scalar := none
  /-- Where a drawing of the partition goes. -/
  dot : Option String := none
  /-- Is the result compared with that of the schedule as a whole? -/
  verify : Bool := false

inductive Verb where
  | run
  | inspect
deriving DecidableEq

inductive Request where
  | version
  | perform (verb : Verb) (graph : String) (options : Options)

/-- Why there is nothing to perform. A request for help is among the reasons, as it ends the program
in the same place. -/
inductive Refusal where
  | usage
  | help

/-- Sets an option that may be given once. A second value is refused in the same way as one that can
not be read, even where it repeats the first. -/
def once {α : Type} (before : Option α) (value : Option α) : Except Refusal (Option α) :=
  match before, value with
  | none, some v => .ok (some v)
  | _, _ => .error .usage

/-- A path, which must not be empty, because an empty one names no file. -/
def path? (s : String) : Option String := if s.isEmpty then none else some s

/-- Takes the value of an option in. -/
def setOption (verb : Verb) (name value : String) (o : Options) : Except Refusal Options :=
  match verb, name with
  | _, "output" => .ok { o with outputs := o.outputs ++ [value] }
  | _, "debug" => do
    let debug := (Decimal.readSigned? UInt32.size value).map UInt32.ofNat
    return { o with debug := ← once o.debug debug }
  | .run, "seed" => do
    let seed := (Decimal.readNat? UInt64.size value).map UInt64.ofNat
    return { o with seed := ← once o.seed seed }
  | .run, "scale" => do return { o with scale := ← once o.scale (Decimal.readSingle? value) }
  | .run, "dot" => do return { o with dot := ← once o.dot (path? value) }
  | _, _ => .error .usage

/-- Takes an option without a value in. -/
def setFlag (verb : Verb) (name : String) (o : Options) : Except Refusal Options :=
  match verb, name with
  | .run, "verify" => if o.verify then .error .usage else .ok { o with verify := true }
  | _, "help" => .error .help
  | _, _ => .error .usage

/-- Does the option of this name stand without a value? -/
def isFlag (name : String) : Bool := name == "verify" || name == "help"

def setGraph (o : Options) (value : String) : Except Refusal Options := do
  return { o with graph := ← once o.graph (path? value) }

/-- Does an argument look like an option? A single dash does not, which by custom stands for a file.
-/
def looksLikeOption (s : String) : Bool := s.startsWith "-" && s != "-"

/-- An argument as an option: its long name and the value in the same argument. -/
def option? (s : String) : Option (String × Option String) :=
  match s.toList with
  | '-' :: '-' :: rest =>
    let name := rest.takeWhile (· != '=')
    match rest.drop name.length with
    | _ :: value => some (String.ofList name, some (String.ofList value))
    | [] => some (String.ofList name, none)
  | '-' :: 'o' :: rest =>
    match rest with
    | [] => some ("output", none)
    | '=' :: value => some ("output", some (String.ofList value))
    | value => some ("output", some (String.ofList value))
  | '-' :: 'h' :: _ => some ("help", none)
  | '-' :: _ :: _ => some ("", none)
  | _ => none

/-- Reads the arguments after the subcommand, from left to right and up to the first that is wrong.
The first argument that is no option is the path of the model, and there must be no second. -/
def readOptions (verb : Verb) : List String → Options → Except Refusal Options
  | [], o => .ok o
  | arg :: rest, o =>
    if arg == "--" then rest.foldlM setGraph o
    else
      match option? arg with
      | none => do readOptions verb rest (← setGraph o arg)
      | some (name, some value) => do readOptions verb rest (← setOption verb name value o)
      | some (name, none) =>
        if isFlag name then do readOptions verb rest (← setFlag verb name o)
        else
          match rest with
          | value :: rest =>
            if looksLikeOption value then .error .usage
            else do readOptions verb rest (← setOption verb name value o)
          | [] => .error .usage

def readVerb (verb : Verb) (args : List String) : Except Refusal Request := do
  let o ← readOptions verb args {}
  match o.graph with
  | some graph => return .perform verb graph o
  | none => .error .usage

/-- Is there a help text on the topic that some arguments name? There is one for the program as a
whole and one for each of its subcommands. -/
def hasHelp : List String → Bool
  | [] => true
  | [topic] => topic == "run" || topic == "inspect" || topic == "help"
  | _ => false

def Request.read (args : List String) : Except Refusal Request :=
  match args with
  | [] => .error .usage
  | verb :: rest =>
    if verb == "run" then readVerb .run rest
    else if verb == "inspect" then readVerb .inspect rest
    else if verb == "--version" || verb.startsWith "-V" then .ok .version
    else if verb == "--help" || verb.startsWith "-h" then .error .help
    else if verb == "help" && hasHelp rest then .error .help
    else .error .usage

end Staging.Command
