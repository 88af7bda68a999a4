import Staging.Buffer.Id
import Staging.Decimal.Reader
import Staging.Event
import Staging.Json.Reader

/-!
# Settings

Settings are read from the first settings file in the directories that the environment names for
them; a file that can not be read as settings counts as none. The environment has the last
word on the seed, and on the debug mask unless it says zero.

**What it does not establish.** Which of the candidate paths is a file that can be read is for the
command to find out. The functions here are given that file.
-/

namespace Staging

/-- The values of environment variables. It is a function and not a list, as nothing asks which
variables there are. -/
abbrev Environment := String → Option String

/-- What a run can be told besides its model. The defaults stand here alone, and are used for a file
without the field as well as for no file. -/
structure Settings where
  /-- The seed of random inputs. -/
  seed : UInt64 := 69420
  /-- The standard deviation of random inputs. -/
  inputScale : Scalar := 8
  /-- What is reported. -/
  debug : UInt32 := 0
deriving DecidableEq, Repr

namespace Settings

def mask (s : Settings) : DebugMask := ⟨s.debug⟩

/-! ## Reading a file -/

structure Draft where
  seed : Option UInt64 := none
  inputScale : Option Scalar := none
  debug : Option UInt32 := none

def fields : List (Json.Field Draft) := [
  ⟨"seed", false, fun d => d.seed.isSome, fun d => do
    return { d with seed := some (UInt64.ofNat (← Json.natural UInt64.size "u64")) }⟩,
  ⟨"input_scale", false, fun d => d.inputScale.isSome, fun d => do
    return { d with inputScale := some (← Json.scalar) }⟩,
  ⟨"debug", false, fun d => d.debug.isSome, fun d => do
    return { d with debug := some (UInt32.ofNat (← Json.natural UInt32.size "u32")) }⟩]

/-- Fills the gaps of a draft with the defaults. A field that is missing is no error, unlike one of
the wrong type. -/
def ofDraft (d : Draft) : Settings :=
  let default : Settings := {}
  ⟨d.seed.getD default.seed, d.inputScale.getD default.inputScale, d.debug.getD default.debug⟩

def read (source : String) : Except Json.Error Settings :=
  (Json.decode (Json.record "Config" fields {}) source).map ofDraft

/-! ## Finding the file -/

/-- A path below a directory. -/
def under (directory path : String) : String :=
  if directory.endsWith "/" then directory ++ path else directory ++ "/" ++ path

/-- The directory for the settings of the user, if the environment tells it. A home with an empty
name is none. -/
def userDirectory? (env : Environment) : Option String :=
  match (env "XDG_CONFIG_HOME").filter (·.startsWith "/") with
  | some directory => some directory
  | none => ((env "HOME").filter (!·.isEmpty)).map (under · ".config")

/-- The directories for settings, in the order of their search. Those of the system come before that
of the user, so that the user's file is read only where the system has none. Relative paths in the
lists are passed over. -/
def directories (env : Environment) : List String :=
  let listed := ((env "XDG_CONFIG_DIRS").getD "").splitOn ":" |>.filter (·.startsWith "/")
  let listed := if listed.isEmpty then ["/etc/xdg"] else listed
  listed ++ (userDirectory? env).toList

/-- The paths at which a settings file may be, in the order of their search. -/
def candidates (env : Environment) : List String :=
  (directories env).map (under · "kiln/config.json")

/-! ## Putting it together -/

/-- The bits that the environment asks to report. A value that is no number asks for nothing. -/
def environmentDebug? (env : Environment) : Option UInt32 :=
  ((env "KILN_DEBUG").bind (Decimal.readNat? UInt32.size)).map UInt32.ofNat

/-- The mask that the environment asks for, zero if it asks for none. After this the two can not be
told apart, so that the environment can not switch off what a file switches on. -/
def environmentMask (env : Environment) : DebugMask := ⟨(environmentDebug? env).getD 0⟩

/-- The seed that the environment asks for. -/
def environmentSeed? (env : Environment) : Option UInt64 :=
  ((env "KILN_SEED").bind (Decimal.readNat? UInt64.size)).map UInt64.ofNat

/-- The settings of a file, which is given with its path if there is one. A file that can not be
read as settings is treated as if it were not there; only the log tells. -/
def ofFile (file : Option (String × String)) : Settings :=
  match file with
  | some (_, source) =>
    match read source with
    | .ok s => s
    | .error _ => {}
  | none => {}

/-- Lets the environment have its say. It has the last word on the seed, and on the mask unless its
own is zero. -/
def override (env : Environment) (s : Settings) : Settings :=
  let mask := environmentMask env
  let s := if mask.bits = 0 then s else { s with debug := mask.bits }
  match environmentSeed? env with
  | some seed => { s with seed := seed }
  | none => s

/-- The settings of a file under an environment. -/
def load (env : Environment) (file : Option (String × String)) : Settings :=
  (ofFile file).override env

/-- The events of reading a file. A file that is refused is followed by the line that there is none,
because the defaults are used all the same. -/
def fileLog (file : Option (String × String)) : List Event :=
  match file with
  | none => [.settingsMissing]
  | some (path, source) =>
    match read source with
    | .ok _ => [.settingsRead]
    | .error e => [.settingsRejected path e.message, .settingsMissing]

/-- The events of `load`. How the file was read is told when the environment asks for it; the seed
of the environment is told when the resulting mask asks for it. -/
def loadLog (env : Environment) (file : Option (String × String)) : List Event :=
  (if (environmentMask env).dev then fileLog file else []) ++
    match environmentSeed? env with
    | some seed => if (load env file).mask.dev then [.seedGiven seed] else []
    | none => []

end Settings

end Staging
