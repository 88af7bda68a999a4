import Staging.Command.Perform

/-!
# The program

Arguments, environment and files go in, the report comes out.
-/

namespace Staging

/-- The reason for which the system refused to read or write a file. -/
def FileError.ofSystem : IO.Error → FileError
  | .noFileOrDirectory .. => .noEntry
  | .inappropriateType .. => .isDirectory
  | e => .other (toString e)

instance : Disk IO where
  read path := do
    try
      return .ok (← IO.FS.readFile path)
    catch e => return .error (.ofSystem e)
  write path text := do
    try
      IO.FS.writeFile path text
      return .ok ()
    catch e => return .error (.ofSystem e)

/-- The variables that settings are taken from. -/
def consulted : List String :=
  ["HOME", "XDG_CONFIG_HOME", "XDG_CONFIG_DIRS", "KILN_DEBUG", "KILN_SEED"]

end Staging

def main (args : List String) : IO UInt32 := do
  let values ← Staging.consulted.mapM fun name => do return (name, ← IO.getEnv name)
  let env : Staging.Environment := fun name => (values.lookup name).join
  let report ← Staging.Command.perform env args
  IO.print report.stdout
  IO.eprint report.stderr
  return report.exit
