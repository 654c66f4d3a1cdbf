import HashtagIndex.Disk.Change
import HashtagIndex.Launch

/-!
# `HashtagIndex.Main` — the command line

The only argument names a server, `http` or `tools`. The command prints the steps that start this
server in the present environment, and reports what is wrong with the environment on the error
stream.
-/

namespace HashtagIndex

/-- The variables of the present environment that a launch depends on. -/
def presentEnvironment : IO Environment := do
  let values ← Launch.variableNames.mapM fun name => do
    let value ← IO.getEnv name
    return value.map fun v => (name, v)
  return .ofList (values.filterMap id)

/-- The present directory and the home directory as all that is known of the disk. -/
def presentDisk : IO Disk := do
  let here ← IO.getEnv "PWD"
  let home ← IO.getEnv "HOME"
  let cwd := PathName.ofText (here.getD "/").toList
  return (Disk.ofDirectories [] cwd.parts (home.getD "/").toList).makeDirectory cwd

/-- The launch of the named server, if there is one of this name. -/
def launchOf (server : String) (d : Disk) (env : Environment) : Option Launch :=
  match server with
  | "http" => some (Launch.http d env)
  | "tools" => some (Launch.tools d env)
  | _ => none

end HashtagIndex

open HashtagIndex in
/-- Print how the named server is started. -/
def main (args : List String) : IO UInt32 := do
  let env ← presentEnvironment
  let disk ← presentDisk
  match args.head?.bind fun server => launchOf server disk env with
  | none =>
    IO.eprintln "usage: http | tools"
    return 2
  | some launch =>
    launch.describe.1.forM fun line => IO.println line
    launch.describe.2.forM fun line => IO.eprintln line
    return if launch.failure.isNone then 0 else 1
