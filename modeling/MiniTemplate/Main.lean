import MiniTemplate.Command.Run
import MiniTemplate.Yaml.Read

/-!
# The command line

The outermost layer: it gathers what surrounds a run, and carries out how the run ends.
-/

namespace MiniTemplate.Main

/-- What an action gives, or what it says if it fails. -/
def attempt {α : Type} (action : IO α) : IO (Except HostFailure α) := do
  try
    return .ok (← action)
  catch e =>
    return .error ⟨toString e⟩

/-- Is there a file of this path? A path that leads nowhere is none; other errors are errors. -/
def testFile (path : String) : IO Bool := do
  let file := (← IO.currentDir) / path
  try
    return (← file.metadata).type == .file
  catch
    | .noFileOrDirectory .. => return false
    | .inappropriateType .. => return false
    | e => throw e

/-- What the file of this path holds. -/
def readBytes (path : String) : IO (List UInt8) := do
  return (← IO.FS.readBinFile path).toList

/-- What a question about paths is answered with, for the paths in a list. -/
def ask {α : Type} (question : String → IO α) (paths : List String) :
    IO (String → Except HostFailure α) := do
  let answers ← paths.mapM fun path => return (path, ← attempt (question path))
  return fun path => ((answers.find? fun a => a.1 == path).map (·.2)).getD (.error ⟨path⟩)

/-- The machine, as far as it is asked about some paths. -/
def gatherHost (directory : Except HostFailure String) (paths : List String) : IO Host := do
  return ⟨directory, ← ask testFile paths, ← ask readBytes paths⟩

/-- What is typed in, if it is a text. -/
def readInput : IO String := do
  let bytes ← (← IO.getStdin).readBinToEnd
  match Utf8.decode bytes.toList with
  | .ok cs => return String.ofList cs
  | .error failure => throw (IO.userError failure.message)

/-- Show how a run ends, and give its exit code. -/
def finish : Command.Ending → IO UInt32
  | .exit code output errors => do
    IO.eprint errors
    IO.print output
    return code.toUInt32
  | .usage message => do
    IO.eprintln message
    return 2
  | .escaped failure => throw (IO.userError (reprStr failure))
  | .invalidReport issues => do
    for issue in issues do
      IO.eprintln (issue.location ++ ": " ++ issue.kind.name)
    return 1

end MiniTemplate.Main

open MiniTemplate in
/-- The command line. Here every value can be shown, and every text can be written. -/
def main (args : List String) : IO UInt32 := do
  let directory ← Main.attempt (toString <$> IO.currentDir)
  let host ← Main.gatherHost directory (Command.paths directory args)
  let input ← if args.contains "-" then Main.attempt Main.readInput else pure (.ok "")
  let debug ← IO.getEnv "MPX2VUE_DEBUG"
  Main.finish <| Command.run
    { host, input
      loader := Yaml.load
      fits := fun _ => true
      takes := fun _ => true
      installed := some "0.1.0"
      debug := debug.any fun v => !v.isEmpty } args
