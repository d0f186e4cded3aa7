import Scriptlet.CommandLine

/-!
# The program

The outer layer: it takes arguments, files and typed lines from the system, and hands back what the
library answers. At a console each line is answered before the next one is read.
-/

namespace Scriptlet.Main

/-- The cause behind a failure of the system. -/
def inputError : IO.Error → InputError
  | .noFileOrDirectory .. => .notFound
  | .inappropriateType _ code _ => if code = 20 then .notDirectory else .isDirectory
  | e => .other e.toString

/-- The bytes at a path, or why there are none. -/
def fileAt (path : String) : IO (Except InputError (List UInt8)) := do
  try
    return .ok (← IO.FS.readBinFile path).toList
  catch e => return .error (inputError e)

/-- Prints what a run leaves behind, and gives its exit code. -/
def finish (outcome : CommandLine.Outcome) : IO UInt32 := do
  IO.print outcome.stdout
  IO.eprint outcome.stderr
  return outcome.exitCode.toUInt32

/-- The bytes of the next line, its end included; none at the end of the input. -/
partial def nextLine (input : IO.FS.Stream) (before : List UInt8) : IO (List UInt8) := do
  match (← input.read 1).toList with
  | [] => return before.reverse
  | byte :: _ =>
    if byte = 10 then return (byte :: before).reverse
    else nextLine input (byte :: before)

/-- Answers lines until the input ends. -/
partial def converse (input output : IO.FS.Stream) (s : Session) : IO UInt32 := do
  match Console.lines (← nextLine input []) with
  | line :: _ =>
    match decode? line with
    | none => finish (.ofTranscript ⟨"", some (.console .notUtf8)⟩)
    | some text =>
      let (answer, next) := Console.respond s text
      output.putStr answer
      output.flush
      converse input output next
  | [] => return 0

/-- Carries out a command line. -/
def run (arguments : List String) : IO UInt32 := do
  match CommandLine.read arguments with
  | .ok (.run i) =>
    match i.path with
    | some path => finish (.ofTranscript (runScript path (← fileAt path) i.callLimit))
    | none => converse (← IO.getStdin) (← IO.getStdout) (.start i.callLimit)
  | _ => finish (CommandLine.run arguments (fun _ => .error .notFound) [])

end Scriptlet.Main

/-- Runs a script or a console. -/
def main (arguments : List String) : IO UInt32 :=
  Scriptlet.Main.run arguments
