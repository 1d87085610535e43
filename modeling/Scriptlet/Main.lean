import Scriptlet.CommandLine

/-!
# The program

The console of the command line, carried out: writing, reading lines and reaching files.
-/

namespace Scriptlet

/-- The reason why a file could not be reached. -/
def reasonOf (e : IO.Error) : String :=
  match e with
  | .noFileOrDirectory .. => FileTree.Refusal.missing.message
  | .noSuchThing .. => FileTree.Refusal.missing.message
  | .inappropriateType _ 21 _ => FileTree.Refusal.isDirectory.message
  | .inappropriateType .. => FileTree.Refusal.notDirectory.message
  | .permissionDenied .. => "Permission denied (os error 13)"
  | e => toString e

/-- The answer of the files of the machine. -/
def answerOf : FileRequest → IO FileAnswer
  | .read path => do
    try
      let bytes ← IO.FS.readBinFile path
      return match String.fromUTF8? bytes with
        | some text => .ok text
        | none => .error FileTree.Refusal.notText.message
    catch e => return .error (reasonOf e)
  | .write path text => do
    try
      IO.FS.writeFile path text
      return .ok ""
    catch e => return .error (reasonOf e)

/-- Does what a program does at its console, and gives its exit code. -/
def CommandLine.Console.perform : CommandLine.Console → IO UInt32
  | .exit code => return code
  | .write text next => do
    let out ← IO.getStdout
    out.putStr text
    out.flush
    next.perform
  | .warn text next => do
    IO.eprint text
    next.perform
  | .readLine next => do
    let line ← (← IO.getStdin).getLine
    (next (if line.isEmpty then none else some line)).perform
  | .file request next => do
    let answer ← answerOf request
    (next answer).perform

end Scriptlet

/-- Runs the program; no evaluation comes to the end of the steps it is given. -/
def main (arguments : List String) : IO UInt32 :=
  (Scriptlet.CommandLine.start 0x4000000000000000 arguments).perform
