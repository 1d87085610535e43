/-!
# Requests for files

Evaluation does not reach files by itself. It asks for one, and goes on with the answer.
-/

namespace Scriptlet

/-- What is asked of the files. -/
inductive FileRequest where
  | read (path : String)
  | write (path text : String)
  deriving DecidableEq, Repr

/-- The text that was read, nothing after writing, or the reason why it failed. -/
abbrev FileAnswer := Except String String

/-- The path of a file under a directory; a path that starts at the root stays as it is. -/
def joinPath (directory path : String) : String :=
  if path.startsWith "/" || directory.isEmpty then path
  else if directory.endsWith "/" then directory ++ path
  else directory ++ "/" ++ path

end Scriptlet
