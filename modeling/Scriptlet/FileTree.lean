import Scriptlet.FileRequest
import Scriptlet.OrderedMap

/-!
# Trees of files

A directory with everything below it as a value, on which requests for files can be
answered. The directories are those that files lie in. Outside of the tree nothing is
known but directories.
-/

namespace Scriptlet

/-- The contents of files by the names on their paths. -/
structure FileTree where
  files : List (List String × List UInt8)

namespace FileTree

/-- The tree without files. -/
def empty : FileTree := ⟨[]⟩

/-- Why a request fails, as the operating system says it. -/
inductive Refusal where
  | missing | isDirectory | notDirectory | nameTooLong | notText | nameHoldsNull
  deriving DecidableEq, Repr

/-- The text of a refusal. -/
def Refusal.message : Refusal → String
  | missing => "No such file or directory (os error 2)"
  | isDirectory => "Is a directory (os error 21)"
  | notDirectory => "Not a directory (os error 20)"
  | nameTooLong => "File name too long (os error 36)"
  | notText => "stream did not contain valid UTF-8"
  | nameHoldsNull => "file name contained an unexpected NUL byte"

/-- Where a walk along a path has come to. -/
inductive Stand where
  /-- The directory with some names on its path. -/
  | directory (path : List String)
  /-- A directory outside of the tree. -/
  | outside
  | file (path : List String)
  /-- A name that is not in its directory. -/
  | free (path : List String)
  deriving DecidableEq

/-- The contents of a file. -/
def contents? (t : FileTree) (path : List String) : Option (List UInt8) :=
  (t.files.find? (·.1 == path)).map (·.2)

/-- Whether a path is that of a directory. -/
def isDirectory (t : FileTree) (path : List String) : Bool :=
  path.isEmpty || t.files.any fun f => path.isPrefixOf f.1 && path != f.1

/-- The path in a directory by one more name. -/
def enter (t : FileTree) (path : List String) (name : String) : Stand :=
  let path := path ++ [name]
  if t.isDirectory path then .directory path
  else if (t.contents? path).isSome then .file path
  else .free path

/-- The most bytes in a name of a file. -/
def longestName : Nat := 255

/-- The most bytes in a path. -/
def longestPath : Nat := 4095

/-- One step of a walk: an empty name and a point stay, two points go up. -/
def step (t : FileTree) (stand : Stand) (name : String) : Except Refusal Stand :=
  match stand with
  | .file _ => .error .notDirectory
  | .free _ => .error .missing
  | .outside | .directory _ =>
    if name.utf8ByteSize > longestName then .error .nameTooLong
    else
      match stand, name with
      | stand, "" | stand, "." => .ok stand
      | .directory [], ".." => .ok .outside
      | .directory path, ".." => .ok (.directory path.dropLast)
      | .directory path, name => .ok (t.enter path name)
      | stand, ".." => .ok stand
      | _, _ => .error .missing

/-- Where the walk along a path begins. Nothing is looked up for a path that cannot be one. -/
def start (path : String) : Except Refusal Stand :=
  if path.isEmpty then .error .missing
  else if path.any (· == '\x00') then .error .nameHoldsNull
  else if path.utf8ByteSize > longestPath then .error .nameTooLong
  else .ok (if path.startsWith "/" then .outside else .directory [])

/-- Where a path leads. -/
def walk (t : FileTree) (path : String) : Except Refusal Stand := do
  (path.splitOn "/").foldlM t.step (← start path)

/-- Where the directory is that a path with slashes at its end names a directory in: the last
of the names is not looked up. -/
def walkAbove (t : FileTree) (path : String) : Except Refusal Stand := do
  let above := ((path.splitOn "/").reverse.dropWhile String.isEmpty).tail.reverse
  (above ++ [""]).foldlM t.step (← start path)

/-- The text of a file. -/
def read (t : FileTree) (path : String) : Except Refusal String := do
  match ← t.walk path with
  | .directory _ | .outside => throw .isDirectory
  | .free _ => throw .missing
  | .file path =>
    match String.fromUTF8? ⟨((t.contents? path).getD []).toArray⟩ with
    | some text => return text
    | none => throw .notText

/-- The tree with other contents in a file. -/
def put (t : FileTree) (path : List String) (contents : List UInt8) : FileTree :=
  ⟨t.files.filter (·.1 != path) ++ [(path, contents)]⟩

/-- The tree with another text in a file. A path that ends in a slash is that of a directory,
there or not. -/
def write (t : FileTree) (path text : String) : Except Refusal FileTree := do
  if path.endsWith "/" then
    let _ ← t.walkAbove path
    throw .isDirectory
  match ← t.walk path with
  | .directory _ | .outside => throw .isDirectory
  | .free place | .file place => return t.put place text.toUTF8.toList

/-- The answer to a request, and the tree after it. -/
def answer (t : FileTree) : FileRequest → FileAnswer × FileTree
  | .read path =>
    match t.read path with
    | .ok text => (.ok text, t)
    | .error e => (.error e.message, t)
  | .write path text =>
    match t.write path text with
    | .ok t => (.ok "", t)
    | .error e => (.error e.message, t)

end FileTree

end Scriptlet
