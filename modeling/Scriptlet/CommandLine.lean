import Scriptlet.FileTree
import Scriptlet.Session

/-!
# The command line

The program runs a script or a file, or reads lines at a prompt. What it does is a
`Console`: what it writes, reads and asks for, one after the other, until it exits.
-/

namespace Scriptlet.CommandLine

/-- What the program was told to do. -/
structure Options where
  /-- Whether the contents are the path of a script. -/
  file : Bool
  /-- Whether there is a prompt after the script or instead of it. -/
  prompt : Bool
  allowFiles : Bool
  allowThreads : Bool
  importRoot : Option String
  /-- Whether the value of the script is not written. -/
  quiet : Bool
  contents : Option String

/-- Nothing. -/
def Options.none : Options := ⟨false, false, false, false, .none, false, .none⟩

/-! ## Reading options -/

/-- The options with one more switch; each is given once at most. -/
def Options.switch (o : Options) (name : String) : Option Options :=
  match name with
  | "file" => if o.file then .none else some { o with file := true }
  | "repl" => if o.prompt then .none else some { o with prompt := true }
  | "quiet" => if o.quiet then .none else some { o with quiet := true }
  | "allow-file-io" => if o.allowFiles then .none else some { o with allowFiles := true }
  | "allow-threads" => if o.allowThreads then .none else some { o with allowThreads := true }
  | _ => .none

/-- The switch with a short name. -/
def switchName : Char → String
  | 'f' => "file"
  | 'r' => "repl"
  | 'q' => "quiet"
  | c => c.toString

/-- The options with the directory that imports start from, which has a name. -/
def Options.withRoot (o : Options) (directory : String) : Option Options :=
  if o.importRoot.isSome || directory.isEmpty then .none
  else some { o with importRoot := some directory }

/-- The options with the script or its path. -/
def Options.withContents (o : Options) (contents : String) : Option Options :=
  if o.contents.isSome then .none else some { o with contents := some contents }

/-- Whether an argument is an option. -/
def isOption (argument : String) : Bool := argument.startsWith "-" && argument != "-"

/-- The option that gives the directory for imports. -/
def rootOption : String := "--import-root"

/-- The options that arguments stand for, none if they cannot be understood. -/
def Options.read (o : Options) : List String → Option Options
  | [] => some o
  | "--" :: rest => rest.foldlM Options.withContents o
  | argument :: rest =>
    if argument = rootOption then
      match rest with
      | directory :: rest =>
        if isOption directory then .none else (o.withRoot directory).bind (·.read rest)
      | [] => .none
    else if argument.startsWith (rootOption ++ "=") then
      (o.withRoot (argument.drop (rootOption.length + 1)).toString).bind (·.read rest)
    else if argument.startsWith "--" then
      (o.switch (argument.drop 2).toString).bind (·.read rest)
    else if isOption argument then
      let switches := (argument.toList.drop 1).map switchName
      (switches.foldlM Options.switch o).bind (·.read rest)
    else (o.withContents argument).bind (·.read rest)

/-- What is written when the arguments cannot be understood. -/
def usage : String :=
  "Usage: scriptlet [--file] [--repl] [--quiet] [--allow-file-io] [--allow-threads] " ++
    "[--import-root DIR] [CONTENTS]\n"

/-! ## Access to files -/

/-- The value of a file request, whose failure is an error of a host function. -/
def requested (function : String) (line : Line) (request : FileRequest) (value : String → Value) :
    Host.Action :=
  .file request fun
    | .ok text => .value (value text)
    | .error reason => .error (.nativeFailure function reason line)

/-- An action on a path, which must be a string. -/
def onPath (v : Value) (line : Line) (next : String → Host.Action) : Host.Action :=
  match v.expectString "path" line with
  | .ok path => next path
  | .error e => .error e

/-- Reading and writing files, for those who are allowed to. -/
def files : Host.Module where
  name := "files"
  required := [.files]
  functions :=
    [{ name := "read_file"
       style := .plain
       code := fun call =>
        match call.arguments with
        | [path] => onPath path call.line fun path =>
          requested "read_file" call.line (.read path) .string
        | arguments => .error (.argumentCount "read_file" arguments.length call.line) },
     { name := "write_file"
       style := .plain
       code := fun call =>
        match call.arguments with
        | [path, v] => onPath path call.line fun path =>
          .look fun s => requested "write_file" call.line (.write path (s.display v)) fun _ => .null
        | arguments => .error (.argumentCount "write_file" arguments.length call.line) }]

/-! ## What the program does -/

/-- What a program does at its console. -/
inductive Console where
  | exit (code : UInt32)
  | write (text : String) (next : Console)
  | warn (text : String) (next : Console)
  /-- A line with its newline, none at the end of the input. -/
  | readLine (next : Option String → Console)
  | file (request : FileRequest) (next : FileAnswer → Console)

namespace Console

/-- Writing unless there is nothing to write. -/
def say (text : String) (next : Console) : Console :=
  if text.isEmpty then next else .write text next

/-- Writing an error unless there is none. -/
def complain (text : String) (next : Console) : Console :=
  if text.isEmpty then next else .warn text next

/-- What is done with a reply, after its output. -/
def after {α : Type} (next : α → Session → Console) : Reply α → Console
  | .done a session =>
    let (printed, echoed, session) := session.takeOutput
    say printed (complain echoed (next a session))
  | .ask request resume => .file request fun answer => after next (resume answer)
  | .cutOff => .exit 1

/-- Lines read at a prompt and submitted, at most `lines` of them. -/
def prompt (fuel : Nat) : (lines : Nat) → Session → Console
  | 0, _ => .exit 1
  | lines + 1, session =>
    .write (if session.isIdle then "> " else ". ") <| .readLine fun
      | none => .write "\n" (.exit 0)
      | some line => after (fun _ session => prompt fuel lines session) (session.submit fuel line)

/-- What is done after a script: an error ends the program, a value is written. -/
def conclude (o : Options) (next : Session → Console) (result : Except Error Value)
    (session : Session) : Console :=
  match result with
  | .error e => .warn (e.message ++ "\n") (.exit 1)
  | .ok v =>
    if o.quiet || v = .null then next session
    else .write (session.machine.store.display v ++ "\n") (next session)

end Console

/-- The session that options ask for. -/
def session (o : Options) : Session :=
  let privileges := (if o.allowFiles then [.files] else []) ++
    if o.allowThreads then [.threading] else []
  let config := { Config.default with privileges, importRoot := o.importRoot.getD "." }
  ((Session.new config).install files).2

/-- What the program does for its options, with at most `fuel` steps for each evaluation and
at most `fuel` lines at the prompt. -/
def program (fuel : Nat) (o : Options) : Console :=
  let session := session o
  let rest (session : Session) : Console :=
    if o.prompt then Console.prompt fuel fuel session else .exit 0
  match o.contents with
  | some contents =>
    Console.after (Console.conclude o rest)
      (if o.file then session.runFile fuel contents else session.runScript fuel contents)
  | none =>
    if o.prompt then rest session
    else
      .warn "Nothing to run. Pass a script, a file with --file, or --repl.\n" (.exit 1)

/-- What the program does for its arguments. -/
def start (fuel : Nat) (arguments : List String) : Console :=
  match Options.none.read arguments with
  | some o => program fuel o
  | none => .warn usage (.exit 2)

/-! ## Running on a tree of files -/

/-- What a program has done. -/
structure Transcript where
  code : UInt32
  written : String
  warned : String
  files : FileTree

/-- What a program does with some lines of input on a tree of files. -/
def Console.run : Console → List String → FileTree → Transcript
  | .exit code, _, files => ⟨code, "", "", files⟩
  | .write text next, input, files =>
    let t := next.run input files
    { t with written := text ++ t.written }
  | .warn text next, input, files =>
    let t := next.run input files
    { t with warned := text ++ t.warned }
  | .readLine next, input, files => (next input.head?).run input.tail files
  | .file request next, input, files =>
    let (answer, files) := files.answer request
    (next answer).run input files

end CommandLine

/-- A reply on a tree of files, none if it was cut off. -/
def Reply.run {α : Type} : Reply α → FileTree → Option (α × Session) × FileTree
  | .done a session, files => (some (a, session), files)
  | .ask request resume, files =>
    let (answer, files) := files.answer request
    (resume answer).run files
  | .cutOff, files => (none, files)

end Scriptlet
