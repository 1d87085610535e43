import Scriptlet.Evaluator
import Scriptlet.Host.Module

/-!
# Sessions

A session is what a host embeds: it keeps definitions between the sources that it is
given, whole scripts or lines of one, and lets the host call back into them. What a
session needs from files it asks for.
-/

namespace Scriptlet

/-- What a session is created with. -/
structure Config where
  /-- Whether the errors of submitted lines are written out. -/
  echo : Bool
  /-- What modules are allowed to do. -/
  privileges : List Host.Privilege
  /-- The directory that imports start from. -/
  importRoot : String

/-- Errors are written out, nothing is allowed, and imports start from where the program runs. -/
def Config.default : Config := ⟨true, [], "."⟩

/-- A session. -/
structure Session where
  config : Config
  hosts : Array Host.Code
  machine : Machine
  /-- The submitted source that is not complete. -/
  reader : StatementReader
  /-- The line on which the next submission begins. -/
  nextLine : Line
  /-- The error of the last submission, if it failed. -/
  lastError : Option Error
  /-- The errors that have been written out. -/
  echoed : String

/-- The store in which a level has all builtin functions. -/
def Store.withBuiltins (s : Store) (r : ScopeRef) : Store :=
  (Builtin.all.foldl
      (fun s b => s.defineFunction r ⟨b.name, .free, [], .builtin b, none⟩) s).defineFunction r
    ⟨Builtin.applyName, .free, [], .apply, none⟩

/-- The machine with a new global scope that holds only the builtin functions. -/
def Machine.renewed (m : Machine) : Machine :=
  let (global, store) := m.store.newScope (.new "global" none false)
  { m with store := store.withBuiltins global, global, current := global, retained := [] }

/-- The machine before anything has been evaluated. -/
def Machine.new : Machine := Machine.renewed ⟨.empty, ⟨0⟩, ⟨0⟩, [], "", fun _ => False⟩

/-- The machine in which every definition is gone. -/
def Machine.reset (m : Machine) : Machine :=
  let store := m.retained.foldl Store.teardown (m.store.teardown m.global)
  { m with store }.renewed

/-- An answer of a session, or what it has to know before. -/
inductive Reply (α : Type) where
  | done (a : α) (session : Session)
  | ask (request : FileRequest) (resume : FileAnswer → Reply α)
  /-- The steps that were allowed are used up. -/
  | cutOff

/-- A reply with another form of answer. -/
def Reply.map {α β : Type} (f : α → β) : Reply α → Reply β
  | done a session => done (f a) session
  | ask request resume => ask request fun answer => (resume answer).map f
  | cutOff => cutOff

/-- A reply followed by more work. -/
def Reply.andThen {α β : Type} (r : Reply α) (next : α → Session → Reply β) : Reply β :=
  match r with
  | done a session => next a session
  | ask request resume => ask request fun answer => (resume answer).andThen next
  | cutOff => cutOff

namespace Session

/-- A new session. -/
def new (config : Config) : Session := ⟨config, #[], Machine.new, .new, 1, none, ""⟩

/-- The reply to an evaluation that ends as it does. -/
def reply {α : Type} (s : Session) : Outcome α → Reply (Except RuntimeError α)
  | .value a m => .done (.ok a) { s with machine := m }
  | .error e m => .done (.error e) { s with machine := m }
  | .ask request resume => .ask request fun answer => s.reply (resume answer)
  | .cutOff _ => .cutOff

/-- An evaluation in a session. -/
def evaluate {α : Type} (s : Session) (x : Eval α) : Reply (Except RuntimeError α) :=
  let setting := ⟨s.hosts, s.config.importRoot, []⟩
  let machine := s.machine
  s.reply (x setting machine)

/-- What an evaluation gives that reports errors by itself. -/
def flatten {α : Type} : Except RuntimeError (Except Error α) → Except Error α
  | .ok result => result
  | .error e => .error (.running e)

/-! ## Whole scripts -/

/-- The value of the last statement of a script. -/
def runScript (s : Session) (fuel : Nat) (source : String) : Reply (Except Error Value) :=
  (s.evaluate (Evaluator.run fuel source)).map flatten

/-- The value of the last statement of a script in a file. -/
def runFile (s : Session) (fuel : Nat) (path : String) : Reply (Except Error Value) :=
  .ask (.read path) fun answer =>
    match answer with
    | .ok source => s.runScript fuel source
    | .error reason => .done (.error (.file path reason)) s

/-! ## Lines -/

/-- The number of lines of a text; a newline at its end begins no further line. -/
def lineCount (source : String) : Nat :=
  let text := source.toList
  text.count '\n' + if text.getLast?.all (· == '\n') then 0 else 1

/-- How far a submission came. -/
structure Submission where
  reader : StatementReader
  /-- The errors of statements that had begun in earlier submissions. -/
  reported : List Error
  /-- The error that ended the submission. -/
  failure : Option Error

/-- The errors of complete statements: a statement that began before a line fails by itself,
any other error comes with the end of the submission. -/
def submitStatements (fuel : Nat) (first : Line) (reported : List Error) :
    List Stmt → Eval (List Error × Option Error)
  | [] => pure (reported, none)
  | statement :: rest => do
    match ← Eval.catching (Evaluator.exec fuel statement) with
    | .ok _ => submitStatements fuel first reported rest
    | .error e =>
      if statement.line < first then do
        Eval.leaveAll
        submitStatements fuel first (reported ++ [.running e]) rest
      else return (reported, some (.running e))

/-- How far the tokens of a submission come, whose first line is given. -/
def submitTokens (fuel : Nat) (first : Line) (r : StatementReader) (reported : List Error) :
    List PlacedToken → Eval Submission
  | [] => pure ⟨r, reported, none⟩
  | t :: rest =>
    match r.feed t with
    | (r, some e) => pure ⟨r, reported, some (.reading e)⟩
    | (r, none) => do
      let (reported, failure) ← submitStatements fuel first reported r.ready
      match failure with
      | some e => return ⟨r, reported, some e⟩
      | none => submitTokens fuel first r.takeReady.2 reported rest

/-- The session after an error of a submission has been reported. -/
def report (s : Session) (e : Error) : Session :=
  { s with
    echoed := if s.config.echo then s.echoed ++ e.message ++ "\n" else s.echoed
    machine := { s.machine with current := s.machine.global }
    lastError := some e }

/-- The session after a submission, and whether it failed. An error that ends a submission
discards what is not complete. -/
def conclude (s : Session) (submission : Submission) : Bool × Session :=
  let s := submission.reported.foldl report { s with reader := submission.reader }
  match submission.failure with
  | some e => (true, { s with reader := .new }.report e)
  | none =>
    if submission.reported.isEmpty then (false, { s with lastError := none }) else (true, s)

/-- Whether one more piece of source failed. Statements are executed as soon as they are
complete. -/
def submit (s : Session) (fuel : Nat) (source : String) : Reply Bool :=
  let first := s.nextLine
  let s := { s with nextLine := first + max 1 (lineCount source) }
  let submission : Eval Submission :=
    match Lexer.tokenize source first with
    | .ok tokens => submitTokens fuel first s.reader [] tokens
    | .error e => pure ⟨s.reader, [], some (.reading e)⟩
  (s.evaluate submission).andThen fun result s =>
    match result with
    | .ok submission =>
      let (failed, s) := s.conclude submission
      .done failed s
    | .error e => .done true (s.report (.running e))

/-- Whether no statement is partly submitted. -/
def isIdle (s : Session) : Bool := s.reader.isIdle

/-! ## Calls -/

/-- The value of a name in the global scope, null if there is none. -/
def resolve (s : Session) (name : String) : Value :=
  (s.machine.store.findValue? s.machine.global name).getD .null

/-- The function that a value stands for in a call: a function, or the name of a global one. -/
def callee (s : Session) : Value → Except RuntimeError FunctionRef
  | .function f => .ok f
  | .string name =>
    match s.machine.store.findFunction? s.machine.global name with
    | some f => .ok f
    | none => .error (.unknownFunction name 0)
  | v => .error (.notCallable v.kind 0)

/-- The value of a function for arguments. -/
def callFunction (s : Session) (fuel : Nat) (function : Value) (arguments : List Value) :
    Reply (Except RuntimeError Value) :=
  match s.callee function with
  | .ok f => s.evaluate (Eval.holding [.function f] (Evaluator.invoke fuel f arguments none 0))
  | .error e => .done (.error e) s

/-- The value of a member of a receiver for arguments. -/
def callMember (s : Session) (fuel : Nat) (receiver : Value) (name : String)
    (arguments : List Value) (line : Line) : Reply (Except RuntimeError Value) :=
  s.evaluate (Eval.holding [receiver] (Evaluator.callMember fuel receiver name arguments line))

/-! ## Host functions -/

/-- The session with a host function in the global scope. -/
def register (s : Session) (d : Host.Definition) : Session :=
  let store := s.machine.store.defineFunction s.machine.global
    ⟨d.name, .free, [], .host d.style ⟨s.hosts.size⟩, none⟩
  { s with hosts := s.hosts.push d.code, machine := { s.machine with store } }

/-- The session with the functions of a module, if it is allowed, and whether it is. -/
def install (s : Session) (m : Host.Module) : Bool × Session :=
  if m.isAllowed s.config.privileges then (true, m.functions.foldl register s) else (false, s)

/-- The session in which every definition and all partial input is gone. -/
def reset (s : Session) : Session :=
  { s with machine := s.machine.reset, reader := .new, nextLine := 1, lastError := none }

/-! ## Output -/

/-- What has been printed and what errors have been written out, and the session without both. -/
def takeOutput (s : Session) : String × String × Session :=
  (s.machine.printed, s.echoed,
    { s with machine := { s.machine with printed := "" }, echoed := "" })

end Session

end Scriptlet
