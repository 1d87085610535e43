import Scriptlet.Proofs.Evaluation.Executions

/-!
# One level of evaluation

Each function of the evaluator does some of its work itself and leaves the rest to others. What it
does itself is a `Level`: a tree that ends in a result, asks for a file, or comes to something that
another function evaluates, and says how it goes on from there. Every kind of `Work` has its level,
and an evaluation is this level with all that it comes to evaluated (`Work.inSteps_succ`). So the
levels are the place to see what happens in an evaluation before it has ended, and also if it never
ends.
-/

namespace Scriptlet

variable {α β : Type}

/-- What the evaluator is called for. -/
inductive Work where
  | eval (e : Expr)
  | arguments (operands : List Expr)
  | call (name : String) (operands : List Expr) (line : Line)
  | invoke (f : FunctionRef) (values : List Value) (receiver : Option ScopeRef) (line : Line)
  | body (statements : List Stmt)
  | initialized (o : ScopeRef) (values : List Value) (line : Line)
  | apply (values : List Value) (line : Line)
  | callMember (receiver : Value) (name : String) (values : List Value) (line : Line)
  | hosted (ref : HostRef) (call : Host.Call)
  | act (action : Host.Action)
  | assignment (op : AssignOperator) (operands : List Expr) (line : Line)
  | place (target : Expr) (line : Line)
  | exec (statement : Stmt)
  | sequence (last : Value) (statements : List Stmt)
  | repeated (test iterate : Option Expr) (statements : List Stmt) (last : Value)
  | each (name : String) (statements : List Stmt) (last : Value) (values : List Value)
  | choose (branches : List Branch)
  | run (source : String)
  | script (source : String)
  | feed (r : StatementReader) (tokens : List PlacedToken) (last : Value)
  | executed (statements : List Stmt) (last : Value)

namespace Work

/-- What it results in. -/
@[reducible]
def Result : Work → Type
  | arguments .. => List Value
  | place .. => Place
  | exec .. | sequence .. | repeated .. | each .. | choose .. => Flow
  | run .. => Except Error Value
  | script .. | feed .. => Except SyntaxError Value
  | eval .. | call .. | invoke .. | body .. | initialized .. | apply .. | callMember .. | hosted ..
  | act .. | assignment .. | executed .. => Value

/-- Its evaluation in at most some number of steps. -/
def inSteps (fuel : Nat) : (w : Work) → Eval w.Result
  | eval e => Evaluator.eval fuel e
  | arguments operands => Evaluator.arguments fuel operands
  | call name operands line => Evaluator.call fuel name operands line
  | invoke f values receiver line => Evaluator.invoke fuel f values receiver line
  | body statements => Evaluator.body fuel statements
  | initialized o values line => Evaluator.initialized fuel o values line
  | apply values line => Evaluator.apply fuel values line
  | callMember receiver name values line => Evaluator.callMember fuel receiver name values line
  | hosted ref made => Evaluator.hosted fuel ref made
  | act action => Evaluator.act fuel action
  | assignment op operands line => Evaluator.assignment fuel op operands line
  | place target line => Evaluator.place fuel target line
  | exec statement => Evaluator.exec fuel statement
  | sequence last statements => Evaluator.sequence fuel last statements
  | repeated test iterate statements last => Evaluator.repeated fuel test iterate statements last
  | each name statements last values => Evaluator.each fuel name statements last values
  | choose branches => Evaluator.choose fuel branches
  | run source => Evaluator.run fuel source
  | script source => Evaluator.script fuel source
  | feed r tokens last => Evaluator.feed fuel r tokens last
  | executed statements last => Evaluator.executed fuel statements last

end Work

/-- What one function of the evaluator does itself. -/
inductive Level (α : Type) where
  | done (r : Except RuntimeError α) (m : Machine)
  /-- A file is needed to go on. -/
  | ask (request : FileRequest) (resume : FileAnswer → Level α)
  | cutOff (m : Machine)
  /-- Something else is evaluated before it goes on. -/
  | into (w : Work) (setting : Setting) (m : Machine)
      (resume : Except RuntimeError w.Result → Machine → Level α)

namespace Level

/-- A level followed by more evaluation, unless it ends in an error. -/
def andThen (l : Level α) (next : α → Machine → Level β) : Level β :=
  match l with
  | done (.ok a) m => next a m
  | done (.error e) m => done (.error e) m
  | ask request resume => ask request fun answer => (resume answer).andThen next
  | cutOff m => cutOff m
  | into w setting m resume => into w setting m fun r n => (resume r n).andThen next

/-- A level with a last change of the machine, also after an error. -/
def finish (l : Level α) (last : Option α → Machine → Machine) : Level α :=
  match l with
  | done r m => done r (last (Outcome.result? r) m)
  | ask request resume => ask request fun answer => (resume answer).finish last
  | cutOff m => cutOff m
  | into w setting m resume => into w setting m fun r n => (resume r n).finish last

/-- A level whose error has become a value. -/
def caught (l : Level α) : Level (Except RuntimeError α) :=
  match l with
  | done r m => done (.ok r) m
  | ask request resume => ask request fun answer => (resume answer).caught
  | cutOff m => cutOff m
  | into w setting m resume => into w setting m fun r n => (resume r n).caught

/-- The machine that a level begins on, unless it asks for a file before. -/
def machine? : Level α → Option Machine
  | done _ m | into _ _ m _ => some m
  | ask _ _ | cutOff _ => none

/-- The level that is an outcome already. -/
def ofOutcome : Outcome α → Level α
  | .value a m => done (.ok a) m
  | .error e m => done (.error e) m
  | .ask request resume => ask request fun answer => ofOutcome (resume answer)
  | .cutOff m => cutOff m

end Level

/-- What one function of the evaluator does itself, for a machine in a setting. -/
def Stepwise (α : Type) := Setting → Machine → Level α

namespace Stepwise

@[always_inline, inline]
instance : Monad Stepwise where
  pure a := fun _ m => .done (.ok a) m
  bind x next := fun setting m => (x setting m).andThen fun a m => next a setting m

/-- An evaluation that needs no other function. -/
def lift (x : Eval α) : Stepwise α := fun setting m => .ofOutcome (x setting m)

/-- What another function evaluates. -/
def enter (w : Work) : Stepwise w.Result := fun setting m => .into w setting m .done

/-- An evaluation whose error has become a value. -/
def catching (x : Stepwise α) : Stepwise (Except RuntimeError α) := fun setting m =>
  (x setting m).caught

/-- An evaluation during which more values are in use. -/
def holding (values : List Value) (x : Stepwise α) : Stepwise α := fun setting m =>
  x (setting.hold values) m

/-- An evaluation whose value, if it is a handle, gives way to its element. -/
def resolved (x : Stepwise Value) (line : Line) : Stepwise Value := do
  let v ← x
  lift (.check (·.resolved v line))

/-- An evaluation in a scope, which is left afterwards; `results` are the values in its result. -/
def within (r : ScopeRef) (results : α → List Value) (x : Stepwise α) : Stepwise α :=
  fun setting m =>
    let outer := m.current
    (x (setting.hold [.object outer]) { m with current := r }).finish fun a m =>
      { m with current := outer }.close ((a.elim [] results) ++ setting.held) r

/-- An evaluation in a new scope inside the current one. -/
def nested (name : String) (results : α → List Value) (x : Stepwise α) : Stepwise α := do
  let current ← lift (.look fun _ current => current)
  let r ← lift (.child current name false)
  within r results x

/-- An evaluation that gives its errors as values and then goes on in the global scope. -/
def asScript (x : Stepwise (Except SyntaxError Value)) : Stepwise (Except Error Value) := do
  match ← catching x with
  | .ok (.ok v) => return .ok v
  | .ok (.error e) => do
    lift .leaveAll
    return .error (.reading e)
  | .error e => do
    lift .leaveAll
    return .error (.running e)

/-- The value of an imported script, whose errors become failures of the import. -/
def imported (path : String) (line : Line) (x : Stepwise (Except SyntaxError Value)) :
    Stepwise Value := do
  match ← catching x with
  | .ok (.ok v) => return v
  | .ok (.error e) => lift (.fail (.importFailed path e.message line))
  | .error e => lift (.fail (.importFailed path e.message line))

/-! ## The levels -/

open Evaluator (callParent bind items memberFunction ownFunction? takesInstance store
  defineFunction)

def eval : Expr → Stepwise Value
  | .constant c _ => lift (.change (·.ofConstant c))
  | .named name _ => lift (.look fun s current => (s.findValue? current name).getD .null)
  | .define name _ => do
    lift (Eval.define name .null)
    return .null
  | .list elements _ => do
    let values ← enter (.arguments elements)
    lift (.change (·.newList values))
  | .call name operands _ line =>
    match (Symbol.ofText? name).bind Symbol.assign? with
    | some op => enter (.assignment op operands line)
    | none => enter (.call name operands line)

def arguments : List Expr → Stepwise (List Value)
  | [] => pure []
  | e :: rest => do
    let v ← (enter (.eval e)).resolved e.line
    let values ← holding [v] (enter (.arguments rest))
    return v :: values

def call (name : String) (operands : List Expr) (line : Line) : Stepwise Value := do
  let target ← lift (.look fun s current => s.findFunction? current name)
  let values ← holding (target.toList.map .function) (enter (.arguments operands))
  match target, values with
  | some f, values => holding [.function f] (enter (.invoke f values none line))
  | none, .function f :: rest => holding [.function f] (enter (.invoke f rest none line))
  | none, _ => lift (.fail (.unknownFunction name line))

/-- A call of a function that is written in a script: its body runs in a new scope that holds the
arguments. -/
def scriptCall (f : Function) (statements : List Stmt) (values : List Value)
    (receiver : Option ScopeRef) : Stepwise Value := do
  let parent ← lift (.look (callParent f receiver))
  let r ← lift (.child parent f.name false)
  lift (.change fun s => ((), bind s r f.parameters values))
  holding (values.drop f.parameters.length) do
    within r (fun v => [v]) (enter (.body statements))

def invoke (ref : FunctionRef) (values : List Value) (receiver : Option ScopeRef) (line : Line) :
    Stepwise Value := do
  let f ← lift (.look fun s _ => s.function ref)
  match f.body with
  | .script statements => scriptCall f statements values receiver
  | .builtin b => do
    let output ← lift (.look fun s _ => b.output s values)
    let v ← lift (.attempt fun s => b.call s values line)
    if !output.isEmpty then lift (.print output)
    return v
  | .apply => holding values do
    nested f.name (fun v => [v]) (enter (.apply values line))
  | .construct template => do
    let o ← lift (.change (·.instantiate f.name template))
    holding (.object o :: values) do
      nested f.name (fun v => [v]) (enter (.initialized o values line))
  | .host .plain ref => do
    let current ← lift (.look fun _ current => current)
    holding values (enter (.hosted ref ⟨values, none, current, line⟩))
  | .host _ ref => holding values do
    nested f.name (fun v => [v]) do
      let current ← lift (.look fun _ current => current)
      enter (.hosted ref ⟨values, receiver, current, line⟩)

def body : List Stmt → Stepwise Value
  | [] => pure .null
  | s :: rest => do
    match ← enter (.exec s) with
    | .normal _ => enter (.body rest)
    | .ret v => return v

def initialized (o : ScopeRef) (values : List Value) (line : Line) : Stepwise Value := do
  match ← lift (.look fun s _ => s.callableAt? o (s.scope o).name) with
  | none => return .object o
  | some f => do
    let _ ← holding [.function f] (enter (.invoke f values (some o) line))
    return .object o

def apply (values : List Value) (line : Line) : Stepwise Value :=
  match values with
  | .string name :: receiver :: rest => enter (.callMember receiver name rest line)
  | .function f :: rest => do
    let kind ← lift (.look fun s _ => (s.function f).kind)
    match kind, rest with
    | .method, .object o :: rest => enter (.invoke f rest (some o) line)
    | _, rest => enter (.invoke f rest none line)
  | .string _ :: [] | [] => lift (.fail (.argumentCount Builtin.applyName values.length line))
  | v :: _ => lift (.fail (.notCallable v.kind line))

def callMember (receiver : Value) (name : String) (values : List Value) (line : Line) :
    Stepwise Value := do
  match ← lift (.look fun s _ => ownFunction? s receiver name) with
  | some (f, receiver) => holding [.function f] (enter (.invoke f values receiver line))
  | none => do
    let current ← lift (.look fun _ current => current)
    let f ← lift (.check fun s => memberFunction s current receiver name line)
    let besides ← lift (.look fun s _ => takesInstance (s.function f))
    match besides, receiver with
    | true, .object o => holding [.function f] (enter (.invoke f values (some o) line))
    | _, _ => holding [.function f] (enter (.invoke f (receiver :: values) none line))

def hosted (ref : HostRef) (call : Host.Call) : Stepwise Value := do
  let setting ← lift .setting
  match setting.hosts[ref.index]? with
  | some code => enter (.act (code call))
  | none => return .null

def act : Host.Action → Stepwise Value
  | .finish (.ok v) => pure v
  | .finish (.error e) => lift (.fail e)
  | .look next => do
    let s ← lift (.look fun s _ => s)
    enter (.act (next s))
  | .file request next => do
    let answer ← lift (.ask request)
    enter (.act (next answer))
  | .assign r name v next => do
    lift (.change fun s => ((), s.setVariable r name v))
    enter (.act next)
  | .makeList items next => do
    let v ← lift (.change (·.newList items))
    enter (.act (next v))
  | .invoke f values receiver line next => do
    let result ← catching (enter (.invoke f values receiver line))
    enter (.act (next result))
  | .callMember receiver name values line next => do
    let result ← catching (enter (.callMember receiver name values line))
    enter (.act (next result))
  | .runScript source next => do
    let result ← enter (.run source)
    enter (.act (next result))

def assignment (op : AssignOperator) (operands : List Expr) (line : Line) : Stepwise Value :=
  match op.isStep, operands with
  | true, [target] => do
    let p ← enter (.place target line)
    lift (store p op (.int 1) line)
  | false, [target, source] => do
    let p ← enter (.place target line)
    let v ← holding p.values ((enter (.eval source)).resolved source.line)
    lift (store p op v line)
  | _, _ => lift (.fail (.argumentCount op.symbol.text operands.length line))

def place (target : Expr) (line : Line) : Stepwise Place :=
  match target with
  | .named name _ =>
    lift (.look fun s current => .named ((s.findVariableScope? current name).getD current) name)
  | .define name _ => do
    let _ ← enter (.eval target)
    lift (.look fun _ current => .named current name)
  | .call "listindex" [collection, key] _ _ => do
    let container ← enter (.place collection line)
    let k ← holding container.values ((enter (.eval key)).resolved key.line)
    lift (.check fun s => container.indexed s k line)
  | target => do
    match ← enter (.eval target) with
    | .member collection key => return .element collection key
    | v => return .temporary v

def classDef (name : String) (bases : List String) (statements : List Stmt) (line : Line) :
    Stepwise Flow := do
  let current ← lift (.look fun _ current => current)
  let template ← lift (.child current name true)
  lift (.attempt fun s => (s.inheritAll current template line bases).map ((), ·))
  let _ ← within template Flow.values (enter (.sequence .null statements))
  lift (.changeHere fun s current => s.defineClass current name template)
  return .normal .null

def exec : Stmt → Stepwise Flow
  | .expr e => do
    let v ← enter (.eval e)
    return .normal v
  | .define name e _ => do
    let v ← (enter (.eval e)).resolved e.line
    let v ← lift (.change (·.duplicate v))
    lift (Eval.define name v)
    return .normal v
  | .function name parameters statements _ => do
    lift (defineFunction name parameters statements)
    return .normal .null
  | .classDef name bases statements line => classDef name bases statements line
  | .block statements _ => nested "block" Flow.values (enter (.sequence .null statements))
  | .ret none _ => return .ret .null
  | .ret (some e) _ => do
    let v ← (enter (.eval e)).resolved e.line
    return .ret v
  | .loop init test iterate statements _ =>
    nested "loop" Flow.values do
      match init with
      | some e => do
        let _ ← enter (.eval e)
        enter (.repeated test iterate statements .null)
      | none => enter (.repeated test iterate statements .null)
  | .foreach name source statements line => do
    let v ← (enter (.eval source)).resolved source.line
    let values ← lift (.check fun s => items s line v)
    nested "foreach" Flow.values (enter (.each name statements .null values))
  | .choice branches _ => enter (.choose branches)
  | .importFile path line => do
    let setting ← lift .setting
    match ← lift (.ask (.read (joinPath setting.importRoot path))) with
    | .error reason => lift (.fail (.importFailed path reason line))
    | .ok source => do
      let v ← imported path line (enter (.script source))
      return .normal v

def sequence (last : Value) : List Stmt → Stepwise Flow
  | [] => pure (.normal last)
  | s :: rest => do
    match ← holding [last] (enter (.exec s)) with
    | .normal v => enter (.sequence v rest)
    | .ret v => return .ret v

/-- A round of a loop, after its test. -/
def round (test iterate : Option Expr) (statements : List Stmt) (last : Value) (goes : Bool) :
    Stepwise Flow := do
  if goes then
    match ← holding [last] (enter (.sequence .null statements)) with
    | .ret v => return .ret v
    | .normal v =>
      match iterate with
      | none => enter (.repeated test iterate statements v)
      | some e => do
        let _ ← holding [v] (enter (.eval e))
        enter (.repeated test iterate statements v)
  else return .normal last

def repeated (test iterate : Option Expr) (statements : List Stmt) (last : Value) :
    Stepwise Flow :=
  match test with
  | none => round test iterate statements last true
  | some e => do
    let v ← holding [last] ((enter (.eval e)).resolved e.line)
    let goes ← lift (.look fun s _ => s.truthy v)
    round test iterate statements last goes

def each (name : String) (statements : List Stmt) (last : Value) : List Value → Stepwise Flow
  | [] => pure (.normal last)
  | item :: rest => do
    lift (Eval.define name item)
    match ← holding (last :: rest) (enter (.sequence .null statements)) with
    | .normal v => enter (.each name statements v rest)
    | .ret v => return .ret v

/-- What follows the test of a branch. -/
def branch (b : Branch) (rest : List Branch) (taken : Bool) : Stepwise Flow :=
  if taken then nested "if" Flow.values (enter (.sequence .null b.body))
  else enter (.choose rest)

def choose : List Branch → Stepwise Flow
  | [] => pure (.normal .null)
  | b :: rest =>
    match b.test with
    | none => branch b rest true
    | some e => do
      let v ← (enter (.eval e)).resolved e.line
      let taken ← lift (.look fun s _ => s.truthy v)
      branch b rest taken

def run (source : String) : Stepwise (Except Error Value) :=
  match Lexer.tokenize source 1 with
  | .error e => return .error (.reading e)
  | .ok tokens => asScript (enter (.feed .new tokens .null))

def script (source : String) : Stepwise (Except SyntaxError Value) :=
  match Lexer.tokenize source 1 with
  | .error e => return .error e
  | .ok tokens => enter (.feed .new tokens .null)

def feed (r : StatementReader) (tokens : List PlacedToken) (last : Value) :
    Stepwise (Except SyntaxError Value) :=
  match tokens with
  | [] =>
    match r.flush with
    | (_, some e) => return .error e
    | (r, none) => do
      let v ← enter (.executed r.ready last)
      return .ok v
  | t :: rest =>
    match r.feed t with
    | (_, some e) => return .error e
    | (r, none) => do
      let v ← enter (.executed r.ready last)
      enter (.feed r.takeReady.2 rest v)

def executed : List Stmt → Value → Stepwise Value
  | [], last => pure last
  | s :: rest, last => do
    let flow ← holding [last] (enter (.exec s))
    enter (.executed rest flow.value)

end Stepwise

/-- The level of a piece of work. -/
def Work.level : (w : Work) → Stepwise w.Result
  | eval e => Stepwise.eval e
  | arguments operands => Stepwise.arguments operands
  | call name operands line => Stepwise.call name operands line
  | invoke f values receiver line => Stepwise.invoke f values receiver line
  | body statements => Stepwise.body statements
  | initialized o values line => Stepwise.initialized o values line
  | apply values line => Stepwise.apply values line
  | callMember receiver name values line => Stepwise.callMember receiver name values line
  | hosted ref made => Stepwise.hosted ref made
  | act action => Stepwise.act action
  | assignment op operands line => Stepwise.assignment op operands line
  | place target line => Stepwise.place target line
  | exec statement => Stepwise.exec statement
  | sequence last statements => Stepwise.sequence last statements
  | repeated test iterate statements last => Stepwise.repeated test iterate statements last
  | each name statements last values => Stepwise.each name statements last values
  | choose branches => Stepwise.choose branches
  | run source => Stepwise.run source
  | script source => Stepwise.script source
  | feed r tokens last => Stepwise.feed r tokens last
  | executed statements last => Stepwise.executed statements last

/-! ## Levels that are filled -/

namespace Outcome

/-- The outcome that is a result already. -/
def ofResult : Except RuntimeError α → Machine → Outcome α
  | .ok a, m => value a m
  | .error e, m => error e m

theorem caught_andThen_ofResult (o : Outcome α) : o.caught.andThen ofResult = o := by
  induction o with
  | value _ _ | error _ _ | cutOff _ => rfl
  | ask request resume ih => exact congrArg (ask request) (funext ih)

/-- An outcome whose error has become a value ends in no error of its own. -/
theorem caught_andThen_finish (o : Outcome α) (next : Except RuntimeError α → Machine → Outcome β)
    (last : Option β → Machine → Machine) :
    (o.caught.andThen next).finish last = o.caught.andThen fun r m => (next r m).finish last := by
  induction o with
  | value _ _ | error _ _ | cutOff _ => rfl
  | ask request resume ih => exact congrArg (ask request) (funext ih)

theorem caught_andThen_caught (o : Outcome α) (next : Except RuntimeError α → Machine → Outcome β) :
    (o.caught.andThen next).caught = o.caught.andThen fun r m => (next r m).caught := by
  induction o with
  | value _ _ | error _ _ | cutOff _ => rfl
  | ask request resume ih => exact congrArg (ask request) (funext ih)

end Outcome

namespace Level

variable {ran : (w : Work) → Eval w.Result}

/-- The outcome of a level when what it comes to is evaluated as `ran` says. -/
def fill (ran : (w : Work) → Eval w.Result) : Level α → Outcome α
  | done r m => .ofResult r m
  | ask request resume => .ask request fun answer => (resume answer).fill ran
  | cutOff m => .cutOff m
  | into w setting m resume => (ran w setting m).caught.andThen fun r n => (resume r n).fill ran

theorem fill_andThen (l : Level α) (next : α → Machine → Level β) :
    (l.andThen next).fill ran = (l.fill ran).andThen fun a m => (next a m).fill ran := by
  induction l with
  | done r m => cases r <;> rfl
  | ask request resume ih => exact congrArg (Outcome.ask request) (funext ih)
  | cutOff m => rfl
  | into w setting m resume ih =>
    simp only [andThen, fill, Outcome.andThen_assoc]
    exact congrArg _ (funext fun r => funext fun n => ih r n)

theorem fill_finish (l : Level α) (last : Option α → Machine → Machine) :
    (l.finish last).fill ran = (l.fill ran).finish last := by
  induction l with
  | done r m => cases r <;> rfl
  | ask request resume ih => exact congrArg (Outcome.ask request) (funext ih)
  | cutOff m => rfl
  | into w setting m resume ih =>
    simp only [finish, fill, Outcome.caught_andThen_finish]
    exact congrArg _ (funext fun r => funext fun n => ih r n)

theorem fill_caught (l : Level α) : l.caught.fill ran = (l.fill ran).caught := by
  induction l with
  | done r m => cases r <;> rfl
  | ask request resume ih => exact congrArg (Outcome.ask request) (funext ih)
  | cutOff m => rfl
  | into w setting m resume ih =>
    simp only [caught, fill, Outcome.caught_andThen_caught]
    exact congrArg _ (funext fun r => funext fun n => ih r n)

theorem fill_ofOutcome (o : Outcome α) : (ofOutcome o).fill ran = o := by
  induction o with
  | value _ _ | error _ _ | cutOff _ => rfl
  | ask request resume ih => exact congrArg (Outcome.ask request) (funext ih)

end Level

namespace Stepwise

variable {ran : (w : Work) → Eval w.Result}

/-- The evaluation in which other functions evaluate as `ran` says. -/
def fill (ran : (w : Work) → Eval w.Result) (x : Stepwise α) : Eval α := fun setting m =>
  (x setting m).fill ran

@[simp]
theorem fill_pure (a : α) : (pure a : Stepwise α).fill ran = pure a := rfl

@[simp]
theorem fill_bind (x : Stepwise α) (next : α → Stepwise β) :
    (x >>= next).fill ran = x.fill ran >>= fun a => (next a).fill ran :=
  funext fun setting => funext fun m => (x setting m).fill_andThen _

@[simp]
theorem fill_lift (x : Eval α) : (lift x).fill ran = x :=
  funext fun setting => funext fun m => Level.fill_ofOutcome (x setting m)

@[simp]
theorem fill_enter (w : Work) : @fill (no_index w.Result) ran (enter w) = ran w :=
  funext fun setting => funext fun m => (ran w setting m).caught_andThen_ofResult

@[simp]
theorem fill_catching (x : Stepwise α) : (catching x).fill ran = Eval.catching (x.fill ran) :=
  funext fun setting => funext fun m => (x setting m).fill_caught

@[simp]
theorem fill_holding (values : List Value) (x : Stepwise α) :
    (holding values x).fill ran = Eval.holding values (x.fill ran) := rfl

@[simp]
theorem fill_within (r : ScopeRef) (results : α → List Value) (x : Stepwise α) :
    (within r results x).fill ran = Eval.within r results (x.fill ran) :=
  funext fun _ => funext fun _ => Level.fill_finish _ _

@[simp]
theorem fill_resolved (x : Stepwise Value) (line : Line) :
    (x.resolved line).fill ran = (x.fill ran).resolved line := by
  simp [resolved, Eval.resolved]

@[simp]
theorem fill_nested (name : String) (results : α → List Value) (x : Stepwise α) :
    (nested name results x).fill ran = Eval.nested name results (x.fill ran) := by
  simp [nested, Eval.nested]

@[simp]
theorem fill_asScript (x : Stepwise (Except SyntaxError Value)) :
    (asScript x).fill ran = Eval.asScript (x.fill ran) := by
  simp only [asScript, Eval.asScript, fill_bind, fill_catching]
  refine bind_congr fun r => ?_
  obtain e | e | v := r <;> simp

@[simp]
theorem fill_imported (path : String) (line : Line) (x : Stepwise (Except SyntaxError Value)) :
    (imported path line x).fill ran = Evaluator.imported path line (x.fill ran) := by
  simp only [imported, Evaluator.imported, fill_bind, fill_catching]
  refine bind_congr fun r => ?_
  obtain e | e | v := r <;> simp

end Stepwise

namespace Work

/-- An evaluation that may make no step is cut off. -/
theorem inSteps_zero (w : Work) : w.inSteps 0 = Eval.cutOff := by
  cases w <;> simp only [inSteps]
  · rw [Evaluator.eval]
  · rw [Evaluator.arguments]
  · rw [Evaluator.call]
  · rw [Evaluator.invoke]
  · rw [Evaluator.body]
  · rw [Evaluator.initialized]
  · rw [Evaluator.apply]
  · rw [Evaluator.callMember]
  · rw [Evaluator.hosted]
  · rw [Evaluator.act]
  · rw [Evaluator.assignment]
  · rw [Evaluator.place]
  · rw [Evaluator.exec]
  · rw [Evaluator.sequence]
  · rw [Evaluator.repeated]
  · rw [Evaluator.each]
  · rw [Evaluator.choose]
  · rw [Evaluator.run]
  · rw [Evaluator.script]
  · rw [Evaluator.feed]
  · rw [Evaluator.executed]

variable (fuel : Nat)

theorem eval_succ (e : Expr) :
    Evaluator.eval (fuel + 1) e = (Stepwise.eval e).fill (inSteps fuel) := by
  cases e with
  | call name operands p line =>
    simp only [Evaluator.eval, Stepwise.eval]
    cases (Symbol.ofText? name).bind Symbol.assign? <;> simp [inSteps]
  | _ => simp [Evaluator.eval, Stepwise.eval, inSteps]

theorem arguments_succ (operands : List Expr) :
    Evaluator.arguments (fuel + 1) operands =
      (Stepwise.arguments operands).fill (inSteps fuel) := by
  cases operands <;> simp [Evaluator.arguments, Stepwise.arguments, inSteps]

theorem call_succ (name : String) (operands : List Expr) (line : Line) :
    Evaluator.call (fuel + 1) name operands line =
      (Stepwise.call name operands line).fill (inSteps fuel) := by
  simp only [Evaluator.call, Stepwise.call, Stepwise.fill_bind, Stepwise.fill_lift,
    Stepwise.fill_holding, Stepwise.fill_enter]
  refine bind_congr fun target => bind_congr fun values => ?_
  split <;> simp [inSteps]

theorem invoke_succ (f : FunctionRef) (values : List Value) (receiver : Option ScopeRef)
    (line : Line) : Evaluator.invoke (fuel + 1) f values receiver line =
      (Stepwise.invoke f values receiver line).fill (inSteps fuel) := by
  simp only [Evaluator.invoke, Stepwise.invoke, Stepwise.fill_bind, Stepwise.fill_lift]
  refine bind_congr fun f => ?_
  cases f.body with
  | script statements => simp [Stepwise.scriptCall, inSteps]
  | builtin b =>
    simp only [Stepwise.fill_bind, Stepwise.fill_lift]
    refine bind_congr fun output => bind_congr fun v => ?_
    split <;> simp
  | host style ref => cases style <;> simp [inSteps]
  | _ => simp [inSteps]

theorem body_succ (statements : List Stmt) :
    Evaluator.body (fuel + 1) statements = (Stepwise.body statements).fill (inSteps fuel) := by
  cases statements with
  | nil => simp [Evaluator.body, Stepwise.body]
  | cons s rest =>
    simp only [Evaluator.body, Stepwise.body, Stepwise.fill_bind, Stepwise.fill_enter]
    refine bind_congr fun flow => ?_
    cases flow <;> simp [inSteps]

theorem initialized_succ (o : ScopeRef) (values : List Value) (line : Line) :
    Evaluator.initialized (fuel + 1) o values line =
      (Stepwise.initialized o values line).fill (inSteps fuel) := by
  simp only [Evaluator.initialized, Stepwise.initialized, Stepwise.fill_bind, Stepwise.fill_lift]
  refine bind_congr fun found => ?_
  cases found <;> simp [inSteps]

theorem apply_succ (values : List Value) (line : Line) :
    Evaluator.apply (fuel + 1) values line = (Stepwise.apply values line).fill (inSteps fuel) := by
  unfold Evaluator.apply Stepwise.apply
  split
  · simp [inSteps]
  · simp only [Stepwise.fill_bind, Stepwise.fill_lift]
    refine bind_congr fun kind => ?_
    split <;> simp [inSteps]
  all_goals simp

theorem callMember_succ (receiver : Value) (name : String) (values : List Value) (line : Line) :
    Evaluator.callMember (fuel + 1) receiver name values line =
      (Stepwise.callMember receiver name values line).fill (inSteps fuel) := by
  simp only [Evaluator.callMember, Stepwise.callMember, Stepwise.fill_bind, Stepwise.fill_lift]
  refine bind_congr fun found => ?_
  cases found with
  | some found => simp [inSteps]
  | none =>
    simp only [Stepwise.fill_bind, Stepwise.fill_lift]
    refine bind_congr fun current => bind_congr fun f => bind_congr fun besides => ?_
    split <;> simp [inSteps]

theorem hosted_succ (ref : HostRef) (made : Host.Call) :
    Evaluator.hosted (fuel + 1) ref made =
      (Stepwise.hosted ref made).fill (inSteps fuel) := by
  simp only [Evaluator.hosted, Stepwise.hosted, Stepwise.fill_bind, Stepwise.fill_lift]
  refine bind_congr fun setting => ?_
  cases setting.hosts[ref.index]? <;> simp [inSteps]

theorem act_succ (action : Host.Action) :
    Evaluator.act (fuel + 1) action = (Stepwise.act action).fill (inSteps fuel) := by
  cases action with
  | finish result => cases result <;> simp [Evaluator.act, Stepwise.act]
  | _ => simp [Evaluator.act, Stepwise.act, inSteps]

theorem assignment_succ (op : AssignOperator) (operands : List Expr) (line : Line) :
    Evaluator.assignment (fuel + 1) op operands line =
      (Stepwise.assignment op operands line).fill (inSteps fuel) := by
  unfold Evaluator.assignment Stepwise.assignment
  cases op.isStep <;> match operands with
    | [] | [_] | [_, _] | _ :: _ :: _ :: _ => simp [inSteps]

theorem place_succ (target : Expr) (line : Line) :
    Evaluator.place (fuel + 1) target line =
      (Stepwise.place target line).fill (inSteps fuel) := by
  unfold Evaluator.place Stepwise.place
  split
  · simp
  · simp [inSteps]
  · simp [inSteps]
  · simp only [Stepwise.fill_bind, Stepwise.fill_enter]
    refine bind_congr fun v => ?_
    split <;> simp

theorem exec_succ (statement : Stmt) :
    Evaluator.exec (fuel + 1) statement = (Stepwise.exec statement).fill (inSteps fuel) := by
  cases statement with
  | ret e line => cases e <;> simp [Evaluator.exec, Stepwise.exec, inSteps]
  | classDef name bases statements line =>
    simp [Evaluator.exec, Stepwise.exec, Stepwise.classDef, inSteps]
  | loop init test iterate statements line =>
    cases init <;> simp [Evaluator.exec, Stepwise.exec, inSteps]
  | importFile path line =>
    simp only [Evaluator.exec, Stepwise.exec, Stepwise.fill_bind, Stepwise.fill_lift]
    refine bind_congr fun setting => bind_congr fun answer => ?_
    cases answer <;> simp [inSteps]
  | _ => simp [Evaluator.exec, Stepwise.exec, inSteps]

theorem sequence_succ (last : Value) (statements : List Stmt) :
    Evaluator.sequence (fuel + 1) last statements =
      (Stepwise.sequence last statements).fill (inSteps fuel) := by
  cases statements with
  | nil => simp [Evaluator.sequence, Stepwise.sequence]
  | cons s rest =>
    simp only [Evaluator.sequence, Stepwise.sequence, Stepwise.fill_bind, Stepwise.fill_holding,
      Stepwise.fill_enter]
    refine bind_congr fun flow => ?_
    cases flow <;> simp [inSteps]

theorem fill_round (test iterate : Option Expr) (statements : List Stmt) (last : Value)
    (goes : Bool) :
    (Stepwise.round test iterate statements last goes).fill (inSteps fuel) =
      if goes then (do
        match ← Eval.holding [last] (Evaluator.sequence fuel .null statements) with
        | .ret v => return .ret v
        | .normal v =>
          match iterate with
          | none => Evaluator.repeated fuel test iterate statements v
          | some e => do
            let _ ← Eval.holding [v] (Evaluator.eval fuel e)
            Evaluator.repeated fuel test iterate statements v)
      else return .normal last := by
  cases goes with
  | false => rfl
  | true =>
    simp only [Stepwise.round, if_pos, Stepwise.fill_bind, Stepwise.fill_holding,
      Stepwise.fill_enter]
    refine bind_congr fun flow => ?_
    cases flow with
    | ret v => rfl
    | normal v => cases iterate <;> simp [inSteps]

theorem repeated_succ (test iterate : Option Expr) (statements : List Stmt) (last : Value) :
    Evaluator.repeated (fuel + 1) test iterate statements last =
      (Stepwise.repeated test iterate statements last).fill (inSteps fuel) := by
  unfold Evaluator.repeated Stepwise.repeated
  cases test with
  | none => exact (fill_round fuel none iterate statements last true).symm
  | some e =>
    simp only [Stepwise.fill_bind, Stepwise.fill_holding, Stepwise.fill_resolved,
      Stepwise.fill_enter, Stepwise.fill_lift, fill_round]
    rfl

theorem each_succ (name : String) (statements : List Stmt) (last : Value) (values : List Value) :
    Evaluator.each (fuel + 1) name statements last values =
      (Stepwise.each name statements last values).fill (inSteps fuel) := by
  cases values with
  | nil => simp [Evaluator.each, Stepwise.each]
  | cons item rest =>
    simp only [Evaluator.each, Stepwise.each, Stepwise.fill_bind, Stepwise.fill_lift,
      Stepwise.fill_holding, Stepwise.fill_enter]
    refine bind_congr fun _ => bind_congr fun flow => ?_
    cases flow <;> simp [inSteps]

theorem choose_succ (branches : List Branch) :
    Evaluator.choose (fuel + 1) branches = (Stepwise.choose branches).fill (inSteps fuel) := by
  cases branches with
  | nil => simp [Evaluator.choose, Stepwise.choose]
  | cons b rest =>
    simp only [Evaluator.choose, Stepwise.choose]
    cases b.test with
    | none => simp [Stepwise.branch, inSteps]
    | some e =>
      simp only [Stepwise.fill_bind, Stepwise.fill_resolved, Stepwise.fill_enter,
        Stepwise.fill_lift]
      refine bind_congr fun v => bind_congr fun taken => ?_
      cases taken <;> simp [Stepwise.branch, inSteps]

theorem run_succ (source : String) :
    Evaluator.run (fuel + 1) source = (Stepwise.run source).fill (inSteps fuel) := by
  simp only [Evaluator.run, Stepwise.run]
  cases Lexer.tokenize source 1 <;> simp [inSteps]

theorem script_succ (source : String) :
    Evaluator.script (fuel + 1) source = (Stepwise.script source).fill (inSteps fuel) := by
  simp only [Evaluator.script, Stepwise.script]
  cases Lexer.tokenize source 1 <;> simp [inSteps]

theorem feed_succ (r : StatementReader) (tokens : List PlacedToken) (last : Value) :
    Evaluator.feed (fuel + 1) r tokens last =
      (Stepwise.feed r tokens last).fill (inSteps fuel) := by
  cases tokens with
  | nil =>
    simp only [Evaluator.feed, Stepwise.feed]
    obtain ⟨r, e⟩ := r.flush
    cases e <;> simp [inSteps]
  | cons t rest =>
    simp only [Evaluator.feed, Stepwise.feed]
    obtain ⟨r, e⟩ := r.feed t
    cases e <;> simp [inSteps]

theorem executed_succ (statements : List Stmt) (last : Value) :
    Evaluator.executed (fuel + 1) statements last =
      (Stepwise.executed statements last).fill (inSteps fuel) := by
  cases statements <;> simp [Evaluator.executed, Stepwise.executed, inSteps]

/-- An evaluation is its level with all that it comes to evaluated in one step less. -/
theorem inSteps_succ (w : Work) : w.inSteps (fuel + 1) = w.level.fill (inSteps fuel) := by
  cases w with
  | eval e => exact eval_succ fuel e
  | arguments operands => exact arguments_succ fuel operands
  | call name operands line => exact call_succ fuel name operands line
  | invoke f values receiver line => exact invoke_succ fuel f values receiver line
  | body statements => exact body_succ fuel statements
  | initialized o values line => exact initialized_succ fuel o values line
  | apply values line => exact apply_succ fuel values line
  | callMember receiver name values line => exact callMember_succ fuel receiver name values line
  | hosted ref made => exact hosted_succ fuel ref made
  | act action => exact act_succ fuel action
  | assignment op operands line => exact assignment_succ fuel op operands line
  | place target line => exact place_succ fuel target line
  | exec statement => exact exec_succ fuel statement
  | sequence last statements => exact sequence_succ fuel last statements
  | repeated test iterate statements last => exact repeated_succ fuel test iterate statements last
  | each name statements last values => exact each_succ fuel name statements last values
  | choose branches => exact choose_succ fuel branches
  | run source => exact run_succ fuel source
  | script source => exact script_succ fuel source
  | feed r tokens last => exact feed_succ fuel r tokens last
  | executed statements last => exact executed_succ fuel statements last

/-- What relates the functions of the evaluator relates the evaluations of every piece of work. -/
theorem related {R : {α : Type} → Eval α → Eval α → Prop} {n k : Nat}
    (related : Evaluator.Related R n k) (w : Work) : R (w.inSteps n) (w.inSteps k) := by
  cases w with
  | eval e => exact related.eval e
  | arguments operands => exact related.arguments operands
  | call name operands line => exact related.call name operands line
  | invoke f values receiver line => exact related.invoke f values receiver line
  | body statements => exact related.body statements
  | initialized o values line => exact related.initialized o values line
  | apply values line => exact related.apply values line
  | callMember receiver name values line => exact related.callMember receiver name values line
  | hosted ref made => exact related.hosted ref made
  | act action => exact related.act action
  | assignment op operands line => exact related.assignment op operands line
  | place target line => exact related.place target line
  | exec statement => exact related.exec statement
  | sequence last statements => exact related.sequence last statements
  | repeated test iterate statements last => exact related.repeated test iterate statements last
  | each name statements last values => exact related.each name statements last values
  | choose branches => exact related.choose branches
  | run source => exact related.run source
  | script source => exact related.script source
  | feed r tokens last => exact related.feed r tokens last
  | executed statements last => exact related.executed statements last

end Work

end Scriptlet
