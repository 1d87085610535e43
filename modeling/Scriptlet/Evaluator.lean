import Scriptlet.Builtin.Value
import Scriptlet.Machine
import Scriptlet.Place
import Scriptlet.Statement.Reader
import Scriptlet.Store.Class
import Scriptlet.Token.Lexer

/-!
# The evaluator

Expressions evaluate to values. A statement ends normally or in a `return`, which ends
the call around it. Every function here takes the number of steps that it may make.
-/

namespace Scriptlet

/-- How a statement ends. -/
inductive Flow where
  | normal (v : Value)
  | ret (v : Value)

namespace Flow

/-- The value that a statement ends with. -/
def value : Flow → Value
  | normal v | ret v => v

/-- The values in a flow. -/
def values (flow : Flow) : List Value := [flow.value]

end Flow

namespace Evaluator

/-- The scope in which the body of a function looks up names: the instance that it is called
on, for a method the nearest class scope, else the scope of its definition. -/
def callParent (f : Function) (receiver : Option ScopeRef) (s : Store) (current : ScopeRef) :
    ScopeRef :=
  let method := if f.kind = .method then s.nearestClassScope? current else none
  (receiver <|> method <|> f.environment).getD current

/-- The store in which parameters are variables of a scope; those without an argument are null. -/
def bind (s : Store) (r : ScopeRef) : (parameters : List String) → List Value → Store
  | [], _ => s
  | p :: parameters, arguments =>
    bind (s.setVariable r p (arguments.head?.getD .null)) r parameters arguments.tail

/-- What a `foreach` goes through. -/
def items (s : Store) (line : Line) : Value → Except RuntimeError (List Value)
  | .null => .ok []
  | .list l => .ok (s.list l)
  | .array a => .ok (s.array a).items
  | .dictionary d => .ok (s.dictionary d).keyValues
  | .string text => .ok (text.toList.map .ofChar)
  | v => .error (.typeError ("cannot iterate over a value of type " ++ v.kind.name) line)

/-- A function that is called with a receiver in front of its arguments, or the error when no
scope defines it. -/
def memberFunction (s : Store) (current : ScopeRef) (receiver : Value) (name : String)
    (line : Line) : Except RuntimeError FunctionRef :=
  match s.findFunction? current name, receiver with
  | some f, _ => .ok f
  | none, .object _ => .error (.unknownMember name .object line)
  | none, _ => .error (.unknownFunction name line)

/-- The function that a receiver itself has under a name, and the instance that it runs on. -/
def ownFunction? (s : Store) (receiver : Value) (name : String) :
    Option (FunctionRef × Option ScopeRef) :=
  match receiver with
  | .object o => (s.callableAt? o name).map (·, some o)
  | .dictionary d =>
    match (s.dictionary d).get? (.string name) with
    | some ⟨_, .function f⟩ => some (f, none)
    | _ => none
  | _ => none

/-- Whether a function takes the instance that it is called on beside its arguments. -/
def takesInstance (f : Function) : Bool :=
  match f.body with
  | .construct _ | .host .classAware _ => true
  | _ => false

/-- The value of an imported script, whose errors become failures of the import. -/
def imported (path : String) (line : Line) (x : Eval (Except SyntaxError Value)) : Eval Value := do
  match ← Eval.catching x with
  | .ok (.ok v) => return v
  | .ok (.error e) => .fail (.importFailed path e.message line)
  | .error e => .fail (.importFailed path e.message line)

/-- The value that an assignment of a value to a place stores there. -/
def combined (s : Store) (p : Place) (op : AssignOperator) (v : Value) (line : Line) :
    Except RuntimeError (Value × Store) := do
  match op, op.arithmetic with
  | _, none => return (v, s)
  | .addAssign, _ => s.append (← p.read s line) v line
  | _, some op => s.binary op (← p.read s line) v line

/-- The value that an assignment stores. What has been appended stays even if the place
cannot be written. -/
def store (p : Place) (op : AssignOperator) (v : Value) (line : Line) : Eval Value := do
  let v ← Eval.attempt fun s => combined s p op v line
  Eval.attempt fun s => (p.write s v line).map ((), ·)
  return v

/-- What the statement that defines a function does. -/
def defineFunction (name : String) (parameters : List String) (body : List Stmt) : Eval Unit :=
  .changeHere fun s current =>
    let kind := if (s.scope current).isClass then .method else .free
    s.defineFunction current ⟨name, kind, parameters, .script body, some current⟩

mutual

/-- The value of an expression. -/
def eval : Nat → Expr → Eval Value
  | 0, _ => .cutOff
  | fuel + 1, e =>
    match e with
    | .constant c _ => .change (·.ofConstant c)
    | .named name _ => .look fun s current => (s.findValue? current name).getD .null
    | .define name _ => do
      Eval.define name .null
      return .null
    | .list elements _ => do
      let values ← arguments fuel elements
      .change (·.newList values)
    | .call name operands _ line =>
      match (Symbol.ofText? name).bind Symbol.assign? with
      | some op => assignment fuel op operands line
      | none => call fuel name operands line

/-- The values of expressions, from left to right. -/
def arguments : Nat → List Expr → Eval (List Value)
  | 0, _ => .cutOff
  | _ + 1, [] => pure []
  | fuel + 1, e :: rest => do
    let v ← (eval fuel e).resolved e.line
    let values ← Eval.holding [v] (arguments fuel rest)
    return v :: values

/-- The value of a call by name. A name that is no function is left out if the first argument
is one. -/
def call : Nat → String → List Expr → Line → Eval Value
  | 0, _, _, _ => .cutOff
  | fuel + 1, name, operands, line => do
    let target ← Eval.look fun s current => s.findFunction? current name
    let values ← Eval.holding (target.toList.map .function) (arguments fuel operands)
    match target, values with
    | some f, values => Eval.holding [.function f] (invoke fuel f values none line)
    | none, .function f :: rest => Eval.holding [.function f] (invoke fuel f rest none line)
    | none, _ => .fail (.unknownFunction name line)

/-- The value of a function for arguments. -/
def invoke : Nat → FunctionRef → List Value → Option ScopeRef → Line → Eval Value
  | 0, _, _, _, _ => .cutOff
  | fuel + 1, ref, values, receiver, line => do
    let f ← Eval.look fun s _ => s.function ref
    match f.body with
    | .script statements => do
      let parent ← Eval.look (callParent f receiver)
      let r ← Eval.child parent f.name false
      Eval.change fun s => ((), bind s r f.parameters values)
      Eval.holding (values.drop f.parameters.length) do
        Eval.within r (fun v => [v]) (body fuel statements)
    | .builtin b => do
      let output ← Eval.look fun s _ => b.output s values
      let v ← Eval.attempt fun s => b.call s values line
      if !output.isEmpty then Eval.print output
      return v
    | .apply => Eval.holding values do
      Eval.nested f.name (fun v => [v]) (apply fuel values line)
    | .construct template => do
      let o ← Eval.change (·.instantiate f.name template)
      Eval.holding (.object o :: values) do
        Eval.nested f.name (fun v => [v]) (initialized fuel o values line)
    | .host .plain ref => do
      let current ← Eval.look fun _ current => current
      Eval.holding values (hosted fuel ref ⟨values, none, current, line⟩)
    | .host _ ref => Eval.holding values do
      Eval.nested f.name (fun v => [v]) do
        let current ← Eval.look fun _ current => current
        hosted fuel ref ⟨values, receiver, current, line⟩

/-- The value of the statements in the body of a function: that of the `return` that ends them. -/
def body : Nat → List Stmt → Eval Value
  | 0, _ => .cutOff
  | _ + 1, [] => pure .null
  | fuel + 1, s :: rest => do
    match ← exec fuel s with
    | .normal _ => body fuel rest
    | .ret v => return v

/-- The instance after the method named like its class has run on it. -/
def initialized : Nat → ScopeRef → List Value → Line → Eval Value
  | 0, _, _, _ => .cutOff
  | fuel + 1, o, values, line => do
    match ← Eval.look fun s _ => s.callableAt? o (s.scope o).name with
    | none => return .object o
    | some f => do
      let _ ← Eval.holding [.function f] (invoke fuel f values (some o) line)
      return .object o

/-- The value of a function, or of the member with a name, applied to arguments. -/
def apply : Nat → List Value → Line → Eval Value
  | 0, _, _ => .cutOff
  | fuel + 1, values, line =>
    match values with
    | .string name :: receiver :: rest => callMember fuel receiver name rest line
    | .function f :: rest => do
      let kind ← Eval.look fun s _ => (s.function f).kind
      match kind, rest with
      | .method, .object o :: rest => invoke fuel f rest (some o) line
      | _, rest => invoke fuel f rest none line
    | .string _ :: [] | [] => .fail (.argumentCount Builtin.applyName values.length line)
    | v :: _ => .fail (.notCallable v.kind line)

/-- The value of a member of a receiver for arguments: of a function that the receiver has, else
of one in scope that takes the receiver as its first argument. -/
def callMember : Nat → Value → String → List Value → Line → Eval Value
  | 0, _, _, _, _ => .cutOff
  | fuel + 1, receiver, name, values, line => do
    match ← Eval.look fun s _ => ownFunction? s receiver name with
    | some (f, receiver) => Eval.holding [.function f] (invoke fuel f values receiver line)
    | none => do
      let current ← Eval.look fun _ current => current
      let f ← Eval.check fun s => memberFunction s current receiver name line
      let besides ← Eval.look fun s _ => takesInstance (s.function f)
      match besides, receiver with
      | true, .object o => Eval.holding [.function f] (invoke fuel f values (some o) line)
      | _, _ => Eval.holding [.function f] (invoke fuel f (receiver :: values) none line)

/-- The value of a function of the host. -/
def hosted : Nat → HostRef → Host.Call → Eval Value
  | 0, _, _ => .cutOff
  | fuel + 1, ref, call => do
    let setting ← Eval.setting
    match setting.hosts[ref.index]? with
    | some code => act fuel (code call)
    | none => return .null

/-- The value that an action of the host ends with. -/
def act : Nat → Host.Action → Eval Value
  | 0, _ => .cutOff
  | fuel + 1, action =>
    match action with
    | .finish (.ok v) => pure v
    | .finish (.error e) => .fail e
    | .look next => do
      let s ← Eval.look fun s _ => s
      act fuel (next s)
    | .file request next => do
      let answer ← Eval.ask request
      act fuel (next answer)
    | .assign r name v next => do
      Eval.change fun s => ((), s.setVariable r name v)
      act fuel next
    | .makeList items next => do
      let v ← Eval.change (·.newList items)
      act fuel (next v)
    | .invoke f values receiver line next => do
      let result ← Eval.catching (invoke fuel f values receiver line)
      act fuel (next result)
    | .callMember receiver name values line next => do
      let result ← Eval.catching (callMember fuel receiver name values line)
      act fuel (next result)
    | .runScript source next => do
      let result ← run fuel source
      act fuel (next result)

/-- The value stored by an assignment. -/
def assignment : Nat → AssignOperator → List Expr → Line → Eval Value
  | 0, _, _, _ => .cutOff
  | fuel + 1, op, operands, line =>
    match op.isStep, operands with
    | true, [target] => do
      let p ← place fuel target line
      store p op (.int 1) line
    | false, [target, source] => do
      let p ← place fuel target line
      let v ← Eval.holding p.values ((eval fuel source).resolved source.line)
      store p op v line
    | _, _ => .fail (.argumentCount op.symbol.text operands.length line)

/-- The place that an expression names. -/
def place : Nat → Expr → Line → Eval Place
  | 0, _, _ => .cutOff
  | fuel + 1, target, line =>
    match target with
    | .named name _ =>
      .look fun s current => .named ((s.findVariableScope? current name).getD current) name
    | .define name _ => do
      let _ ← eval fuel target
      .look fun _ current => .named current name
    | .call "listindex" [collection, key] _ _ => do
      let container ← place fuel collection line
      let k ← Eval.holding container.values ((eval fuel key).resolved key.line)
      Eval.check fun s => container.indexed s k line
    | target => do
      match ← eval fuel target with
      | .member collection key => return .element collection key
      | v => return .temporary v

/-- How a statement ends. -/
def exec : Nat → Stmt → Eval Flow
  | 0, _ => .cutOff
  | fuel + 1, statement =>
    match statement with
    | .expr e => do
      let v ← eval fuel e
      return .normal v
    | .define name e _ => do
      let v ← (eval fuel e).resolved e.line
      let v ← Eval.change (·.duplicate v)
      Eval.define name v
      return .normal v
    | .function name parameters statements _ => do
      defineFunction name parameters statements
      return .normal .null
    | .classDef name bases statements line => do
      let current ← Eval.look fun _ current => current
      let template ← Eval.child current name true
      Eval.attempt fun s => (s.inheritAll current template line bases).map ((), ·)
      let _ ← Eval.within template Flow.values (sequence fuel .null statements)
      Eval.changeHere fun s current => s.defineClass current name template
      return .normal .null
    | .block statements _ => Eval.nested "block" Flow.values (sequence fuel .null statements)
    | .ret none _ => return .ret .null
    | .ret (some e) _ => do
      let v ← (eval fuel e).resolved e.line
      return .ret v
    | .loop init test iterate statements _ =>
      Eval.nested "loop" Flow.values do
        match init with
        | some e => do
          let _ ← eval fuel e
          repeated fuel test iterate statements .null
        | none => repeated fuel test iterate statements .null
    | .foreach name source statements line => do
      let v ← (eval fuel source).resolved source.line
      let values ← Eval.check fun s => items s line v
      Eval.nested "foreach" Flow.values (each fuel name statements .null values)
    | .choice branches _ => choose fuel branches
    | .importFile path line => do
      let setting ← Eval.setting
      match ← Eval.ask (.read (joinPath setting.importRoot path)) with
      | .error reason => .fail (.importFailed path reason line)
      | .ok source => do
        let v ← imported path line (script fuel source)
        return .normal v

/-- How statements end that follow each other, with the value of the last one. -/
def sequence : Nat → Value → List Stmt → Eval Flow
  | 0, _, _ => .cutOff
  | _ + 1, last, [] => pure (.normal last)
  | fuel + 1, last, s :: rest => do
    match ← Eval.holding [last] (exec fuel s) with
    | .normal v => sequence fuel v rest
    | .ret v => return .ret v

/-- How a loop ends, with the value of its last round. -/
def repeated : Nat → Option Expr → Option Expr → List Stmt → Value → Eval Flow
  | 0, _, _, _, _ => .cutOff
  | fuel + 1, test, iterate, statements, last => do
    let goes ← match test with
      | none => pure true
      | some e => do
        let v ← Eval.holding [last] ((eval fuel e).resolved e.line)
        Eval.look fun s _ => s.truthy v
    if goes then
      match ← Eval.holding [last] (sequence fuel .null statements) with
      | .ret v => return .ret v
      | .normal v =>
        match iterate with
        | none => repeated fuel test iterate statements v
        | some e => do
          let _ ← Eval.holding [v] (eval fuel e)
          repeated fuel test iterate statements v
    else return .normal last

/-- How a loop over values ends, with the value of its last round. -/
def each : Nat → String → List Stmt → Value → List Value → Eval Flow
  | 0, _, _, _, _ => .cutOff
  | _ + 1, _, _, last, [] => pure (.normal last)
  | fuel + 1, name, statements, last, item :: rest => do
    Eval.define name item
    match ← Eval.holding (last :: rest) (sequence fuel .null statements) with
    | .normal v => each fuel name statements v rest
    | .ret v => return .ret v

/-- How the first branch ends whose test holds. -/
def choose : Nat → List Branch → Eval Flow
  | 0, _ => .cutOff
  | _ + 1, [] => pure (.normal .null)
  | fuel + 1, b :: rest => do
    let taken ← match b.test with
      | none => pure true
      | some e => do
        let v ← (eval fuel e).resolved e.line
        Eval.look fun s _ => s.truthy v
    if taken then Eval.nested "if" Flow.values (sequence fuel .null b.body)
    else choose fuel rest

/-- The value of the last statement of a script. When it stops at an error, the current scope is
the global one; a text that cannot be cut into tokens runs nothing and leaves no scope. -/
def run : Nat → String → Eval (Except Error Value)
  | 0, _ => .cutOff
  | fuel + 1, source =>
    match Lexer.tokenize source 1 with
    | .error e => return .error (.reading e)
    | .ok tokens => Eval.asScript (feed fuel .new tokens .null)

/-- The value of the last statement of a text, each of which is executed as soon as it is
complete. -/
def script : Nat → String → Eval (Except SyntaxError Value)
  | 0, _ => .cutOff
  | fuel + 1, source =>
    match Lexer.tokenize source 1 with
    | .error e => return .error e
    | .ok tokens => feed fuel .new tokens .null

/-- The value of the last statement of a run of tokens after what a reader has read. -/
def feed : Nat → StatementReader → List PlacedToken → Value → Eval (Except SyntaxError Value)
  | 0, _, _, _ => .cutOff
  | fuel + 1, r, tokens, last =>
    match tokens with
    | [] =>
      match r.flush with
      | (_, some e) => return .error e
      | (r, none) => do
        let v ← executed fuel r.ready last
        return .ok v
    | t :: rest =>
      match r.feed t with
      | (_, some e) => return .error e
      | (r, none) => do
        let v ← executed fuel r.ready last
        feed fuel r.takeReady.2 rest v

/-- The value of the last of some top-level statements. -/
def executed : Nat → List Stmt → Value → Eval Value
  | 0, _, _ => .cutOff
  | _ + 1, [], last => pure last
  | fuel + 1, s :: rest, last => do
    let flow ← Eval.holding [last] (exec fuel s)
    executed fuel rest flow.value

end

end Evaluator

end Scriptlet
