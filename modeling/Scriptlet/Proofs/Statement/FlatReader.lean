import Scriptlet.Statement.Reader

/-!
# Reading statements with one record

A `FlatReader` reads the same statements as a `StatementReader`, but all that it has read of a
construct is in one record: which of the fields mean something depends on the state, and the chain
that a branch continues stays in the frame around the branch. So there are records that make no
sense, and in some of them the next token would take a frame from an empty stack, count below zero
or miss a chain. These are faults; that none of them can occur is for theorems to say.
-/

namespace Scriptlet

/-- What a flat reader expects next. -/
inductive ReaderState where
  | between
  | line
  | functionName
  | parameters
  | variableName
  | className
  | bases
  | returnLine
  | branchHeader
  | afterElse
  | loopHeader
  | foreachHeader
  | importPath
  deriving DecidableEq

/-- What a closing brace completes; the root is open from the start and has no brace. -/
inductive FlatKind where
  | root
  | block
  | function (name : String) (parameters : List String)
  | classDef (name : String) (bases : List String)
  /-- A branch, and whether it continues the chain in the frame around it. -/
  | branch (test : Option Expr) (continues : Bool)
  | loop (init test iterate : Option Expr)
  | foreach (name : String) (source : Expr)

/-- An open brace or the root: the statements read in it, the chain that may still go on in it, and
its line. -/
structure FlatFrame where
  kind : FlatKind
  statements : List Stmt
  pending : Option Chain
  line : Line

/-- A partly read script in one record. -/
structure FlatReader where
  state : ReaderState
  buffer : List PlacedToken
  clauses : List (List PlacedToken)
  /-- The number of open brackets. -/
  depth : Nat
  name : Option String
  parameters : List String
  bases : List String
  needsComma : Bool
  /-- Whether the parenthesis of a header has been opened, or that of a parameter list closed. -/
  opened : Bool
  /-- The frame of a header that has been read to its end. -/
  header : Option FlatKind
  continues : Bool
  /-- The word that names the construct in errors. -/
  construct : String
  /-- The variable that the line at hand defines. -/
  defining : Option String
  start : Line
  /-- The line of the last token. -/
  line : Line
  /-- The root and the open braces, the innermost first. -/
  frames : List FlatFrame
  /-- The complete top-level statements that have not been taken. -/
  ready : List Stmt

namespace FlatReader

/-- What a record that makes no sense leads to. -/
inductive Fault where
  /-- There is no innermost frame. -/
  | noFrame
  /-- A bracket is closed at depth zero. -/
  | belowZero
  /-- The root is closed. -/
  | rootClosed
  /-- There is no frame to close, though there was more than one. -/
  | frameMissing
  /-- A branch continues a chain that is not there. -/
  | chainMissing

/-- Why a call stops: the token is refused, or the record makes no sense. -/
inductive Stop where
  | refused (e : SyntaxError)
  | fault (f : Fault)

/-- A reader after a call that was not stopped. -/
abbrev Result := Except Stop FlatReader

/-- The token was refused. -/
def refuse {α : Type} (e : SyntaxError) : Except Stop α := .error (.refused e)

/-- The token was refused where it stood. -/
def refuseToken {α : Type} (t : PlacedToken) : Except Stop α :=
  refuse (.unexpectedToken t.token.text t.line)

/-- The reader before the first token. -/
def new : FlatReader where
  state := .between
  buffer := []
  clauses := []
  depth := 0
  name := none
  parameters := []
  bases := []
  needsComma := false
  opened := false
  header := none
  continues := false
  construct := ""
  defining := none
  start := 0
  line := 0
  frames := [⟨.root, [], none, 0⟩]
  ready := []

/-- Whether nothing is partly read or held back. -/
def isIdle (r : FlatReader) : Bool :=
  match r.state, r.frames with
  | .between, [f] => f.pending.isNone
  | _, _ => false

/-- The complete statements, and the reader without them. -/
def takeReady (r : FlatReader) : List Stmt × FlatReader := (r.ready, { r with ready := [] })

/-! ## Frames -/

/-- The innermost frame. -/
def top (r : FlatReader) : Except Stop FlatFrame :=
  match r.frames with
  | [] => .error (.fault .noFrame)
  | f :: _ => .ok f

/-- The reader with another innermost frame. -/
def setTop (r : FlatReader) (f : FlatFrame) : FlatReader := { r with frames := f :: r.frames.tail }

/-- The reader with one more statement in the innermost frame. -/
def emit (r : FlatReader) (s : Stmt) : Result :=
  if r.frames.length = 1 then .ok { r with ready := r.ready ++ [s] }
  else do
    let f ← r.top
    return r.setTop { f with statements := f.statements ++ [s] }

/-- The reader in which the chain of the innermost frame is complete. -/
def closePending (r : FlatReader) : Result := do
  let f ← r.top
  match f.pending with
  | none => return r
  | some c => (r.setTop { f with pending := none }).emit (.choice c.branches c.line)

/-- The reader at the start of a construct. -/
def begun (r : FlatReader) (state : ReaderState) (start : Line) : FlatReader :=
  { r with
    state, start
    buffer := []
    clauses := []
    depth := 0
    name := none
    parameters := []
    bases := []
    needsComma := false
    opened := false
    header := none
    defining := none }

/-- The reader inside a new brace. -/
def openFrame (r : FlatReader) (kind : FlatKind) : FlatReader :=
  { r with state := .between, frames := ⟨kind, [], none, r.start⟩ :: r.frames }

/-- What a closed brace has completed, put into the frame around it. -/
def closed (r : FlatReader) (f : FlatFrame) : Result :=
  match f.kind with
  | .root => .error (.fault .rootClosed)
  | .block => r.emit (.block f.statements f.line)
  | .function name parameters => r.emit (.function name parameters f.statements f.line)
  | .classDef name bases => r.emit (.classDef name bases f.statements f.line)
  | .loop init test iterate => r.emit (.loop init test iterate f.statements f.line)
  | .foreach name source => r.emit (.foreach name source f.statements f.line)
  | .branch test continues => do
    let branch := Branch.mk test f.statements f.line
    let parent ← r.top
    let chain ←
      if continues then
        match parent.pending with
        | none => .error (.fault .chainMissing)
        | some c => .ok { c with branches := c.branches ++ [branch] }
      else .ok ⟨[branch], f.line⟩
    let r := r.setTop { parent with pending := some chain }
    if test.isNone then r.closePending else return r

/-- A closing brace. -/
def closeFrame (r : FlatReader) (line : Line) : Result :=
  if r.frames.length = 1 then refuse (.unbalancedBrace line)
  else do
    let r ← r.closePending
    match r.frames with
    | [] => .error (.fault .frameMissing)
    | f :: outer => closed { r with state := .between, frames := outer } f

/-! ## Lines -/

/-- What a token of a line was for. -/
inductive Collected where
  | more
  | semicolon
  | closeBrace

/-- A token of a line, and whether the line ends at it. -/
def collect (r : FlatReader) (t : PlacedToken) : Except Stop (Collected × FlatReader) :=
  let push (r : FlatReader) : Except Stop (Collected × FlatReader) :=
    .ok (.more, { r with buffer := r.buffer ++ [t] })
  match t.token with
  | .mark .leftParen | .mark .leftBracket => push { r with depth := r.depth + 1 }
  | .mark .rightParen | .mark .rightBracket =>
    if r.depth = 0 then refuseToken t else push { r with depth := r.depth - 1 }
  | .mark .semicolon => if r.depth = 0 then .ok (.semicolon, r) else refuseToken t
  | .mark .rightBrace => if r.depth = 0 then .ok (.closeBrace, r) else refuseToken t
  | .mark .leftBrace => refuseToken t
  | _ => push r

/-- The end of a line. -/
def completeLine (r : FlatReader) (line : Line) : Result := do
  let value ← (StatementReader.expr? r.buffer).mapError .refused
  let r := { r with buffer := [], depth := 0 }
  if r.state = .returnLine then
    emit { r with state := .between } (.ret value r.start)
  else
    match r.defining, value with
    | some name, some e =>
      emit { r with state := .between, defining := none } (.define name e r.start)
    | some _, none => refuse (.unexpectedToken ";" line)
    | none, some e => emit { r with state := .between } (.expr e)
    | none, none => return { r with state := .between }

/-- A token of a line, which ends at a semicolon or brace outside brackets. -/
def lineToken (r : FlatReader) (t : PlacedToken) : Result := do
  let (collected, r) ← r.collect t
  match collected with
  | .more => return r
  | .semicolon => r.completeLine t.line
  | .closeBrace => do
    let r ← r.completeLine t.line
    r.closeFrame t.line

/-! ## Definitions -/

/-- A token after `func`: the name, then an opening parenthesis. -/
def functionNameToken (r : FlatReader) (t : PlacedToken) : Result :=
  match t.token, r.name with
  | .name n, none => .ok { r with name := some n }
  | .mark .leftParen, some _ => .ok { r with state := .parameters }
  | _, _ => refuseToken t

/-- A token of a parameter list or the brace after it. -/
def parameterToken (r : FlatReader) (t : PlacedToken) : Result :=
  if r.opened then
    match t.token with
    | .mark .leftBrace =>
      .ok (openFrame { r with name := none, parameters := [] }
        (.function (r.name.getD "") r.parameters))
    | _ => refuseToken t
  else
    match t.token with
    | .name n =>
      if r.needsComma then refuseToken t
      else .ok { r with parameters := r.parameters ++ [n], needsComma := true }
    | .mark .comma => if r.needsComma then .ok { r with needsComma := false } else refuseToken t
    | .mark .rightParen =>
      if r.needsComma ∨ r.parameters = [] then .ok { r with opened := true } else refuseToken t
    | _ => refuseToken t

/-- A token after `var`. A definition without `=` can be the first operand of an expression. -/
def variableToken (r : FlatReader) (t : PlacedToken) : Result :=
  match r.name with
  | none =>
    match t.token with
    | .name n => .ok { r with name := some n }
    | _ => refuseToken t
  | some n =>
    let r := { r with name := none }
    match t.token with
    | .mark .semicolon => do
      let r ← r.emit (.expr (.define n r.start))
      return { r with state := .between }
    | .symbol .assign => .ok { r with state := .line, defining := some n }
    | _ =>
      lineToken
        { r with
          state := .line
          buffer := r.buffer ++ [⟨.keyword .varWord, r.start⟩, ⟨.name n, r.start⟩] } t

/-- The token after `class`. -/
def classNameToken (r : FlatReader) (t : PlacedToken) : Result :=
  match t.token with
  | .name n => .ok { r with state := .bases, name := some n, needsComma := true }
  | _ => refuseToken t

/-- A token of the base classes or the brace after them. -/
def baseToken (r : FlatReader) (t : PlacedToken) : Result :=
  match t.token with
  | .mark .comma => if r.needsComma then .ok { r with needsComma := false } else refuseToken t
  | .name n =>
    if r.needsComma then refuseToken t
    else .ok { r with bases := r.bases ++ [n], needsComma := true }
  | .mark .leftBrace =>
    if r.needsComma then
      .ok (openFrame { r with name := none, bases := [] } (.classDef (r.name.getD "") r.bases))
    else refuseToken t
  | _ => refuseToken t

/-- The token after `import`. -/
def importToken (r : FlatReader) (t : PlacedToken) : Result :=
  match t.token with
  | .string path => emit { r with state := .between } (.importFile path r.start)
  | _ => refuseToken t

/-! ## Headers -/

/-- The frame that the header at hand opens. -/
def headerKind (r : FlatReader) (line : Line) : Except SyntaxError FlatKind :=
  let wrongCount (expected : String) : Except SyntaxError FlatKind :=
    .error (.clauseCount r.construct expected r.clauses.length line)
  match r.state with
  | .branchHeader =>
    match r.clauses with
    | [test] => do
      let test ← Expr.ofTokens test
      return .branch (some test) r.continues
    | _ => wrongCount "1"
  | .loopHeader =>
    match r.clauses with
    | [test] => do
      let test ← StatementReader.expr? test
      return .loop none test none
    | [test, iterate] => do
      let test ← StatementReader.expr? test
      let iterate ← StatementReader.expr? iterate
      return .loop none test iterate
    | [init, test, iterate] => do
      let init ← StatementReader.expr? init
      let test ← StatementReader.expr? test
      let iterate ← StatementReader.expr? iterate
      return .loop init test iterate
    | _ => wrongCount "1 to 3"
  | _ =>
    match r.clauses with
    | [names, source] => do
      let name ← match names with
        | [⟨.name n, _⟩] => .ok n
        | [⟨.keyword .varWord, _⟩, ⟨.name n, _⟩] => .ok n
        | t :: _ => .error (.unexpectedToken t.token.text t.line)
        | [] => .error (.unexpectedToken ";" line)
      let source ← Expr.ofTokens source
      return .foreach name source
    | _ => wrongCount "2"

/-- A closing parenthesis or bracket in a header. -/
def closeBracket (r : FlatReader) (t : PlacedToken) : Result :=
  match r.depth with
  | 0 => .error (.fault .belowZero)
  | 1 =>
    if t.token = .mark .rightParen then do
      let r := { r with depth := 0, buffer := [], clauses := r.clauses ++ [r.buffer] }
      let kind ← (r.headerKind t.line).mapError .refused
      return { r with header := some kind }
    else refuseToken t
  | depth + 2 => .ok { r with depth := depth + 1, buffer := r.buffer ++ [t] }

/-- A token between the parentheses of a header. -/
def clauseToken (r : FlatReader) (t : PlacedToken) : Result :=
  match t.token with
  | .mark .leftParen | .mark .leftBracket =>
    .ok { r with depth := r.depth + 1, buffer := r.buffer ++ [t] }
  | .mark .rightParen | .mark .rightBracket => r.closeBracket t
  | .mark .semicolon =>
    if r.depth = 1 then .ok { r with buffer := [], clauses := r.clauses ++ [r.buffer] }
    else refuseToken t
  | .mark .leftBrace | .mark .rightBrace => refuseToken t
  | _ => .ok { r with buffer := r.buffer ++ [t] }

/-- A token of a header or the brace after it. -/
def headerToken (r : FlatReader) (t : PlacedToken) : Result :=
  match r.header with
  | some kind =>
    match t.token with
    | .mark .leftBrace => .ok (openFrame { r with header := none } kind)
    | _ => refuseToken t
  | none =>
    if r.opened then r.clauseToken t
    else
      match t.token with
      | .mark .leftParen => .ok { r with opened := true, depth := 1 }
      | _ => refuseToken t

/-- The token after `else`. -/
def elseToken (r : FlatReader) (t : PlacedToken) : Result :=
  match t.token with
  | .keyword .ifWord =>
    .ok { r.begun .branchHeader t.line with continues := true, construct := Keyword.ifWord.text }
  | .mark .leftBrace => .ok (r.openFrame (.branch none true))
  | _ => refuse (.expectedAfterElse t.token.text t.line)

/-! ## Calls -/

/-- The first token of a statement other than `else`, with no chain held back. -/
def startToken (r : FlatReader) (t : PlacedToken) : Result :=
  match t.token with
  | .mark .semicolon => .ok r
  | .mark .leftBrace => .ok (openFrame { r with start := t.line } .block)
  | .mark .rightBrace => r.closeFrame t.line
  | .keyword .funcWord => .ok (r.begun .functionName t.line)
  | .keyword .varWord => .ok (r.begun .variableName t.line)
  | .keyword .classWord => .ok (r.begun .className t.line)
  | .keyword .returnWord => .ok (r.begun .returnLine t.line)
  | .keyword .importWord => .ok (r.begun .importPath t.line)
  | .keyword .ifWord =>
    .ok { r.begun .branchHeader t.line with continues := false, construct := Keyword.ifWord.text }
  | .keyword .forWord => .ok { r.begun .loopHeader t.line with construct := Keyword.forWord.text }
  | .keyword .whileWord =>
    .ok { r.begun .loopHeader t.line with construct := Keyword.whileWord.text }
  | .keyword .foreachWord =>
    .ok { r.begun .foreachHeader t.line with construct := Keyword.foreachWord.text }
  | _ => (r.begun .line t.line).lineToken t

/-- A token between statements. -/
def beginToken (r : FlatReader) (t : PlacedToken) : Result :=
  if t.token = .keyword .elseWord then do
    let f ← r.top
    if f.pending.isNone then refuse (.danglingElse t.line)
    else return { r with state := .afterElse, start := t.line }
  else do
    let r ← r.closePending
    r.startToken t

/-- The reader after one more token. -/
def feed (r : FlatReader) (t : PlacedToken) : Result :=
  let r := { r with line := t.line }
  match r.state with
  | .between => r.beginToken t
  | .line | .returnLine => r.lineToken t
  | .functionName => r.functionNameToken t
  | .parameters => r.parameterToken t
  | .variableName => r.variableToken t
  | .className => r.classNameToken t
  | .bases => r.baseToken t
  | .branchHeader | .loopHeader | .foreachHeader => r.headerToken t
  | .afterElse => r.elseToken t
  | .importPath => r.importToken t

/-- The last line of the input, which needs no semicolon. -/
def lastLine (r : FlatReader) : Result :=
  match r.state with
  | .between => .ok r
  | .line | .returnLine =>
    if r.depth = 0 then r.completeLine r.line else refuse (.unexpectedEnd r.line)
  | .variableName =>
    match r.name with
    | some n => do
      let r ← emit { r with name := none } (.expr (.define n r.start))
      return { r with state := .between }
    | none => refuse (.unexpectedEnd r.line)
  | _ => refuse (.unexpectedEnd r.line)

/-- The reader at the end of the input. -/
def flush (r : FlatReader) : Result :=
  if 1 < r.frames.length then refuse (.unexpectedEnd r.line)
  else do
    let r ← r.lastLine
    r.closePending

/-- A call that a host makes on a reader. -/
inductive Call where
  | feed (t : PlacedToken)
  | flush
  | takeReady
  | reset

/-- What a host sees of a call: the error, the statements handed out, and the state of the reader
then. -/
structure Reply where
  failure : Option SyntaxError
  taken : List Stmt
  state : ReaderState
  idle : Bool

/-- The reader after a call, and what the host sees of it; an error is followed by a reset. -/
def settle : Result → Except Fault (FlatReader × Reply)
  | .ok r => .ok (r, ⟨none, [], r.state, r.isIdle⟩)
  | .error (.refused e) => .ok (new, ⟨some e, [], new.state, new.isIdle⟩)
  | .error (.fault f) => .error f

/-- The reader after a call, and what the host sees of it. -/
def answer (r : FlatReader) : Call → Except Fault (FlatReader × Reply)
  | .feed t => settle (r.feed t)
  | .flush => settle r.flush
  | .takeReady => .ok (r.takeReady.2, ⟨none, r.takeReady.1, r.state, r.isIdle⟩)
  | .reset => .ok (new, ⟨none, [], new.state, new.isIdle⟩)

/-- The reader after some calls, and what the host sees of them. -/
def run : FlatReader → List Call → Except Fault (FlatReader × List Reply)
  | r, [] => .ok (r, [])
  | r, c :: later => do
    let (next, reply) ← r.answer c
    let (last, replies) ← run next later
    return (last, reply :: replies)

/-- Whether the stack of a reader ends with the root, which stands nowhere else in it, and a bracket
is open inside a header. -/
structure Valid (r : FlatReader) : Prop where
  root : ∃ inner root, r.frames = inner ++ [root] ∧ root.kind = .root ∧ ∀ f ∈ inner, f.kind ≠ .root
  depth : r.state ∈ [.branchHeader, .loopHeader, .foreachHeader] → r.opened = true →
    r.header = none → 1 ≤ r.depth

end FlatReader

end Scriptlet
