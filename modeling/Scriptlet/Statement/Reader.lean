import Scriptlet.Expr.Builder
import Scriptlet.Statement

/-!
# Reading statements a token at a time

A `StatementReader` is fed one token after another and hands out top-level statements as
soon as they are complete. An `if` chain is held back until the next token shows that no
`else` follows. Open braces are frames, the innermost first, each with the statements
read in it so far. A token that cannot stand where it stands is refused, and what has
been read of the construct stays as it is.
-/

namespace Scriptlet

/-- The branches of an `if` chain that may still go on, and its line. -/
structure Chain where
  branches : List Branch
  line : Line

/-- What a closing brace completes. -/
inductive FrameKind where
  | block
  | function (name : String) (parameters : List String)
  | classDef (name : String) (bases : List String)
  /-- A branch, with the chain that it continues. -/
  | branch (test : Option Expr) (earlier : Option Chain)
  | loop (init test iterate : Option Expr)
  | foreach (name : String) (source : Expr)

/-- An open brace: the statements read in it, the chain held back in it, and its line. -/
structure Frame where
  kind : FrameKind
  statements : List Stmt
  held : Option Chain
  line : Line

/-- What a line of tokens becomes at its end. -/
inductive LineKind where
  | expr
  | initializer (name : String)
  | ret
  deriving DecidableEq

/-- The constructs with a header in parentheses. -/
inductive HeaderKind where
  /-- An `if`, with the chain that it continues. -/
  | branch (earlier : Option Chain)
  /-- A loop, with the word that starts it. -/
  | loop (word : Keyword)
  | foreach

/-- How much of a header has been read. -/
inductive HeaderStage where
  /-- Nothing: an opening parenthesis must follow. -/
  | waiting
  /-- The clauses before the last semicolon, the tokens after it, the last one first, and the
  depth of brackets. -/
  | inside (depth : Int) (buffer : List PlacedToken) (clauses : List (List PlacedToken))
  /-- All of it: an opening brace must follow. -/
  | complete (frame : FrameKind) (clauses : List (List PlacedToken))

/-- What a reader expects next; `start` is the line on which the construct began, and `buffer`
holds the tokens of a line, the last one first. -/
inductive Phase where
  | between
  | line (kind : LineKind) (buffer : List PlacedToken) (depth : Nat) (start : Line)
  | functionName (name : Option String) (start : Line)
  | parameters (name : String) (names : List String) (needsComma closed : Bool) (start : Line)
  | variableName (name : Option String) (start : Line)
  | className (start : Line)
  | bases (name : String) (names : List String) (needsComma : Bool) (start : Line)
  | afterElse (chain : Chain) (start : Line)
  | header (kind : HeaderKind) (stage : HeaderStage) (start : Line)
  | importPath (start : Line)

/-- A partly read script. -/
structure StatementReader where
  phase : Phase
  /-- The open braces, innermost first. -/
  frames : List Frame
  /-- The top-level chain that is held back. -/
  held : Option Chain
  /-- The complete top-level statements that have not been taken. -/
  ready : List Stmt
  /-- The line of the last token. -/
  line : Line

namespace StatementReader

/-- The reader before the first token. -/
def new : StatementReader := ⟨.between, [], none, [], 0⟩

instance : Inhabited StatementReader := ⟨new⟩

/-- Whether nothing is partly read or held back. -/
def isIdle (r : StatementReader) : Bool :=
  match r.phase, r.frames, r.held with
  | .between, [], none => true
  | _, _, _ => false

/-- The complete statements, and the reader without them. -/
def takeReady (r : StatementReader) : List Stmt × StatementReader :=
  (r.ready, { r with ready := [] })

/-- A reader after a token, and the error if the token was refused. -/
abbrev Step := StatementReader × Option SyntaxError

/-- The token was read. -/
def accept (r : StatementReader) : Step := (r, none)

/-- The token was refused. -/
def refuse (r : StatementReader) (e : SyntaxError) : Step := (r, some e)

/-- The token was refused where it stood. -/
def refuseToken (r : StatementReader) (t : PlacedToken) : Step :=
  r.refuse (.unexpectedToken t.token.text t.line)

/-- A second step, unless the first one failed. -/
def andThen (s : Step) (next : StatementReader → Step) : Step :=
  match s with
  | (r, none) => next r
  | (r, some e) => (r, some e)

/-- The reader in another phase. -/
def goto (r : StatementReader) (phase : Phase) : StatementReader := { r with phase }

/-- The reader with one more statement in the innermost frame. -/
def emit (r : StatementReader) (s : Stmt) : StatementReader :=
  match r.frames with
  | [] => { r with ready := r.ready ++ [s] }
  | f :: outer => { r with frames := { f with statements := f.statements ++ [s] } :: outer }

/-- The chain held back in the innermost frame. -/
def innermostHeld (r : StatementReader) : Option Chain :=
  match r.frames with
  | [] => r.held
  | f :: _ => f.held

/-- The reader that holds back a chain, or none, in the innermost frame. -/
def hold (r : StatementReader) (chain : Option Chain) : StatementReader :=
  match r.frames with
  | [] => { r with held := chain }
  | f :: outer => { r with frames := { f with held := chain } :: outer }

/-- The reader in which the chain held back in the innermost frame is complete. -/
def release (r : StatementReader) : StatementReader :=
  match r.innermostHeld with
  | none => r
  | some c => (r.hold none).emit (.choice c.branches c.line)

/-- The reader inside a new brace. -/
def openFrame (r : StatementReader) (kind : FrameKind) (start : Line) : StatementReader :=
  { r with phase := .between, frames := ⟨kind, [], none, start⟩ :: r.frames }

/-- What a closed brace has completed, put into the frame around it. -/
def closed (r : StatementReader) (f : Frame) : StatementReader :=
  match f.kind with
  | .block => r.emit (.block f.statements f.line)
  | .function name parameters => r.emit (.function name parameters f.statements f.line)
  | .classDef name bases => r.emit (.classDef name bases f.statements f.line)
  | .loop init test iterate => r.emit (.loop init test iterate f.statements f.line)
  | .foreach name source => r.emit (.foreach name source f.statements f.line)
  | .branch test earlier =>
    let branch := Branch.mk test f.statements f.line
    let chain := match earlier with
      | none => ⟨[branch], f.line⟩
      | some c => { c with branches := c.branches ++ [branch] }
    if test.isNone then r.emit (.choice chain.branches chain.line) else r.hold (some chain)

/-- A closing brace. -/
def closeFrame (r : StatementReader) (line : Line) : Step :=
  match r.release.frames with
  | [] => r.refuse (.unbalancedBrace line)
  | f :: outer => accept (closed { r.release with phase := .between, frames := outer } f)

/-! ## Lines -/

/-- The expression of a run of tokens, none for an empty run. -/
def expr? (tokens : List PlacedToken) : Except SyntaxError (Option Expr) :=
  if tokens = [] then .ok none else (Expr.ofTokens tokens).map some

/-- The end of a line of tokens, the last one of which comes first. -/
def completeLine (r : StatementReader) (kind : LineKind) (buffer : List PlacedToken)
    (start line : Line) : Step :=
  match expr? buffer.reverse, kind with
  | .error e, _ => (r.goto (.line kind [] 0 start)).refuse e
  | .ok value, .ret => accept ((r.emit (.ret value start)).goto .between)
  | .ok (some e), .initializer name => accept ((r.emit (.define name e start)).goto .between)
  | .ok none, .initializer _ =>
    (r.goto (.line .expr [] 0 start)).refuse (.unexpectedToken ";" line)
  | .ok (some e), .expr => accept ((r.emit (.expr e)).goto .between)
  | .ok none, .expr => accept (r.goto .between)

/-- A token of a line, which ends at a semicolon or brace outside brackets. -/
def lineToken (r : StatementReader) (kind : LineKind) (buffer : List PlacedToken) (depth : Nat)
    (start : Line) (t : PlacedToken) : Step :=
  let stay := r.goto (.line kind buffer depth start)
  let collect (depth : Nat) : Step := accept (r.goto (.line kind (t :: buffer) depth start))
  match t.token with
  | .mark .leftParen | .mark .leftBracket => collect (depth + 1)
  | .mark .rightParen | .mark .rightBracket =>
    if depth = 0 then stay.refuseToken t else collect (depth - 1)
  | .mark .semicolon =>
    if depth = 0 then r.completeLine kind buffer start t.line else stay.refuseToken t
  | .mark .rightBrace =>
    if depth = 0 then andThen (r.completeLine kind buffer start t.line) (closeFrame · t.line)
    else stay.refuseToken t
  | .mark .leftBrace => stay.refuseToken t
  | _ => collect depth

/-! ## Definitions -/

/-- A token after `func`: the name, then an opening parenthesis. -/
def functionNameToken (r : StatementReader) (name : Option String) (start : Line)
    (t : PlacedToken) : Step :=
  match name, t.token with
  | none, .name n => accept (r.goto (.functionName (some n) start))
  | some n, .mark .leftParen => accept (r.goto (.parameters n [] false false start))
  | _, _ => r.refuseToken t

/-- A token of a parameter list or the brace after it. -/
def parameterToken (r : StatementReader) (name : String) (names : List String)
    (needsComma closed : Bool) (start : Line) (t : PlacedToken) : Step :=
  match closed, t.token with
  | true, .mark .leftBrace => accept (r.openFrame (.function name names) start)
  | true, _ => r.refuseToken t
  | false, .name n =>
    if needsComma then r.refuseToken t
    else accept (r.goto (.parameters name (names ++ [n]) true false start))
  | false, .mark .comma =>
    if needsComma then accept (r.goto (.parameters name names false false start))
    else r.refuseToken t
  | false, .mark .rightParen =>
    if needsComma ∨ names = [] then accept (r.goto (.parameters name names needsComma true start))
    else r.refuseToken t
  | false, _ => r.refuseToken t

/-- A token after `var`. A definition without `=` can be the first operand of an expression. -/
def variableToken (r : StatementReader) (name : Option String) (start : Line)
    (t : PlacedToken) : Step :=
  match name, t.token with
  | none, .name n => accept (r.goto (.variableName (some n) start))
  | none, _ => r.refuseToken t
  | some n, .mark .semicolon => accept ((r.emit (.expr (.define n start))).goto .between)
  | some n, .symbol .assign => accept (r.goto (.line (.initializer n) [] 0 start))
  | some n, _ =>
    r.lineToken .expr [⟨.name n, start⟩, ⟨.keyword .varWord, start⟩] 0 start t

/-- The token after `class`. -/
def classNameToken (r : StatementReader) (start : Line) (t : PlacedToken) : Step :=
  match t.token with
  | .name n => accept (r.goto (.bases n [] true start))
  | _ => r.refuseToken t

/-- A token of the base classes or the brace after them. -/
def baseToken (r : StatementReader) (name : String) (names : List String) (needsComma : Bool)
    (start : Line) (t : PlacedToken) : Step :=
  match needsComma, t.token with
  | true, .mark .comma => accept (r.goto (.bases name names false start))
  | true, .mark .leftBrace => accept (r.openFrame (.classDef name names) start)
  | false, .name n => accept (r.goto (.bases name (names ++ [n]) true start))
  | _, _ => r.refuseToken t

/-- The token after `import`. -/
def importToken (r : StatementReader) (start : Line) (t : PlacedToken) : Step :=
  match t.token with
  | .string path => accept ((r.emit (.importFile path start)).goto .between)
  | _ => r.refuseToken t

/-! ## Headers -/

/-- The word that names a construct with a header. -/
def HeaderKind.word : HeaderKind → Keyword
  | .branch _ => .ifWord
  | .loop word => word
  | .foreach => .foreachWord

/-- The frame that a header with these clauses opens. -/
def headerFrame (kind : HeaderKind) (clauses : List (List PlacedToken)) (line : Line) :
    Except SyntaxError FrameKind :=
  let wrongCount (expected : String) : Except SyntaxError FrameKind :=
    .error (.clauseCount (HeaderKind.word kind).text expected clauses.length line)
  match kind, clauses with
  | .branch earlier, [test] => do
    let test ← Expr.ofTokens test
    return .branch (some test) earlier
  | .branch _, _ => wrongCount "1"
  | .loop _, [test] => do
    let test ← expr? test
    return .loop none test none
  | .loop _, [test, iterate] => do
    let test ← expr? test
    let iterate ← expr? iterate
    return .loop none test iterate
  | .loop _, [init, test, iterate] => do
    let init ← expr? init
    let test ← expr? test
    let iterate ← expr? iterate
    return .loop init test iterate
  | .loop _, _ => wrongCount "1 to 3"
  | .foreach, [names, source] => do
    let name ← match names with
      | [⟨.name n, _⟩] => .ok n
      | [⟨.keyword .varWord, _⟩, ⟨.name n, _⟩] => .ok n
      | t :: _ => .error (.unexpectedToken t.token.text t.line)
      | [] => .error (.unexpectedToken ";" line)
    let source ← Expr.ofTokens source
    return .foreach name source
  | .foreach, _ => wrongCount "2"

/-- The end of a header. -/
def completeHeader (r : StatementReader) (kind : HeaderKind)
    (clauses : List (List PlacedToken)) (start line : Line) : Step :=
  match headerFrame kind clauses line with
  | .ok frame => accept (r.goto (.header kind (.complete frame clauses) start))
  | .error e => (r.goto (.header kind (.inside 0 [] clauses) start)).refuse e

/-- A token between the parentheses of a header. -/
def clauseToken (r : StatementReader) (kind : HeaderKind) (depth : Int)
    (buffer : List PlacedToken) (clauses : List (List PlacedToken)) (start : Line)
    (t : PlacedToken) : Step :=
  let collect (depth : Int) : Step :=
    accept (r.goto (.header kind (.inside depth (t :: buffer) clauses) start))
  match t.token with
  | .mark .leftParen | .mark .leftBracket => collect (depth + 1)
  | .mark .rightParen =>
    if depth = 1 then r.completeHeader kind (clauses ++ [buffer.reverse]) start t.line
    else collect (depth - 1)
  | .mark .rightBracket =>
    if depth = 1 then (r.goto (.header kind (.inside 0 buffer clauses) start)).refuseToken t
    else collect (depth - 1)
  | .mark .semicolon =>
    if depth = 1 then
      accept (r.goto (.header kind (.inside 1 [] (clauses ++ [buffer.reverse])) start))
    else r.refuseToken t
  | .mark .leftBrace | .mark .rightBrace => r.refuseToken t
  | _ => collect depth

/-- A token of a header or the brace after it. -/
def headerToken (r : StatementReader) (kind : HeaderKind) (stage : HeaderStage) (start : Line)
    (t : PlacedToken) : Step :=
  match stage, t.token with
  | .waiting, .mark .leftParen => accept (r.goto (.header kind (.inside 1 [] []) start))
  | .waiting, _ => r.refuseToken t
  | .inside depth buffer clauses, _ => r.clauseToken kind depth buffer clauses start t
  | .complete frame _, .mark .leftBrace => accept (r.openFrame frame start)
  | .complete _ clauses, _ =>
    (r.goto (.header kind (.inside 0 [] clauses) start)).refuseToken t

/-- The token after `else`. -/
def elseToken (r : StatementReader) (chain : Chain) (start : Line) (t : PlacedToken) : Step :=
  match t.token with
  | .keyword .ifWord => accept (r.goto (.header (.branch (some chain)) .waiting t.line))
  | .mark .leftBrace => accept (r.openFrame (.branch none (some chain)) start)
  | _ => r.refuse (.expectedAfterElse t.token.text t.line)

/-! ## Between statements -/

/-- The first token of a statement other than `else`, with no chain held back. -/
def startToken (r : StatementReader) (t : PlacedToken) : Step :=
  match t.token with
  | .mark .semicolon => r.accept
  | .mark .leftBrace => accept (r.openFrame .block t.line)
  | .mark .rightBrace => r.closeFrame t.line
  | .keyword .funcWord => accept (r.goto (.functionName none t.line))
  | .keyword .varWord => accept (r.goto (.variableName none t.line))
  | .keyword .classWord => accept (r.goto (.className t.line))
  | .keyword .returnWord => accept (r.goto (.line .ret [] 0 t.line))
  | .keyword .importWord => accept (r.goto (.importPath t.line))
  | .keyword .ifWord => accept (r.goto (.header (.branch none) .waiting t.line))
  | .keyword .forWord => accept (r.goto (.header (.loop .forWord) .waiting t.line))
  | .keyword .whileWord => accept (r.goto (.header (.loop .whileWord) .waiting t.line))
  | .keyword .foreachWord => accept (r.goto (.header .foreach .waiting t.line))
  | _ => r.lineToken .expr [] 0 t.line t

/-- A token between statements. -/
def beginToken (r : StatementReader) (t : PlacedToken) : Step :=
  match t.token, r.innermostHeld with
  | .keyword .elseWord, some chain => accept ((r.hold none).goto (.afterElse chain t.line))
  | .keyword .elseWord, none => r.refuse (.danglingElse t.line)
  | _, _ => r.release.startToken t

/-- The reader after one more token. -/
def feed (r : StatementReader) (t : PlacedToken) : Step :=
  let r := { r with line := t.line }
  match r.phase with
  | .between => r.beginToken t
  | .line kind buffer depth start => r.lineToken kind buffer depth start t
  | .functionName name start => r.functionNameToken name start t
  | .parameters name names needsComma closed start =>
    r.parameterToken name names needsComma closed start t
  | .variableName name start => r.variableToken name start t
  | .className start => r.classNameToken start t
  | .bases name names needsComma start => r.baseToken name names needsComma start t
  | .afterElse chain start => r.elseToken chain start t
  | .header kind stage start => r.headerToken kind stage start t
  | .importPath start => r.importToken start t

/-- The reader at the end of the input, which completes a last line without a semicolon. -/
def flush (r : StatementReader) : Step :=
  match r.frames, r.phase with
  | [], .between => accept r.release
  | [], .line kind buffer 0 start =>
    andThen (r.completeLine kind buffer start r.line) fun r => accept r.release
  | [], .variableName (some n) start =>
    accept ((r.emit (.expr (.define n start))).goto .between).release
  | _, _ => r.refuse (.unexpectedEnd r.line)

/-- The statements of a whole run of tokens, or those before a refused token and its error. -/
def readAll : StatementReader → List PlacedToken → List Stmt × Option SyntaxError
  | r, [] =>
    match r.flush with
    | (r, none) => (r.ready, none)
    | (_, some e) => ([], some e)
  | r, t :: rest =>
    match r.feed t with
    | (r, none) =>
      let (later, failure) := readAll r.takeReady.2 rest
      (r.ready ++ later, failure)
    | (_, some e) => ([], some e)

end StatementReader

end Scriptlet
