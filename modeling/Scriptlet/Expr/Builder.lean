import Scriptlet.Bracket
import Scriptlet.Expr
import Scriptlet.Number.Reading

/-!
# Expressions from tokens

An operand is a literal, a name, a call, a group or a list with what trails it, or an
operator in front of an operand. A run of tokens is operands with binary operators
between them, each of which is put into the tree built so far.
-/

namespace Scriptlet.Expr

open Scriptlet.Bracket (group splitTopLevel lastLine)

/-- The constant that a token is. -/
def literal? : Token → Option Constant
  | .int i => some (.int i)
  | .float x => some (.float x)
  | .string s => some (.string s)
  | .bool b => some (.int (if b then 1 else 0))
  | .keyword .nullWord => some .null
  | _ => none

/-- Whether an operand can start with a token. -/
def startsOperand : Token → Bool
  | .symbol s => s.isLeading
  | .name _ | .keyword .varWord | .mark .leftParen | .mark .leftBracket => true
  | t => t.isLiteral

/-- The list literal of its elements, an array where they are constants of one kind. -/
def ofElements (elements : List Expr) (line : Line) : Expr :=
  match collapse elements with
  | some a => constant (.array a) line
  | none => list elements line

mutual

/-- The expression that a whole run of tokens is. -/
def build : (fuel : Nat) → List PlacedToken → Except SyntaxError Expr
  | 0, _ => .error (.unexpectedEnd 0)
  | fuel + 1, tokens => do
    let (first, rest) ← operand fuel (lastLine tokens) tokens
    operators fuel (lastLine tokens) first rest

/-- The expression made of a tree and the operators and operands that follow it. -/
def operators : (fuel : Nat) → (endLine : Line) → Expr → List PlacedToken →
    Except SyntaxError Expr
  | 0, _, _, _ => .error (.unexpectedEnd 0)
  | _ + 1, _, tree, [] => .ok tree
  | fuel + 1, endLine, tree, t :: rest =>
    match t.token with
    | .symbol s =>
      if s.isBinary then do
        let (right, rest) ← operand fuel endLine rest
        operators fuel endLine (insertOperator s.text right t.line tree) rest
      else .error (.missingSeparator s.text t.line)
    | token =>
      if startsOperand token then .error (.missingSeparator token.text t.line)
      else .error (.unexpectedToken token.text t.line)

/-- The operand at the front of a run, and the tokens after it. -/
def operand : (fuel : Nat) → (endLine : Line) → List PlacedToken →
    Except SyntaxError (Expr × List PlacedToken)
  | 0, _, _ => .error (.unexpectedEnd 0)
  | _ + 1, endLine, [] => .error (.unexpectedEnd endLine)
  | fuel + 1, endLine, t :: rest =>
    match t.token with
    | .symbol s =>
      if s.isLeading then do
        let (inner, rest) ← operand fuel endLine rest
        return (leading s inner t.line, rest)
      else .error (.unexpectedToken s.text t.line)
    | .keyword .varWord =>
      match rest with
      | ⟨.name name, _⟩ :: rest => trailing fuel (define name t.line) rest
      | other :: _ => .error (.unexpectedToken other.token.text other.line)
      | [] => .error (.unexpectedEnd t.line)
    | .name name =>
      match rest with
      | ⟨.mark .leftParen, _⟩ :: _ => do
        let (inside, rest) ← group rest
        let arguments ← parts fuel inside
        trailing fuel (call name arguments .call t.line) rest
      | _ => trailing fuel (named name t.line) rest
    | .mark .leftParen => do
      let (inside, rest) ← group (t :: rest)
      let tree ← build fuel inside
      trailing fuel tree.grouped rest
    | .mark .leftBracket => do
      let (inside, rest) ← group (t :: rest)
      let elements ← parts fuel inside
      trailing fuel (ofElements elements t.line) rest
    | token =>
      match literal? token with
      | some value => trailing fuel (constant value t.line) rest
      | none => .error (.unexpectedToken token.text t.line)

/-- An operand with the calls, indices, members and steps that trail it. -/
def trailing : (fuel : Nat) → Expr → List PlacedToken →
    Except SyntaxError (Expr × List PlacedToken)
  | 0, _, _ => .error (.unexpectedEnd 0)
  | _ + 1, tree, [] => .ok (tree, [])
  | fuel + 1, tree, t :: rest =>
    match t.token with
    | .mark .leftParen => do
      let (inside, rest) ← group (t :: rest)
      let arguments ← parts fuel inside
      trailing fuel (call "applyfunction" (tree :: arguments) .call t.line) rest
    | .mark .leftBracket => do
      let (inside, rest) ← group (t :: rest)
      let index ← build fuel inside
      trailing fuel (call "listindex" [tree, index] .call t.line) rest
    | .mark .dot =>
      match rest with
      | ⟨.name name, _⟩ :: rest =>
        let member := constant (.string name) t.line
        match rest with
        | ⟨.mark .leftParen, _⟩ :: _ => do
          let (inside, rest) ← group rest
          let arguments ← parts fuel inside
          trailing fuel (call "applyfunction" (member :: tree :: arguments) .call t.line) rest
        | _ => trailing fuel (call "listindex" [tree, member] .call t.line) rest
      | other :: _ => .error (.unexpectedToken other.token.text other.line)
      | [] => .error (.unexpectedEnd t.line)
    | .symbol s =>
      if s.isTrailing then trailing fuel (call s.text [tree] .call t.line) rest
      else .ok (tree, t :: rest)
    | _ => .ok (tree, t :: rest)

/-- The expressions between the top-level commas of a run. -/
def parts : (fuel : Nat) → List PlacedToken → Except SyntaxError (List Expr)
  | 0, _ => .error (.unexpectedEnd 0)
  | fuel + 1, tokens => do
    let runs ← splitTopLevel tokens
    runs.mapM (build fuel)

end

/-- The expression of a run of tokens; each step of the builder uses up tokens or enters a
bracket. -/
def ofTokens (tokens : List PlacedToken) : Except SyntaxError Expr :=
  build (3 * tokens.length + 3) tokens

end Scriptlet.Expr
