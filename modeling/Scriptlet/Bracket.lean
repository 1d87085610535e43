import Scriptlet.Error
import Scriptlet.Token

/-!
# Brackets and commas in a run of tokens

`findClosing` finds the bracket that closes an opening one; `splitTopLevel` cuts a run
at the commas outside all brackets. Braces are not brackets here.
-/

namespace Scriptlet

/-- The two kinds of brackets. -/
inductive Bracket where
  | round | square
  deriving DecidableEq, Repr

/-- The bracket that a token opens. -/
def Token.opens? : Token → Option Bracket
  | .mark .leftParen => some .round
  | .mark .leftBracket => some .square
  | _ => none

/-- The bracket that a token closes. -/
def Token.closes? : Token → Option Bracket
  | .mark .rightParen => some .round
  | .mark .rightBracket => some .square
  | _ => none

/-- Whether a token is a comma. -/
def Token.isComma (t : Token) : Bool := t = .mark .comma

namespace Bracket

/-- The line of the last token, zero for no tokens. -/
def lastLine (tokens : List PlacedToken) : Line := tokens.getLast?.elim 0 (·.line)

/-- The index at which the last of the open brackets is closed, counted from `index`. -/
def closingFrom (endLine : Line) (index : Nat) :
    (opened : List Bracket) → List PlacedToken → Except SyntaxError Nat
  | _, [] => .error (.unexpectedEnd endLine)
  | opened, t :: rest =>
    match t.token.opens?, t.token.closes?, opened with
    | some b, _, _ => closingFrom endLine (index + 1) (b :: opened) rest
    | none, none, _ => closingFrom endLine (index + 1) opened rest
    | none, some _, [] => .error (.unexpectedToken t.token.text t.line)
    | none, some c, b :: outer =>
      if c = b then
        if outer = [] then .ok index else closingFrom endLine (index + 1) outer rest
      else .error (.unexpectedToken t.token.text t.line)

/-- The index of the bracket that closes the one at the index `start`. -/
def findClosing (tokens : List PlacedToken) (start : Nat) : Except SyntaxError Nat :=
  closingFrom (lastLine tokens) start [] (tokens.drop start)

example : findClosing [⟨.mark .leftParen, 1⟩, ⟨.mark .rightParen, 1⟩] 0 = .ok 1 := by cbv

/-- The tokens between an opening bracket and its closing one, and those after it. -/
def group (tokens : List PlacedToken) :
    Except SyntaxError (List PlacedToken × List PlacedToken) := do
  let close ← findClosing tokens 0
  return ((tokens.take close).drop 1, tokens.drop (close + 1))

/-- The parts of a run at a bracket depth, where `part` is the part at hand, its last token
first. -/
def partsFrom (endLine : Line) : (depth : Nat) → (part : List PlacedToken) → List PlacedToken →
    Except SyntaxError (List (List PlacedToken))
  | _, part, [] => if part = [] then .error (.unexpectedToken "," endLine) else .ok [part.reverse]
  | depth, part, t :: rest =>
    if t.token.opens?.isSome then partsFrom endLine (depth + 1) (t :: part) rest
    else if t.token.closes?.isSome then partsFrom endLine (depth - 1) (t :: part) rest
    else if t.token.isComma && depth == 0 then
      if part = [] then .error (.unexpectedToken "," t.line)
      else do
        let parts ← partsFrom endLine 0 [] rest
        return part.reverse :: parts
    else partsFrom endLine depth (t :: part) rest

/-- The parts of a run between its top-level commas; an empty run has none. -/
def splitTopLevel (tokens : List PlacedToken) : Except SyntaxError (List (List PlacedToken)) :=
  if tokens = [] then .ok [] else partsFrom (lastLine tokens) 0 [] tokens

end Bracket

end Scriptlet
