import Scriptlet.Token
import Scriptlet.Error
import Scriptlet.Number.Reading

/-!
# Cutting text into tokens

`scan` reads one piece from the front of a text, the longest one that is a token; a
reserved word is not a name. `pieces` cuts a whole text, and `join` turns its pieces
into tokens: a run of digits becomes an integer, together with a minus that stands
directly in front of it where no operand has ended.
-/

namespace Scriptlet.Lexer

open Scriptlet.Text (Quoted.decode)

/-- A piece of a text: a run of digits, or a token of its own. -/
inductive Piece where
  | digits (value : Nat)
  | token (token : Token)

/-- What stands at the front of a text. -/
inductive Scan where
  | piece (piece : Piece) (rest : List Char)
  | blank (rest : List Char)
  | newline (rest : List Char)
  | fail (error : Nat → SyntaxError)

/-- Characters that separate tokens on a line. -/
def isSpace (c : Char) : Bool := c = ' ' || c = '\t' || c = '\r' || c = '\x0c'

/-- Characters that start a name. -/
def isNameStart (c : Char) : Bool := c.isAlpha || c = '_'

/-- Characters that go on with a name. -/
def isNameRest (c : Char) : Bool := c.isAlphanum || c = '_'

/-- The token that a word stands for. -/
def word (text : String) : Token :=
  if text = "true" then .bool true
  else if text = "false" then .bool false
  else match Keyword.all.find? (·.text == text) with
    | some k => .keyword k
    | none => .name text

/-- The length of a power of ten at the front of a text: a mark, an optional sign and digits. -/
def exponentLength : List Char → Nat
  | c :: rest =>
    if c = 'e' ∨ c = 'E' then
      let signLength := match rest with
        | '+' :: _ | '-' :: _ => 1
        | _ => 0
      let digits := (rest.drop signLength).takeWhile Char.isDigit
      if digits = [] then 0 else 1 + signLength + digits.length
    else 0
  | [] => 0

/-- The length of a point and digits at the front of a text. -/
def fractionLength : List Char → Nat
  | '.' :: rest =>
    let digits := rest.takeWhile Char.isDigit
    if digits = [] then 0 else 1 + digits.length
  | _ => 0

/-- A number: digits, a fraction or both, and a power of ten. -/
def scanNumber (text : List Char) : Scan :=
  let whole := (text.takeWhile Char.isDigit).length
  let fraction := fractionLength (text.drop whole)
  let power := exponentLength (text.drop (whole + fraction))
  if fraction + power = 0 then
    .piece (.digits (Number.digitsValue (text.take whole))) (text.drop whole)
  else
    let length := whole + fraction + power
    .piece (.token (.float ((Number.decimal? (text.take length)).getD 0.0))) (text.drop length)

/-- The inside of a string and what follows its closing quote. -/
def closeString : List Char → Option (List Char × List Char)
  | [] => none
  | '"' :: rest => some ([], rest)
  | '\n' :: _ => none
  | '\\' :: c :: rest =>
    if c = '\n' then none
    else (closeString rest).map fun (inside, rest) => ('\\' :: c :: inside, rest)
  | ['\\'] => none
  | c :: rest => (closeString rest).map fun (inside, rest) => (c :: inside, rest)

/-- A string, its opening quote already read. -/
def scanString (text : List Char) : Scan :=
  match closeString text with
  | some (inside, rest) => .piece (.token (.string (String.ofList (Quoted.decode inside)))) rest
  | none => .fail .unterminatedString

/-- The operator of two characters. -/
def pairSymbol? (c d : Char) : Option Symbol := Symbol.ofText? (String.ofList [c, d])

/-- An operator or a mark; the first character decides how an unknown piece is reported. -/
def scanSymbol (c : Char) (rest : List Char) : Scan :=
  match rest.head?.bind (pairSymbol? c), Symbol.ofText? c.toString,
      Mark.all.find? (·.char == c) with
  | some s, _, _ => .piece (.token (.symbol s)) (rest.drop 1)
  | none, some s, _ => .piece (.token (.symbol s)) rest
  | none, none, some m => .piece (.token (.mark m)) rest
  | none, none, none => .fail (.unexpectedToken c.toString)

/-- Whether a text starts with a number. -/
def startsNumber : List Char → Bool
  | '.' :: d :: _ => d.isDigit
  | c :: _ => c.isDigit
  | [] => false

/-- The longest piece at the front of the text `c :: rest`. -/
def scan (c : Char) (rest : List Char) : Scan :=
  if c = '\n' then .newline rest
  else if isSpace c then .blank rest
  else if startsNumber (c :: rest) then scanNumber (c :: rest)
  else if isNameStart c then
    .piece (.token (word (String.ofList (c :: rest.takeWhile isNameRest))))
      (rest.dropWhile isNameRest)
  else if c = '"' then scanString rest
  else if c = '/' ∧ rest.head? = some '/' then .blank (rest.dropWhile (· ≠ '\n'))
  else scanSymbol c rest

/-- A piece with its line, and whether it starts where the piece before it ended. -/
structure Lexeme where
  piece : Piece
  line : Line
  glued : Bool

/-- The pieces of a text up to its end or to what cannot be read; `fuel` bounds their number. -/
def pieces : (fuel : Nat) → (line : Line) → (glued : Bool) → List Char →
    List Lexeme × Option SyntaxError
  | 0, _, _, _ => ([], none)
  | _ + 1, _, _, [] => ([], none)
  | fuel + 1, line, glued, c :: rest =>
    match scan c rest with
    | .piece piece rest =>
      let (lexemes, failure) := pieces fuel line true rest
      (⟨piece, line, glued⟩ :: lexemes, failure)
    | .blank rest => pieces fuel line false rest
    | .newline rest => pieces fuel (line + 1) false rest
    | .fail error => ([], some (error line))

/-- Whether a minus after a token is part of the number that follows it. -/
def takesSign (previous : Option Token) : Bool := previous.all Token.opensOperand

/-- A piece as a token of its own. -/
def Lexeme.plain (l : Lexeme) : Except SyntaxError Token :=
  match l.piece with
  | .token t => .ok t
  | .digits n => (Number.fit n).elim (.error (.literalTooLarge l.line)) (.ok <| .int ·)

/-- A number with a minus in front of it, if the piece is one that touches the minus. -/
def Lexeme.negative? (l : Lexeme) : Option (Except SyntaxError Token) :=
  match l.glued, l.piece with
  | true, .digits n =>
    some ((Number.fit (-(n : Int))).elim (.error (.literalTooLarge l.line)) (.ok <| .int ·))
  | true, .token (.float x) => some (.ok (.float (-x)))
  | _, _ => none

/-- Whether a piece is a minus. -/
def Lexeme.isMinus (l : Lexeme) : Bool :=
  match l.piece with
  | .token (.symbol .minus) => true
  | _ => false

/-- The number that a minus and the piece after it make together. -/
def signedNumber? (previous : Option Token) (minus next : Lexeme) :
    Option (Except SyntaxError Token) :=
  if minus.isMinus && takesSign previous then next.negative? else none

/-- The tokens of the pieces after the token `previous`, then the failure that ended the text. -/
def join (failure : Option SyntaxError) :
    (previous : Option Token) → List Lexeme → Except SyntaxError (List PlacedToken)
  | _, [] => failure.elim (.ok []) .error
  | previous, l :: next :: rest =>
    match signedNumber? previous l next with
    | some number => do
      let t ← number
      let tokens ← join failure (some t) rest
      return ⟨t, l.line⟩ :: tokens
    | none => do
      let t ← l.plain
      let tokens ← join failure (some t) (next :: rest)
      return ⟨t, l.line⟩ :: tokens
  | _, [l] => do
    let t ← l.plain
    failure.elim (.ok [⟨t, l.line⟩]) .error

/-- The tokens of a text whose first line is `line`. -/
def tokenize (source : String) (line : Line) : Except SyntaxError (List PlacedToken) :=
  let text := source.toList
  let (lexemes, failure) := pieces text.length line false text
  join failure none lexemes

/-- The tokens of a text that is given by its characters. A literal is such a text by definition, so
that it can be read without decoding its bytes. -/
theorem tokenize_ofList (text : List Char) (line : Line) :
    tokenize (String.ofList text) line =
      join (pieces text.length line false text).2 none (pieces text.length line false text).1 := by
  simp only [tokenize, String.toList_ofList]

end Scriptlet.Lexer
