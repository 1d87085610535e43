import Scriptlet.Operator
import Scriptlet.Number.Layout
import Scriptlet.Text.Quoted

/-!
# Tokens

The words, marks and literals of a script, and the text that each is written with.
-/

namespace Scriptlet

/-- Reserved words. -/
inductive Keyword where
  | nullWord | funcWord | varWord | ifWord | elseWord | forWord | whileWord | foreachWord
  | classWord | returnWord | importWord
  deriving DecidableEq, Repr

/-- Every reserved word. -/
def Keyword.all : List Keyword :=
  [.nullWord, .funcWord, .varWord, .ifWord, .elseWord, .forWord, .whileWord, .foreachWord,
    .classWord, .returnWord, .importWord]

/-- The spelling of a reserved word. -/
def Keyword.text : Keyword → String
  | .nullWord => "null"
  | .funcWord => "func"
  | .varWord => "var"
  | .ifWord => "if"
  | .elseWord => "else"
  | .forWord => "for"
  | .whileWord => "while"
  | .foreachWord => "foreach"
  | .classWord => "class"
  | .returnWord => "return"
  | .importWord => "import"

/-- Brackets and separators. -/
inductive Mark where
  | leftParen | rightParen | leftBracket | rightBracket | leftBrace | rightBrace
  | comma | semicolon | dot
  deriving DecidableEq, Repr

/-- The spelling of a mark. -/
def Mark.char : Mark → Char
  | .leftParen => '('
  | .rightParen => ')'
  | .leftBracket => '['
  | .rightBracket => ']'
  | .leftBrace => '\x7b'
  | .rightBrace => '\x7d'
  | .comma => ','
  | .semicolon => ';'
  | .dot => '.'

/-- Every mark. -/
def Mark.all : List Mark :=
  [.leftParen, .rightParen, .leftBracket, .rightBracket, .leftBrace, .rightBrace, .comma,
    .semicolon, .dot]

/-- The smallest meaningful pieces of a script. -/
inductive Token where
  | int (value : Int64)
  | float (value : Float)
  | string (value : String)
  | bool (value : Bool)
  | keyword (word : Keyword)
  | name (text : String)
  | symbol (symbol : Symbol)
  | mark (mark : Mark)
  deriving DecidableEq

/-- A token with the line it was read on. -/
structure PlacedToken where
  token : Token
  line : Nat
  deriving DecidableEq

namespace Token

/-- The written form of a token. -/
def text : Token → String
  | int i => toString i.toInt
  | float x => Number.text x
  | string s => Text.Quoted.quote s
  | bool b => if b then "true" else "false"
  | keyword w => w.text
  | name n => n
  | symbol s => s.text
  | mark m => m.char.toString

/-- Whether a token is a complete value. -/
def isLiteral : Token → Bool
  | int _ | float _ | string _ | bool _ | keyword .nullWord => true
  | _ => false

/-- Whether a minus after the token belongs to the number that follows it. -/
def opensOperand : Token → Bool
  | symbol _ | keyword .returnWord => true
  | mark m =>
    match m with
    | .leftParen | .leftBracket | .leftBrace | .rightBrace | .comma | .semicolon => true
    | _ => false
  | _ => false

end Token

end Scriptlet
