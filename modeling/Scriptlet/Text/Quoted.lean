import Scriptlet.Text.Visible

/-!
# Quoted text

`encode` writes text between double quotes: quotes, backslashes and the common
controls get a backslash, and a character that does not show gets its code point.
`decode` reads the inside of a string literal, in which a backslash gives `n`, `t` and
`r` a meaning and leaves any other character as it is.
-/

namespace Scriptlet.Text.Quoted

/-- The written form of one character between quotes. -/
def escape : Char → List Char
  | '"' => ['\\', '"']
  | '\\' => ['\\', '\\']
  | '\n' => ['\\', 'n']
  | '\t' => ['\\', 't']
  | '\r' => ['\\', 'r']
  | '\x00' => ['\\', '0']
  | c => if isVisible c then [c] else '\\' :: 'u' :: '\x7b' :: Nat.toDigits 16 c.toNat ++ ['\x7d']

/-- Text between quotes. -/
def encode (text : List Char) : List Char :=
  '"' :: text.flatMap escape ++ ['"']

/-- The quoted form of a string. -/
def quote (text : String) : String := String.ofList (encode text.toList)

/-- The meaning of a character after a backslash. -/
def unescape : Char → Char
  | 'n' => '\n'
  | 't' => '\t'
  | 'r' => '\r'
  | c => c

/-- The text that the inside of a string literal stands for. -/
def decode : List Char → List Char
  | '\\' :: c :: rest => unescape c :: decode rest
  | ['\\'] => []
  | c :: rest => c :: decode rest
  | [] => []

end Scriptlet.Text.Quoted
