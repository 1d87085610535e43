import Scriptlet.Text.Blank
import Scriptlet.Number.Exact

/-!
# Reading numbers

A float is a decimal with an optional point and an optional power of ten, or one of
the names of infinity and of what is not a number; it is rounded to the nearest
binary64 number. An integer is a run of digits that fits in 64 bits.
-/

namespace Scriptlet.Number

/-- The value of a run of decimal digits. -/
def digitsValue (digits : List Char) : Nat :=
  digits.foldl (fun n c => 10 * n + (c.toNat - '0'.toNat)) 0

/-- An integer that fits in 64 bits. -/
def fit (i : Int) : Option Int64 :=
  if -0x8000000000000000 ≤ i ∧ i < 0x8000000000000000 then some (Int64.ofInt i) else none

/-- A sign in front of a number, and what follows it. -/
def splitSign : List Char → Bool × List Char
  | '-' :: rest => (true, rest)
  | '+' :: rest => (false, rest)
  | rest => (false, rest)

/-- A nonempty run of digits and nothing else. -/
def unsigned? (text : List Char) : Option Nat :=
  if text ≠ [] ∧ text.all Char.isDigit then some (digitsValue text) else none

/-- An integer: an optional sign and digits, within 64 bits. -/
def int? (text : List Char) : Option Int64 :=
  let (negative, digits) := splitSign text
  (unsigned? digits).bind fun n => fit (if negative then -(n : Int) else n)

/-- The power of ten at the end of a float; no text means none. -/
def exponent? : List Char → Option Int
  | [] => some 0
  | c :: rest =>
    if c = 'e' ∨ c = 'E' then
      let (negative, digits) := splitSign rest
      (unsigned? digits).map fun n => if negative then -(n : Int) else n
    else none

/-- The number `significand * 10 ^ exponent`, rounded to nearest. -/
def ofDecimal (significand : Nat) (exponent : Int) : Float :=
  Float.ofScientific significand (exponent < 0) exponent.natAbs

/-- A decimal: digits with an optional point, at least one digit, then an optional power of ten. -/
def decimal? (text : List Char) : Option Float :=
  let whole := text.takeWhile Char.isDigit
  let afterWhole := text.dropWhile Char.isDigit
  let fraction := match afterWhole with
    | '.' :: rest => rest.takeWhile Char.isDigit
    | _ => []
  let rest := match afterWhole with
    | '.' :: rest => rest.dropWhile Char.isDigit
    | rest => rest
  if whole ++ fraction = [] then none
  else
    (exponent? rest).map fun e =>
      ofDecimal (digitsValue (whole ++ fraction)) (e - fraction.length)

/-- A float without its sign. -/
def magnitude? (text : List Char) : Option Float :=
  let word := String.ofList (text.map Char.toLower)
  if word = "inf" ∨ word = "infinity" then some (1.0 / 0.0)
  else if word = "nan" then some notNumber
  else decimal? text

/-- A float: an optional sign and a magnitude. -/
def float? (text : List Char) : Option Float :=
  let (negative, rest) := splitSign text
  (magnitude? rest).map fun x => if negative then -x else x

/-- The integer that a text stands for: an integer, else a truncated float, else zero. -/
def lossyInt (text : String) : Int64 :=
  let text := Text.trim text.toList
  (int? text).getD ((float? text).elim 0 truncate)

/-- The float that a text stands for, zero when it is none. -/
def lossyFloat (text : String) : Float :=
  (float? (Text.trim text.toList)).getD 0.0

end Scriptlet.Number
