import Scriptlet.Number.Shortest

/-!
# The text of a float

The digits are those of the shortest decimal that reads back; a layout says where
positional notation ends and how the rest is written.
-/

namespace Scriptlet.Number

open Float.Model.UnpackedFloat (Sign)

/-- How decimal digits are laid out. -/
structure Layout where
  /-- The least exponent of the leading digit that is written positionally. -/
  lowest : Int
  /-- The greatest exponent of the leading digit that is written positionally. -/
  highest : Int
  /-- What stands between a significand and its power of ten. -/
  exponentMark : String
  /-- What follows a whole number in positional notation. -/
  wholeEnd : String
  notNumber : String
  infinity : String

/-- A float always reads as a float: `5.0`, `0.0001`, `1e-5`, `1e16`. -/
def displayed : Layout where
  lowest := -4
  highest := 15
  exponentMark := "e"
  wholeEnd := ".0"
  notNumber := "NaN"
  infinity := "inf"

/-- Digits with a point after the first `whole` of them. -/
def pointed (digits : List Char) (whole : Nat) (wholeEnd : String) : String :=
  if digits.length ≤ whole then
    String.ofList (digits ++ List.replicate (whole - digits.length) '0') ++ wholeEnd
  else String.ofList (digits.take whole ++ '.' :: digits.drop whole)

/-- The text of a positive decimal. -/
def Layout.positive (l : Layout) (d : Decimal) : String :=
  let digits := Nat.toDigits 10 d.significand
  let leading : Int := d.exponent + digits.length - 1
  if l.lowest ≤ leading ∧ leading ≤ l.highest then
    if leading < 0 then
      pointed ('0' :: List.replicate (-leading - 1).toNat '0' ++ digits) 1 l.wholeEnd
    else pointed digits (leading.toNat + 1) l.wholeEnd
  else pointed digits 1 "" ++ l.exponentMark ++ toString leading

/-- A minus in front of the text of a negative number. -/
def signed : Sign → String → String
  | .positive, text => text
  | .negative, text => "-" ++ text

/-- The text of a float. -/
def Layout.text (l : Layout) (x : Float) : String :=
  match x.toModel.unpack with
  | .notANumber => l.notNumber
  | .infinity s => signed s l.infinity
  | .zero s => signed s ("0" ++ l.wholeEnd)
  | .finite s mantissa exponent _ => signed s (l.positive (shortest mantissa exponent))

/-- The text a float is displayed with. -/
def text (x : Float) : String := displayed.text x

end Scriptlet.Number
