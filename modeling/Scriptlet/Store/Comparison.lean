import Scriptlet.Store.Conversion
import Scriptlet.Store.Equality

/-!
# Comparison

Operands are brought to one kind first. Numbers and strings are ordered by value,
vectors by length and collections by size, but vectors and collections are equal only if
their contents are.
-/

namespace Scriptlet

/-- Whether an operator asks for equality only. -/
def BinaryOperator.isEquality (op : BinaryOperator) : Bool := op = .equal || op = .notEqual

/-- Whether an operator holds of two values in an order; none stands for values without one. -/
def BinaryOperator.holds (op : BinaryOperator) (order : Option Ordering) : Bool :=
  match op with
  | .equal => order = some .eq
  | .notEqual => order ≠ some .eq
  | .less => order = some .lt
  | .greater => order = some .gt
  | .lessEqual => order = some .lt || order = some .eq
  | .greaterEqual => order = some .gt || order = some .eq
  | _ => false

/-- The order of two floats, none if one of them is not a number. -/
def Number.order (x y : Float) : Option Ordering :=
  if x < y then some .lt else if x == y then some .eq else if y < x then some .gt else none

/-- The order of equal values, none for others. -/
def equalOrder (equal : Bool) : Option Ordering := if equal then some .eq else none

namespace Store

/-- The order that an operator sees between two values of one kind, none if it sees no answer. -/
def order? (s : Store) (op : BinaryOperator) : Value → Value → Option (Option Ordering)
  | .null, .null => some (some .eq)
  | .int i, .int j => some (some (compare i.toInt j.toInt))
  | .float x, .float y => some (Number.order x y)
  | .string a, .string b => some (some (compare a b))
  | v, w =>
    if op.isEquality then some (equalOrder (s.equal v w))
    else
      match v, w with
      | .vec3 u, .vec3 v => some (Number.order u.length v.length)
      | .array a, .array b => some (some (compare (s.array a).size (s.array b).size))
      | .list l, .list m => some (some (compare (s.list l).length (s.list m).length))
      | .dictionary d, .dictionary e =>
        some (some (compare (s.dictionary d).size (s.dictionary e).size))
      | _, _ => none

/-- A comparison of two values. Values without a common kind are merely not equal. -/
def comparison (s : Store) (op : BinaryOperator) (a b : Value) (line : Line) :
    Except RuntimeError (Value × Store) := do
  match s.unifyForCompare a b line with
  | .error (.invalidConversion source target line) =>
    if op.isEquality then return (.ofBool (op = .notEqual), s)
    else throw (.invalidConversion source target line)
  | .error e => throw e
  | .ok ((a, b), s) =>
    match s.order? op a b with
    | some order => return (.ofBool (op.holds order), s)
    | none => throw (.incomparable a.kind b.kind line)

end Store

end Scriptlet
