import Scriptlet.Store.Addition
import Scriptlet.Store.Comparison

/-!
# Operators

What an operator gives for its operands. An operand that is a handle counts as its
element. Both operands of `&&` and `||` are values already, so neither is left out.
-/

namespace Scriptlet.Store

/-- The value of a binary operator. -/
def binary (s : Store) (op : BinaryOperator) (a b : Value) (line : Line) :
    Except RuntimeError (Value × Store) := do
  let a ← s.resolved a line
  let b ← s.resolved b line
  match op with
  | .add => s.addition a b line
  | .sub | .mul | .div | .mod => s.arithmetic op a b line
  | .equal | .notEqual | .less | .greater | .lessEqual | .greaterEqual => s.comparison op a b line
  | .and => return (.ofBool (s.truthy a && s.truthy b), s)
  | .or => return (.ofBool (s.truthy a || s.truthy b), s)

/-- The value of a unary operator. -/
def unary (s : Store) (op : UnaryOperator) (v : Value) (line : Line) :
    Except RuntimeError Value := do
  let v ← s.resolved v line
  match op with
  | .not => return .ofBool !(s.truthy v)
  | .negate => negate v line

end Scriptlet.Store
