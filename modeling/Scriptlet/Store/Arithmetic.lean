import Scriptlet.Store.Conversion

/-!
# Arithmetic

Operands are brought to one kind first. Integers are computed exactly and never wrap:
what does not fit in 64 bits is an error. Vectors are computed component by component.
-/

namespace Scriptlet

/-- The exact result of an operator on integers, none for operators without one. A quotient is
truncated toward zero and a remainder has the sign of the dividend. -/
def BinaryOperator.exactInt? (op : BinaryOperator) (a b : Int) : Option Int :=
  match op with
  | .add => some (a + b)
  | .sub => some (a - b)
  | .mul => some (a * b)
  | .div => some (a.tdiv b)
  | .mod => some (a.tmod b)
  | _ => none

/-- Whether the result of an operator fits in 64 bits. A remainder counts as its quotient does. -/
def BinaryOperator.fits (op : BinaryOperator) (a b : Int) : Bool :=
  op ≠ .mod || (Number.fit (a.tdiv b)).isSome

/-- An operator on integers. -/
def BinaryOperator.onInts (op : BinaryOperator) (a b : Int64) (line : Line) :
    Except RuntimeError Int64 :=
  if (op = .div ∨ op = .mod) ∧ b = 0 then .error (.divisionByZero line)
  else
    match (op.exactInt? a.toInt b.toInt).bind Number.fit with
    | some i => if op.fits a.toInt b.toInt then .ok i else .error (.overflow line)
    | none => .error (.overflow line)

/-- An operator on floats; the operators that are not named here leave a remainder. -/
def BinaryOperator.onFloats (op : BinaryOperator) (a b : Float) : Float :=
  match op with
  | .add => a + b
  | .sub => a - b
  | .mul => a * b
  | .div => a / b
  | _ => Number.remainder a b

namespace Store

/-- An operator on numbers and vectors. -/
def arithmetic (s : Store) (op : BinaryOperator) (a b : Value) (line : Line) :
    Except RuntimeError (Value × Store) := do
  let ((a, b), s) ← s.unify a b line
  match a, b with
  | .null, .null => return (.int (← op.onInts 0 0 line), s)
  | .int i, .int j => return (.int (← op.onInts i j line), s)
  | .float x, .float y => return (.float (op.onFloats x y), s)
  | .vec3 u, .vec3 v => return (.vec3 (u.zip op.onFloats v), s)
  | a, _ =>
    throw (.typeError ("operator '" ++ op.text ++ "' is not defined for " ++ a.kind.name) line)

/-- The opposite of a number or vector. -/
def negate (v : Value) (line : Line) : Except RuntimeError Value :=
  match v with
  | .null => .ok .null
  | .int i => (Number.fit (-i.toInt)).elim (.error (.overflow line)) (.ok <| .int ·)
  | .float x => .ok (.float (-x))
  | .vec3 u => .ok (.vec3 (u.map (-·)))
  | v => .error (.typeError ("cannot negate a value of type " ++ v.kind.name) line)

end Store

end Scriptlet
