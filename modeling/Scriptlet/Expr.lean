import Scriptlet.Operator
import Scriptlet.Number.Reading
import Scriptlet.TypedArray

/-!
# Expressions

Operators are calls of functions with the operator's spelling. A call remembers how
tightly it binds, so that a later operator knows whether to go around it or into it.
-/

namespace Scriptlet

/-- A typed array of values by themselves. -/
structure ConstantArray extends TypedArray where
  isScalar : ∀ v ∈ items, v.isScalar = true

/-- The array of values that share one kind and refer to nothing. -/
def ConstantArray.ofValues? (values : List Value) : Option ConstantArray :=
  match TypedArray.ofValues values 0 with
  | .ok a => if isScalar : ∀ v ∈ a.items, v.isScalar = true then some { a with isScalar } else none
  | .error _ => none

theorem ConstantArray.items_ofValues? {values : List Value} {a : ConstantArray}
    (h : ofValues? values = some a) : a.items = values := by
  unfold ofValues? at h
  split at h
  · rename_i array made
    split at h
    · cases h
      exact TypedArray.items_ofValues made
    · cases h
  · cases h

/-- Values written in a script. -/
inductive Constant where
  | null
  | int (i : Int64)
  | float (x : Float)
  | string (s : String)
  /-- A list literal whose elements are constants of one kind. -/
  | array (a : ConstantArray)

/-- A constant that is a value by itself. -/
def Constant.scalar? : Constant → Option Value
  | null => some .null
  | int i => some (.int i)
  | float x => some (.float x)
  | string s => some (.string s)
  | array _ => none

/-- Expressions. -/
inductive Expr where
  | constant (value : Constant) (line : Line)
  /-- The value of a name. -/
  | named (name : String) (line : Line)
  /-- A new variable of the current scope. -/
  | define (name : String) (line : Line)
  | call (function : String) (arguments : List Expr) (precedence : Precedence) (line : Line)
  | list (elements : List Expr) (line : Line)

namespace Expr

/-- The line of an expression. -/
def line : Expr → Line
  | constant _ line | named _ line | define _ line | call _ _ _ line | list _ line => line

/-- The constant of an expression that is one, unless it is an array. -/
def scalar? : Expr → Option Value
  | constant value _ => value.scalar?
  | _ => none

/-- Whether a call that binds with one strength takes an operator of another into its last
argument. -/
def takesIn (existing incoming : Precedence) : Bool :=
  existing.level < incoming.level || existing == .assign && incoming == .assign

mutual

/-- The tree in which an operator and its right operand follow a tree: the operator goes
down the last arguments as long as the calls there bind looser, and what it finds there
becomes its left operand. -/
def insertOperator (op : String) (operand : Expr) (line : Line) : Expr → Expr
  | call function arguments precedence callLine =>
    if takesIn precedence (.ofName op) && !arguments.isEmpty then
      call function (insertLast op operand line arguments) precedence callLine
    else
      call op [call function arguments precedence callLine, operand] (.ofName op) line
  | tree => call op [tree, operand] (.ofName op) line

/-- The arguments with an operator put into the last one. -/
def insertLast (op : String) (operand : Expr) (line : Line) : List Expr → List Expr
  | [] => []
  | [last] => [insertOperator op operand line last]
  | first :: next :: rest => first :: insertLast op operand line (next :: rest)

end

/-- The typed array of elements that are constants of one kind. -/
def collapse (elements : List Expr) : Option ConstantArray :=
  match elements.mapM scalar? with
  | none | some [] => none
  | some values => ConstantArray.ofValues? values

/-- An operator in front of an operand; a minus becomes part of a number. -/
def leading (op : Symbol) (operand : Expr) (line : Line) : Expr :=
  match op, operand with
  | .minus, constant (.int i) l =>
    match Number.fit (-i.toInt) with
    | some i => constant (.int i) l
    | none => call op.text [operand] .call line
  | .minus, constant (.float x) l => constant (.float (-x)) l
  | _, _ => call op.text [operand] .call line

/-- A tree that no operator goes into. -/
def grouped : Expr → Expr
  | call function arguments _ line => call function arguments .call line
  | tree => tree

end Expr

end Scriptlet
