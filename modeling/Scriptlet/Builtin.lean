import Scriptlet.Operator

/-!
# Builtin functions

The functions that every global scope starts with, apart from the one that applies
other functions, and how many arguments each takes.
-/

namespace Scriptlet

/-- Functions of their arguments alone. -/
inductive Builtin where
  | binary (op : BinaryOperator)
  /-- Subtraction of two arguments, negation of one. -/
  | minus
  | not
  | index
  | length
  | typeName
  | assert
  | print
  | toInt
  | toFloat
  | toString
  | toVec3
  | toArray
  | toList
  | toDictionary
  | keys
  deriving DecidableEq, Repr

namespace Builtin

/-- The name of the function that applies other functions to arguments. -/
def applyName : String := "applyfunction"

/-- The name of a builtin. -/
def name : Builtin → String
  | binary op => op.text
  | minus => "-"
  | not => "!"
  | index => "listindex"
  | length => "len"
  | typeName => "typeof"
  | assert => "assert"
  | print => "print"
  | toInt => "int"
  | toFloat => "float"
  | toString => "string"
  | toVec3 => "vec3"
  | toArray => "array"
  | toList => "list"
  | toDictionary => "dictionary"
  | keys => "keys"

/-- Every builtin. -/
def all : List Builtin :=
  [binary .add, minus, binary .mul, binary .div, binary .mod, binary .equal, binary .notEqual,
    binary .less, binary .greater, binary .lessEqual, binary .greaterEqual, binary .and,
    binary .or, not, index, length, typeName, assert, print, toInt, toFloat, toString, toVec3,
    toArray, toList, toDictionary, keys]

/-- The builtin with a name. -/
def ofName? (name : String) : Option Builtin := all.find? (·.name == name)

/-- Whether every global scope starts with a function of a name. -/
def isName (name : String) : Bool := name == applyName || (ofName? name).isSome

/-- Whether a builtin takes a number of arguments. -/
def accepts : Builtin → (count : Nat) → Bool
  | binary _, n | index, n => n = 2
  | minus, n | assert, n => n = 1 || n = 2
  | toVec3, n => n = 1 || n = 3
  | toDictionary, n => n = 0 || n = 1
  | print, _ | toArray, _ | toList, _ => true
  | not, n | length, n | typeName, n | toInt, n | toFloat, n | toString, n | keys, n => n = 1

end Builtin

end Scriptlet
