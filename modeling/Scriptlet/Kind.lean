/-!
# Kinds of values

The order of declaration is the rank that implicit conversions climb.
-/

namespace Scriptlet

/-- The type of a value. -/
inductive Kind where
  | null | int | float | vec3 | function | pointer | string
  | array | member | list | dictionary | object
  deriving DecidableEq, Repr

/-- The place of a kind in the order of conversions. -/
def Kind.rank : Kind → Nat
  | .null => 0
  | .int => 1
  | .float => 2
  | .vec3 => 3
  | .function => 4
  | .pointer => 5
  | .string => 6
  | .array => 7
  | .member => 8
  | .list => 9
  | .dictionary => 10
  | .object => 11

/-- The higher ranked of two kinds. -/
def Kind.max (a b : Kind) : Kind := if a.rank < b.rank then b else a

/-- Whether values of a kind act as numbers. -/
def Kind.isNumberLike : Kind → Bool
  | .null | .int | .float | .vec3 => true
  | _ => false

/-- Whether typed arrays hold values of a kind. -/
def Kind.isElement : Kind → Bool
  | .int | .float | .vec3 | .function | .pointer | .string => true
  | _ => false

/-- The name of a kind in scripts and messages. -/
def Kind.name : Kind → String
  | .null => "null"
  | .int => "int"
  | .float => "float"
  | .vec3 => "vec3"
  | .function => "function"
  | .pointer => "pointer"
  | .string => "string"
  | .array => "array"
  | .member => "member"
  | .list => "list"
  | .dictionary => "dictionary"
  | .object => "class"

/-- Every kind. -/
def Kind.all : List Kind :=
  [.null, .int, .float, .vec3, .function, .pointer, .string, .array, .member, .list, .dictionary,
    .object]

/-- The kind with a name. -/
def Kind.ofName? (name : String) : Option Kind := Kind.all.find? (·.name == name)

end Scriptlet
