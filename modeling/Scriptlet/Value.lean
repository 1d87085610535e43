import Scriptlet.Kind
import Scriptlet.Vec3

/-!
# Values

Scalars are values by themselves. Collections, functions and class instances live in
a store, and a value only refers to them, so that copies of the value share them.
-/

namespace Scriptlet

/-- A list in the store. -/
structure ListRef where
  index : Nat
  deriving DecidableEq, Repr

/-- A typed array in the store. -/
structure ArrayRef where
  index : Nat
  deriving DecidableEq, Repr

/-- A dictionary in the store. -/
structure DictionaryRef where
  index : Nat
  deriving DecidableEq, Repr

/-- A function in the store. -/
structure FunctionRef where
  index : Nat
  deriving DecidableEq, Repr

/-- A scope in the store. -/
structure ScopeRef where
  index : Nat
  deriving DecidableEq, Repr

/-- An opaque object of the host, known by the label the host gave it. -/
structure HostPointer where
  label : String
  deriving DecidableEq, Repr

/-- What expressions evaluate to. -/
inductive Value where
  | null
  | int (i : Int64)
  | float (x : Float)
  | vec3 (v : Vec3)
  | function (f : FunctionRef)
  | pointer (p : HostPointer)
  | string (s : String)
  | array (a : ArrayRef)
  /-- A handle to the element of a collection under a key. -/
  | member (collection key : Value)
  | list (l : ListRef)
  | dictionary (d : DictionaryRef)
  /-- A class instance: the scope that holds its members. -/
  | object (members : ScopeRef)
  deriving DecidableEq, Inhabited

namespace Value

/-- The kind of a value. -/
def kind : Value → Kind
  | null => .null
  | int _ => .int
  | float _ => .float
  | vec3 _ => .vec3
  | function _ => .function
  | pointer _ => .pointer
  | string _ => .string
  | array _ => .array
  | member _ _ => .member
  | list _ => .list
  | dictionary _ => .dictionary
  | object _ => .object

/-- Whether a value refers to nothing in the store. -/
def isScalar : Value → Bool
  | null | int _ | float _ | vec3 _ | string _ | pointer _ => true
  | _ => false

/-- The integer that stands for a truth value. -/
def ofBool (b : Bool) : Value := int (if b then 1 else 0)

/-- The length of a collection as a value. -/
def ofLength (n : Nat) : Value := int (Int64.ofNat n)

/-- A string of one character. -/
def ofChar (c : Char) : Value := string c.toString

/-- A number-like value as one of a number-like kind of higher rank. -/
def widen? : Value → Kind → Option Value
  | null, .int => some (int 0)
  | null, .float => some (float 0.0)
  | null, .vec3 => some (vec3 .zero)
  | int i, .float => some (float (Number.ofInt i))
  | int i, .vec3 => some (vec3 (.splat (Number.ofInt i)))
  | float x, .vec3 => some (vec3 (.splat x))
  | _, _ => none

theorem kind_widen? {v w : Value} {k : Kind} (h : v.widen? k = some w) : w.kind = k := by
  unfold widen? at h
  split at h <;> simp_all [kind] <;> subst h <;> rfl

end Value

end Scriptlet
