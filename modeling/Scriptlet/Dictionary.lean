import Scriptlet.Error
import Scriptlet.OrderedMap
import Scriptlet.Value

/-!
# Dictionaries

A dictionary maps keys to values. The key of a value tells its kind, so that `1`, `1.0`
and `"1"` are three keys; zeros of both signs are one key, and so is all that is not a
number. The value a key was made from is kept beside the stored value.
-/

namespace Scriptlet

/-- What identifies an entry of a dictionary. -/
inductive Key where
  | null
  | int (i : Int64)
  /-- A float, by its place in the total order. -/
  | float (place : Int)
  | vec3 (x y z : Int)
  | function (f : FunctionRef)
  | pointer (p : HostPointer)
  | string (s : String)
  deriving DecidableEq

namespace Key

/-- The place of a key's kind. -/
def tag : Key → Nat
  | null => 0
  | int _ => 1
  | float _ => 2
  | vec3 _ _ _ => 3
  | function _ => 4
  | pointer _ => 5
  | string _ => 6

/-- The numbers in a key. -/
def numbers : Key → List Int
  | int i => [i.toInt]
  | float place => [place]
  | vec3 x y z => [x, y, z]
  | function f => [f.index]
  | _ => []

/-- The text in a key. -/
def text : Key → String
  | pointer p => p.label
  | string s => s
  | _ => ""

/-- Keys are ordered by kind, then by content. -/
instance : Ord Key where
  compare := compareLex (compareOn tag) (compareLex (compareOn numbers) (compareOn text))

instance : Std.TransOrd Key :=
  inferInstanceAs
    (Std.TransCmp (compareLex (compareOn tag) (compareLex (compareOn numbers) (compareOn text))))

/-- The key of a value that can be one. -/
def ofValue? : Value → Option Key
  | .null => some null
  | .int i => some (int i)
  | .float x => some (float (Number.orderIndex x))
  | .vec3 v => some (vec3 (Number.orderIndex v.x) (Number.orderIndex v.y) (Number.orderIndex v.z))
  | .function f => some (function f)
  | .pointer p => some (pointer p)
  | .string s => some (string s)
  | _ => none

/-- The key of a value, an error for values that cannot be one. -/
def ofValue (v : Value) (line : Line) : Except RuntimeError Key :=
  (ofValue? v).elim (.error (.unhashableKey v.kind line)) .ok

end Key

/-- A stored value with the value its key was made from. -/
structure Entry where
  key : Value
  value : Value
  deriving DecidableEq

/-- A map from keys to entries. -/
abbrev Dictionary := OrderedMap Key Entry

namespace Dictionary

/-- The stored values in key order. -/
def storedValues (d : Dictionary) : List Value := d.values.map (·.value)

/-- The values the keys were made from, in key order. -/
def keyValues (d : Dictionary) : List Value := d.values.map (·.key)

/-- The kind that all keys share. -/
def keyKind? (d : Dictionary) : Option Kind :=
  match d.keyValues.map Value.kind with
  | [] => none
  | first :: rest => if rest.all (· = first) then some first else none

end Dictionary

end Scriptlet
