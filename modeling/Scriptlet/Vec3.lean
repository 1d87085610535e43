import Scriptlet.Number.Exact
import Scriptlet.Number.Layout

/-!
# Vectors

Vectors of three floats, on which operators act component by component.
-/

namespace Scriptlet

/-- A vector of three floats. -/
structure Vec3 where
  x : Float
  y : Float
  z : Float
  deriving DecidableEq

namespace Vec3

/-- The vector with one number in every component. -/
def splat (v : Float) : Vec3 := ⟨v, v, v⟩

/-- The zero vector. -/
def zero : Vec3 := splat 0.0

/-- The Euclidean length, with one rounding for each square after the first. -/
def length (v : Vec3) : Float :=
  (Number.mulAdd v.z v.z (Number.mulAdd v.x v.x (v.y * v.y))).sqrt

/-- The component at a place. -/
def component? (v : Vec3) : Nat → Option Float
  | 0 => some v.x
  | 1 => some v.y
  | 2 => some v.z
  | _ => none

/-- The vector with another component at a place. -/
def withComponent? (v : Vec3) (value : Float) : Nat → Option Vec3
  | 0 => some { v with x := value }
  | 1 => some { v with y := value }
  | 2 => some { v with z := value }
  | _ => none

/-- The place of a component by its name. -/
def place? (name : String) : Option Nat :=
  if name = "x" then some 0
  else if name = "y" then some 1
  else if name = "z" then some 2
  else none

/-- Whether every component is zero. -/
def isZero (v : Vec3) : Bool := v.x == 0.0 && v.y == 0.0 && v.z == 0.0

/-- Whether all components are equal as numbers. -/
def equal (a b : Vec3) : Bool := a.x == b.x && a.y == b.y && a.z == b.z

/-- An operation on each component. -/
def map (f : Float → Float) (v : Vec3) : Vec3 := ⟨f v.x, f v.y, f v.z⟩

/-- An operation on the components of two vectors. -/
def zip (f : Float → Float → Float) (a b : Vec3) : Vec3 := ⟨f a.x b.x, f a.y b.y, f a.z b.z⟩

/-- The text of a vector. -/
def text (v : Vec3) : String :=
  "(" ++ Number.text v.x ++ ", " ++ Number.text v.y ++ ", " ++ Number.text v.z ++ ")"

end Vec3

end Scriptlet
