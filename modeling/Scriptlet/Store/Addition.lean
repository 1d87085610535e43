import Scriptlet.Store.Arithmetic

/-!
# Addition and appending

Addition joins strings and collections and never changes an operand. Appending does the
same in the storage of its target where it can. An empty list that is added to a value
that arrays hold becomes an array.
-/

namespace Scriptlet.Store

/-- The array that begins with a value added to an empty list. -/
def seed? (s : Store) (a b : Value) : Option TypedArray :=
  match a with
  | .list l =>
    if h : b.kind.isElement = true then
      if s.list l = [] then some (.singleton b h) else none
    else none
  | _ => none

/-- The sum of two values. -/
def addition (s : Store) (a b : Value) (line : Line) : Except RuntimeError (Value × Store) := do
  if let some items := s.seed? a b then return s.newArray items
  if a.kind.isNumberLike && b.kind.isNumberLike then s.arithmetic .add a b line
  else
    let ((a, b), s) ← s.unify a b line
    match a, b with
    | .string x, .string y => return (.string (x ++ y), s)
    | .array x, .array y => return s.newArray (← (s.array x).extend (s.array y) line)
    | .list x, .list y => return s.newList (s.list x ++ s.list y)
    | .dictionary x, .dictionary y =>
      return s.newDictionary ((s.dictionary x).merge (s.dictionary y))
    | a, _ => throw (.typeError ("operator '+' is not defined for " ++ a.kind.name) line)

/-- The items that a value adds to a list. -/
def tail (s : Store) : Value → List Value
  | .list l => s.list l
  | .array a => (s.array a).items
  | v => [v]

/-- The sum of two values, made in the storage of the first one where it can hold it. -/
def append (s : Store) (target v : Value) (line : Line) :
    Except RuntimeError (Value × Store) := do
  let v ← s.resolved v line
  match target with
  | .list l =>
    match s.seed? target v with
    | some items => return s.newArray items
    | none => return (target, s.setList l (s.list l ++ s.tail v))
  | .array a =>
    match v with
    | .array b => return (target, s.setArray a (← (s.array a).extend (s.array b) line))
    | v =>
      if v.kind.isElement then return (target, s.setArray a (← (s.array a).push v line))
      else s.addition target v line
  | .dictionary d =>
    let (w, s) ← s.upconvert v .dictionary line
    match w with
    | .dictionary e =>
      return (target, s.setDictionary d ((s.dictionary d).merge (s.dictionary e)))
    | _ => s.addition target v line
  | target => s.addition target v line

end Scriptlet.Store
