import Scriptlet.Store.Conversion

/-!
# Places

Where an assignment writes to. A component of a vector is written by writing the whole
vector back to where it is stored.
-/

namespace Scriptlet

/-- What an assignment can name. -/
inductive Place where
  /-- A variable at the level of a scope. -/
  | named (scope : ScopeRef) (name : String)
  | element (collection key : Value)
  /-- A component of the vector at another place. -/
  | component (container : Place) (index : Nat)
  /-- A computed value, into which one can only index. -/
  | temporary (v : Value)

namespace Place

/-- The values that a place refers to. -/
def values : Place → List Value
  | named r _ => [.object r]
  | element collection key => [collection, key]
  | component container _ => container.values
  | temporary v => [v]

/-- A value that must be a vector. -/
def expectVec3 (v : Value) (line : Line) : Except RuntimeError Vec3 :=
  match v with
  | .vec3 u => .ok u
  | v => .error (.typeError ("expected a vec3, found " ++ v.kind.name) line)

/-- The value at a place. -/
def read (s : Store) (line : Line) : Place → Except RuntimeError Value
  | named r name => .ok ((s.variableAt? r name).getD .null)
  | element collection key => s.element collection key line
  | component container i => do
    let u ← expectVec3 (← container.read s line) line
    return (u.component? i).elim .null .float
  | temporary v => .ok v

/-- The store with another value at a place. -/
def write (s : Store) (v : Value) (line : Line) : Place → Except RuntimeError Store
  | named r name => .ok (s.setVariable r name v)
  | element collection key => s.setElement collection key v line
  | component container i => do
    let u ← expectVec3 (← container.read s line) line
    let x := s.lossyFloat (← s.settle line v)
    match u.withComponent? x i with
    | some u => container.write s (.vec3 u) line
    | none => throw (.indexOutOfBounds 3 3 line)
  | temporary _ => .error (.invalidTarget line)

/-- The place of an element of the value at a place. -/
def indexed (s : Store) (container : Place) (key : Value) (line : Line) :
    Except RuntimeError Place := do
  match ← container.read s line with
  | .vec3 _ => return .component container (← Store.componentPlace (s.settle line) key line)
  | collection => return .element collection key

end Place

end Scriptlet
