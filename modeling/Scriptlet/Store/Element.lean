import Scriptlet.Store.Scope
import Scriptlet.Value.Expect

/-!
# Elements of collections

A key addresses an element of a collection: an index of a list, an array or a string, a
component of a vector, a key of a dictionary, a member of a class instance. A handle is
a collection with a key; wherever a value is needed it stands for its element.
-/

namespace Scriptlet

/-- The number of handles in a value. -/
def Value.handles : Value → Nat
  | .member collection key => collection.handles + key.handles + 1
  | _ => 0

namespace Store

/-- The values in all collections and scopes. -/
def values (s : Store) : List Value :=
  s.lists.toList.flatten ++
    s.dictionaries.toList.flatMap (fun d => d.storedValues ++ d.keyValues) ++
    s.scopes.toList.flatMap (·.vars.values)

/-- The number of handles in all collections and scopes. -/
def handles (s : Store) : Nat := s.values.foldr (fun v n => v.handles + n) 0

/-- The component of a vector that a key addresses. -/
def componentPlace (settle : Value → Except RuntimeError Value) (key : Value) (line : Line) :
    Except RuntimeError Nat :=
  match key with
  | .string name => (Vec3.place? name).elim (.error (.unknownMember name .vec3 line)) .ok
  | key => do (← settle key).position 3 line

/-- The element of a collection under a key, where `settle` gives what handles stand for. -/
def elementBy (settle : Value → Except RuntimeError Value) (s : Store) (collection key : Value)
    (line : Line) : Except RuntimeError Value := do
  match ← settle collection with
  | .array a =>
    let i ← (← settle key).position (s.array a).size line
    return (s.array a).items[i]?.getD .null
  | .list l =>
    let i ← (← settle key).position (s.list l).length line
    return (s.list l)[i]?.getD .null
  | .string text =>
    let i ← (← settle key).position text.length line
    return (text.toList[i]?).elim .null Value.ofChar
  | .vec3 v =>
    let i ← componentPlace settle key line
    return (v.component? i).elim .null .float
  | .dictionary d =>
    let k ← Key.ofValue (← settle key) line
    return ((s.dictionary d).get? k).elim .null Entry.value
  | .object o =>
    let name ← key.memberName line
    (s.valueAt? o name).elim (.error (.unknownMember name .object line)) .ok
  | other => throw (.typeError ("cannot index a value of type " ++ other.kind.name) line)

/-- What a value stands for after at most `fuel` handles. -/
def settleWithin (s : Store) (line : Line) : (fuel : Nat) → Value → Except RuntimeError Value
  | fuel + 1, .member collection key => do
    let v ← s.elementBy (s.settleWithin line fuel) collection key line
    s.settleWithin line fuel v
  | _, v => .ok v

/-- What a value stands for: a handle gives way to its element as long as it is one. -/
def settle (s : Store) (line : Line) (v : Value) : Except RuntimeError Value :=
  match v with
  | .member _ _ => s.settleWithin line (s.handles + v.handles) v
  | v => .ok v

/-- The element of a collection under a key. -/
def element (s : Store) (collection key : Value) (line : Line) : Except RuntimeError Value :=
  s.elementBy (s.settle line) collection key line

/-- A value in which a handle has given way to its element. -/
def resolved (s : Store) (v : Value) (line : Line) : Except RuntimeError Value :=
  match v with
  | .member collection key => s.element collection key line
  | v => .ok v

/-! ## Entries of dictionaries -/

/-- The key of a value; a handle has the key of its element. -/
def keyOf (s : Store) (v : Value) (line : Line) : Except RuntimeError Key := do
  Key.ofValue (← s.settle line v) line

/-- The value of a dictionary under a key. -/
def entry? (s : Store) (d : Dictionary) (key : Value) (line : Line) :
    Except RuntimeError (Option Value) := do
  return (d.get? (← s.keyOf key line)).map Entry.value

/-- The dictionary with another value under a key. -/
def withEntry (s : Store) (d : Dictionary) (key v : Value) (line : Line) :
    Except RuntimeError Dictionary := do
  let key ← s.resolved key line
  return d.insert (← s.keyOf key line) ⟨key, v⟩

/-- The dictionary without a value under a key. -/
def withoutEntry (s : Store) (d : Dictionary) (key : Value) (line : Line) :
    Except RuntimeError Dictionary := do
  return d.erase (← s.keyOf key line)

/-! ## Writing -/

/-- The store with another value as the element of a collection under a key. -/
def setElement (s : Store) (collection key v : Value) (line : Line) :
    Except RuntimeError Store := do
  match ← s.settle line collection with
  | .array a =>
    let i ← (← s.settle line key).position (s.array a).size line
    return s.setArray a (← (s.array a).set i v line)
  | .list l =>
    let i ← (← s.settle line key).position (s.list l).length line
    return s.setList l ((s.list l).set i v)
  | .dictionary d => return s.setDictionary d (← s.withEntry (s.dictionary d) key v line)
  | .object o => return s.setVariable o (← key.memberName line) v
  | _ => throw (.invalidTarget line)

end Store

end Scriptlet
