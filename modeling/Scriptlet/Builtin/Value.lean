import Scriptlet.Builtin
import Scriptlet.Store.Operation

/-!
# Values of builtin functions

What a builtin gives for its arguments, which are no handles. Conversions to
collections always give storage of their own.
-/

namespace Scriptlet

namespace Store

/-- A collection of a kind, made from a value, in storage of its own. -/
def collectionFrom (s : Store) (v : Value) (target : Kind) (line : Line) :
    Except RuntimeError (Value × Store) := do
  let (v, s) ← s.hardconvert v target line
  return s.duplicate v

/-- The keys under which a collection has elements. -/
def keys? (s : Store) : Value → Option (List Value)
  | .dictionary d => some (s.dictionary d).keyValues
  | .object o => some ((s.scope o).vars.keys.map .string)
  | .list l => some ((List.range (s.list l).length).map .ofLength)
  | .array a => some ((List.range (s.array a).size).map .ofLength)
  | _ => none

/-- A new array of values that can share one, else a new list. -/
def newSequence (s : Store) (values : List Value) : Value × Store :=
  match TypedArray.ofValues values 0 with
  | .ok items => s.newArray items
  | .error _ => s.newList values

end Store

namespace Builtin

/-- The value of a builtin, whatever the number of its arguments. -/
def value (s : Store) (b : Builtin) (arguments : List Value) (line : Line) :
    Except RuntimeError (Value × Store) :=
  match b, arguments with
  | binary op, v :: w :: _ => s.binary op v w line
  | minus, [v] => (s.unary .negate v line).map (·, s)
  | minus, [v, w] => s.binary .sub v w line
  | not, v :: _ => (s.unary .not v line).map (·, s)
  | index, collection :: key :: _ => (s.element collection key line).map (·, s)
  | length, v :: _ =>
    match s.length? v with
    | some n => .ok (.ofLength n, s)
    | none => .error (.typeError ("a value of type " ++ v.kind.name ++ " has no length") line)
  | typeName, v :: _ => .ok (.string v.kind.name, s)
  | assert, v :: rest =>
    if s.truthy v then .ok (v, s)
    else .error (.assertionFailed (rest.head?.elim "condition was false" s.display) line)
  | print, arguments => .ok (arguments.head?.getD .null, s)
  | toInt, v :: _ => s.hardconvert v .int line
  | toFloat, v :: _ => s.hardconvert v .float line
  | toString, v :: _ => s.hardconvert v .string line
  | toVec3, [v] => s.hardconvert v .vec3 line
  | toVec3, components => (s.vectorOf components line).map (.vec3 ·, s)
  | toArray, [] => .ok (s.newArray .empty)
  | toArray, [v] => s.collectionFrom v .array line
  | toArray, values => (TypedArray.ofValues values line).map s.newArray
  | toList, [v] => s.collectionFrom v .list line
  | toList, values => .ok (s.newList values)
  | toDictionary, [] => .ok (s.newDictionary .empty)
  | toDictionary, v :: _ => s.collectionFrom v .dictionary line
  | keys, v :: _ =>
    match s.keys? v with
    | some values => .ok (s.newSequence values)
    | none => .error (.typeError ("a value of type " ++ v.kind.name ++ " has no keys") line)
  | b, arguments => .error (.argumentCount b.name arguments.length line)

/-- The value of a call of a builtin. -/
def call (s : Store) (b : Builtin) (arguments : List Value) (line : Line) :
    Except RuntimeError (Value × Store) :=
  if b.accepts arguments.length then b.value s arguments line
  else .error (.argumentCount b.name arguments.length line)

/-- What a builtin writes. -/
def output (s : Store) (b : Builtin) (arguments : List Value) : String :=
  match b with
  | print => String.intercalate " " (arguments.map s.display) ++ "\n"
  | _ => ""

end Builtin

end Scriptlet
