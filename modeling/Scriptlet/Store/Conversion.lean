import Scriptlet.Store.Display

/-!
# Conversions

`upconvert` climbs the ranks of kinds and loses nothing; it is what operators apply to
bring both operands to one kind. `hardconvert` also goes down, as far as a conversion
makes sense. A handle is converted as its element.
-/

namespace Scriptlet

/-- The dictionary of items under their places. -/
def Dictionary.ofItems (items : List Value) : Dictionary :=
  items.zipIdx.foldl
    (fun d (v, i) => d.insert (.int (Int64.ofNat i)) ⟨.ofLength i, v⟩) .empty

namespace Store

/-- The number of elements of a value that has a length. -/
def length? (s : Store) : Value → Option Nat
  | .string text => some text.length
  | .array a => some (s.array a).size
  | .list l => some (s.list l).length
  | .dictionary d => some (s.dictionary d).size
  | .object o => some (s.scope o).vars.size
  | _ => none

/-- Whether a value counts as true; a handle counts as its element. -/
def truthy (s : Store) (v : Value) : Bool :=
  match s.settle 0 v with
  | .ok (.int i) => i ≠ 0
  | .ok (.float x) => x != 0.0
  | .ok (.vec3 u) => !u.isZero
  | .ok (.function _) | .ok (.pointer _) | .ok (.object _) => true
  | .ok (.string text) => !text.isEmpty
  | .ok (.array a) => !(s.array a).isEmpty
  | .ok (.list l) => !(s.list l).isEmpty
  | .ok (.dictionary d) => !(s.dictionary d).isEmpty
  | .ok .null | .ok (.member _ _) | .error _ => false

/-- A value as a value of the same or a higher kind. -/
def upconvert (s : Store) (v : Value) (target : Kind) (line : Line) :
    Except RuntimeError (Value × Store) := do
  let v ← s.settle line v
  if v.kind = target then return (v, s)
  let invalid : Except RuntimeError (Value × Store) :=
    .error (.invalidConversion v.kind target line)
  if target.rank < v.kind.rank then invalid
  else
    match v.widen? target with
    | some w => return (w, s)
    | none =>
      match v, target with
      | v, .string => return (.string (s.display v), s)
      | .null, .array => return s.newArray .empty
      | .null, .list => return s.newList []
      | .null, .dictionary => return s.newDictionary .empty
      | .array a, .list => return s.newList (s.array a).items
      | .array a, .dictionary => return s.newDictionary (.ofItems (s.array a).items)
      | .list l, .dictionary => return s.newDictionary (.ofItems (s.list l))
      | v, .array =>
        if h : v.kind.isElement = true then return s.newArray (.singleton v h) else invalid
      | v, .list => if v.kind.isElement then return s.newList [v] else invalid
      | v, .dictionary =>
        if v.kind.isElement then return s.newDictionary (.ofItems [v]) else invalid
      | _, _ => invalid

/-- Two values as values of the higher one of their kinds. -/
def unify (s : Store) (a b : Value) (line : Line) :
    Except RuntimeError ((Value × Value) × Store) := do
  let target := a.kind.max b.kind
  let (a, s) ← s.upconvert a target line
  let (b, s) ← s.upconvert b target line
  return ((a, b), s)

/-- Two values as values of one kind to compare them in: numbers compare with numbers only. -/
def unifyForCompare (s : Store) (a b : Value) (line : Line) :
    Except RuntimeError ((Value × Value) × Store) :=
  if a.kind.isNumberLike = b.kind.isNumberLike then s.unify a b line
  else .error (.incomparable a.kind b.kind line)

/-! ## Conversions that lose something -/

/-- The integer nearest to what a value says about a number. -/
def lossyInt (s : Store) : Value → Int64
  | .int i => i
  | .float x => Number.truncate x
  | .vec3 u => Number.truncate u.length
  | .function _ | .pointer _ => 1
  | .string text => Number.lossyInt text
  | v => Int64.ofNat ((s.length? v).getD 0)

/-- The float nearest to what a value says about a number. -/
def lossyFloat (s : Store) : Value → Float
  | .float x => x
  | .vec3 u => u.length
  | .string text => Number.lossyFloat text
  | v => Number.ofInt (s.lossyInt v)

/-- The vector of the first three items, zero where there are fewer. -/
def vectorOf (s : Store) (items : List Value) (line : Line) : Except RuntimeError Vec3 := do
  let parts ← (items.take 3).mapM fun v => do return s.lossyFloat (← s.settle line v)
  return ⟨parts[0]?.getD 0.0, parts[1]?.getD 0.0, parts[2]?.getD 0.0⟩

/-- A value as a vector. -/
def toVec3 (s : Store) (v : Value) (line : Line) : Except RuntimeError Vec3 :=
  match v with
  | .null | .int _ | .float _ | .string _ => .ok (.splat (s.lossyFloat v))
  | .vec3 u => .ok u
  | .array a => s.vectorOf (s.array a).items line
  | .list l => s.vectorOf (s.list l) line
  | v => .error (.invalidConversion v.kind .vec3 line)

/-- A value as a value of any kind. -/
def hardconvert (s : Store) (v : Value) (target : Kind) (line : Line) :
    Except RuntimeError (Value × Store) := do
  let v ← s.settle line v
  match target, v with
  | .null, _ => return (.null, s)
  | .int, v => return (.int (s.lossyInt v), s)
  | .float, v => return (.float (s.lossyFloat v), s)
  | .vec3, v => return (.vec3 (← s.toVec3 v line), s)
  | .string, v => return (.string (s.display v), s)
  | .array, .list l => return s.newArray (← TypedArray.ofValues (s.list l) line)
  | .array, .dictionary d =>
    let items ← TypedArray.ofValues (s.dictionary d).storedValues line
    return s.newArray items
  | .list, .dictionary d => return s.newList (s.dictionary d).storedValues
  | target, v => s.upconvert v target line

/-- A collection in storage of its own with the same contents; any other value is itself. -/
def duplicate (s : Store) (v : Value) : Value × Store :=
  match v with
  | .array a => s.newArray (s.array a)
  | .list l => s.newList (s.list l)
  | .dictionary d => s.newDictionary (s.dictionary d)
  | v => (v, s)

end Store

end Scriptlet
