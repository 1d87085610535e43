import Scriptlet.Error
import Scriptlet.Value

/-!
# Typed arrays

All elements of an array have one kind. Numbers of a lower rank widen on their way in;
an empty array takes on the kind of what is pushed onto it.
-/

namespace Scriptlet

/-- Values of one kind that arrays can hold. -/
structure TypedArray where
  element : Kind
  items : List Value
  isElement : element.isElement = true
  uniform : ∀ v ∈ items, v.kind = element

namespace TypedArray

/-- The array without elements of a kind. -/
def emptyOf (element : Kind) (isElement : element.isElement = true) : TypedArray :=
  ⟨element, [], isElement, by simp⟩

/-- The array without elements that nothing has been pushed onto. -/
def empty : TypedArray := emptyOf .int rfl

instance : Inhabited TypedArray := ⟨empty⟩

/-- The array of one value. -/
def singleton (v : Value) (isElement : v.kind.isElement = true) : TypedArray :=
  ⟨v.kind, [v], isElement, by simp⟩

/-- The number of elements. -/
def size (a : TypedArray) : Nat := a.items.length

/-- Whether there are no elements. -/
def isEmpty (a : TypedArray) : Bool := a.items.isEmpty

/-- The array of values that share one kind that arrays can hold. -/
def ofValues (values : List Value) (line : Line) : Except RuntimeError TypedArray :=
  match values with
  | [] => .ok empty
  | first :: _ =>
    if isElement : first.kind.isElement = true then
      if uniform : ∀ v ∈ values, v.kind = first.kind then
        .ok ⟨first.kind, values, isElement, uniform⟩
      else
        let second := (values.map Value.kind).find? (· ≠ first.kind)
        .error (.heterogeneousArray first.kind (second.getD first.kind) line)
    else .error (.invalidConversion first.kind .array line)

theorem items_ofValues {values : List Value} {line : Line} {a : TypedArray}
    (h : ofValues values line = .ok a) : a.items = values := by
  unfold ofValues at h
  split at h
  · cases h
    rfl
  · split at h
    · split at h
      · cases h
        rfl
      · cases h
    · cases h

/-- A value as an element of an array: it has the kind of the elements or widens into it. -/
def adopt (a : TypedArray) (v : Value) (line : Line) :
    Except RuntimeError { w : Value // w.kind = a.element } :=
  if same : v.kind = a.element then .ok ⟨v, same⟩
  else
    match h : v.widen? a.element with
    | some w => .ok ⟨w, Value.kind_widen? h⟩
    | none => .error (.heterogeneousArray a.element v.kind line)

/-- The array with an adopted value at its end. -/
def append (a : TypedArray) (w : Value) (h : w.kind = a.element) : TypedArray :=
  { a with
    items := a.items ++ [w]
    uniform := by
      intro v hv
      rcases List.mem_append.1 hv with hv | hv
      · exact a.uniform v hv
      · rw [List.mem_singleton.1 hv, h] }

/-- The array with a value at its end. -/
def push (a : TypedArray) (v : Value) (line : Line) : Except RuntimeError TypedArray :=
  if a.items = [] ∧ v.kind ≠ a.element then
    if isElement : v.kind.isElement = true then .ok (singleton v isElement)
    else .error (.invalidConversion v.kind .array line)
  else do
    let ⟨w, h⟩ ← a.adopt v line
    return a.append w h

/-- The array with another value at an index. -/
def set (a : TypedArray) (index : Nat) (v : Value) (line : Line) :
    Except RuntimeError TypedArray := do
  let ⟨w, h⟩ ← a.adopt v line
  if index < a.size then
    return { a with
      items := a.items.set index w
      uniform := by
        intro u hu
        rcases List.mem_or_eq_of_mem_set hu with hu | rfl
        · exact a.uniform u hu
        · exact h }
  else throw (.indexOutOfBounds index a.size line)

/-- The array with the elements of another one at its end. -/
def extend (a other : TypedArray) (line : Line) : Except RuntimeError TypedArray :=
  if other.items = [] then .ok a
  else if a.items = [] then .ok other
  else if same : other.element = a.element then
    .ok { a with
      items := a.items ++ other.items
      uniform := by
        intro v hv
        rcases List.mem_append.1 hv with hv | hv
        · exact a.uniform v hv
        · rw [other.uniform v hv, same] }
  else .error (.heterogeneousArray a.element other.element line)

end TypedArray

end Scriptlet
