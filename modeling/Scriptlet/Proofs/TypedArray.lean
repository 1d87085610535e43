import Scriptlet.Proofs.InPlace
import Scriptlet.Store.Conversion

/-!
# Typed arrays in their place

An array is changed in its storage: a push may first make it an array of another kind, and only then
is the value checked, converted and stored. Nevertheless every change is all or nothing and does what
the array it gives says (`on_inPlace`). So a run of changes, in which errors stop nothing, goes from
array to array as a list of one kind of elements does.
-/

namespace Scriptlet

/-- Whether elements of a kind can be made of a value: it has the kind, or it is a number of a lower
rank and the elements are numbers. -/
def Value.Fits (v : Value) (k : Kind) : Prop :=
  v.kind = k ∨ v.kind.rank < k.rank ∧ v.kind.isNumberLike = true ∧ k.isNumberLike = true

/-- Whether a value widens into another one of a kind, in any store. -/
def Value.Widens (v : Value) (k : Kind) (w : Value) : Prop :=
  ∀ (s : Store) (line : Line), s.upconvert v k line = .ok (w, s)

namespace TypedArray

variable {a b : TypedArray} {v : Value} {line : Line}

/-! ## Storing in place -/

theorem uniform_set (a : TypedArray) (index : Nat) {w : Value} (h : w.kind = a.element) :
    ∀ u ∈ a.items.set index w, u.kind = a.element := by
  intro u member
  rcases List.mem_or_eq_of_mem_set member with member | rfl
  · exact a.uniform u member
  · exact h

/-- The array with another element at an index. -/
def replace (a : TypedArray) (index : Nat) (w : Value) (h : w.kind = a.element) : TypedArray :=
  { a with
    items := a.items.set index w
    uniform := a.uniform_set index h }

/-- Checks, converts and stores a value, at an index or at the end. -/
def storeInPlace (index : Option Nat) (v : Value) (line : Line) : InPlace TypedArray Unit := do
  let a ← get
  let ⟨w, h⟩ ← InPlace.lift (a.adopt v line)
  match index with
  | none => .write (a.append w h)
  | some i =>
    if i < a.size then .write (a.replace i w h) else throw (.indexOutOfBounds i a.size line)

/-- Makes an array without elements one of the kind of a value. -/
def adaptInPlace (v : Value) (line : Line) : InPlace TypedArray Unit := do
  let a ← get
  if a.items = [] ∧ v.kind ≠ a.element then
    if isElement : v.kind.isElement = true then .write (emptyOf v.kind isElement)
    else throw (.invalidConversion v.kind .array line)
  else pure ()

/-- Appends a value; an array without elements takes on its kind first. -/
def pushInPlace (v : Value) (line : Line) : InPlace TypedArray Unit := do
  adaptInPlace v line
  storeInPlace none v line

/-- Stores values one after another, which must have the kind of the elements. -/
def storeAll (line : Line) : List Value → InPlace TypedArray Unit
  | [] => pure ()
  | v :: rest => do
    let a ← get
    if v.kind = a.element then
      storeInPlace none v line
      storeAll line rest
    else throw (.heterogeneousArray a.element v.kind line)

/-- The array that is made by storing values one after another, each as it comes. -/
def gather (values : List Value) (line : Line) : Except RuntimeError TypedArray :=
  match values with
  | [] => .ok empty
  | first :: _ =>
    if isElement : first.kind.isElement = true then
      let ended := (storeAll line values).on (emptyOf first.kind isElement)
      ended.1.map fun _ => ended.2
    else .error (.invalidConversion first.kind .array line)

/-- A push onto an array that need not take on another kind. -/
theorem push_eq_append (stays : ¬ (a.items = [] ∧ v.kind ≠ a.element)) (line : Line) :
    a.push v line = (a.adopt v line).map fun w => a.append w.1 w.2 := by
  rw [push, if_neg stays]
  cases a.adopt v line <;> rfl

theorem on_storeInPlace_none (a : TypedArray) (v : Value) (line : Line) :
    (storeInPlace none v line).on a =
      InPlace.settled a ((a.adopt v line).map fun w => a.append w.1 w.2) := by
  rw [storeInPlace, InPlace.on_get_bind, InPlace.on_bind, InPlace.on_lift]
  cases a.adopt v line <;> rfl

/-- Replacing an element is all or nothing. -/
theorem on_storeInPlace_some (a : TypedArray) (i : Nat) (v : Value) (line : Line) :
    (storeInPlace (some i) v line).on a = InPlace.settled a (a.set i v line) := by
  rw [storeInPlace, InPlace.on_get_bind, InPlace.on_bind, InPlace.on_lift, TypedArray.set]
  cases a.adopt v line with
  | error e => rfl
  | ok w =>
    by_cases inside : i < a.size
    · simp only [inside, if_true, ok_bind]
      rfl
    · simp only [inside, if_false, ok_bind]
      rfl

/-- A value of the kind of the elements is stored as it is. -/
theorem on_storeInPlace_of_kind (same : v.kind = a.element) (line : Line) :
    (storeInPlace none v line).on a = (.ok (), a.append v same) := by
  rw [on_storeInPlace_none, adopt, dif_pos same]
  rfl

/-- A push is all or nothing: where the array has taken on another kind, storing cannot fail. -/
theorem on_pushInPlace (a : TypedArray) (v : Value) (line : Line) :
    (pushInPlace v line).on a = InPlace.settled a (a.push v line) := by
  rw [pushInPlace, InPlace.on_bind, adaptInPlace, InPlace.on_get_bind, push]
  by_cases other : a.items = [] ∧ v.kind ≠ a.element
  · rw [if_pos other, if_pos other]
    by_cases isElement : v.kind.isElement = true
    · rw [dif_pos isElement, dif_pos isElement, InPlace.on_write]
      exact on_storeInPlace_of_kind (a := emptyOf v.kind isElement) rfl line
    · rw [dif_neg isElement, dif_neg isElement]
      rfl
  · rw [if_neg other, ← push, push_eq_append other]
    exact on_storeInPlace_none a v line

/-- Values of one kind are all stored. -/
theorem on_storeAll_of_uniform {values : List Value} (uniform : ∀ v ∈ values, v.kind = a.element)
    (line : Line) : ∃ b, (storeAll line values).on a = (.ok (), b) ∧
      b.element = a.element ∧ b.items = a.items ++ values := by
  induction values generalizing a with
  | nil => exact ⟨a, rfl, rfl, (List.append_nil _).symm⟩
  | cons v rest ih =>
    have same := uniform v List.mem_cons_self
    obtain ⟨b, stored, element, items⟩ := ih (a := a.append v same) fun u member =>
      uniform u (List.mem_cons_of_mem v member)
    refine ⟨b, ?_, element, ?_⟩
    · rw [storeAll, InPlace.on_get_bind, if_pos same, InPlace.on_bind,
        on_storeInPlace_of_kind same]
      exact stored
    · rw [items, append, List.append_assoc]
      rfl

/-- The first value of another kind stops the others. -/
theorem on_storeAll_of_find? {values : List Value} {k : Kind}
    (found : (values.map Value.kind).find? (· ≠ a.element) = some k) (line : Line) :
    ((storeAll line values).on a).1 = .error (.heterogeneousArray a.element k line) := by
  induction values generalizing a with
  | nil => cases found
  | cons v rest ih =>
    rw [storeAll, InPlace.on_get_bind]
    by_cases same : v.kind = a.element
    · rw [if_pos same, InPlace.on_bind, on_storeInPlace_of_kind same]
      refine ih (a := a.append v same) ?_
      rw [List.map_cons, List.find?_cons_of_neg (by simpa using same)] at found
      exact found
    · rw [if_neg same, InPlace.on_throw]
      have first : v.kind = k := by simpa [same] using found
      rw [first]

/-- Storing one value after another makes the array of the values. -/
theorem gather_eq_ofValues (values : List Value) (line : Line) :
    gather values line = ofValues values line := by
  cases values with
  | nil => rfl
  | cons first rest =>
    rw [gather, ofValues]
    by_cases isElement : first.kind.isElement = true
    · rw [dif_pos isElement, dif_pos isElement]
      by_cases uniform : ∀ v ∈ first :: rest, v.kind = first.kind
      · obtain ⟨b, stored, element, items⟩ :=
          on_storeAll_of_uniform (a := emptyOf first.kind isElement) uniform line
        rw [dif_pos uniform, stored]
        obtain ⟨k, l, h, h'⟩ := b
        cases element
        cases items
        rfl
      · rw [dif_neg uniform]
        have differs : ∃ k, ((first :: rest).map Value.kind).find? (· ≠ first.kind) = some k := by
          rw [← Option.isSome_iff_exists, List.find?_isSome]
          simp only [Classical.not_forall] at uniform
          obtain ⟨v, member, other⟩ := uniform
          exact ⟨v.kind, List.mem_map_of_mem member, by simpa using other⟩
        obtain ⟨k, found⟩ := differs
        have stops := on_storeAll_of_find? (a := emptyOf first.kind isElement) found line
        simp only [found, stops, Option.getD_some]
        rfl
    · rw [dif_neg isElement, dif_neg isElement]

/-! ## Changes -/

/-- A change of an array. -/
inductive Change where
  | push (v : Value) (line : Line)
  | set (index : Nat) (v : Value) (line : Line)
  | extend (other : TypedArray) (line : Line)
  /-- The array gives way to one that is made of values. -/
  | ofValues (values : List Value) (line : Line)

namespace Change

/-- The changed array. -/
def result (a : TypedArray) : Change → Except RuntimeError TypedArray
  | push v line => a.push v line
  | set i v line => a.set i v line
  | extend other line => a.extend other line
  | ofValues values line => TypedArray.ofValues values line

/-- The change of an array in its storage. -/
def inPlace : Change → InPlace TypedArray Unit
  | push v line => pushInPlace v line
  | set i v line => storeInPlace (some i) v line
  | extend other line => .commit (·.extend other line)
  | ofValues values line => .commit fun _ => gather values line

/-- Whether an array admits a change. -/
def Allowed (a : TypedArray) : Change → Prop
  | push v _ => if a.items = [] then v.kind.isElement = true else v.Fits a.element
  | set i v _ => v.Fits a.element ∧ i < a.size
  | extend other _ => other.items = [] ∨ a.items = [] ∨ other.element = a.element
  | ofValues values _ => ∃ k : Kind, k.isElement = true ∧ ∀ v ∈ values, v.kind = k

/-- What a change makes of an array. -/
def Makes (a b : TypedArray) : Change → Prop
  | push v _ =>
    if a.items = [] then b.element = v.kind ∧ b.items = [v]
    else b.element = a.element ∧ ∃ w, v.Widens a.element w ∧ b.items = a.items ++ [w]
  | set i v _ => b.element = a.element ∧ ∃ w, v.Widens a.element w ∧ b.items = a.items.set i w
  | extend other _ =>
    if other.items = [] then b = a
    else if a.items = [] then b = other
    else b.element = a.element ∧ b.items = a.items ++ other.items
  | ofValues values _ =>
    b.items = values ∧ (values = [] → b = .empty) ∧ ∀ v ∈ values, v.kind = b.element

/-- A change in the storage of an array is all or nothing. -/
theorem on_inPlace (c : Change) (a : TypedArray) :
    c.inPlace.on a = InPlace.settled a (c.result a) := by
  cases c with
  | push v line => exact on_pushInPlace a v line
  | set i v line => exact on_storeInPlace_some a i v line
  | extend other line => exact InPlace.on_commit _ a
  | ofValues values line =>
    rw [inPlace, InPlace.on_commit, gather_eq_ofValues]
    rfl

end Change

/-! ## What a change makes -/

/-- The kinds that a value widens into besides its own. -/
theorem fits_iff {k : Kind} : v.Fits k ↔ v.kind = k ∨ ∃ w, v.widen? k = some w := by
  cases v <;> cases k <;> simp [Value.Fits, Value.widen?, Value.kind, Kind.rank, Kind.isNumberLike]

theorem widens_self (isElement : v.kind.isElement = true) : v.Widens v.kind v := by
  intro s line
  cases v <;> first | rfl | cases isElement

theorem widens_of_widen? {k : Kind} {w : Value} (wide : v.widen? k = some w) : v.Widens k w := by
  intro s line
  unfold Value.widen? at wide
  split at wide <;> first | (cases wide; rfl) | cases wide

/-- An array takes a value that fits, widened, and no other one. -/
theorem adopt_cases (a : TypedArray) (v : Value) (line : Line) :
    (v.Fits a.element ∧ ∃ w, v.Widens a.element w.1 ∧ a.adopt v line = .ok w) ∨
      (¬ v.Fits a.element ∧ ∃ e, a.adopt v line = .error e) := by
  by_cases same : v.kind = a.element
  · have widens : v.Widens a.element v := same ▸ widens_self (same ▸ a.isElement)
    exact .inl ⟨.inl same, ⟨v, same⟩, widens, by rw [adopt, dif_pos same]⟩
  · rw [fits_iff, adopt, dif_neg same]
    split
    · next w wide => exact .inl ⟨.inr ⟨w, wide⟩, _, widens_of_widen? wide, rfl⟩
    · next none =>
      refine .inr ⟨?_, _, rfl⟩
      rintro (never | ⟨w, wide⟩)
      · exact same never
      · rw [none] at wide
        cases wide

namespace Change

/-- Whether a change does what it should: it succeeds if the array admits it and makes what it should
make. -/
def Succeeds (a : TypedArray) (c : Change) : Except RuntimeError TypedArray → Prop
  | .ok b => c.Allowed a ∧ c.Makes a b
  | .error _ => ¬ c.Allowed a

theorem succeeds_push (a : TypedArray) (v : Value) (line : Line) :
    (push v line).Succeeds a (a.push v line) := by
  by_cases other : a.items = [] ∧ v.kind ≠ a.element
  · rw [TypedArray.push, if_pos other]
    by_cases isElement : v.kind.isElement = true
    · rw [dif_pos isElement]
      simp [Succeeds, Allowed, Makes, other.1, isElement, singleton]
    · rw [dif_neg isElement]
      simpa [Succeeds, Allowed, other.1] using isElement
  · rw [push_eq_append other]
    by_cases none : a.items = []
    · have same : v.kind = a.element := by simpa [none] using other
      rw [adopt, dif_pos same]
      have isElement : v.kind.isElement = true := same ▸ a.isElement
      exact ⟨by simpa [Allowed, none] using isElement, by simp [Makes, none, append, same]⟩
    · rcases adopt_cases a v line with ⟨fits, w, widens, adopted⟩ | ⟨unfit, e, fails⟩
      · rw [adopted]
        refine ⟨by simpa [Allowed, none] using fits, ?_⟩
        simp only [Makes, none, if_false]
        exact ⟨rfl, w.1, widens, rfl⟩
      · rw [fails]
        simpa [Except.map, Succeeds, Allowed, none] using unfit

theorem succeeds_set (a : TypedArray) (i : Nat) (v : Value) (line : Line) :
    (set i v line).Succeeds a (a.set i v line) := by
  rw [TypedArray.set]
  rcases adopt_cases a v line with ⟨fits, w, widens, adopted⟩ | ⟨unfit, e, fails⟩
  · rw [adopted, ok_bind]
    dsimp only
    by_cases inside : i < a.size
    · rw [if_pos inside]
      exact ⟨⟨fits, inside⟩, rfl, w.1, widens, rfl⟩
    · rw [if_neg inside]
      exact fun allowed => inside allowed.2
  · rw [fails]
    exact fun allowed => unfit allowed.1

theorem succeeds_extend (a other : TypedArray) (line : Line) :
    (extend other line).Succeeds a (a.extend other line) := by
  rw [TypedArray.extend]
  by_cases nothing : other.items = []
  · rw [if_pos nothing]
    simp [Succeeds, Allowed, Makes, nothing]
  · rw [if_neg nothing]
    by_cases none : a.items = []
    · rw [if_pos none]
      simp [Succeeds, Allowed, Makes, nothing, none]
    · rw [if_neg none]
      by_cases same : other.element = a.element
      · rw [dif_pos same]
        simp [Succeeds, Allowed, Makes, nothing, none, same]
      · rw [dif_neg same]
        simp [Succeeds, Allowed, nothing, none, same]

theorem succeeds_ofValues (a : TypedArray) (values : List Value) (line : Line) :
    (ofValues values line).Succeeds a (TypedArray.ofValues values line) := by
  cases values with
  | nil => exact ⟨⟨.int, rfl, by simp⟩, rfl, fun _ => rfl, by simp⟩
  | cons first rest =>
    rw [TypedArray.ofValues]
    by_cases isElement : first.kind.isElement = true
    · rw [dif_pos isElement]
      by_cases uniform : ∀ v ∈ first :: rest, v.kind = first.kind
      · rw [dif_pos uniform]
        exact ⟨⟨_, isElement, uniform⟩, rfl, (nomatch ·), uniform⟩
      · rw [dif_neg uniform]
        rintro ⟨k, -, all⟩
        exact uniform fun v member => (all v member).trans (all first List.mem_cons_self).symm
    · rw [dif_neg isElement]
      rintro ⟨k, holds, all⟩
      exact isElement (all first List.mem_cons_self ▸ holds)

theorem succeeds_result (a : TypedArray) (c : Change) : c.Succeeds a (c.result a) := by
  cases c with
  | push v line => exact succeeds_push a v line
  | set i v line => exact succeeds_set a i v line
  | extend other line => exact succeeds_extend a other line
  | ofValues values line => exact succeeds_ofValues a values line

/-- How a change of an array in its storage ends: it succeeds exactly if the array admits it, then
makes what it should make, and otherwise leaves the array, the kind of its elements included, as it
is. -/
structure Ends (a : TypedArray) (c : Change) (r : Except RuntimeError Unit) (b : TypedArray) :
    Prop where
  succeeds : r = .ok () ↔ c.Allowed a
  makes : r = .ok () → c.result a = .ok b ∧ c.Makes a b
  fails : ∀ e, r = .error e → c.result a = .error e ∧ b = a

theorem ends_inPlace (a : TypedArray) (c : Change) :
    c.Ends a (c.inPlace.on a).1 (c.inPlace.on a).2 := by
  have lawful := succeeds_result a c
  rw [on_inPlace]
  cases result : c.result a with
  | ok b =>
    rw [result] at lawful
    exact ⟨⟨fun _ => lawful.1, fun _ => rfl⟩, fun _ => ⟨result, lawful.2⟩, fun e never => nomatch never⟩
  | error e =>
    rw [result] at lawful
    refine ⟨⟨(nomatch ·), fun allowed => absurd allowed lawful⟩, (nomatch ·), ?_⟩
    rintro e ⟨⟩
    exact ⟨result, rfl⟩

/-! ## Runs -/

/-- A run of changes of an array in its storage: how each one ends and the array after it. An error
stops only the change that it is raised in. -/
def runAll : List Change → TypedArray → List (Except RuntimeError Unit × TypedArray)
  | [], _ => []
  | c :: rest, a => c.inPlace.on a :: runAll rest (c.inPlace.on a).2

/-- Whether every change of a run ends as it should on the array that the changes before it have
left. -/
def Lawful : TypedArray → List Change → List (Except RuntimeError Unit × TypedArray) → Prop
  | _, [], ends => ends = []
  | a, c :: rest, ends => ∃ r b later, ends = (r, b) :: later ∧ c.Ends a r b ∧ Lawful b rest later

/-- Arrays act as lists of one kind of elements, in every run of changes. -/
theorem lawful_runAll (changes : List Change) (a : TypedArray) :
    Lawful a changes (runAll changes a) := by
  induction changes generalizing a with
  | nil => rfl
  | cons c rest ih => exact ⟨_, _, _, rfl, ends_inPlace a c, ih _⟩

/-- A push that would widen follows one that fails, and a push of another kind onto an array that has
been made anew of nothing. -/
example : (runAll [.push (.string "a") 1, .push (.int 2) 2, .ofValues [] 3, .push (.string "a") 4]
    (.singleton (.float 1.5) rfl)).map (fun r => (r.1, r.2.items)) =
      [(.error (.heterogeneousArray .float .string 1), [.float 1.5]),
        (.ok (), [.float 1.5, .float (Number.ofInt 2)]), (.ok (), []), (.ok (), [.string "a"])] :=
  rfl

end Change

end TypedArray

end Scriptlet
