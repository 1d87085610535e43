import Scriptlet.Store.Addition
import Scriptlet.Proofs.Store.Soundness

/-!
# Appending and addition

Appending to a collection leaves in its storage what addition would put into a new one, and both
fail together, except for what appending takes as one more element and addition does not:
`append_sameSum_iff` says which values these are.
-/

namespace Scriptlet.Store

variable {s t u : Store} {a b v w : Value} {line : Line} {target : Kind}

/-- Whether two values, each in its store, have the same type and, as collections, the same
contents. -/
def SameContents (s : Store) (v : Value) (t : Store) (w : Value) : Prop :=
  match v, w with
  | .list l, .list m => s.list l = t.list m
  | .array a, .array b => s.array a = t.array b
  | .dictionary d, .dictionary e => s.dictionary d = t.dictionary e
  | v, w => v = w

/-- Whether two results fail together and otherwise have the same contents. -/
def SameSum (x y : Except RuntimeError (Value × Store)) : Prop :=
  match x, y with
  | .ok (v, s), .ok (w, t) => SameContents s v t w
  | .error _, .error _ => True
  | _, _ => False

/-- Whether appending takes a value as one more element that addition does not: no collection of
elements that goes to the end of a list, or a number that widens on its way into an array. -/
def OnlyAppends (s : Store) (a b : Value) : Prop :=
  match a with
  | .list _ => b = .null ∨ b.kind = .dictionary ∨ b.kind = .object
  | .array x => (s.array x).items ≠ [] ∧ b.kind.isElement = true ∧
      (b.widen? (s.array x).element).isSome = true
  | _ => False

theorem sameContents_refl (s : Store) (v : Value) : SameContents s v s v := by
  cases v <;> rfl

theorem sameSum_refl (x : Except RuntimeError (Value × Store)) : SameSum x x := by
  cases x with
  | ok r => exact sameContents_refl r.2 r.1
  | error e => trivial

/-! ## Conversions -/

theorem settle_of_kind (here : v.kind ≠ .member) : s.settle line v = .ok v := by
  cases v with
  | member _ _ => exact absurd rfl here
  | _ => rfl

theorem resolved_of_kind (here : v.kind ≠ .member) : s.resolved v line = .ok v := by
  cases v with
  | member _ _ => exact absurd rfl here
  | _ => rfl

theorem rank_le_of_isElement {k : Kind} (element : k.isElement = true) :
    k.rank ≤ Kind.array.rank := by
  cases k <;> first | decide | cases element

theorem upconvert_self (here : v.kind ≠ .member) : s.upconvert v v.kind line = .ok (v, s) := by
  rw [upconvert, settle_of_kind here, ok_bind, if_pos rfl]
  rfl

/-- The first of two values stays as it is if its kind is the higher one. -/
theorem unify_of_rank (here : a.kind ≠ .member) (higher : b.kind.rank ≤ a.kind.rank)
    {r : Except RuntimeError (Value × Store)} (converted : s.upconvert b a.kind line = r) :
    s.unify a b line = r.map fun p => ((a, p.1), p.2) := by
  have max : a.kind.max b.kind = a.kind := if_neg (Nat.not_lt.2 higher)
  rw [unify, max, upconvert_self here, ok_bind]
  dsimp only
  rw [converted]
  cases r <;> rfl

theorem list_newList_of_lt {items : List Value} {l : ListRef} (here : l.index < s.lists.size) :
    (s.newList items).2.list l = s.list l := by
  have read : (s.newList items).2.list l = _ := getD_push s.lists items [] l.index
  rw [read, if_neg (Nat.ne_of_lt here)]
  rfl

theorem array_newArray (items : TypedArray) :
    (s.newArray items).2.array ⟨s.arrays.size⟩ = items := by
  simp [newArray, array]

theorem array_newArray_of_lt {items : TypedArray} {x : ArrayRef} (here : x.index < s.arrays.size) :
    (s.newArray items).2.array x = s.array x := by
  have read : (s.newArray items).2.array x = _ := getD_push s.arrays items .empty x.index
  rw [read, if_neg (Nat.ne_of_lt here)]
  rfl

theorem dictionary_newDictionary (entries : Dictionary) :
    (s.newDictionary entries).2.dictionary ⟨s.dictionaries.size⟩ = entries := by
  simp [newDictionary, dictionary]

/-- What goes to the end of a list becomes a list of the same values. -/
theorem exists_upconvert_list (here : b.kind = .list ∨ b.kind = .array ∨ b.kind.isElement = true)
    (line : Line) : ∃ m u, s.upconvert b .list line = .ok (.list m, u) ∧ u.list m = s.tail b ∧
      ∀ l : ListRef, l.index < s.lists.size → u.list l = s.list l := by
  cases b with
  | list m => exact ⟨m, s, rfl, rfl, fun l _ => rfl⟩
  | array y => exact ⟨_, _, rfl, list_newList s _, fun l here => list_newList_of_lt here⟩
  | int | float | vec3 | function | pointer | string =>
    exact ⟨_, _, rfl, list_newList s _, fun l here => list_newList_of_lt here⟩
  | null | member | dictionary | object => simp [Value.kind, Kind.isElement] at here

/-- What arrays hold becomes an array of one element. -/
theorem exists_upconvert_array (here : b.kind.isElement = true) (line : Line) :
    ∃ y u, s.upconvert b .array line = .ok (.array y, u) ∧ u.array y = .singleton b here ∧
      ∀ x : ArrayRef, x.index < s.arrays.size → u.array x = s.array x := by
  cases b with
  | int | float | vec3 | function | pointer | string =>
    exact ⟨_, _, rfl, array_newArray _, fun x here => array_newArray_of_lt here⟩
  | null | member | dictionary | object | list | array => cases here

/-- What becomes a dictionary takes no place from another one. -/
theorem exists_of_upconvert_dictionary (here : b.kind ≠ .member)
    (converted : s.upconvert b .dictionary line = .ok (w, u)) :
    ∃ e, w = .dictionary e ∧ s.dictionaries.size ≤ u.dictionaries.size := by
  have made (entries : Dictionary) (same : s.newDictionary entries = (w, u)) :
      ∃ e, w = .dictionary e ∧ s.dictionaries.size ≤ u.dictionaries.size := by
    cases same
    exact ⟨_, rfl, by simp⟩
  cases b with
  | dictionary e =>
    cases converted
    exact ⟨e, rfl, Nat.le_refl _⟩
  | null | int | float | vec3 | function | pointer | string | array | list =>
    exact made _ (Except.ok.inj converted)
  | member => exact absurd rfl here
  | object => cases converted

/-! ## Each kind of target -/

/-- Nothing but one element can be added to an empty list as the first element of an array. -/
theorem seed?_eq_some {items : TypedArray} (seeds : s.seed? a b = some items) :
    b.kind.isElement = true := by
  unfold seed? at seeds
  split at seeds
  · split at seeds
    · assumption
    · cases seeds
  · cases seeds

theorem addition_seed {items : TypedArray} (seeds : s.seed? a b = some items) (line : Line) :
    s.addition a b line = .ok (s.newArray items) := by
  rw [addition, seeds]
  rfl

theorem addition_list {l m : ListRef} (seeds : s.seed? (.list l) b = none)
    (higher : b.kind.rank ≤ Kind.list.rank)
    (converted : s.upconvert b .list line = .ok (.list m, u)) :
    s.addition (.list l) b line = .ok (u.newList (u.list l ++ u.list m)) := by
  have unified : s.unify (.list l) b line = .ok ((.list l, .list m), u) :=
    unify_of_rank (a := .list l) (by simp [Value.kind]) higher converted
  rw [addition, seeds]
  exact congrArg (· >>= _) unified

theorem addition_array {x y : ArrayRef} (higher : b.kind.rank ≤ Kind.array.rank)
    (converted : s.upconvert b .array line = .ok (.array y, u)) :
    s.addition (.array x) b line = ((u.array x).extend (u.array y) line).map u.newArray := by
  have unified : s.unify (.array x) b line = .ok ((.array x, .array y), u) :=
    unify_of_rank (a := .array x) (by simp [Value.kind]) higher converted
  refine (congrArg (· >>= _) unified).trans ?_
  show (do let items ← (u.array x).extend (u.array y) line; Except.ok (u.newArray items)) = _
  cases (u.array x).extend (u.array y) line <;> rfl

theorem addition_dictionary {d e : DictionaryRef} (higher : b.kind.rank ≤ Kind.dictionary.rank)
    (converted : s.upconvert b .dictionary line = .ok (.dictionary e, u)) :
    s.addition (.dictionary d) b line =
      .ok (u.newDictionary ((u.dictionary d).merge (u.dictionary e))) := by
  have unified : s.unify (.dictionary d) b line = .ok ((.dictionary d, .dictionary e), u) :=
    unify_of_rank (a := .dictionary d) (by simp [Value.kind]) higher converted
  exact congrArg (· >>= _) unified

theorem append_list {l : ListRef} (seeds : s.seed? (.list l) b = none) (here : b.kind ≠ .member) :
    s.append (.list l) b line = .ok (.list l, s.setList l (s.list l ++ s.tail b)) := by
  rw [append, resolved_of_kind here, ok_bind]
  dsimp only
  rw [seeds]
  rfl

/-- A list and what goes to its end. -/
theorem sameSum_list_tail {l : ListRef} (valid : s.Valid (.list l))
    (seeds : s.seed? (.list l) b = none)
    (here : b.kind = .list ∨ b.kind = .array ∨ b.kind.isElement = true) (line : Line) :
    SameSum (s.append (.list l) b line) (s.addition (.list l) b line) := by
  have member : b.kind ≠ .member := by
    rintro same
    simp [same, Kind.isElement] at here
  have higher : b.kind.rank ≤ Kind.list.rank := by
    rcases here with same | same | element
    · exact same ▸ Nat.le_refl _
    · exact same ▸ (by decide)
    · exact Nat.le_trans (rank_le_of_isElement element) (by decide)
  obtain ⟨m, u, converted, tail, stays⟩ := exists_upconvert_list here line
  rw [append_list seeds member, addition_list seeds higher converted, tail, stays l valid]
  show (s.setList l _).list l = (u.newList _).2.list ⟨u.lists.size⟩
  rw [list_setList s l l _ valid, if_pos rfl, list_newList]

theorem sameSum_list {l : ListRef} (valid : s.Valid (.list l)) (here : b.kind ≠ .member)
    (line : Line) :
    SameSum (s.append (.list l) b line) (s.addition (.list l) b line) ↔
      ¬ s.OnlyAppends (.list l) b := by
  cases seeds : s.seed? (.list l) b with
  | some items =>
    have element := seed?_eq_some seeds
    have appended : s.append (.list l) b line = .ok (s.newArray items) := by
      rw [append, resolved_of_kind here, ok_bind]
      dsimp only
      rw [seeds]
      rfl
    rw [appended, addition_seed seeds]
    refine iff_of_true (sameSum_refl _) ?_
    rintro (null | kind | kind)
    · rw [null] at element
      cases element
    · rw [kind] at element
      cases element
    · rw [kind] at element
      cases element
  | none =>
    cases b with
    | list | array | int | float | vec3 | function | pointer | string =>
      refine iff_of_true (sameSum_list_tail valid seeds ?_ line) ?_
      · simp [Value.kind, Kind.isElement]
      · simp [OnlyAppends, Value.kind]
    | member => exact absurd rfl here
    | null =>
      refine iff_of_false (fun same => ?_) (not_not_intro (.inl rfl))
      have converted : s.upconvert .null .list line =
          .ok (.list ⟨s.lists.size⟩, (s.newList []).2) := rfl
      rw [append_list seeds here, addition_list seeds (by decide) converted] at same
      have same : (s.setList l (s.list l ++ [.null])).list l =
          ((s.newList []).2.newList _).2.list ⟨(s.newList []).2.lists.size⟩ := same
      rw [list_setList s l l _ valid, if_pos rfl, list_newList, list_newList,
        list_newList_of_lt valid] at same
      simp at same
    | dictionary d =>
      refine iff_of_false (fun same => ?_) (not_not_intro (.inr (.inl rfl)))
      rw [append_list seeds here] at same
      have never : Value.list l = .dictionary _ := same
      cases never
    | object o =>
      refine iff_of_false (fun same => ?_) (not_not_intro (.inr (.inr rfl)))
      rw [append_list seeds here] at same
      exact same

theorem adopt_eq_error {x : TypedArray} (other : b.kind ≠ x.element)
    (stays : b.widen? x.element = none) :
    x.adopt b line = .error (.heterogeneousArray x.element b.kind line) := by
  rw [TypedArray.adopt, dif_neg other]
  split
  · next wide =>
    rw [stays] at wide
    cases wide
  · rfl

theorem extend_singleton {x : TypedArray} (element : b.kind.isElement = true) (some : x.items ≠ [])
    (other : b.kind ≠ x.element) : x.extend (.singleton b element) line =
      .error (.heterogeneousArray x.element b.kind line) := by
  have one : (TypedArray.singleton b element).items ≠ [] := List.cons_ne_nil b []
  rw [TypedArray.extend, if_neg one, if_neg some]
  exact dif_neg other

/-- Pushing a value is adding an array of it, unless the value widens. -/
theorem push_eq_extend {x : TypedArray} (element : b.kind.isElement = true)
    (fits : x.items ≠ [] → b.widen? x.element = none) :
    x.push b line = x.extend (.singleton b element) line := by
  obtain ⟨k, items, isElement, uniform⟩ := x
  by_cases same : b.kind = k
  · subst same
    rw [TypedArray.push, if_neg (fun both => both.2 rfl), TypedArray.adopt, dif_pos rfl]
    cases items with
    | nil => rfl
    | cons first rest =>
      have one : (TypedArray.singleton b element).items ≠ [] := List.cons_ne_nil b []
      have same : (TypedArray.singleton b element).element = b.kind := rfl
      rw [TypedArray.extend, if_neg one, if_neg (List.cons_ne_nil first rest), dif_pos same]
      rfl
  · by_cases empty : items = []
    · subst empty
      rw [TypedArray.push, if_pos ⟨rfl, same⟩, dif_pos element]
      rfl
    · rw [extend_singleton element empty same, TypedArray.push,
        if_neg (fun both => empty both.1), adopt_eq_error same (fits empty)]
      rfl

/-- A number of a lower rank widens on its way into an array and cannot be added to it. -/
theorem exists_push_of_widen? {x : TypedArray} (element : b.kind.isElement = true)
    (some : x.items ≠ []) (wide : (b.widen? x.element).isSome = true) (line : Line) :
    (∃ y, x.push b line = .ok y) ∧ ∃ e, x.extend (.singleton b element) line = .error e := by
  obtain ⟨w, wide⟩ := Option.isSome_iff_exists.1 wide
  have other : b.kind ≠ x.element := by
    intro same
    rw [← same] at wide
    cases b <;> cases wide
  refine ⟨?_, _, extend_singleton element some other⟩
  obtain ⟨v, adopted⟩ : ∃ v, x.adopt b line = .ok v := by
    rw [TypedArray.adopt, dif_neg other]
    split
    · exact ⟨_, rfl⟩
    · next none =>
      rw [none] at wide
      cases wide
  rw [TypedArray.push, if_neg (fun both => some both.1), adopted]
  exact ⟨_, rfl⟩

/-- An array that is changed in its place and one that is made anew. -/
theorem sameSum_setArray {x : ArrayRef} (valid : s.Valid (.array x))
    (r : Except RuntimeError TypedArray) :
    SameSum (r.map fun items => (.array x, s.setArray x items)) (r.map u.newArray) := by
  cases r with
  | error e => trivial
  | ok items =>
    show (s.setArray x items).array x = (u.newArray items).2.array ⟨u.arrays.size⟩
    rw [array_setArray s x x _ valid, if_pos rfl, array_newArray]

theorem append_array {x y : ArrayRef} : s.append (.array x) (.array y) line =
    ((s.array x).extend (s.array y) line).map fun items => (.array x, s.setArray x items) := by
  show (do let items ← (s.array x).extend (s.array y) line; Except.ok _) = _
  cases (s.array x).extend (s.array y) line <;> rfl

theorem append_array_element {x : ArrayRef} (element : b.kind.isElement = true) :
    s.append (.array x) b line =
      ((s.array x).push b line).map fun items => (.array x, s.setArray x items) := by
  cases b with
  | int | float | vec3 | function | pointer | string =>
    show (do let items ← (s.array x).push _ line; Except.ok _) = _
    cases (s.array x).push _ line <;> rfl
  | null | member | dictionary | object | list | array => cases element

theorem sameSum_array {x : ArrayRef} (valid : s.Valid (.array x)) (here : b.kind ≠ .member)
    (line : Line) :
    SameSum (s.append (.array x) b line) (s.addition (.array x) b line) ↔
      ¬ s.OnlyAppends (.array x) b := by
  by_cases element : b.kind.isElement = true
  · have higher := rank_le_of_isElement element
    obtain ⟨y, u, converted, single, stays⟩ := exists_upconvert_array element line
    rw [append_array_element element, addition_array higher converted, single, stays x valid]
    by_cases widens : (s.array x).items ≠ [] ∧ (b.widen? (s.array x).element).isSome = true
    · refine iff_of_false (fun same => ?_) (not_not_intro ⟨widens.1, element, widens.2⟩)
      obtain ⟨⟨z, pushed⟩, e, fails⟩ := exists_push_of_widen? element widens.1 widens.2 line
      rw [pushed, fails] at same
      exact same
    · have fits (some : (s.array x).items ≠ []) : b.widen? (s.array x).element = none := by
        simpa [some] using widens
      rw [push_eq_extend element fits]
      exact iff_of_true (sameSum_setArray valid _) fun only => widens ⟨only.1, only.2.2⟩
  · refine iff_of_true ?_ fun only => element only.2.1
    cases b with
    | array y =>
      rw [append_array, addition_array (Nat.le_refl _) (u := s) rfl]
      exact sameSum_setArray valid _
    | null | list | dictionary | object => exact sameSum_refl _
    | member => exact absurd rfl here
    | int | float | vec3 | function | pointer | string => exact absurd rfl element

theorem sameSum_dictionary {d : DictionaryRef} (valid : s.Valid (.dictionary d))
    (here : b.kind ≠ .member) (line : Line) :
    SameSum (s.append (.dictionary d) b line) (s.addition (.dictionary d) b line) := by
  have appended : s.append (.dictionary d) b line = s.upconvert b .dictionary line >>= _ :=
    congrArg (· >>= _) (resolved_of_kind here)
  by_cases higher : b.kind.rank ≤ Kind.dictionary.rank
  · cases converted : s.upconvert b .dictionary line with
    | error e =>
      have unified : s.unify (.dictionary d) b line = .error e :=
        unify_of_rank (a := .dictionary d) (by simp [Value.kind]) higher converted
      have fails : s.addition (.dictionary d) b line = .error e := congrArg (· >>= _) unified
      rw [appended, converted, fails]
      trivial
    | ok r =>
      obtain ⟨w, u⟩ := r
      obtain ⟨e, rfl, more⟩ := exists_of_upconvert_dictionary here converted
      have still : d.index < u.dictionaries.size := Nat.lt_of_lt_of_le valid more
      rw [appended, converted, addition_dictionary higher converted]
      show (u.setDictionary d _).dictionary d =
        (u.newDictionary _).2.dictionary ⟨u.dictionaries.size⟩
      rw [dictionary_setDictionary u d d _ still, if_pos rfl, dictionary_newDictionary]
  · cases b with
    | object o => trivial
    | _ => simp [Value.kind, Kind.rank] at higher

/-- Appending gives the contents that addition computes, exactly where it does not take a value as
an element that addition does not. -/
theorem append_sameSum_iff (valid : s.Valid a) (ha : a.kind ≠ .member) (hb : b.kind ≠ .member)
    (line : Line) : SameSum (s.append a b line) (s.addition a b line) ↔ ¬ s.OnlyAppends a b := by
  cases a with
  | list l => exact sameSum_list valid hb line
  | array x => exact sameSum_array valid hb line
  | dictionary d => exact iff_of_true (sameSum_dictionary valid hb line) fun never => never
  | member => exact absurd rfl ha
  | _ =>
    refine iff_of_true ?_ fun never => never
    rw [append, resolved_of_kind hb]
    exact sameSum_refl _

/-- A store with a list of values of two kinds and an array of floats. -/
def listAndFloats : Store :=
  ((empty.newList [.int 1, .string "a"]).2.newArray (.singleton (.float 1.5) rfl)).2

/-- A number at the end of a list. -/
theorem append_sameSum_element :
    SameSum (listAndFloats.append (.list ⟨0⟩) (.int 2) 1)
      (listAndFloats.addition (.list ⟨0⟩) (.int 2) 1) := by
  have valid : listAndFloats.Valid (.list ⟨0⟩) := Nat.zero_lt_one
  refine (append_sameSum_iff valid (by decide) (by decide) 1).2 ?_
  rintro (never | never | never) <;> cases never

/-- Null is one more element of a list for appending and nothing for addition; a number widens on
its way into an array and cannot be added to it. -/
theorem append_null_and_int :
    (∃ t u m, listAndFloats.append (.list ⟨0⟩) .null 1 = .ok (.list ⟨0⟩, t) ∧
      t.list ⟨0⟩ = [.int 1, .string "a", .null] ∧
      listAndFloats.addition (.list ⟨0⟩) .null 1 = .ok (.list m, u) ∧
      u.list m = [.int 1, .string "a"]) ∧
    (∃ t, listAndFloats.append (.array ⟨0⟩) (.int 2) 1 = .ok (.array ⟨0⟩, t)) ∧
    listAndFloats.addition (.array ⟨0⟩) (.int 2) 1 = .error (.heterogeneousArray .float .int 1) :=
  ⟨⟨_, _, _, rfl, rfl, rfl, rfl⟩, ⟨_, rfl⟩, rfl⟩

end Scriptlet.Store
