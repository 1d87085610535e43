import Scriptlet.Proofs.Dictionary
import Scriptlet.Proofs.Store.Cells
import Scriptlet.Proofs.TypedArray

/-!
# Elements of collections

What is read under a key is what was written there last, in whichever storage the element stands
(`Wrote`). Writing in place, with the conversions and the lookups that it takes, is all or nothing
(`on_setElementInPlace`).
-/

namespace Scriptlet

/-- The index that a number is, within the integers. -/
def Value.index? : Value → Option Int
  | .int i => some i.toInt
  | .float x => some (Number.truncate x).toInt
  | _ => none

/-- What a key addresses in a collection: an element, an entry or a member. -/
inductive Address where
  | index (i : Int)
  | entry (key : Key)
  | name (text : String)
  deriving DecidableEq

/-- The address that a key is in a collection or a class instance. -/
def Value.address? (collection key : Value) : Option Address :=
  match collection, key with
  | .list _, key | .array _, key => key.index?.map .index
  | .dictionary _, key => (Key.ofValue? key).map .entry
  | .object _, .string name => some (.name name)
  | _, _ => none

variable {k j v : Value} {line : Line} {n : Nat}

theorem Value.position_of_index? {i : Int} (index : k.index? = some i) (n : Nat) (line : Line) :
    k.position n line =
      if 0 ≤ i ∧ i < n then .ok i.toNat else .error (.indexOutOfBounds i n line) := by
  cases k <;> cases index <;> rfl

/-- Whether a key is an index within a length. -/
def Value.Within (k : Value) (n : Nat) : Prop := ∃ i, k.index? = some i ∧ 0 ≤ i ∧ i < n

theorem Value.position_eq_ok {i : Nat} (index : k.index? = some (i : Int)) (inside : i < n)
    (line : Line) : k.position n line = .ok i := by
  rw [position_of_index? index, if_pos ⟨by omega, by omega⟩]
  rfl

/-- An index that addresses an element is within the length. -/
theorem Value.exists_of_position {i : Nat} (inside : k.position n line = .ok i) :
    k.index? = some (i : Int) ∧ i < n := by
  cases index : k.index? with
  | none => cases k <;> cases index <;> cases inside
  | some z =>
    rw [position_of_index? index] at inside
    split at inside
    · next bounds =>
      cases inside
      exact ⟨congrArg some (Int.toNat_of_nonneg bounds.1).symm, by omega⟩
    · cases inside

theorem Value.within_of_position {i : Nat} (inside : k.position n line = .ok i) : k.Within n := by
  obtain ⟨index, less⟩ := exists_of_position inside
  exact ⟨i, index, by omega, by omega⟩

/-- An index is within a length, and is then a place, or it is refused. -/
theorem Value.position_cases {i : Int} (index : k.index? = some i) (n : Nat) (line : Line) :
    (∃ m : Nat, k.index? = some (m : Int) ∧ m < n ∧ k.Within n ∧ k.position n line = .ok m) ∨
      (¬ k.Within n ∧ ∃ e, k.position n line = .error e) := by
  by_cases bounds : 0 ≤ i ∧ i < n
  · obtain ⟨m, rfl⟩ := Int.eq_ofNat_of_zero_le bounds.1
    have inside : m < n := Int.ofNat_lt.1 bounds.2
    exact .inl ⟨m, index, inside, ⟨m, index, bounds⟩, position_eq_ok index inside line⟩
  · refine .inr ⟨?_, _, by rw [position_of_index? index, if_neg bounds]⟩
    rintro ⟨j, found, within⟩
    obtain rfl := Option.some.inj (found.symm.trans index)
    exact bounds within

theorem Value.kind_of_index? {i : Int} (index : k.index? = some i) : k.kind ≠ .member := by
  rintro handle
  cases k with
  | member _ _ => cases index
  | _ => cases handle

theorem Key.kind_of_ofValue? {K : Key} (hashes : ofValue? k = some K) : k.kind ≠ .member := by
  rintro handle
  cases k with
  | member _ _ => cases hashes
  | _ => cases handle

/-- Keys are one address of a list if they are one index. -/
theorem Value.address?_list {l : ListRef} :
    (Value.list l).address? j = (Value.list l).address? k ↔ j.index? = k.index? :=
  Option.map_inj_right fun _ _ => Address.index.inj

theorem Value.address?_array {x : ArrayRef} :
    (Value.array x).address? j = (Value.array x).address? k ↔ j.index? = k.index? :=
  Option.map_inj_right fun _ _ => Address.index.inj

theorem Value.address?_dictionary {d : DictionaryRef} :
    (Value.dictionary d).address? j = (Value.dictionary d).address? k ↔
      Key.ofValue? j = Key.ofValue? k :=
  Option.map_inj_right fun _ _ => Address.entry.inj

namespace TypedArray

variable {a b : TypedArray}

/-- An element that is replaced twice is the last one. -/
theorem set_set {i : Nat} (first : a.set i v line = .ok b) (w : Value) (line' : Line) :
    b.set i w line' = a.set i w line' := by
  unfold TypedArray.set at first
  obtain ⟨⟨u, same⟩, -, first⟩ := bind_eq_ok_iff.1 first
  dsimp only at first
  split at first
  · cases first
    unfold TypedArray.set
    show (a.adopt w line' >>= _) = (a.adopt w line' >>= _)
    cases a.adopt w line' with
    | error e => rfl
    | ok x =>
      simp only [ok_bind, size, List.length_set, List.set_set]
      rfl
  · cases first

end TypedArray

namespace Store

variable {s t : Store} {c : Value}

/-! ## Writing back and writing twice -/

theorem setIfInBounds_getD {α : Type} (xs : Array α) (i : Nat) (d : α) :
    xs.setIfInBounds i (xs[i]?.getD d) = xs := by
  by_cases inside : i < xs.size
  · rw [Array.getElem?_eq_getElem inside, Option.getD_some, Array.setIfInBounds_def,
      dif_pos inside, Array.set_getElem_self]
  · rw [Array.setIfInBounds_eq_of_size_le (Nat.not_lt.1 inside)]

theorem modify_modify {α : Type} (xs : Array α) (i : Nat) (f g : α → α) :
    (xs.modify i f).modify i g = xs.modify i fun x => g (f x) := by
  refine Array.ext (by simp) fun j first second => ?_
  by_cases same : i = j
  · subst same
    simp [Array.getElem_modify]
  · simp [Array.getElem_modify, same]

theorem setArray_array (s : Store) (x : ArrayRef) : s.setArray x (s.array x) = s := by
  rw [setArray, array, setIfInBounds_getD]

theorem setDictionary_dictionary (s : Store) (d : DictionaryRef) :
    s.setDictionary d (s.dictionary d) = s := by
  rw [setDictionary, dictionary, setIfInBounds_getD]

theorem setList_setList (s : Store) (l : ListRef) (first second : List Value) :
    (s.setList l first).setList l second = s.setList l second := by
  simp [setList]

theorem setArray_setArray (s : Store) (x : ArrayRef) (first second : TypedArray) :
    (s.setArray x first).setArray x second = s.setArray x second := by
  simp [setArray]

theorem setDictionary_setDictionary (s : Store) (d : DictionaryRef) (first second : Dictionary) :
    (s.setDictionary d first).setDictionary d second = s.setDictionary d second := by
  simp [setDictionary]

theorem setVariable_setVariable (s : Store) (r : ScopeRef) (name : String) (v w : Value) :
    (s.setVariable r name v).setVariable r name w = s.setVariable r name w := by
  simp only [setVariable, modifyScope, modify_modify, OrderedMap.insert_insert]

/-! ## Reading and writing under keys that are no handles -/

section keyed

variable (keyed : k.kind ≠ .member)

include keyed

theorem element_list (s : Store) (l : ListRef) (line : Line) :
    s.element (.list l) k line =
      (k.position (s.list l).length line).map fun i => (s.list l)[i]?.getD .null := by
  show (s.settle line k >>= _) = _
  rw [settle_of_kind keyed, ok_bind]
  cases k.position (s.list l).length line <;> rfl

theorem element_array (s : Store) (x : ArrayRef) (line : Line) :
    s.element (.array x) k line =
      (k.position (s.array x).size line).map fun i => (s.array x).items[i]?.getD .null := by
  show (s.settle line k >>= _) = _
  rw [settle_of_kind keyed, ok_bind]
  cases k.position (s.array x).size line <;> rfl

theorem element_dictionary (s : Store) (d : DictionaryRef) (line : Line) :
    s.element (.dictionary d) k line =
      (Key.ofValue k line).map fun K => ((s.dictionary d).get? K).elim .null Entry.value := by
  show (s.settle line k >>= _) = _
  rw [settle_of_kind keyed, ok_bind]
  cases Key.ofValue k line <;> rfl

/-- What is read of a collection depends on its storage only. -/
theorem element_congr (collected : c.kind ≠ .member) (same : SameStorage s t c) (line : Line) :
    t.element c k line = s.element c k line := by
  cases c with
  | list l => rw [element_list keyed, element_list keyed, same]
  | array x => rw [element_array keyed, element_array keyed, same]
  | dictionary d => rw [element_dictionary keyed, element_dictionary keyed, same]
  | object o =>
    have same : t.scope o = s.scope o := same
    unfold element elementBy
    rw [settle_of_kind collected, settle_of_kind collected, ok_bind, ok_bind]
    simp only [valueAt?, variableAt?, functionAt?, same]
  | string text =>
    unfold element elementBy
    rw [settle_of_kind collected, settle_of_kind collected, ok_bind, ok_bind]
    simp only [settle_of_kind keyed]
  | vec3 u => cases k <;> first | rfl | exact absurd rfl keyed
  | member _ _ => exact absurd rfl collected
  | _ => rfl

theorem setElement_list (s : Store) (l : ListRef) (v : Value) (line : Line) :
    s.setElement (.list l) k v line =
      (k.position (s.list l).length line).map fun i => s.setList l ((s.list l).set i v) := by
  show (s.settle line k >>= _) = _
  rw [settle_of_kind keyed, ok_bind]
  cases k.position (s.list l).length line <;> rfl

theorem setElement_array (s : Store) (x : ArrayRef) (v : Value) (line : Line) :
    s.setElement (.array x) k v line =
      (do let i ← k.position (s.array x).size line
          return s.setArray x (← (s.array x).set i v line)) := by
  show (s.settle line k >>= _) = _
  rw [settle_of_kind keyed, ok_bind]

theorem setElement_dictionary (s : Store) (d : DictionaryRef) (v : Value) (line : Line) :
    s.setElement (.dictionary d) k v line =
      (Key.ofValue k line).map fun K => s.setDictionary d ((s.dictionary d).insert K ⟨k, v⟩) := by
  show (s.withEntry (s.dictionary d) k v line >>= _) = _
  rw [withEntry, resolved_of_kind keyed, ok_bind, keyOf, settle_of_kind keyed, ok_bind]
  cases Key.ofValue k line <;> rfl

end keyed

theorem element_object (s : Store) (o : ScopeRef) (name : String) (line : Line) :
    s.element (.object o) (.string name) line =
      (s.valueAt? o name).elim (.error (.unknownMember name .object line)) .ok := rfl

theorem setElement_object (s : Store) (o : ScopeRef) (name : String) (v : Value) (line : Line) :
    s.setElement (.object o) (.string name) v line = .ok (s.setVariable o name v) := rfl

/-! ## What a write does -/

/-- What an element reads as after a value has been written to it: the value, widened to the kind of
the elements in an array. -/
def Stored (s : Store) (c v w : Value) : Prop :=
  match c with
  | .array x => v.Widens (s.array x).element w
  | _ => w = v

/-- Whether a key addresses an element of a list or an array within its length. -/
def InBounds (s : Store) (c k : Value) : Prop :=
  match c with
  | .list l => k.Within (s.list l).length
  | .array x => k.Within (s.array x).size
  | _ => True

/-- What a store is after a value has been written to the element under a key. -/
structure Wrote (s : Store) (c k v : Value) (t : Store) : Prop where
  reads : ∃ w, s.Stored c v w ∧
    ∀ j line, c.address? j = c.address? k → t.element c j line = .ok w
  /-- All else reads as before, in the same collection and in others. -/
  others : ∀ c' j line, s.Valid c' → c'.kind ≠ .member → j.kind ≠ .member →
    (c' = c → c.address? j ≠ c.address? k) → t.element c' j line = s.element c' j line
  lists : ∀ l, (t.list l).length = (s.list l).length
  arrays : ∀ x, (t.array x).size = (s.array x).size
  /-- The next value that is written there takes the place of this one. -/
  overwrites : ∀ j w line, c.address? j = c.address? k →
    t.setElement c j w line = s.setElement c j w line

/-- Elements under other keys than the one that has been written to, as the collection alone says it
for its own elements. -/
theorem others_of_own (intact : s.IntactBut c t)
    (own : ∀ j line, j.kind ≠ .member → c.address? j ≠ c.address? k →
      t.element c j line = s.element c j line) (c' j : Value) (line : Line) (valid' : s.Valid c')
    (collected' : c'.kind ≠ .member) (keyed : j.kind ≠ .member)
    (differs : c' = c → c.address? j ≠ c.address? k) :
    t.element c' j line = s.element c' j line := by
  by_cases same : c' = c
  · subst same
    exact own j line keyed (differs rfl)
  · exact element_congr keyed collected' (intact.sameStorage valid' same) line

/-- Writing to an element of a list. -/
theorem wrote_list {l : ListRef} (here : l.index < s.lists.size) {i : Nat}
    (index : k.index? = some (i : Int)) (inside : i < (s.list l).length) (v : Value) :
    s.Wrote (.list l) k v (s.setList l ((s.list l).set i v)) := by
  have now : (s.setList l ((s.list l).set i v)).list l = (s.list l).set i v := by
    rw [list_setList s l l _ here, if_pos rfl]
  have within : i < ((s.list l).set i v).length := by rwa [List.length_set]
  have intact := IntactBut.setList s l ((s.list l).set i v)
  refine ⟨⟨v, rfl, ?_⟩, ?_, ?_, fun _ => rfl, ?_⟩
  · intro j line same
    have found := (Value.address?_list.1 same).trans index
    rw [element_list (Value.kind_of_index? found), now, Value.position_eq_ok found within]
    simp [Except.map, inside]
  · refine others_of_own intact fun j line keyed differs => ?_
    rw [element_list keyed, element_list keyed, now, List.length_set]
    cases at' : j.position (s.list l).length line with
    | error e => rfl
    | ok m =>
      have other : i ≠ m := by
        rintro rfl
        exact differs (Value.address?_list.2 ((Value.exists_of_position at').1.trans index.symm))
      simp [Except.map, other]
  · intro m
    by_cases same : l = m
    · subst same
      rw [now, List.length_set]
    · rw [list_setList s l m _ here, if_neg same]
  · intro j w line same
    have found := (Value.address?_list.1 same).trans index
    have keyed := Value.kind_of_index? found
    rw [setElement_list keyed, setElement_list keyed, now, Value.position_eq_ok found within,
      Value.position_eq_ok found inside]
    simp only [Except.map, setList_setList, List.set_set]

/-- Writing to an element of an array. -/
theorem wrote_array {x : ArrayRef} (here : x.index < s.arrays.size) {i : Nat}
    (index : k.index? = some (i : Int)) (inside : i < (s.array x).size) {items : TypedArray}
    (set : (s.array x).set i v line = .ok items) :
    s.Wrote (.array x) k v (s.setArray x items) := by
  have now : (s.setArray x items).array x = items := by rw [array_setArray s x x _ here, if_pos rfl]
  obtain ⟨-, -, w, widens, replaced⟩ : (TypedArray.Change.set i v line).Allowed (s.array x) ∧ _ := by
    have succeeds := TypedArray.Change.succeeds_set (s.array x) i v line
    rwa [set] at succeeds
  have size : items.size = (s.array x).size := by
    rw [TypedArray.size, replaced, List.length_set]
    rfl
  have within : i < (s.array x).items.length := inside
  have intact := IntactBut.setArray s x items
  refine ⟨⟨w, widens, ?_⟩, ?_, fun _ => rfl, ?_, ?_⟩
  · intro j line same
    have found := (Value.address?_array.1 same).trans index
    rw [element_array (Value.kind_of_index? found), now, size, Value.position_eq_ok found inside,
      replaced]
    simp [Except.map, within]
  · refine others_of_own intact fun j line keyed differs => ?_
    rw [element_array keyed, element_array keyed, now, size]
    cases at' : j.position (s.array x).size line with
    | error e => rfl
    | ok m =>
      have other : i ≠ m := by
        rintro rfl
        exact differs (Value.address?_array.2 ((Value.exists_of_position at').1.trans index.symm))
      simp [Except.map, replaced, other]
  · intro y
    by_cases same : x = y
    · subst same
      rw [now, size]
    · rw [array_setArray s x y _ here, if_neg same]
  · intro j w line' same
    have found := (Value.address?_array.1 same).trans index
    have keyed := Value.kind_of_index? found
    rw [setElement_array keyed, setElement_array keyed, now, size, Value.position_eq_ok found inside,
      ok_bind, ok_bind, TypedArray.set_set set]
    simp only [setArray_setArray]

/-- Writing to an entry of a dictionary. -/
theorem wrote_dictionary {d : DictionaryRef} (here : d.index < s.dictionaries.size) {K : Key}
    (hashes : Key.ofValue? k = some K) (v : Value) :
    s.Wrote (.dictionary d) k v (s.setDictionary d ((s.dictionary d).insert K ⟨k, v⟩)) := by
  have now : (s.setDictionary d ((s.dictionary d).insert K ⟨k, v⟩)).dictionary d =
      (s.dictionary d).insert K ⟨k, v⟩ := by
    rw [dictionary_setDictionary s d d _ here, if_pos rfl]
  have intact := IntactBut.setDictionary s d ((s.dictionary d).insert K ⟨k, v⟩)
  refine ⟨⟨v, rfl, ?_⟩, ?_, fun _ => rfl, fun _ => rfl, ?_⟩
  · intro j line same
    have found := (Value.address?_dictionary.1 same).trans hashes
    rw [element_dictionary (Key.kind_of_ofValue? found), now, Key.ofValue, found]
    simp [Except.map, OrderedMap.get?_insert]
  · refine others_of_own intact fun j line keyed differs => ?_
    rw [element_dictionary keyed, element_dictionary keyed, now, Key.ofValue]
    cases found : Key.ofValue? j with
    | none => rfl
    | some J =>
      have other : J ≠ K := by
        rintro rfl
        exact differs (Value.address?_dictionary.2 (found.trans hashes.symm))
      simp [Except.map, OrderedMap.get?_insert, other]
  · intro j w line same
    have found := (Value.address?_dictionary.1 same).trans hashes
    have keyed := Key.kind_of_ofValue? found
    rw [setElement_dictionary keyed, setElement_dictionary keyed, now, Key.ofValue, found]
    simp only [Option.elim, Except.map, setDictionary_setDictionary, OrderedMap.insert_insert]

/-- Writing to a member of a class instance. -/
theorem wrote_object {o : ScopeRef} (valid : s.Valid (.object o)) (name : String) (v : Value) :
    s.Wrote (.object o) (.string name) v (s.setVariable o name v) := by
  have intact := IntactBut.setVariable s o name v
  have now : (s.setVariable o name v).scope o =
      { s.scope o with vars := (s.scope o).vars.insert name v } := by
    rw [setVariable, scope_modifyScope s o o _ valid.1, if_pos rfl]
  have name_of_same {j : Value} (same : (Value.object o).address? j =
      (Value.object o).address? (.string name)) : j = .string name := by
    cases j <;> cases same
    rfl
  refine ⟨⟨v, rfl, ?_⟩, ?_, fun _ => rfl, fun _ => rfl, ?_⟩
  · intro j line same
    obtain rfl := name_of_same same
    rw [element_object, valueAt?, variableAt?, now]
    simp [OrderedMap.get?_insert]
  · refine others_of_own intact fun j line keyed differs => ?_
    cases j with
    | string other =>
      have different : other ≠ name := fun equal => differs (by rw [equal])
      rw [element_object, element_object]
      simp [valueAt?, variableAt?, functionAt?, now, OrderedMap.get?_insert, different]
    | _ => rfl
  · intro j w line same
    obtain rfl := name_of_same same
    rw [setElement_object, setElement_object, setVariable_setVariable]

/-- Whether a value can be written to the element under a key: the key is within the length of a list
or an array, whose elements can be made of the value. -/
def Accepts (s : Store) (c k v : Value) : Prop :=
  s.InBounds c k ∧
    match c with
    | .array x => v.Fits (s.array x).element
    | _ => True

theorem exists_of_isSome_map {α β : Type} {x : Option α} {f : α → β}
    (here : (x.map f).isSome = true) : ∃ y, x = some y := by
  simpa [Option.isSome_iff_exists] using here

/-- Writing to an element succeeds exactly where the value can be written. -/
theorem setElement_cases (valid : s.Valid c) (addressed : (c.address? k).isSome = true) (v : Value)
    (line : Line) :
    (∃ t, s.setElement c k v line = .ok t ∧ s.Accepts c k v ∧ s.Wrote c k v t) ∨
      (∃ e, s.setElement c k v line = .error e ∧ ¬ s.Accepts c k v) := by
  cases c with
  | list l =>
    obtain ⟨i, index⟩ := exists_of_isSome_map addressed
    rw [setElement_list (Value.kind_of_index? index)]
    rcases Value.position_cases index (s.list l).length line with
      ⟨m, found, inside, within, position⟩ | ⟨outside, e, position⟩
    · rw [position]
      exact .inl ⟨_, rfl, ⟨within, trivial⟩, wrote_list valid found inside v⟩
    · rw [position]
      exact .inr ⟨e, rfl, fun accepts => outside accepts.1⟩
  | array x =>
    obtain ⟨i, index⟩ := exists_of_isSome_map addressed
    rw [setElement_array (Value.kind_of_index? index)]
    rcases Value.position_cases index (s.array x).size line with
      ⟨m, found, inside, within, position⟩ | ⟨outside, e, position⟩
    · rw [position, ok_bind]
      have succeeds := TypedArray.Change.succeeds_set (s.array x) m v line
      cases set : (s.array x).set m v line with
      | ok items =>
        rw [set] at succeeds
        exact .inl ⟨_, rfl, ⟨within, succeeds.1.1⟩, wrote_array valid found inside set⟩
      | error e =>
        rw [set] at succeeds
        exact .inr ⟨e, rfl, fun accepts => succeeds ⟨accepts.2, inside⟩⟩
    · rw [position]
      exact .inr ⟨e, rfl, fun accepts => outside accepts.1⟩
  | dictionary d =>
    obtain ⟨K, hashes⟩ := exists_of_isSome_map addressed
    rw [setElement_dictionary (Key.kind_of_ofValue? hashes), Key.ofValue, hashes]
    exact .inl ⟨_, rfl, ⟨trivial, trivial⟩, wrote_dictionary valid hashes v⟩
  | object o =>
    cases k with
    | string name => exact .inl ⟨_, rfl, ⟨trivial, trivial⟩, wrote_object valid name v⟩
    | _ => cases addressed
  | _ => cases addressed

/-- What can be read of a list or an array is within its length. -/
theorem inBounds_of_element {w : Value} (addressed : (c.address? k).isSome = true)
    (reads : s.element c k line = .ok w) : s.InBounds c k := by
  cases c with
  | list l =>
    obtain ⟨i, index⟩ := exists_of_isSome_map addressed
    rw [element_list (Value.kind_of_index? index)] at reads
    obtain ⟨m, inside, -⟩ := map_eq_ok_iff.1 reads
    exact Value.within_of_position inside
  | array x =>
    obtain ⟨i, index⟩ := exists_of_isSome_map addressed
    rw [element_array (Value.kind_of_index? index)] at reads
    obtain ⟨m, inside, -⟩ := map_eq_ok_iff.1 reads
    exact Value.within_of_position inside
  | _ => trivial

/-! ## Writing in place -/

/-- Writes a value to the element under a key: the element is looked up, then the value is converted
and stored in the storage that all handles to the collection share. -/
def setElementInPlace (collection key v : Value) (line : Line) : InPlace Store Unit := do
  let s ← get
  match ← InPlace.lift (s.settle line collection) with
  | .array x =>
    let key ← InPlace.lift (s.settle line key)
    let i ← InPlace.lift (key.position (s.array x).size line)
    InPlace.inside (array · x) (setArray · x) (TypedArray.storeInPlace (some i) v line)
  | .list l =>
    let key ← InPlace.lift (s.settle line key)
    let i ← InPlace.lift (key.position (s.list l).length line)
    InPlace.write (s.setList l ((s.list l).set i v))
  | .dictionary d =>
    InPlace.inside (dictionary · d) (setDictionary · d) (Dictionary.insertInPlace s key v line)
  | .object o =>
    let name ← InPlace.lift (key.memberName line)
    InPlace.write (s.setVariable o name v)
  | _ => throw (.invalidTarget line)

/-- Writing an element is all or nothing: a collection in which storing fails is as it was. -/
theorem on_setElementInPlace (s : Store) (collection key v : Value) (line : Line) :
    (setElementInPlace collection key v line).on s =
      InPlace.settled s (s.setElement collection key v line) := by
  rw [setElementInPlace, InPlace.on_get_bind, setElement]
  refine InPlace.on_lift_bind fun c => ?_
  cases c with
  | array x =>
    refine InPlace.on_lift_bind fun key => InPlace.on_lift_bind fun i => ?_
    exact InPlace.on_inside_of_settled (TypedArray.on_storeInPlace_some (s.array x) i v line)
      (setArray_array s x)
  | list l =>
    refine InPlace.on_lift_bind fun key => InPlace.on_lift_bind fun i => ?_
    rfl
  | dictionary d =>
    exact InPlace.on_inside_of_settled
      (Dictionary.on_insertInPlace s (s.dictionary d) key v line) (setDictionary_dictionary s d)
  | object o =>
    refine InPlace.on_lift_bind fun name => ?_
    rfl
  | _ => rfl

/-- The laws of reading and writing elements: a write that succeeds is what is read under its address
and nowhere else, it is the last one there, and a write that fails changes nothing. -/
theorem laws_of_elements (valid : s.Valid c) (addressed : (c.address? k).isSome = true) (v : Value)
    (line : Line) :
    (∀ w, s.element c k line = .ok w → s.InBounds c k) ∧
      match (setElementInPlace c k v line).on s with
      | (.ok _, t) => s.Accepts c k v ∧ s.Wrote c k v t
      | (.error _, t) => ¬ s.Accepts c k v ∧ t = s := by
  refine ⟨fun w => inBounds_of_element addressed, ?_⟩
  rw [on_setElementInPlace]
  rcases setElement_cases valid addressed v line with ⟨t, set, wrote⟩ | ⟨e, set, refused⟩
  · rw [set]
    exact wrote
  · rw [set]
    exact ⟨refused, rfl⟩

/-- An integer that becomes the element of an array of floats, and a text that does not. -/
theorem laws_of_elements_in_floats :
    let s : Store := { Store.empty with arrays := #[.singleton (.float 1.5) rfl] }
    (∃ t, (setElementInPlace (.array ⟨0⟩) (.int 0) (.int 2) 1).on s = (.ok (), t) ∧
        s.Wrote (.array ⟨0⟩) (.int 0) (.int 2) t) ∧
      ¬ s.Accepts (.array ⟨0⟩) (.int 0) (.string "a") := by
  intro s
  have valid : s.Valid (.array ⟨0⟩) := Nat.zero_lt_one
  have number := laws_of_elements valid (k := .int 0) rfl (.int 2) 1
  have text := laws_of_elements valid (k := .int 0) rfl (.string "a") 1
  have ends : (setElementInPlace (.array ⟨0⟩) (.int 0) (.int 2) 1).on s = (.ok (), _) := rfl
  have fails : (setElementInPlace (.array ⟨0⟩) (.int 0) (.string "a") 1).on s =
      (.error (.heterogeneousArray .float .string 1), s) := rfl
  rw [ends] at number
  rw [fails] at text
  exact ⟨⟨_, ends, number.2.2⟩, text.2.1⟩

end Store

end Scriptlet
