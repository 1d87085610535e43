import Scriptlet.Proofs.Store.Intact

/-!
# The storage that an operation touches

Each collection and each class instance has storage of its own, and writing to one leaves the storage
of all others as it is (`IntactBut`).
-/

namespace Scriptlet.Store

variable {s t u : Store} {a b c v : Value} {line : Line}

/-- Whether a store has what another one has, each as it is there, but for the storage of one
value. -/
structure IntactBut (s : Store) (a : Value) (t : Store) : Prop where
  lists : s.lists.size ≤ t.lists.size
  arrays : s.arrays.size ≤ t.arrays.size
  dictionaries : s.dictionaries.size ≤ t.dictionaries.size
  list : ∀ l, l.index < s.lists.size → .list l ≠ a → t.list l = s.list l
  array : ∀ x, x.index < s.arrays.size → .array x ≠ a → t.array x = s.array x
  dictionary : ∀ d, d.index < s.dictionaries.size → .dictionary d ≠ a →
    t.dictionary d = s.dictionary d
  scopes : t.scopes.size = s.scopes.size
  scope : ∀ r, .object r ≠ a → t.scope r = s.scope r
  functions : t.functions = s.functions

/-- Whether the storage of a value is the same in two stores. -/
def SameStorage (s t : Store) : Value → Prop
  | .list l => t.list l = s.list l
  | .array x => t.array x = s.array x
  | .dictionary d => t.dictionary d = s.dictionary d
  | .object r => t.scope r = s.scope r
  | _ => True

theorem Intact.but (intact : s.Intact t) (a : Value) : s.IntactBut a t where
  lists := intact.lists
  arrays := intact.arrays
  dictionaries := intact.dictionaries
  list l here _ := intact.list l here
  array x here _ := intact.array x here
  dictionary d here _ := intact.dictionary d here
  scopes := congrArg Array.size intact.scopes
  scope r _ := by rw [scope, scope, intact.scopes]
  functions := intact.functions

namespace IntactBut

theorem trans (first : s.IntactBut a t) (second : t.IntactBut a u) : s.IntactBut a u where
  lists := Nat.le_trans first.lists second.lists
  arrays := Nat.le_trans first.arrays second.arrays
  dictionaries := Nat.le_trans first.dictionaries second.dictionaries
  list l here other := (second.list l (Nat.lt_of_lt_of_le here first.lists) other).trans
    (first.list l here other)
  array x here other := (second.array x (Nat.lt_of_lt_of_le here first.arrays) other).trans
    (first.array x here other)
  dictionary d here other :=
    (second.dictionary d (Nat.lt_of_lt_of_le here first.dictionaries) other).trans
      (first.dictionary d here other)
  scopes := second.scopes.trans first.scopes
  scope r other := (second.scope r other).trans (first.scope r other)
  functions := second.functions.trans first.functions

theorem setList (s : Store) (l : ListRef) (items : List Value) :
    s.IntactBut (.list l) (s.setList l items) where
  lists := by simp [Store.setList]
  arrays := Nat.le_refl _
  dictionaries := Nat.le_refl _
  list m here other := by
    have differs : l ≠ m := fun same => other (congrArg Value.list same.symm)
    by_cases inside : l.index < s.lists.size
    · rw [list_setList s l m items inside, if_neg differs]
    · rw [Store.setList, Store.list, Array.setIfInBounds_eq_of_size_le (Nat.not_lt.1 inside)]
      rfl
  array _ _ _ := rfl
  dictionary _ _ _ := rfl
  scopes := rfl
  scope _ _ := rfl
  functions := rfl

theorem setArray (s : Store) (x : ArrayRef) (items : TypedArray) :
    s.IntactBut (.array x) (s.setArray x items) where
  lists := Nat.le_refl _
  arrays := by simp [Store.setArray]
  dictionaries := Nat.le_refl _
  list _ _ _ := rfl
  array y here other := by
    have differs : x ≠ y := fun same => other (congrArg Value.array same.symm)
    by_cases inside : x.index < s.arrays.size
    · rw [array_setArray s x y items inside, if_neg differs]
    · rw [Store.setArray, Store.array, Array.setIfInBounds_eq_of_size_le (Nat.not_lt.1 inside)]
      rfl
  dictionary _ _ _ := rfl
  scopes := rfl
  scope _ _ := rfl
  functions := rfl

theorem setDictionary (s : Store) (d : DictionaryRef) (entries : Dictionary) :
    s.IntactBut (.dictionary d) (s.setDictionary d entries) where
  lists := Nat.le_refl _
  arrays := Nat.le_refl _
  dictionaries := by simp [Store.setDictionary]
  list _ _ _ := rfl
  array _ _ _ := rfl
  dictionary e here other := by
    have differs : d ≠ e := fun same => other (congrArg Value.dictionary same.symm)
    by_cases inside : d.index < s.dictionaries.size
    · rw [dictionary_setDictionary s d e entries inside, if_neg differs]
    · rw [Store.setDictionary, Store.dictionary,
        Array.setIfInBounds_eq_of_size_le (Nat.not_lt.1 inside)]
      rfl
  scopes := rfl
  scope _ _ := rfl
  functions := rfl

theorem setVariable (s : Store) (r : ScopeRef) (name : String) (v : Value) :
    s.IntactBut (.object r) (s.setVariable r name v) where
  lists := Nat.le_refl _
  arrays := Nat.le_refl _
  dictionaries := Nat.le_refl _
  list _ _ _ := rfl
  array _ _ _ := rfl
  dictionary _ _ _ := rfl
  scopes := Array.size_modify
  scope q other := by
    obtain ⟨r⟩ := r
    obtain ⟨q⟩ := q
    have differs : r ≠ q := fun same => other (by rw [same])
    simp [Store.setVariable, modifyScope, Store.scope, differs, Array.getElem?_modify]
  functions := rfl

/-- What a value refers to keeps its storage where another value is written to. -/
theorem sameStorage (intact : s.IntactBut a t) (valid : s.Valid c) (other : c ≠ a) :
    SameStorage s t c := by
  cases c with
  | list l => exact intact.list l valid other
  | array x => exact intact.array x valid other
  | dictionary d => exact intact.dictionary d valid other
  | object r => exact intact.scope r other
  | _ => trivial

end IntactBut

/-- Setting an element touches the storage of the collection and nothing else. -/
theorem intactBut_setElement {collection key : Value} (collected : collection.kind ≠ .member)
    (h : s.setElement collection key v line = .ok t) : s.IntactBut collection t := by
  unfold setElement at h
  rw [settle_of_kind collected, ok_bind] at h
  cases collection with
  | array x =>
    obtain ⟨k, -, h⟩ := bind_eq_ok_iff.1 h
    obtain ⟨i, -, h⟩ := bind_eq_ok_iff.1 h
    obtain ⟨items, -, h⟩ := bind_eq_ok_iff.1 h
    cases h
    exact .setArray s x items
  | list l =>
    obtain ⟨k, -, h⟩ := bind_eq_ok_iff.1 h
    obtain ⟨i, -, h⟩ := bind_eq_ok_iff.1 h
    cases h
    exact .setList s l _
  | dictionary d =>
    obtain ⟨entries, -, h⟩ := bind_eq_ok_iff.1 h
    cases h
    exact .setDictionary s d entries
  | object o =>
    obtain ⟨name, -, h⟩ := bind_eq_ok_iff.1 h
    cases h
    exact .setVariable s o name v
  | _ => cases h

end Scriptlet.Store
