import Scriptlet.Proofs.Store.Appending
import Scriptlet.Proofs.Store.Displayed
import Scriptlet.Store.Operation

/-!
# What operators leave as it is

Operators make collections and change none (`Intact.binary`). Appending is the exception: it changes
the storage of its target, which is then its result (`append_cases`), and no list gets shorter by it,
so that what could be read as an element can still be written (`exists_setElement`).
-/

namespace Scriptlet

/-- Whether a value has storage that can be appended to. -/
def Value.isCollection : Value → Bool
  | .list _ | .array _ | .dictionary _ => true
  | _ => false

/-- A position is one in whatever is longer. -/
theorem Value.position_of_le {v : Value} {m n i : Nat} {line : Line} (le : m ≤ n)
    (inside : v.position m line = .ok i) : v.position n line = .ok i := by
  have within {z : Int64} (inside : (if 0 ≤ z.toInt ∧ z.toInt < m then Except.ok z.toInt.toNat
        else .error (RuntimeError.indexOutOfBounds z.toInt m line)) = .ok i) :
      (if 0 ≤ z.toInt ∧ z.toInt < n then Except.ok z.toInt.toNat
        else .error (RuntimeError.indexOutOfBounds z.toInt n line)) = .ok i := by
    split at inside
    · next bounds => rw [← inside, if_pos ⟨bounds.1, by omega⟩]
    · cases inside
  cases v with
  | int z => exact within inside
  | float x => exact within inside
  | _ => cases inside

/-- Arrays hold no collections. -/
theorem TypedArray.isCollection_getElem? (a : TypedArray) (i : Nat) :
    (a.items[i]?.getD .null).isCollection = false := by
  cases found : a.items[i]? with
  | none => rfl
  | some v =>
    have element := a.isElement
    rw [← a.uniform v (List.mem_of_getElem? found)] at element
    cases v <;> first | rfl | cases element

namespace Store

/-- Whether a store has what another one has, each as it is there. -/
structure Intact (s t : Store) : Prop extends s.Extends t where
  dictionaries : s.dictionaries.size ≤ t.dictionaries.size
  dictionary : ∀ d, d.index < s.dictionaries.size → t.dictionary d = s.dictionary d
  functions : t.functions = s.functions
  scopes : t.scopes = s.scopes

namespace Intact

variable {s t u : Store} {a b v w : Value} {line : Line} {target : Kind}

theorem refl (s : Store) : s.Intact s := ⟨.refl s, Nat.le_refl _, fun _ _ => rfl, rfl, rfl⟩

theorem trans (first : s.Intact t) (second : t.Intact u) : s.Intact u where
  toExtends := first.toExtends.trans second.toExtends
  dictionaries := Nat.le_trans first.dictionaries second.dictionaries
  dictionary d here := (second.dictionary d (Nat.lt_of_lt_of_le here first.dictionaries)).trans
    (first.dictionary d here)
  functions := second.functions.trans first.functions
  scopes := second.scopes.trans first.scopes

theorem newList (s : Store) (items : List Value) : s.Intact (s.newList items).2 :=
  ⟨.newList s items, Nat.le_refl _, fun _ _ => rfl, rfl, rfl⟩

theorem newArray (s : Store) (items : TypedArray) : s.Intact (s.newArray items).2 :=
  ⟨.newArray s items, Nat.le_refl _, fun _ _ => rfl, rfl, rfl⟩

theorem newDictionary (s : Store) (entries : Dictionary) :
    s.Intact (s.newDictionary entries).2 where
  toExtends := ⟨Nat.le_refl _, Nat.le_refl _, fun _ _ => rfl, fun _ _ => rfl⟩
  dictionaries := by simp [Store.newDictionary]
  dictionary d here := by
    simp only [Store.dictionary, Store.newDictionary]
    rw [Array.getElem?_push_lt here, Array.getElem?_eq_getElem here]
  functions := rfl
  scopes := rfl

theorem upconvert (h : s.upconvert v target line = .ok (w, u)) : s.Intact u := by
  obtain ⟨x, -, h⟩ := bind_eq_ok_iff.1 h
  dsimp only at h
  repeat' split at h
  all_goals first
    | (cases h; exact refl s)
    | (cases h; exact newList s _)
    | (cases h; exact newArray s _)
    | (cases h; exact newDictionary s _)
    | cases h

theorem unify {r : Value × Value} (h : s.unify a b line = .ok (r, u)) : s.Intact u := by
  obtain ⟨⟨x, t⟩, left, h⟩ := bind_eq_ok_iff.1 h
  obtain ⟨⟨y, t'⟩, right, h⟩ := bind_eq_ok_iff.1 h
  cases h
  exact (upconvert left).trans (upconvert right)

theorem arithmetic {op : BinaryOperator} (h : s.arithmetic op a b line = .ok (w, u)) :
    s.Intact u := by
  obtain ⟨⟨⟨x, y⟩, t⟩, unified, h⟩ := bind_eq_ok_iff.1 h
  have same : t = u := by
    dsimp only at h
    split at h
    · obtain ⟨i, -, h⟩ := bind_eq_ok_iff.1 h
      cases h
      rfl
    · obtain ⟨i, -, h⟩ := bind_eq_ok_iff.1 h
      cases h
      rfl
    · cases h
      rfl
    · cases h
      rfl
    · cases h
  exact same ▸ unify unified

theorem comparison {op : BinaryOperator} (h : s.comparison op a b line = .ok (w, u)) :
    s.Intact u := by
  unfold Store.comparison at h
  split at h
  · split at h
    · cases h
      exact refl s
    · cases h
  · cases h
  · next x y t unified =>
    unfold Store.unifyForCompare at unified
    split at unified
    · split at h
      · cases h
        exact unify unified
      · cases h
    · cases unified

theorem addition (h : s.addition a b line = .ok (w, u)) : s.Intact u := by
  unfold Store.addition at h
  split at h
  · cases h
    exact newArray s _
  · split at h
    · exact arithmetic h
    · obtain ⟨⟨⟨x, y⟩, t⟩, unified, h⟩ := bind_eq_ok_iff.1 h
      have sums : t.Intact u := by
        dsimp only at h
        split at h
        · cases h
          exact refl _
        · obtain ⟨items, -, h⟩ := bind_eq_ok_iff.1 h
          cases h
          exact newArray t _
        · cases h
          exact newList t _
        · cases h
          exact newDictionary t _
        · cases h
      exact (unify unified).trans sums

/-- Operators change nothing that is there. -/
theorem binary {op : BinaryOperator} (h : s.binary op a b line = .ok (w, u)) : s.Intact u := by
  obtain ⟨x, -, h⟩ := bind_eq_ok_iff.1 h
  obtain ⟨y, -, h⟩ := bind_eq_ok_iff.1 h
  cases op with
  | add => exact addition h
  | sub | mul | div | mod => exact arithmetic h
  | equal | notEqual | less | greater | lessEqual | greaterEqual => exact comparison h
  | and | or =>
    cases h
    exact refl s

theorem length_list (intact : s.Intact t) (l : ListRef) :
    (s.list l).length ≤ (t.list l).length := by
  by_cases here : l.index < s.lists.size
  · rw [intact.list l here]
  · have none : s.list l = [] := by rw [Store.list, Array.getElem?_eq_none (Nat.not_lt.1 here)]; rfl
    rw [none]
    exact Nat.zero_le _

end Intact

/-! ## Appending -/

variable {s t u : Store} {a b v w x collection key : Value} {line : Line}

theorem length_list_setList {l : ListRef} {items : List Value}
    (longer : (s.list l).length ≤ items.length) (m : ListRef) :
    (s.list m).length ≤ ((s.setList l items).list m).length := by
  by_cases here : l.index < s.lists.size
  · rw [list_setList s l m items here]
    split
    · next same => exact same ▸ longer
    · exact Nat.le_refl _
  · have same : (s.setList l items).lists = s.lists :=
      Array.setIfInBounds_eq_of_size_le (Nat.not_lt.1 here)
    rw [list, list, same]

/-- Appending leaves everything as it is, or changes the storage of its target and gives the
target. -/
theorem append_cases (h : s.append a b line = .ok (w, u)) :
    s.Intact u ∨ (w = a ∧ a.isCollection = true ∧ ∀ l, (s.list l).length ≤ (u.list l).length) := by
  obtain ⟨x, -, h⟩ := bind_eq_ok_iff.1 h
  cases a with
  | list l =>
    dsimp only at h
    split at h
    · cases h
      exact .inl (.newArray s _)
    · cases h
      refine .inr ⟨rfl, rfl, length_list_setList ?_⟩
      rw [List.length_append]
      exact Nat.le_add_right _ _
  | array y =>
    dsimp only at h
    split at h
    · obtain ⟨items, -, h⟩ := bind_eq_ok_iff.1 h
      cases h
      exact .inr ⟨rfl, rfl, fun _ => Nat.le_refl _⟩
    · split at h
      · obtain ⟨items, -, h⟩ := bind_eq_ok_iff.1 h
        cases h
        exact .inr ⟨rfl, rfl, fun _ => Nat.le_refl _⟩
      · exact .inl (.addition h)
  | dictionary d =>
    obtain ⟨⟨y, t⟩, converted, h⟩ := bind_eq_ok_iff.1 h
    have first := Intact.upconvert converted
    dsimp only at h
    split at h
    · cases h
      exact .inr ⟨rfl, rfl, first.length_list⟩
    · exact .inl (first.trans (.addition h))
  | _ => exact .inl (.addition h)

/-! ## Writing what could be read -/

/-- Where a collection could be read, anything can be written, as long as no list has become
shorter. -/
theorem exists_setElement (collected : collection.kind ≠ .member) (keyed : key.kind ≠ .member)
    (reads : s.element collection key line = .ok w) (holds : w.isCollection = true)
    (longer : ∀ l, (s.list l).length ≤ (u.list l).length) (x : Value) :
    ∃ t, u.setElement collection key x line = .ok t := by
  unfold element elementBy at reads
  rw [settle_of_kind collected, ok_bind] at reads
  unfold setElement
  rw [settle_of_kind collected, ok_bind]
  -- Arrays, texts and vectors hold no collections; the others take a key that they have read.
  cases collection with
  | array a =>
    obtain ⟨k, -, reads⟩ := bind_eq_ok_iff.1 reads
    obtain ⟨i, -, reads⟩ := bind_eq_ok_iff.1 reads
    cases reads
    rw [TypedArray.isCollection_getElem?] at holds
    cases holds
  | list l =>
    dsimp only at reads ⊢
    rw [settle_of_kind keyed, ok_bind] at reads
    obtain ⟨i, inside, -⟩ := bind_eq_ok_iff.1 reads
    rw [settle_of_kind keyed, ok_bind, Value.position_of_le (longer l) inside]
    exact ⟨_, rfl⟩
  | dictionary d =>
    dsimp only at reads ⊢
    rw [settle_of_kind keyed, ok_bind] at reads
    obtain ⟨k, hashed, -⟩ := bind_eq_ok_iff.1 reads
    rw [withEntry, resolved_of_kind keyed, ok_bind, keyOf, settle_of_kind keyed, ok_bind, hashed]
    exact ⟨_, rfl⟩
  | object o =>
    obtain ⟨name, named, -⟩ := bind_eq_ok_iff.1 reads
    dsimp only
    rw [named]
    exact ⟨_, rfl⟩
  | string text =>
    obtain ⟨k, -, reads⟩ := bind_eq_ok_iff.1 reads
    obtain ⟨i, -, reads⟩ := bind_eq_ok_iff.1 reads
    cases reads
    cases found : text.toList[i]? <;> rw [found] at holds <;> cases holds
  | vec3 v =>
    obtain ⟨i, -, reads⟩ := bind_eq_ok_iff.1 reads
    cases reads
    cases found : v.component? i <;> rw [found] at holds <;> cases holds
  | member _ _ => exact absurd rfl collected
  | _ => cases reads

end Store

end Scriptlet
