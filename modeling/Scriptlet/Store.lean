import Scriptlet.Dictionary
import Scriptlet.Function

/-!
# The store

Collections, functions and scopes live in one store and are known by their places in
it. What is read from a place of another store is empty.
-/

namespace Scriptlet

/-- Everything that values refer to. -/
structure Store where
  lists : Array (List Value)
  arrays : Array TypedArray
  dictionaries : Array Dictionary
  functions : Array Function
  scopes : Array Scope

namespace Store

/-- The store with nothing in it. -/
def empty : Store := ⟨#[], #[], #[], #[], #[]⟩

instance : Inhabited Store := ⟨empty⟩

/-! ## Reading -/

/-- The elements of a list. -/
def list (s : Store) (l : ListRef) : List Value := s.lists[l.index]?.getD []

/-- A typed array. -/
def array (s : Store) (a : ArrayRef) : TypedArray := s.arrays[a.index]?.getD .empty

/-- A dictionary. -/
def dictionary (s : Store) (d : DictionaryRef) : Dictionary := s.dictionaries[d.index]?.getD .empty

/-- A function. -/
def function (s : Store) (f : FunctionRef) : Function := s.functions[f.index]?.getD default

/-- A scope. -/
def scope (s : Store) (r : ScopeRef) : Scope := s.scopes[r.index]?.getD default

/-! ## Writing -/

/-- The store with other elements in a list. -/
def setList (s : Store) (l : ListRef) (items : List Value) : Store :=
  { s with lists := s.lists.setIfInBounds l.index items }

/-- The store with another typed array in a place. -/
def setArray (s : Store) (a : ArrayRef) (items : TypedArray) : Store :=
  { s with arrays := s.arrays.setIfInBounds a.index items }

/-- The store with another dictionary in a place. -/
def setDictionary (s : Store) (d : DictionaryRef) (entries : Dictionary) : Store :=
  { s with dictionaries := s.dictionaries.setIfInBounds d.index entries }

/-- The store with a changed scope. -/
def modifyScope (s : Store) (r : ScopeRef) (change : Scope → Scope) : Store :=
  { s with scopes := s.scopes.modify r.index change }

/-! ## New places -/

/-- A new list. -/
def newList (s : Store) (items : List Value) : Value × Store :=
  (.list ⟨s.lists.size⟩, { s with lists := s.lists.push items })

/-- A new typed array. -/
def newArray (s : Store) (items : TypedArray) : Value × Store :=
  (.array ⟨s.arrays.size⟩, { s with arrays := s.arrays.push items })

/-- A new dictionary. -/
def newDictionary (s : Store) (entries : Dictionary) : Value × Store :=
  (.dictionary ⟨s.dictionaries.size⟩, { s with dictionaries := s.dictionaries.push entries })

/-- A new function. -/
def newFunction (s : Store) (f : Function) : FunctionRef × Store :=
  (⟨s.functions.size⟩, { s with functions := s.functions.push f })

/-- The value of a constant; an array is a new one each time. -/
def ofConstant (s : Store) : Constant → Value × Store
  | .null => (.null, s)
  | .int i => (.int i, s)
  | .float x => (.float x, s)
  | .string text => (.string text, s)
  | .array items => s.newArray items.toTypedArray

/-- A new scope. -/
def newScope (s : Store) (scope : Scope) : ScopeRef × Store :=
  (⟨s.scopes.size⟩, { s with scopes := s.scopes.push scope })

/-! ## What is read after a change -/

theorem list_setList (s : Store) (l m : ListRef) (items : List Value)
    (h : l.index < s.lists.size) :
    (s.setList l items).list m = if l = m then items else s.list m := by
  obtain ⟨l⟩ := l
  obtain ⟨m⟩ := m
  by_cases same : l = m
  · subst same
    simp_all [setList, list]
  · simp [setList, list, same, Array.getElem?_setIfInBounds_ne]

theorem array_setArray (s : Store) (a b : ArrayRef) (items : TypedArray)
    (h : a.index < s.arrays.size) :
    (s.setArray a items).array b = if a = b then items else s.array b := by
  obtain ⟨a⟩ := a
  obtain ⟨b⟩ := b
  by_cases same : a = b
  · subst same
    simp_all [setArray, array]
  · simp [setArray, array, same, Array.getElem?_setIfInBounds_ne]

theorem dictionary_setDictionary (s : Store) (d e : DictionaryRef) (entries : Dictionary)
    (h : d.index < s.dictionaries.size) :
    (s.setDictionary d entries).dictionary e = if d = e then entries else s.dictionary e := by
  obtain ⟨d⟩ := d
  obtain ⟨e⟩ := e
  by_cases same : d = e
  · subst same
    simp_all [setDictionary, dictionary]
  · simp [setDictionary, dictionary, same, Array.getElem?_setIfInBounds_ne]

theorem scope_modifyScope (s : Store) (r q : ScopeRef) (change : Scope → Scope)
    (h : r.index < s.scopes.size) :
    (s.modifyScope r change).scope q = if r = q then change (s.scope q) else s.scope q := by
  obtain ⟨r⟩ := r
  obtain ⟨q⟩ := q
  by_cases same : r = q
  · subst same
    simp_all [modifyScope, scope, Array.getElem_modify_self]
  · simp [modifyScope, scope, same, Array.getElem?_modify]

theorem list_newList (s : Store) (items : List Value) :
    (s.newList items).2.list ⟨s.lists.size⟩ = items := by
  simp [newList, list]

theorem function_newFunction (s : Store) (f : Function) :
    (s.newFunction f).2.function (s.newFunction f).1 = f := by
  simp [newFunction, function]

theorem scope_newScope (s : Store) (scope : Scope) :
    (s.newScope scope).2.scope (s.newScope scope).1 = scope := by
  simp [newScope, Store.scope]

end Store

end Scriptlet
