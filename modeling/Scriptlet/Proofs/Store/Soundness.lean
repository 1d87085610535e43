import Scriptlet.Store.Class
import Scriptlet.Store.Closing

/-!
# Sound stores

In a sound store every reference leads to an object of the store: a value that is a class
instance to a class scope, a parent link to an older scope, and what is registered in a scope
is registered under its own name. Every change of a store lets it grow: places keep their
objects, and what evaluation may rely on about a scope or a function stays as it is.
-/

namespace Scriptlet

/-- Whether all that a value refers to is in the store. -/
def Store.Valid (s : Store) : Value → Prop
  | .function f => f.index < s.functions.size
  | .array a => a.index < s.arrays.size
  | .member collection key => s.Valid collection ∧ s.Valid key
  | .list l => l.index < s.lists.size
  | .dictionary d => d.index < s.dictionaries.size
  | .object o => o.index < s.scopes.size ∧ (s.scope o).isClass = true
  | _ => True

namespace Store

/-- What holds of a function of a sound store. -/
structure SoundFunction (s : Store) (f : Function) : Prop where
  environment : ∀ r, f.environment = some r → r.index < s.scopes.size
  template : ∀ r, f.body = .construct r → r.index < s.scopes.size ∧ (s.scope r).isClass = true

/-- What holds of the scope in a place of a sound store. -/
structure SoundScope (s : Store) (r : ScopeRef) (scope : Scope) : Prop where
  parent : ∀ p, scope.parent = some p → p.index < r.index
  vars : ∀ e ∈ scope.vars.entries, s.Valid e.2
  functions : ∀ e ∈ scope.functions.entries,
    e.2.index < s.functions.size ∧ (s.function e.2).name = e.1
  scopes : ∀ e ∈ scope.scopes.entries,
    e.2.index < s.scopes.size ∧ (s.scope e.2).isClass = true ∧ (s.scope e.2).name = e.1

/-- What holds of a dictionary of a sound store. -/
def SoundDictionary (s : Store) (d : Dictionary) : Prop :=
  ∀ e ∈ d.entries, s.Valid e.2.key ∧ s.Valid e.2.value

/-- Every object refers only to objects of the store. -/
structure Sound (s : Store) : Prop where
  list : ∀ l, ∀ v ∈ s.list l, s.Valid v
  array : ∀ a, ∀ v ∈ (s.array a).items, s.Valid v
  dictionary : ∀ d, s.SoundDictionary (s.dictionary d)
  function : ∀ f, s.SoundFunction (s.function f)
  scope : ∀ r, s.SoundScope r (s.scope r)

/-- Every place of one store is a place of the other, where functions keep their names and scopes
their names and whether they belong to classes. -/
structure Grows (s t : Store) : Prop where
  lists : s.lists.size ≤ t.lists.size
  arrays : s.arrays.size ≤ t.arrays.size
  dictionaries : s.dictionaries.size ≤ t.dictionaries.size
  functions : s.functions.size ≤ t.functions.size
  scopes : s.scopes.size ≤ t.scopes.size
  function : ∀ f, f.index < s.functions.size → (t.function f).name = (s.function f).name
  scope : ∀ r, r.index < s.scopes.size →
    (t.scope r).name = (s.scope r).name ∧ (t.scope r).isClass = (s.scope r).isClass

/-- A store grows into a sound one. -/
structure Becomes (s t : Store) : Prop extends s.Grows t where
  sound : t.Sound

variable {s t u : Store}

/-! ## Growing -/

theorem Grows.refl (s : Store) : s.Grows s :=
  ⟨Nat.le_refl _, Nat.le_refl _, Nat.le_refl _, Nat.le_refl _, Nat.le_refl _, fun _ _ => rfl,
    fun _ _ => ⟨rfl, rfl⟩⟩

theorem Grows.trans (first : s.Grows t) (second : t.Grows u) : s.Grows u where
  lists := Nat.le_trans first.lists second.lists
  arrays := Nat.le_trans first.arrays second.arrays
  dictionaries := Nat.le_trans first.dictionaries second.dictionaries
  functions := Nat.le_trans first.functions second.functions
  scopes := Nat.le_trans first.scopes second.scopes
  function f bound :=
    (second.function f (Nat.lt_of_lt_of_le bound first.functions)).trans (first.function f bound)
  scope r bound := by
    have here := first.scope r bound
    have there := second.scope r (Nat.lt_of_lt_of_le bound first.scopes)
    exact ⟨there.1.trans here.1, there.2.trans here.2⟩

theorem Valid.grows (grows : s.Grows t) {v : Value} (valid : s.Valid v) : t.Valid v := by
  induction v with
  | function f => exact Nat.lt_of_lt_of_le valid grows.functions
  | array a => exact Nat.lt_of_lt_of_le valid grows.arrays
  | list l => exact Nat.lt_of_lt_of_le valid grows.lists
  | dictionary d => exact Nat.lt_of_lt_of_le valid grows.dictionaries
  | member collection key ihc ihk => exact ⟨ihc valid.1, ihk valid.2⟩
  | object o =>
    obtain ⟨bound, isClass⟩ := valid
    exact ⟨Nat.lt_of_lt_of_le bound grows.scopes, (grows.scope o bound).2.trans isClass⟩
  | null | int _ | float _ | vec3 _ | pointer _ | string _ => trivial

theorem SoundFunction.grows (grows : s.Grows t) {f : Function} (sound : s.SoundFunction f) :
    t.SoundFunction f where
  environment r h := Nat.lt_of_lt_of_le (sound.environment r h) grows.scopes
  template r h := by
    obtain ⟨bound, isClass⟩ := sound.template r h
    exact ⟨Nat.lt_of_lt_of_le bound grows.scopes, (grows.scope r bound).2.trans isClass⟩

theorem SoundScope.grows (grows : s.Grows t) {r : ScopeRef} {scope : Scope}
    (sound : s.SoundScope r scope) : t.SoundScope r scope where
  parent := sound.parent
  vars e he := (sound.vars e he).grows grows
  functions e he := by
    obtain ⟨bound, name⟩ := sound.functions e he
    exact ⟨Nat.lt_of_lt_of_le bound grows.functions, (grows.function e.2 bound).trans name⟩
  scopes e he := by
    obtain ⟨bound, isClass, name⟩ := sound.scopes e he
    obtain ⟨sameName, sameClass⟩ := grows.scope e.2 bound
    exact ⟨Nat.lt_of_lt_of_le bound grows.scopes, sameClass.trans isClass, sameName.trans name⟩

theorem SoundDictionary.grows (grows : s.Grows t) {d : Dictionary} (sound : s.SoundDictionary d) :
    t.SoundDictionary d := by
  intro e he
  obtain ⟨key, value⟩ := sound e he
  exact ⟨key.grows grows, value.grows grows⟩

theorem Becomes.refl (sound : s.Sound) : s.Becomes s := ⟨.refl s, sound⟩

theorem Becomes.trans (first : s.Becomes t) (second : t.Becomes u) : s.Becomes u :=
  ⟨first.toGrows.trans second.toGrows, second.sound⟩

/-- A sound store stays sound if what it grows into has only sound objects besides its own. -/
theorem Sound.becomes (sound : s.Sound) (grows : s.Grows t)
    (list : ∀ l, t.list l = s.list l ∨ ∀ v ∈ t.list l, t.Valid v)
    (array : ∀ a, t.array a = s.array a ∨ ∀ v ∈ (t.array a).items, t.Valid v)
    (dictionary : ∀ d, t.dictionary d = s.dictionary d ∨ t.SoundDictionary (t.dictionary d))
    (function : ∀ f, t.function f = s.function f ∨ t.SoundFunction (t.function f))
    (scope : ∀ r, t.scope r = s.scope r ∨ t.SoundScope r (t.scope r)) : s.Becomes t := by
  refine ⟨grows, ?_, ?_, ?_, ?_, ?_⟩
  · intro l v hv
    rcases list l with same | valid
    · rw [same] at hv
      exact (sound.list l v hv).grows grows
    · exact valid v hv
  · intro a v hv
    rcases array a with same | valid
    · rw [same] at hv
      exact (sound.array a v hv).grows grows
    · exact valid v hv
  · intro d
    rcases dictionary d with same | valid
    · rw [same]
      exact (sound.dictionary d).grows grows
    · exact valid
  · intro f
    rcases function f with same | valid
    · rw [same]
      exact (sound.function f).grows grows
    · exact valid
  · intro r
    rcases scope r with same | valid
    · rw [same]
      exact (sound.scope r).grows grows
    · exact valid

/-! ## What a place of a changed table holds -/

theorem getD_push {α : Type} (table : Array α) (x default : α) (i : Nat) :
    (table.push x)[i]?.getD default = if i = table.size then x else table[i]?.getD default := by
  rw [Array.getElem?_push]
  split <;> rfl

/-- A place may also be new, where the table holds nothing yet. -/
theorem getD_push_self {α : Type} (table : Array α) (default : α) (i : Nat) :
    (table.push (table[i]?.getD default))[i]?.getD default = table[i]?.getD default := by
  rw [getD_push]
  split <;> rfl

theorem getD_setIfInBounds {α : Type} (table : Array α) (x default : α) (i j : Nat) :
    (table.setIfInBounds i x)[j]?.getD default = table[j]?.getD default ∨
      (table.setIfInBounds i x)[j]?.getD default = x := by
  by_cases same : i = j
  · subst same
    by_cases bound : i < table.size
    · exact .inr (by simp [bound])
    · exact .inl (by simp [bound])
  · exact .inl (by rw [Array.getElem?_setIfInBounds_ne same])

theorem getD_modify {α : Type} (table : Array α) (change : α → α) (default : α) (i j : Nat) :
    (table.modify i change)[j]?.getD default = table[j]?.getD default ∨
      (i = j ∧ j < table.size ∧
        (table.modify i change)[j]?.getD default = change (table[j]?.getD default)) := by
  by_cases same : i = j
  · subst same
    by_cases bound : i < table.size
    · exact .inr ⟨rfl, bound, by simp [bound, Array.getElem_modify_self]⟩
    · exact .inl (by simp [bound])
  · exact .inl (by simp [same, Array.getElem?_modify])

/-! ## New places -/

/-- A change of a store that leads to a sound one and gives one of its values. -/
structure Gives (s : Store) (result : Value × Store) : Prop where
  becomes : s.Becomes result.2
  valid : result.2.Valid result.1

theorem Sound.newList (sound : s.Sound) {items : List Value} (valid : ∀ v ∈ items, s.Valid v) :
    s.Gives (s.newList items) := by
  have grows : s.Grows (s.newList items).2 :=
    { Grows.refl s with lists := by simp [Store.newList] }
  refine ⟨sound.becomes grows (fun l => ?_) (fun _ => .inl rfl) (fun _ => .inl rfl)
    (fun _ => .inl rfl) (fun _ => .inl rfl), by simp [Store.newList, Valid]⟩
  have read := getD_push s.lists items [] l.index
  by_cases same : l.index = s.lists.size
  · refine .inr fun v hv => (valid v ?_).grows grows
    rw [if_pos same] at read
    exact read ▸ hv
  · rw [if_neg same] at read
    exact .inl read

theorem Sound.newArray (sound : s.Sound) {items : TypedArray}
    (valid : ∀ v ∈ items.items, s.Valid v) : s.Gives (s.newArray items) := by
  have grows : s.Grows (s.newArray items).2 :=
    { Grows.refl s with arrays := by simp [Store.newArray] }
  refine ⟨sound.becomes grows (fun _ => .inl rfl) (fun a => ?_) (fun _ => .inl rfl)
    (fun _ => .inl rfl) (fun _ => .inl rfl), by simp [Store.newArray, Valid]⟩
  have read := getD_push s.arrays items .empty a.index
  by_cases same : a.index = s.arrays.size
  · refine .inr fun v hv => (valid v ?_).grows grows
    rw [if_pos same] at read
    exact read ▸ hv
  · rw [if_neg same] at read
    exact .inl read

theorem Sound.newDictionary (sound : s.Sound) {entries : Dictionary}
    (valid : s.SoundDictionary entries) : s.Gives (s.newDictionary entries) := by
  have grows : s.Grows (s.newDictionary entries).2 :=
    { Grows.refl s with dictionaries := by simp [Store.newDictionary] }
  refine ⟨sound.becomes grows (fun _ => .inl rfl) (fun _ => .inl rfl) (fun d => ?_)
    (fun _ => .inl rfl) (fun _ => .inl rfl), by simp [Store.newDictionary, Valid]⟩
  have read : (s.newDictionary entries).2.dictionary d = _ :=
    getD_push s.dictionaries entries .empty d.index
  by_cases same : d.index = s.dictionaries.size
  · rw [if_pos same] at read
    rw [read]
    exact .inr (valid.grows grows)
  · rw [if_neg same] at read
    exact .inl read

theorem Sound.newFunction (sound : s.Sound) {f : Function} (valid : s.SoundFunction f) :
    s.Becomes (s.newFunction f).2 := by
  have read (g : FunctionRef) : (s.newFunction f).2.function g = _ :=
    getD_push s.functions f default g.index
  have grows : s.Grows (s.newFunction f).2 :=
    { Grows.refl s with
      functions := by simp [Store.newFunction]
      function := fun g bound => by rw [read, if_neg (Nat.ne_of_lt bound)]; rfl }
  refine sound.becomes grows (fun _ => .inl rfl) (fun _ => .inl rfl) (fun _ => .inl rfl)
    (fun g => ?_) (fun _ => .inl rfl)
  rw [read]
  by_cases same : g.index = s.functions.size
  · rw [if_pos same]
    exact .inr (valid.grows grows)
  · rw [if_neg same]
    exact .inl rfl

theorem Sound.newScope (sound : s.Sound) {scope : Scope}
    (valid : s.SoundScope ⟨s.scopes.size⟩ scope) : s.Becomes (s.newScope scope).2 := by
  have read (r : ScopeRef) : (s.newScope scope).2.scope r = _ :=
    getD_push s.scopes scope default r.index
  have grows : s.Grows (s.newScope scope).2 :=
    { Grows.refl s with
      scopes := by simp [Store.newScope]
      scope := fun r bound => by rw [read, if_neg (Nat.ne_of_lt bound)]; exact ⟨rfl, rfl⟩ }
  refine sound.becomes grows (fun _ => .inl rfl) (fun _ => .inl rfl) (fun _ => .inl rfl)
    (fun _ => .inl rfl) (fun r => ?_)
  rw [read]
  by_cases same : r.index = s.scopes.size
  · obtain rfl : r = ⟨s.scopes.size⟩ := congrArg ScopeRef.mk same
    rw [if_pos rfl]
    exact .inr (valid.grows grows)
  · rw [if_neg same]
    exact .inl rfl

/-! ## Changed places -/

theorem Sound.setList (sound : s.Sound) (l : ListRef) {items : List Value}
    (valid : ∀ v ∈ items, s.Valid v) : s.Becomes (s.setList l items) := by
  have grows : s.Grows (s.setList l items) :=
    { Grows.refl s with lists := by simp [Store.setList] }
  refine sound.becomes grows (fun m => ?_) (fun _ => .inl rfl) (fun _ => .inl rfl)
    (fun _ => .inl rfl) (fun _ => .inl rfl)
  rcases getD_setIfInBounds s.lists items [] l.index m.index with same | new
  · exact .inl same
  · refine .inr fun v hv => (valid v ?_).grows grows
    exact new ▸ hv

theorem Sound.setArray (sound : s.Sound) (a : ArrayRef) {items : TypedArray}
    (valid : ∀ v ∈ items.items, s.Valid v) : s.Becomes (s.setArray a items) := by
  have grows : s.Grows (s.setArray a items) :=
    { Grows.refl s with arrays := by simp [Store.setArray] }
  refine sound.becomes grows (fun _ => .inl rfl) (fun b => ?_) (fun _ => .inl rfl)
    (fun _ => .inl rfl) (fun _ => .inl rfl)
  rcases getD_setIfInBounds s.arrays items .empty a.index b.index with same | new
  · exact .inl same
  · refine .inr fun v hv => (valid v ?_).grows grows
    exact new ▸ hv

theorem Sound.setDictionary (sound : s.Sound) (d : DictionaryRef) {entries : Dictionary}
    (valid : s.SoundDictionary entries) : s.Becomes (s.setDictionary d entries) := by
  have grows : s.Grows (s.setDictionary d entries) :=
    { Grows.refl s with dictionaries := by simp [Store.setDictionary] }
  refine sound.becomes grows (fun _ => .inl rfl) (fun _ => .inl rfl) (fun e => ?_)
    (fun _ => .inl rfl) (fun _ => .inl rfl)
  rcases getD_setIfInBounds s.dictionaries entries .empty d.index e.index with same | new
  · exact .inl same
  · refine .inr ?_
    rw [show (s.setDictionary d entries).dictionary e = entries from new]
    exact valid.grows grows

/-- What a place holds after one scope has changed. -/
theorem scope_modifyScope_or (s : Store) (r q : ScopeRef) (change : Scope → Scope) :
    (s.modifyScope r change).scope q = s.scope q ∨
      r = q ∧ (s.modifyScope r change).scope q = change (s.scope q) := by
  rcases getD_modify s.scopes change default r.index q.index with same | ⟨same, -, new⟩
  · exact .inl same
  · exact .inr ⟨congrArg ScopeRef.mk same, new⟩

/-- A changed scope that is sound, has the same name and belongs to a class as before. -/
theorem Sound.modifyScope (sound : s.Sound) (r : ScopeRef) {change : Scope → Scope}
    (valid : s.SoundScope r (change (s.scope r)))
    (name : (change (s.scope r)).name = (s.scope r).name)
    (isClass : (change (s.scope r)).isClass = (s.scope r).isClass) :
    s.Becomes (s.modifyScope r change) := by
  have grows : s.Grows (s.modifyScope r change) :=
    { Grows.refl s with
      scopes := by simp [Store.modifyScope]
      scope := fun q _ => by
        rcases scope_modifyScope_or s r q change with same | ⟨rfl, new⟩
        · rw [same]
          exact ⟨rfl, rfl⟩
        · rw [new]
          exact ⟨name, isClass⟩ }
  refine sound.becomes grows (fun _ => .inl rfl) (fun _ => .inl rfl) (fun _ => .inl rfl)
    (fun _ => .inl rfl) (fun q => ?_)
  rcases scope_modifyScope_or s r q change with same | ⟨rfl, new⟩
  · exact .inl same
  · rw [new]
    exact .inr (valid.grows grows)

/-- A scope without contents. -/
theorem soundScope_of_empty {r : ScopeRef} {scope : Scope}
    (parent : ∀ p, scope.parent = some p → p.index < r.index) (vars : scope.vars = .empty)
    (functions : scope.functions = .empty) (scopes : scope.scopes = .empty) :
    s.SoundScope r scope := by
  refine ⟨parent, fun e member => ?_, fun e member => ?_, fun e member => ?_⟩
  · rw [vars] at member
    cases member
  · rw [functions] at member
    cases member
  · rw [scopes] at member
    cases member

end Store

end Scriptlet
