import Scriptlet.Store.Scope

/-!
# What is valid in a store

A `Validity` says which stores are sound, which values are valid in a store, and how stores may
change. It is lawful if it has what operations on values rely on: a sound store holds valid values,
values by themselves are valid, valid values stay valid, and collections of valid values, new or
changed, lead to sound stores. That every reference leads into the store is one such notion.
-/

namespace Scriptlet

/-- A notion of sound stores and of valid values in them. -/
structure Validity where
  Sound : Store → Prop
  Valid : Store → Value → Prop
  /-- How a store may change into another one. -/
  Grows : Store → Store → Prop

namespace Validity

variable (I : Validity)

/-- A store grows into a sound one. -/
structure Becomes (s t : Store) : Prop where
  grows : I.Grows s t
  sound : I.Sound t

/-- A change of a store that leads to a sound one and gives one of its values. -/
structure Gives (s : Store) (result : Value × Store) : Prop where
  becomes : I.Becomes s result.2
  valid : I.Valid result.2 result.1

/-- What holds of a dictionary of a sound store. -/
def ValidDictionary (s : Store) (d : Dictionary) : Prop :=
  ∀ e ∈ d.entries, I.Valid s e.2.key ∧ I.Valid s e.2.value

/-- What operations on values rely on. -/
structure Lawful : Prop where
  refl : ∀ s, I.Grows s s
  trans : ∀ {s t u}, I.Grows s t → I.Grows t u → I.Grows s u
  grows : ∀ {s t v}, I.Grows s t → I.Valid s v → I.Valid t v
  scalar : ∀ {s v}, v.isScalar = true → I.Valid s v
  member : ∀ {s collection key}, I.Valid s (.member collection key) →
    I.Valid s collection ∧ I.Valid s key
  list : ∀ {s}, I.Sound s → ∀ l, ∀ v ∈ s.list l, I.Valid s v
  array : ∀ {s}, I.Sound s → ∀ a, ∀ v ∈ (s.array a).items, I.Valid s v
  dictionary : ∀ {s}, I.Sound s → ∀ d, I.ValidDictionary s (s.dictionary d)
  vars : ∀ {s}, I.Sound s → ∀ r, ∀ e ∈ (s.scope r).vars.entries, I.Valid s e.2
  functions : ∀ {s}, I.Sound s → ∀ r, ∀ e ∈ (s.scope r).functions.entries,
    I.Valid s (.function e.2)
  newList : ∀ {s}, I.Sound s → ∀ {items}, (∀ v ∈ items, I.Valid s v) → I.Gives s (s.newList items)
  newArray : ∀ {s}, I.Sound s → ∀ {items : TypedArray}, (∀ v ∈ items.items, I.Valid s v) →
    I.Gives s (s.newArray items)
  newDictionary : ∀ {s}, I.Sound s → ∀ {entries}, I.ValidDictionary s entries →
    I.Gives s (s.newDictionary entries)
  setList : ∀ {s}, I.Sound s → ∀ l {items}, (∀ v ∈ items, I.Valid s v) →
    I.Becomes s (s.setList l items)
  setArray : ∀ {s}, I.Sound s → ∀ a {items : TypedArray}, (∀ v ∈ items.items, I.Valid s v) →
    I.Becomes s (s.setArray a items)
  setDictionary : ∀ {s}, I.Sound s → ∀ d {entries}, I.ValidDictionary s entries →
    I.Becomes s (s.setDictionary d entries)
  /-- A member of a class instance that is set. -/
  setMember : ∀ {s}, I.Sound s → ∀ {o}, I.Valid s (.object o) → ∀ name {v}, I.Valid s v →
    I.Becomes s (s.setVariable o name v)

end Validity

end Scriptlet
