import Scriptlet.Host
import Scriptlet.Proofs.Store.Operations
import Scriptlet.Proofs.Store.Soundness

/-!
# Names that are kept

While something goes on in one scope, the scopes that were there before it fall into two kinds: the
scope itself and the member storage of class instances may gain names, every other scope keeps the
names that it has. What is new is told from what was there by its place in the store.
-/

namespace Scriptlet

namespace OrderedMap

variable {κ β : Type} [Ord κ] [Std.TransOrd κ] [Std.LawfulEqOrd κ]

omit [Std.TransOrd κ] in
theorem mem_keys_of_get? {m : OrderedMap κ β} {k : κ} {v : β} (h : m.get? k = some v) :
    k ∈ m.keys := by
  have all {l : List (κ × β)} (h : find k l = some v) : k ∈ l.map (·.1) := by
    induction l with
    | nil => cases h
    | cons a rest ih =>
      simp only [find] at h
      split at h
      · cases h
      · rename_i same
        rw [Std.LawfulEqOrd.eq_of_compare same]
        exact List.mem_cons_self
      · exact List.mem_cons_of_mem _ (ih h)
  exact all h

/-- A key that has a value already gets another one. -/
theorem keys_insert_of_mem {m : OrderedMap κ β} {k : κ} (h : k ∈ m.keys) (v : β) :
    (m.insert k v).keys = m.keys := by
  have all {l : List (κ × β)} (ascending : l.Pairwise fun a b => compare a.1 b.1 = .lt)
      (h : k ∈ l.map (·.1)) : (place k v l).map (·.1) = l.map (·.1) := by
    induction ascending with
    | nil => cases h
    | @cons a rest first _ ih =>
      simp only [place]
      rcases List.mem_cons.1 h with same | later
      · have equal : compare k a.1 = .eq := by
          rw [same]
          exact Std.ReflCmp.compare_self
        rw [equal, same]
        rfl
      · obtain ⟨e, member, key⟩ := List.mem_map.1 later
        have after : compare k a.1 = .gt := by
          rw [← key]
          exact Std.OrientedCmp.gt_of_lt (first e member)
        rw [after]
        exact congrArg (a.1 :: ·) (ih later)
  exact all m.ascending h

end OrderedMap

/-! ## Names and instances -/

/-- Two scopes have variables of the same names, and the same functions and sub-scopes. -/
structure Scope.SameNames (a b : Scope) : Prop where
  vars : a.vars.keys = b.vars.keys
  functions : a.functions = b.functions
  scopes : a.scopes = b.scopes

theorem Scope.SameNames.refl (a : Scope) : a.SameNames a := ⟨rfl, rfl, rfl⟩

theorem Scope.SameNames.trans {a b c : Scope} (first : a.SameNames b) (second : b.SameNames c) :
    a.SameNames c :=
  ⟨first.vars.trans second.vars, first.functions.trans second.functions,
    first.scopes.trans second.scopes⟩

/-- Whether the class instances that a value refers to are among some scopes. -/
def Value.InstancesIn (v : Value) (among : ScopeRef → Prop) : Prop :=
  ∀ r, .scope r ∈ v.referents → among r

theorem Value.instancesIn_of_isScalar {v : Value} (h : v.isScalar = true)
    {among : ScopeRef → Prop} : v.InstancesIn among := by
  intro r member
  cases v with
  | function _ | array _ | member _ _ | list _ | dictionary _ | object _ => cases h
  | null | int _ | float _ | vec3 _ | pointer _ | string _ => cases member

theorem Value.InstancesIn.imp {v : Value} {among more : ScopeRef → Prop}
    (inside : v.InstancesIn among) (imp : ∀ r, among r → more r) : v.InstancesIn more :=
  fun r member => imp r (inside r member)

/-- Whether the class instances that the values in a store refer to are among some scopes. -/
structure Store.InstancesIn (s : Store) (among : ScopeRef → Prop) : Prop where
  list : ∀ l, ∀ v ∈ s.list l, v.InstancesIn among
  array : ∀ a, ∀ v ∈ (s.array a).items, v.InstancesIn among
  dictionary : ∀ d, ∀ e ∈ (s.dictionary d).entries,
    e.2.key.InstancesIn among ∧ e.2.value.InstancesIn among
  vars : ∀ r, ∀ e ∈ (s.scope r).vars.entries, e.2.InstancesIn among

theorem Store.InstancesIn.imp {s : Store} {among more : ScopeRef → Prop}
    (inside : s.InstancesIn among) (imp : ∀ r, among r → more r) : s.InstancesIn more where
  list l v member := (inside.list l v member).imp imp
  array a v member := (inside.array a v member).imp imp
  dictionary d e member := by
    obtain ⟨key, value⟩ := inside.dictionary d e member
    exact ⟨key.imp imp, value.imp imp⟩
  vars r e member := (inside.vars r e member).imp imp

/-! ## What may gain names -/

/-- A place where something goes on: the store before it, the scope that it goes on in, and the
scopes that are the member storage of class instances. -/
structure Site where
  before : Store
  here : ScopeRef
  instances : ScopeRef → Prop

namespace Site

/-- Whether a scope was not there before. -/
def New (site : Site) (r : ScopeRef) : Prop := site.before.scopes.size ≤ r.index

/-- The scopes that values may refer to. -/
def Object (site : Site) (r : ScopeRef) : Prop := site.New r ∨ site.instances r

/-- The scopes that may gain names. -/
def Open (site : Site) (r : ScopeRef) : Prop := r = site.here ∨ site.Object r

/-- Whether no scope has gained names that may not. -/
structure Confined (site : Site) (s : Store) : Prop extends s.InstancesIn site.Object where
  size : site.before.scopes.size ≤ s.scopes.size
  inner : ∀ r, site.New r → ∀ e ∈ (s.scope r).scopes.entries, site.New e.2
  names : ∀ r, ¬ site.Open r → (site.before.scope r).SameNames (s.scope r)

/-- Stores that are confined to a site. -/
def validity (site : Site) : Validity :=
  ⟨site.Confined, fun _ v => v.InstancesIn site.Object, fun _ _ => True⟩

variable {site : Site} {s t : Store} {r q : ScopeRef} {v : Value} {name : String}

theorem New.open (new : site.New r) : site.Open r := .inr (.inl new)

/-- The store that everything begins with. -/
theorem confined_before (site : Site) (known : site.before.InstancesIn site.instances) :
    site.Confined site.before where
  toInstancesIn := known.imp fun _ => .inr
  size := Nat.le_refl _
  inner r new e member := by
    have none : site.before.scopes[r.index]? = none := Array.getElem?_eq_none new
    rw [Store.scope, none] at member
    cases member
  names r _ := .refl _

namespace Confined

/-! ## Collections and functions -/

/-- A confined store whose scopes are kept stays confined if its other objects are its own or hold
valid values. -/
theorem becomes (confined : site.Confined s) (scopes : t.scopes = s.scopes)
    (list : ∀ l, t.list l = s.list l ∨ ∀ v ∈ t.list l, v.InstancesIn site.Object)
    (array : ∀ a, t.array a = s.array a ∨ ∀ v ∈ (t.array a).items, v.InstancesIn site.Object)
    (dictionary : ∀ d, t.dictionary d = s.dictionary d ∨
      site.validity.ValidDictionary t (t.dictionary d)) : site.validity.Becomes s t := by
  have same (r : ScopeRef) : t.scope r = s.scope r := by rw [Store.scope, scopes]; rfl
  refine ⟨trivial, ⟨fun l => ?_, fun a => ?_, fun d => ?_, fun r => ?_⟩, ?_, fun r => ?_, fun r => ?_⟩
  · rcases list l with old | valid
    · rw [old]
      exact confined.list l
    · exact valid
  · rcases array a with old | valid
    · rw [old]
      exact confined.array a
    · exact valid
  · rcases dictionary d with old | valid
    · rw [old]
      exact confined.dictionary d
    · exact valid
  · rw [same]
    exact confined.vars r
  · rw [scopes]
    exact confined.size
  · rw [same]
    exact confined.inner r
  · rw [same]
    exact confined.names r

theorem newList (confined : site.Confined s) {items : List Value}
    (valid : ∀ v ∈ items, v.InstancesIn site.Object) : site.validity.Gives s (s.newList items) := by
  refine ⟨confined.becomes rfl (fun l => ?_) (fun _ => .inl rfl) (fun _ => .inl rfl), ?_⟩
  · have read : (s.newList items).2.list l = _ := Store.getD_push s.lists items [] l.index
    rw [read]
    split
    · exact .inr valid
    · exact .inl rfl
  · intro r member
    simp [Store.newList, Value.referents] at member

theorem newArray (confined : site.Confined s) {items : TypedArray}
    (valid : ∀ v ∈ items.items, v.InstancesIn site.Object) :
    site.validity.Gives s (s.newArray items) := by
  refine ⟨confined.becomes rfl (fun _ => .inl rfl) (fun a => ?_) (fun _ => .inl rfl), ?_⟩
  · have read : (s.newArray items).2.array a = _ := Store.getD_push s.arrays items .empty a.index
    rw [read]
    split
    · exact .inr valid
    · exact .inl rfl
  · intro r member
    simp [Store.newArray, Value.referents] at member

theorem newDictionary (confined : site.Confined s) {entries : Dictionary}
    (valid : site.validity.ValidDictionary s entries) :
    site.validity.Gives s (s.newDictionary entries) := by
  refine ⟨confined.becomes rfl (fun _ => .inl rfl) (fun _ => .inl rfl) (fun d => ?_), ?_⟩
  · have read : (s.newDictionary entries).2.dictionary d = _ :=
      Store.getD_push s.dictionaries entries .empty d.index
    rw [read]
    split
    · exact .inr valid
    · exact .inl rfl
  · intro r member
    simp [Store.newDictionary, Value.referents] at member

theorem setList (confined : site.Confined s) (l : ListRef) {items : List Value}
    (valid : ∀ v ∈ items, v.InstancesIn site.Object) :
    site.validity.Becomes s (s.setList l items) := by
  refine confined.becomes rfl (fun m => ?_) (fun _ => .inl rfl) (fun _ => .inl rfl)
  rcases Store.getD_setIfInBounds s.lists items [] l.index m.index with same | new
  · exact .inl same
  · rw [show (s.setList l items).list m = items from new]
    exact .inr valid

theorem setArray (confined : site.Confined s) (a : ArrayRef) {items : TypedArray}
    (valid : ∀ v ∈ items.items, v.InstancesIn site.Object) :
    site.validity.Becomes s (s.setArray a items) := by
  refine confined.becomes rfl (fun _ => .inl rfl) (fun b => ?_) (fun _ => .inl rfl)
  rcases Store.getD_setIfInBounds s.arrays items .empty a.index b.index with same | new
  · exact .inl same
  · rw [show (s.setArray a items).array b = items from new]
    exact .inr valid

theorem setDictionary (confined : site.Confined s) (d : DictionaryRef) {entries : Dictionary}
    (valid : site.validity.ValidDictionary s entries) :
    site.validity.Becomes s (s.setDictionary d entries) := by
  refine confined.becomes rfl (fun _ => .inl rfl) (fun _ => .inl rfl) (fun e => ?_)
  rcases Store.getD_setIfInBounds s.dictionaries entries .empty d.index e.index with same | new
  · exact .inl same
  · rw [show (s.setDictionary d entries).dictionary e = entries from new]
    exact .inr valid

theorem newFunction (confined : site.Confined s) (f : Function) :
    site.validity.Becomes s (s.newFunction f).2 :=
  confined.becomes rfl (fun _ => .inl rfl) (fun _ => .inl rfl) (fun _ => .inl rfl)

/-! ## Scopes -/

/-- A new scope is none of those that were there before. -/
theorem newScope (confined : site.Confined s) {scope : Scope}
    (vars : ∀ e ∈ scope.vars.entries, e.2.InstancesIn site.Object)
    (inner : ∀ e ∈ scope.scopes.entries, site.New e.2) :
    site.validity.Becomes s (s.newScope scope).2 ∧ site.New (s.newScope scope).1 := by
  have read (r : ScopeRef) : (s.newScope scope).2.scope r = _ :=
    Store.getD_push s.scopes scope default r.index
  refine ⟨⟨trivial, ⟨confined.list, confined.array, confined.dictionary, fun r => ?_⟩, ?_,
    fun r new => ?_, fun r closed => ?_⟩, confined.size⟩
  · rw [read]
    split
    · exact vars
    · exact confined.vars r
  · simp only [Store.newScope, Array.size_push]
    exact Nat.le_succ_of_le confined.size
  · rw [read]
    split
    · exact inner
    · exact confined.inner r new
  · rw [read]
    split
    · rename_i last
      have new : site.New r := Nat.le_trans confined.size (Nat.le_of_eq last.symm)
      exact absurd new.open closed
    · exact confined.names r closed

/-- A changed scope, which keeps its names unless it may gain some. -/
theorem modifyScope (confined : site.Confined s) {change : Scope → Scope}
    (vars : ∀ e ∈ (change (s.scope r)).vars.entries, e.2.InstancesIn site.Object)
    (inner : site.New r → ∀ e ∈ (change (s.scope r)).scopes.entries, site.New e.2)
    (names : ¬ site.Open r → (s.scope r).SameNames (change (s.scope r))) :
    site.validity.Becomes s (s.modifyScope r change) := by
  refine ⟨trivial, ⟨confined.list, confined.array, confined.dictionary, fun q => ?_⟩, ?_,
    fun q new => ?_, fun q closed => ?_⟩
  · rcases Store.scope_modifyScope_or s r q change with same | ⟨rfl, changed⟩
    · rw [same]
      exact confined.vars q
    · rw [changed]
      exact vars
  · simp only [Store.modifyScope, Array.size_modify]
    exact confined.size
  · rcases Store.scope_modifyScope_or s r q change with same | ⟨rfl, changed⟩
    · rw [same]
      exact confined.inner q new
    · rw [changed]
      exact inner new
  · rcases Store.scope_modifyScope_or s r q change with same | ⟨rfl, changed⟩
    · rw [same]
      exact confined.names q closed
    · rw [changed]
      exact (confined.names r closed).trans (names closed)


/-- A scope that may gain names, with what it holds. -/
theorem modifyOpen (confined : site.Confined s) (isOpen : site.Open r) {change : Scope → Scope}
    (vars : ∀ e ∈ (change (s.scope r)).vars.entries, e.2.InstancesIn site.Object)
    (inner : site.New r → ∀ e ∈ (change (s.scope r)).scopes.entries, site.New e.2) :
    site.validity.Becomes s (s.modifyScope r change) :=
  confined.modifyScope vars inner fun closed => absurd isOpen closed

/-- A scope that is emptied. -/
theorem modifyEmpty (confined : site.Confined s) (new : site.New r) {change : Scope → Scope}
    (vars : (change (s.scope r)).vars = .empty) (scopes : (change (s.scope r)).scopes = .empty) :
    site.validity.Becomes s (s.modifyScope r change) := by
  refine confined.modifyOpen new.open (fun e member => ?_) fun _ e member => ?_
  · rw [vars] at member
    cases member
  · rw [scopes] at member
    cases member

end Confined

/-! ## Variables -/

/-- Whether a variable may be set: its scope may gain names, or had the variable before. -/
def Writable (site : Site) (r : ScopeRef) (name : String) : Prop :=
  site.Open r ∨ name ∈ (site.before.scope r).vars.keys

namespace Confined

theorem setVariable (confined : site.Confined s) (writable : site.Writable r name)
    (valid : v.InstancesIn site.Object) : site.validity.Becomes s (s.setVariable r name v) := by
  refine confined.modifyScope (fun e member => ?_) (confined.inner r) fun closed => ?_
  · rcases OrderedMap.mem_insert member with rfl | old
    · exact valid
    · exact confined.vars r e old
  · have present := writable.resolve_left closed
    rw [(confined.names r closed).vars] at present
    exact ⟨(OrderedMap.keys_insert_of_mem present v).symm, rfl, rfl⟩

/-- A scope in which a variable is found has it, or had it before. -/
theorem writable_of_found (confined : site.Confined s)
    (found : s.findVariableScope? r name = some q) : site.Writable q name := by
  by_cases isOpen : site.Open q
  · exact .inl isOpen
  · have has := List.find?_some found
    obtain ⟨v, here⟩ := Option.isSome_iff_exists.1 has
    rw [Writable, (confined.names q isOpen).vars]
    exact .inr (OrderedMap.mem_keys_of_get? here)

end Confined

theorem validity_lawful (site : Site) : site.validity.Lawful where
  refl _ := trivial
  trans _ _ := trivial
  grows _ valid := valid
  scalar plain := Value.instancesIn_of_isScalar plain
  member valid :=
    ⟨fun r member => valid r (List.mem_append_left _ member),
      fun r member => valid r (List.mem_append_right _ member)⟩
  list confined := confined.list
  array confined := confined.array
  dictionary confined := confined.dictionary
  vars confined := confined.vars
  functions _ _ e _ r member := by simp [Value.referents] at member
  newList confined _ valid := confined.newList valid
  newArray confined _ valid := confined.newArray valid
  newDictionary confined _ valid := confined.newDictionary valid
  setList confined l _ valid := confined.setList l valid
  setArray confined a _ valid := confined.setArray a valid
  setDictionary confined d _ valid := confined.setDictionary d valid
  setMember confined o object name _ valid :=
    confined.setVariable (.inl (.inr (object o List.mem_cons_self))) valid

namespace Confined

/-! ## Scopes that evaluation opens -/

theorem child (confined : site.Confined s) (r : ScopeRef) (name : String) (isClass : Bool) :
    site.validity.Becomes s (s.child r name isClass).2 ∧ site.New (s.child r name isClass).1 := by
  refine confined.newScope (fun e member => ?_) fun e member => ?_
  · cases member
  · cases member

theorem instantiate (confined : site.Confined s) (name : String) (template : ScopeRef) :
    site.validity.Becomes s (s.instantiate name template).2 ∧
      site.New (s.instantiate name template).1 := by
  refine confined.newScope (confined.vars template) fun e member => ?_
  cases member

theorem addFunction (confined : site.Confined s) (isOpen : site.Open r) (f : FunctionRef) :
    site.validity.Becomes s (s.addFunction r f) :=
  confined.modifyOpen isOpen (confined.vars r) (confined.inner r)

theorem defineFunction (confined : site.Confined s) (isOpen : site.Open r) (f : Function) :
    site.validity.Becomes s (s.defineFunction r f) := by
  have makes := confined.newFunction f
  exact site.validity_lawful.andThen makes (makes.sound.addFunction isOpen _)

theorem defineClass (confined : site.Confined s) (isOpen : site.Open r) (new : site.New q)
    (name : String) : site.validity.Becomes s (s.defineClass r name q) := by
  have adds : site.validity.Becomes s (s.addScope r name q) := by
    refine confined.modifyOpen isOpen (confined.vars r) fun fresh e member => ?_
    rcases OrderedMap.mem_insert member with rfl | old
    · exact new
    · exact confined.inner r fresh e old
  exact site.validity_lawful.andThen adds (adds.sound.defineFunction isOpen _)

theorem copyVariables (confined : site.Confined s) (isOpen : site.Open r)
    {entries : List (String × Value)} (valid : ∀ e ∈ entries, e.2.InstancesIn site.Object) :
    site.validity.Becomes s (s.copyVariables r entries) :=
  site.validity_lawful.copyVariables
    (fun confined _ valid => Confined.setVariable confined (.inl isOpen) valid) confined valid

theorem inherit (confined : site.Confined s) (isOpen : site.Open r) (base : ScopeRef) :
    site.validity.Becomes s (s.inherit r base) := by
  have copies := confined.copyVariables isOpen (confined.vars base)
  have copied : site.Confined _ := copies.sound
  exact site.validity_lawful.andThen copies
    (copied.modifyOpen isOpen (copied.vars r) (copied.inner r))

/-! ## Scopes that evaluation leaves -/

theorem teardownWithin (confined : site.Confined s) (fuel : Nat) {pending : List ScopeRef}
    (new : ∀ r ∈ pending, site.New r) : site.validity.Becomes s (s.teardownWithin fuel pending) := by
  induction fuel generalizing s pending with
  | zero => exact site.validity_lawful.unchanged confined
  | succ fuel ih =>
    cases pending with
    | nil => exact site.validity_lawful.unchanged confined
    | cons r pending =>
      have fresh := new r List.mem_cons_self
      have clears : site.validity.Becomes s (s.modifyScope r Scope.cleared) :=
        confined.modifyEmpty fresh rfl rfl
      refine site.validity_lawful.andThen clears (ih clears.sound fun q member => ?_)
      rcases List.mem_append.1 member with named | later
      · obtain ⟨e, entry, rfl⟩ := List.mem_map.1 named
        exact confined.inner r fresh e entry
      · exact new q (List.mem_cons_of_mem _ later)

theorem teardown (confined : site.Confined s) (new : site.New r) :
    site.validity.Becomes s (s.teardown r) := by
  unfold Store.teardown
  split
  · exact confined.modifyEmpty new rfl rfl
  · refine confined.teardownWithin _ fun q member => ?_
    rw [List.mem_singleton.1 member]
    exact new

theorem forget (confined : site.Confined s) (new : site.New r) :
    site.validity.Becomes s (s.forget r) := by
  unfold Store.forget
  split
  · exact confined.modifyEmpty new rfl rfl
  · exact site.validity_lawful.unchanged confined

theorem leave (confined : site.Confined s) (new : site.New r) (held : List Value) :
    site.validity.Becomes s (s.leave held r).2 := by
  unfold Store.leave
  split
  · exact confined.forget new
  · have closes : site.validity.Becomes s (s.close held r).2 := by
      unfold Store.close
      split
      · exact site.validity_lawful.unchanged confined
      · exact confined.teardown new
    dsimp only
    split
    · exact closes
    · exact site.validity_lawful.andThen closes (Confined.forget closes.sound new)

end Confined

end Site

end Scriptlet
