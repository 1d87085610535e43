import Scriptlet.Evaluator
import Scriptlet.Proofs.Store.Operations
import Scriptlet.Proofs.Store.Soundness

/-!
# Scopes of sound stores

What is looked up along the chain of a scope of a sound store is in the store, and every
change of scopes, from a variable to a whole class and from a new scope to an emptied one,
leads to a sound store.
-/

namespace Scriptlet.Store

variable {s t : Store} {line : Line} {v w : Value} {r q : ScopeRef}

/-- Whether a scope is in the store. -/
def HasScope (s : Store) (r : ScopeRef) : Prop := r.index < s.scopes.size

/-- Whether a function is in the store. -/
def HasFunction (s : Store) (f : FunctionRef) : Prop := f.index < s.functions.size

theorem HasScope.grows (grows : s.Grows t) (here : s.HasScope r) : t.HasScope r :=
  Nat.lt_of_lt_of_le here grows.scopes

theorem HasFunction.grows (grows : s.Grows t) {f : FunctionRef} (here : s.HasFunction f) :
    t.HasFunction f :=
  Nat.lt_of_lt_of_le here grows.functions

/-- What is not in the store has no kind, no body and no scope of its own. -/
theorem hasFunction_of_ne {f : FunctionRef} (other : s.function f ≠ default) :
    s.HasFunction f := by
  refine Nat.lt_of_not_le fun outside => other ?_
  have none : s.functions[f.index]? = none := Array.getElem?_eq_none outside
  rw [Store.function, none]
  rfl

/-! ## Soundness as a notion of validity -/

/-- The values of a sound store. -/
def soundness : Validity := ⟨Store.Sound, Store.Valid, Store.Grows⟩

theorem Becomes.growing (becomes : s.Becomes t) : soundness.Becomes s t :=
  ⟨becomes.toGrows, becomes.sound⟩

theorem Becomes.of_growing (becomes : soundness.Becomes s t) : s.Becomes t :=
  ⟨becomes.grows, becomes.sound⟩

theorem Gives.giving {r : Value × Store} (gives : s.Gives r) : soundness.Gives s r :=
  ⟨gives.becomes.growing, gives.valid⟩

theorem Sound.setVariable (sound : s.Sound) (r : ScopeRef) (name : String) (valid : s.Valid v) :
    s.Becomes (s.setVariable r name v) := by
  refine sound.modifyScope r { sound.scope r with vars := fun e member => ?_ } rfl rfl
  rcases OrderedMap.mem_insert member with rfl | old
  · exact valid
  · exact (sound.scope r).vars e old

/-- What is by itself refers to nothing. -/
theorem valid_of_isScalar (h : v.isScalar = true) : s.Valid v := by
  cases v with
  | function _ | array _ | member _ _ | list _ | dictionary _ | object _ => cases h
  | null | int _ | float _ | vec3 _ | pointer _ | string _ => trivial

theorem soundness_lawful : soundness.Lawful where
  refl := Grows.refl
  trans := Grows.trans
  grows grows valid := Valid.grows grows valid
  scalar := valid_of_isScalar
  member valid := valid
  list sound := sound.list
  array sound := sound.array
  dictionary sound := sound.dictionary
  vars sound r := (sound.scope r).vars
  functions sound r e member := ((sound.scope r).functions e member).1
  newList sound _ valid := (sound.newList valid).giving
  newArray sound _ valid := (sound.newArray valid).giving
  newDictionary sound _ valid := (sound.newDictionary valid).giving
  setList sound l _ valid := (sound.setList l valid).growing
  setArray sound a _ valid := (sound.setArray a valid).growing
  setDictionary sound d _ valid := (sound.setDictionary d valid).growing
  setMember sound o _ name _ valid := (sound.setVariable o name valid).growing

/-! ## The chain of parents -/

theorem Sound.mem_outward (sound : s.Sound) {fuel : Nat} (h : q ∈ s.outward fuel r) :
    q.index ≤ r.index := by
  induction fuel generalizing r with
  | zero => cases h
  | succ fuel ih =>
    rcases List.mem_cons.1 h with rfl | outside
    · exact Nat.le_refl _
    · cases parent : (s.scope r).parent with
      | none =>
        rw [parent] at outside
        cases outside
      | some p =>
        rw [parent] at outside
        have older : p.index < r.index := (sound.scope r).parent p parent
        exact Nat.le_trans (ih outside) (Nat.le_of_lt older)

theorem Sound.mem_chain (sound : s.Sound) (here : s.HasScope r) (h : q ∈ s.chain r) :
    s.HasScope q :=
  Nat.lt_of_le_of_lt (sound.mem_outward h) here

theorem Sound.findVariableScope? (sound : s.Sound) (here : s.HasScope r) {name : String}
    (h : s.findVariableScope? r name = some q) : s.HasScope q :=
  sound.mem_chain here (List.mem_of_find?_eq_some h)

theorem Sound.nearestClassScope? (sound : s.Sound) (here : s.HasScope r)
    (h : s.nearestClassScope? r = some q) : s.HasScope q :=
  sound.mem_chain here (List.mem_of_find?_eq_some h)

/-- The body of a function runs inside a scope of the store. -/
theorem Sound.callParent (sound : s.Sound) (here : s.HasScope r) {f : Function}
    (valid : s.SoundFunction f) {receiver : Option ScopeRef}
    (instance' : ∀ o, receiver = some o → s.HasScope o) :
    s.HasScope (Evaluator.callParent f receiver s r) := by
  unfold Evaluator.callParent
  cases receiver with
  | some o => exact instance' o rfl
  | none =>
    cases method : (if f.kind = .method then s.nearestClassScope? r else none) with
    | some q =>
      split at method
      · exact sound.nearestClassScope? here method
      · cases method
    | none =>
      cases environment : f.environment with
      | some q => exact valid.environment q environment
      | none => exact here

/-! ## New scopes -/

theorem hasScope_newScope (s : Store) (scope : Scope) :
    (s.newScope scope).2.HasScope (s.newScope scope).1 := by
  simp [newScope, HasScope]

theorem Sound.child (sound : s.Sound) (here : s.HasScope r) (name : String) (isClass : Bool) :
    s.Becomes (s.child r name isClass).2 := by
  refine sound.newScope (soundScope_of_empty (fun p parent => ?_) rfl rfl rfl)
  cases parent
  exact here

/-- A template has the name and stands in the scope that it was made with. -/
theorem scope_child (s : Store) (r : ScopeRef) (name : String) (isClass : Bool) :
    (s.child r name isClass).2.scope (s.child r name isClass).1 = .new name (some r) isClass :=
  scope_newScope s _

theorem Sound.instantiate (sound : s.Sound) (here : s.HasScope r) (name : String) :
    s.Becomes (s.instantiate name r).2 := by
  have template := sound.scope r
  refine sound.newScope ⟨fun p parent => ?_, template.vars, template.functions, ?_⟩
  · exact Nat.lt_trans (template.parent p parent) here
  · intro e member
    cases member

/-- An instance is a value of the store. -/
theorem valid_instantiate (s : Store) (name : String) (template : ScopeRef) :
    (s.instantiate name template).2.Valid (.object (s.instantiate name template).1) := by
  refine ⟨hasScope_newScope s _, ?_⟩
  unfold Store.instantiate
  dsimp only
  rw [scope_newScope]
  rfl

/-! ## Definitions -/

theorem Sound.addFunction (sound : s.Sound) (r : ScopeRef) {f : FunctionRef}
    (here : s.HasFunction f) : s.Becomes (s.addFunction r f) := by
  refine sound.modifyScope r { sound.scope r with functions := fun e member => ?_ } rfl rfl
  rcases OrderedMap.mem_insert member with rfl | old
  · exact ⟨here, rfl⟩
  · exact (sound.scope r).functions e old

theorem hasFunction_newFunction (s : Store) (f : Function) :
    (s.newFunction f).2.HasFunction (s.newFunction f).1 := by
  simp [newFunction, HasFunction]

theorem Sound.defineFunction (sound : s.Sound) (r : ScopeRef) {f : Function}
    (valid : s.SoundFunction f) : s.Becomes (s.defineFunction r f) := by
  have makes := sound.newFunction valid
  exact makes.trans (makes.sound.addFunction r (hasFunction_newFunction s f))

theorem Sound.addScope (sound : s.Sound) (r : ScopeRef) (here : s.HasScope q)
    (isClass : (s.scope q).isClass = true) : s.Becomes (s.addScope r (s.scope q).name q) := by
  refine sound.modifyScope r { sound.scope r with scopes := fun e member => ?_ } rfl rfl
  rcases OrderedMap.mem_insert member with rfl | old
  · exact ⟨here, isClass, rfl⟩
  · exact (sound.scope r).scopes e old

/-- A class is defined by a template that is called like it. -/
theorem Sound.defineClass (sound : s.Sound) (r : ScopeRef) (here : s.HasScope q)
    (isClass : (s.scope q).isClass = true) : s.Becomes (s.defineClass r (s.scope q).name q) := by
  have registers := sound.addScope r here isClass
  refine registers.trans (registers.sound.defineFunction r ⟨?_, ?_⟩)
  · intro environment none
    cases none
  · intro template same
    cases same
    exact ⟨here.grows registers.toGrows, (registers.scope q here).2.trans isClass⟩

theorem Sound.copyVariables (sound : s.Sound) (r : ScopeRef) {entries : List (String × Value)}
    (valid : ∀ e ∈ entries, s.Valid e.2) : s.Becomes (s.copyVariables r entries) :=
  .of_growing (soundness_lawful.copyVariables
    (fun sound name valid => (Sound.setVariable sound r name valid).growing) sound valid)

/-- A scope that also has the functions of a scope of a smaller store. -/
theorem Sound.merge (sound : t.Sound) (grows : s.Grows t) (r : ScopeRef) {base : Scope}
    (valid : s.SoundScope q base) :
    t.Becomes (t.modifyScope r fun scope =>
      { scope with functions := scope.functions.merge base.functions }) := by
  refine sound.modifyScope r ?_ rfl rfl
  refine { sound.scope r with functions := fun e member => ?_ }
  rcases OrderedMap.mem_merge member with own | inherited
  · exact (sound.scope r).functions e own
  · exact (valid.grows grows).functions e inherited

theorem Sound.inherit (sound : s.Sound) (template base : ScopeRef) :
    s.Becomes (s.inherit template base) := by
  have copies := sound.copyVariables template (sound.scope base).vars
  exact copies.trans (copies.sound.merge copies.toGrows template (sound.scope base))

/-! ## Emptied scopes -/

theorem Sound.clear (sound : s.Sound) (r : ScopeRef) : s.Becomes (s.modifyScope r Scope.cleared) :=
  sound.modifyScope r (soundScope_of_empty (sound.scope r).parent rfl rfl rfl) rfl rfl

theorem Sound.teardownWithin (sound : s.Sound) (fuel : Nat) (pending : List ScopeRef) :
    s.Becomes (s.teardownWithin fuel pending) := by
  induction fuel generalizing s pending with
  | zero => exact .refl sound
  | succ fuel ih =>
    cases pending with
    | nil => exact .refl sound
    | cons r pending =>
      have clears := sound.clear r
      exact clears.trans (ih clears.sound _)

theorem Sound.teardown (sound : s.Sound) (r : ScopeRef) : s.Becomes (s.teardown r) := by
  unfold Store.teardown
  split
  · exact sound.clear r
  · exact sound.teardownWithin _ _

theorem Sound.forget (sound : s.Sound) (r : ScopeRef) : s.Becomes (s.forget r) := by
  unfold Store.forget
  split
  · refine sound.modifyScope r (soundScope_of_empty (fun p none => ?_) rfl rfl rfl) rfl rfl
    cases none
  · exact .refl sound

theorem Sound.leave (sound : s.Sound) (held : List Value) (r : ScopeRef) :
    s.Becomes (s.leave held r).2 := by
  unfold Store.leave
  split
  · exact sound.forget r
  · have closes : s.Becomes (s.close held r).2 := by
      unfold Store.close
      split
      · exact .refl sound
      · exact sound.teardown r
    dsimp only
    split
    · exact closes
    · exact closes.trans (closes.sound.forget r)

end Scriptlet.Store
