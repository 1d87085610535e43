import Scriptlet.Proofs.Store.Leaving

/-!
# Where scopes stand

A scope stands in another one from when it is opened. What evaluation does besides leaving scopes
moves none of them (`Store.Continues`), and a scope that it leaves loses the one around it only if
nothing stands in it and no function was defined in it (`Store.Loosens`). So the way from the scope
of a definition outward lasts for as long as a function has that scope
(`Store.Climbs.loosens`).
-/

namespace Scriptlet.Store

variable {s t u : Store} {r q p o : ScopeRef} {held : List Value}

/-! ## Scopes that stay in place -/

/-- Whether every scope of a store stands where it stood, and every function is what it was. -/
structure Continues (s t : Store) : Prop extends s.Grows t where
  parent : ∀ r, s.HasScope r → (t.scope r).parent = (s.scope r).parent
  same : ∀ f, s.HasFunction f → t.function f = s.function f

theorem Continues.refl (s : Store) : s.Continues s := ⟨.refl s, fun _ _ => rfl, fun _ _ => rfl⟩

theorem Continues.trans (first : s.Continues t) (second : t.Continues u) : s.Continues u where
  toGrows := first.toGrows.trans second.toGrows
  parent r here := (second.parent r (here.grows first.toGrows)).trans (first.parent r here)
  same f here := (second.same f (here.grows first.toGrows)).trans (first.same f here)

theorem Grows.continues (grows : s.Grows t) (scopes : t.scopes = s.scopes)
    (functions : t.functions = s.functions) : s.Continues t where
  toGrows := grows
  parent r _ := by rw [Store.scope, scopes]; rfl
  same f _ := by rw [Store.function, functions]; rfl

/-- A changed scope that stands where it stood. -/
theorem Grows.continues_modifyScope {change : Scope → Scope}
    (grows : s.Grows (s.modifyScope r change))
    (parent : (change (s.scope r)).parent = (s.scope r).parent) :
    s.Continues (s.modifyScope r change) where
  toGrows := grows
  parent q _ := by
    rcases scope_modifyScope_or s r q change with same | ⟨rfl, new⟩
    · rw [same]
    · rw [new]
      exact parent
  same _ _ := rfl

theorem Grows.continues_newScope {scope : Scope} (grows : s.Grows (s.newScope scope).2) :
    s.Continues (s.newScope scope).2 where
  toGrows := grows
  parent r here := by
    have read : (s.newScope scope).2.scope r = _ := getD_push s.scopes scope default r.index
    rw [read, if_neg (Nat.ne_of_lt here)]
    rfl
  same _ _ := rfl

theorem Grows.continues_newFunction {f : Function} (grows : s.Grows (s.newFunction f).2) :
    s.Continues (s.newFunction f).2 where
  toGrows := grows
  parent _ _ := rfl
  same g here := by
    have read : (s.newFunction f).2.function g = _ := getD_push s.functions f default g.index
    rw [read, if_neg (Nat.ne_of_lt here)]
    rfl

/-! ## As a notion of validity -/

/-- Sound stores in which scopes stay where they are. -/
def lineage : Validity := ⟨Store.Sound, Store.Valid, Store.Continues⟩

theorem Becomes.lineage (becomes : s.Becomes t) (continues : s.Grows t → s.Continues t) :
    lineage.Becomes s t := ⟨continues becomes.toGrows, becomes.sound⟩

theorem Gives.lineage {result : Value × Store} (gives : s.Gives result)
    (continues : s.Grows result.2 → s.Continues result.2) : lineage.Gives s result :=
  ⟨gives.becomes.lineage continues, gives.valid⟩

theorem Sound.continues_setVariable (sound : s.Sound) (r : ScopeRef) (name : String) {v : Value}
    (valid : s.Valid v) : lineage.Becomes s (s.setVariable r name v) :=
  (sound.setVariable r name valid).lineage fun grows => grows.continues_modifyScope rfl

theorem lineage_lawful : lineage.Lawful where
  refl := Continues.refl
  trans := Continues.trans
  grows continues valid := Valid.grows continues.toGrows valid
  scalar := valid_of_isScalar
  member valid := valid
  list sound := sound.list
  array sound := sound.array
  dictionary sound := sound.dictionary
  vars sound r := (sound.scope r).vars
  functions sound r e member := ((sound.scope r).functions e member).1
  newList sound _ valid := (sound.newList valid).lineage fun grows => grows.continues rfl rfl
  newArray sound _ valid := (sound.newArray valid).lineage fun grows => grows.continues rfl rfl
  newDictionary sound _ valid :=
    (sound.newDictionary valid).lineage fun grows => grows.continues rfl rfl
  setList sound l _ valid := (sound.setList l valid).lineage fun grows => grows.continues rfl rfl
  setArray sound a _ valid := (sound.setArray a valid).lineage fun grows => grows.continues rfl rfl
  setDictionary sound d _ valid :=
    (sound.setDictionary d valid).lineage fun grows => grows.continues rfl rfl
  setMember sound o _ name _ valid := sound.continues_setVariable o name valid

theorem Sound.continues_child (sound : s.Sound) (here : s.HasScope r) (name : String)
    (isClass : Bool) : lineage.Becomes s (s.child r name isClass).2 :=
  (sound.child here name isClass).lineage fun grows => grows.continues_newScope

theorem Sound.continues_instantiate (sound : s.Sound) (here : s.HasScope r) (name : String) :
    lineage.Becomes s (s.instantiate name r).2 :=
  (sound.instantiate here name).lineage fun grows => grows.continues_newScope

theorem Sound.continues_defineFunction (sound : s.Sound) (r : ScopeRef) {f : Function}
    (valid : s.SoundFunction f) : lineage.Becomes s (s.defineFunction r f) := by
  have makes := sound.newFunction valid
  have adds := makes.sound.addFunction r (hasFunction_newFunction s f)
  exact lineage_lawful.andThen (makes.lineage fun grows => grows.continues_newFunction)
    (adds.lineage fun grows => grows.continues_modifyScope rfl)

theorem Sound.continues_defineClass (sound : s.Sound) (r : ScopeRef) (here : s.HasScope q)
    (isClass : (s.scope q).isClass = true) :
    lineage.Becomes s (s.defineClass r (s.scope q).name q) := by
  have registers := sound.addScope r here isClass
  refine lineage_lawful.andThen (registers.lineage fun grows => grows.continues_modifyScope rfl)
    (registers.sound.continues_defineFunction r ⟨?_, ?_⟩)
  · intro environment none
    cases none
  · intro template same
    cases same
    exact ⟨here.grows registers.toGrows, (registers.scope q here).2.trans isClass⟩

theorem Sound.continues_copyVariables (sound : s.Sound) (r : ScopeRef)
    {entries : List (String × Value)} (valid : ∀ e ∈ entries, s.Valid e.2) :
    lineage.Becomes s (s.copyVariables r entries) :=
  lineage_lawful.copyVariables
    (fun sound name valid => Sound.continues_setVariable sound r name valid) sound valid

theorem Sound.continues_inherit (sound : s.Sound) (template base : ScopeRef) :
    lineage.Becomes s (s.inherit template base) := by
  have copies := sound.continues_copyVariables template (sound.scope base).vars
  have merges := Sound.merge copies.sound copies.grows.toGrows template (sound.scope base)
  exact lineage_lawful.andThen copies
    (merges.lineage fun grows => grows.continues_modifyScope rfl)

/-! ## Scopes that are left -/

theorem scope_clear_parent (s : Store) (r q : ScopeRef) :
    ((s.modifyScope r Scope.cleared).scope q).parent = (s.scope q).parent := by
  rcases scope_modifyScope_or s r q Scope.cleared with same | ⟨-, new⟩
  · rw [same]
  · rw [new]
    rfl

theorem scope_teardown_parent (s : Store) (r q : ScopeRef) :
    ((s.teardown r).scope q).parent = (s.scope q).parent := by
  have all (fuel : Nat) (pending : List ScopeRef) (s : Store) :
      ((s.teardownWithin fuel pending).scope q).parent = (s.scope q).parent := by
    induction fuel generalizing s pending with
    | zero => rfl
    | succ fuel ih =>
      cases pending with
      | nil => rfl
      | cons r pending => exact (ih _ _).trans (scope_clear_parent s r q)
  unfold Store.teardown
  split
  · exact scope_clear_parent s r q
  · exact all _ _ s

/-- The scopes of a store stand where they stood, or in none if nothing stands in them and no
function has been defined in them; every function is what it was. -/
structure Loosens (s t : Store) : Prop extends s.Grows t where
  parent : ∀ r, s.HasScope r → (t.scope r).parent = (s.scope r).parent ∨
    (t.scope r).parent = none ∧ (∀ f, s.HasFunction f → (t.function f).environment ≠ some r) ∧
      ∀ q, s.HasScope q → (t.scope q).parent ≠ some r
  same : ∀ f, s.HasFunction f → t.function f = s.function f

theorem Continues.loosens (continues : s.Continues t) : s.Loosens t :=
  ⟨continues.toGrows, fun r here => .inl (continues.parent r here), continues.same⟩

theorem Loosens.trans (first : s.Loosens t) (second : t.Loosens u) : s.Loosens u where
  toGrows := first.toGrows.trans second.toGrows
  parent r here := by
    have stays {r p : ScopeRef} (here : s.HasScope r) (away : (t.scope r).parent ≠ some p) :
        (u.scope r).parent ≠ some p := by
      rcases second.parent r (here.grows first.toGrows) with same | ⟨lost, -⟩
      · rw [same]
        exact away
      · rw [lost]
        exact fun never => by cases never
    have remains {f : FunctionRef} (here : s.HasFunction f)
        (away : (t.function f).environment ≠ some r) : (u.function f).environment ≠ some r := by
      rw [second.same f (here.grows first.toGrows)]
      exact away
    rcases second.parent r (here.grows first.toGrows) with same | ⟨lost, functions, scopes⟩
    · rcases first.parent r here with before | ⟨lost, functions, scopes⟩
      · exact .inl (same.trans before)
      · exact .inr ⟨same.trans lost, fun f isIn => remains isIn (functions f isIn),
          fun q isIn => stays isIn (scopes q isIn)⟩
    · exact .inr ⟨lost, fun f isIn => functions f (isIn.grows first.toGrows),
        fun q isIn => scopes q (isIn.grows first.toGrows)⟩
  same f here := (second.same f (here.grows first.toGrows)).trans (first.same f here)

theorem Sound.loosens_forget (sound : s.Sound) (r : ScopeRef) : s.Loosens (s.forget r) := by
  have grows := (sound.forget r).toGrows
  unfold Store.forget at grows ⊢
  split
  · rename_i isPlain
    rw [if_pos isPlain] at grows
    obtain ⟨-, -, functions, scopes⟩ := sound.isPlain isPlain
    refine ⟨grows, fun q _ => ?_, fun _ _ => rfl⟩
    rcases scope_modifyScope_or s r q fun scope => .new scope.name none scope.isClass with
      same | ⟨rfl, new⟩
    · rw [same]
      exact .inl rfl
    · refine .inr ⟨by rw [new]; rfl, fun f _ => functions f, fun p _ => ?_⟩
      rcases scope_modifyScope_or s r p fun scope => .new scope.name none scope.isClass with
        same | ⟨rfl, other⟩
      · rw [same]
        exact scopes p
      · rw [other]
        exact fun never => by cases never
  · exact (Continues.refl s).loosens

/-- A scope that is left. -/
theorem Sound.loosens_leave (sound : s.Sound) (held : List Value) (r : ScopeRef) :
    s.Loosens (s.leave held r).2 := by
  have tears := sound.teardown r
  have torn : s.Continues (s.teardown r) := by
    refine ⟨tears.toGrows, fun q _ => scope_teardown_parent s r q, fun f _ => ?_⟩
    rw [Store.function, functions_teardown]
    rfl
  rw [leave_eq]
  split
  · exact sound.loosens_forget r
  · split
    · exact (Continues.refl s).loosens
    · exact torn.loosens.trans (tears.sound.loosens_forget r)

/-- No scope is moved but the one that is left. -/
theorem scope_leave_parent (s : Store) (held : List Value) (other : q ≠ r) :
    ((s.leave held r).2.scope q).parent = (s.scope q).parent := by
  have forgets (s : Store) : (s.forget r).scope q = s.scope q := by
    unfold Store.forget
    split
    · rcases scope_modifyScope_or s r q fun scope => .new scope.name none scope.isClass with
        same | ⟨same, -⟩
      · exact same
      · exact absurd same.symm other
    · rfl
  rw [leave_eq]
  split
  · rw [forgets]
  · split
    · rfl
    · rw [forgets]
      exact scope_teardown_parent s r q

/-- A store continues when a scope is left that it did not have. -/
theorem Continues.leave (continues : s.Continues t) (sound : t.Sound) (held : List Value)
    (fresh : s.scopes.size ≤ r.index) : s.Continues (t.leave held r).2 where
  toGrows := continues.toGrows.trans (sound.leave held r).toGrows
  parent q here := by
    have other : q ≠ r := by
      rintro rfl
      exact Nat.not_lt_of_le fresh here
    exact (scope_leave_parent t held other).trans (continues.parent q here)
  same f here := by
    have left := sound.loosens_leave held r
    exact (left.same f (here.grows continues.toGrows)).trans (continues.same f here)

/-! ## The way outward -/

/-- Whether the way from a scope outward comes to another one through scopes of which something
holds. -/
inductive Climbs (s : Store) (through : ScopeRef → Prop) : ScopeRef → ScopeRef → Prop
  | here {r : ScopeRef} : s.HasScope r → Climbs s through r r
  | out {r p q : ScopeRef} : s.HasScope r → through r → (s.scope r).parent = some p →
      Climbs s through p q → Climbs s through r q

variable {through through' : ScopeRef → Prop}

theorem Climbs.hasScope (climbs : s.Climbs through r q) : s.HasScope r := by
  cases climbs with
  | here isIn => exact isIn
  | out isIn _ _ _ => exact isIn

theorem Climbs.hasScope_end (climbs : s.Climbs through r q) : s.HasScope q := by
  induction climbs with
  | here isIn => exact isIn
  | out _ _ _ _ ih => exact ih

theorem Climbs.continues (continues : s.Continues t)
    (imp : ∀ r, s.HasScope r → through r → through' r) (climbs : s.Climbs through r q) : t.Climbs through' r q := by
  induction climbs with
  | here isIn => exact .here (isIn.grows continues.toGrows)
  | @out r p q isIn goes parent _ ih =>
    exact .out (isIn.grows continues.toGrows) (imp r isIn goes)
      ((continues.parent r isIn).trans parent) ih

/-- Whether a function or a scope of a store still stands in a scope. -/
def Occupied (s t : Store) (r : ScopeRef) : Prop :=
  (∃ f, s.HasFunction f ∧ (t.function f).environment = some r) ∨
    ∃ q, s.HasScope q ∧ (t.scope q).parent = some r

/-- A scope in which something still stands is where it was. -/
theorem Loosens.parent_of_occupied (loosens : s.Loosens t) (isIn : s.HasScope r)
    (occupied : s.Occupied t r) : (t.scope r).parent = (s.scope r).parent := by
  rcases loosens.parent r isIn with same | ⟨-, functions, scopes⟩
  · exact same
  · rcases occupied with ⟨f, here, environment⟩ | ⟨q, here, parent⟩
    · exact absurd environment (functions f here)
    · exact absurd parent (scopes q here)

/-- The way from a scope in which something still stands lasts, and where it comes to, something
stands as well. -/
theorem Climbs.loosens (loosens : s.Loosens t) (imp : ∀ r, s.HasScope r → through r → through' r)
    (climbs : s.Climbs through r q) (occupied : s.Occupied t r) :
    t.Climbs through' r q ∧ s.Occupied t q := by
  induction climbs with
  | here isIn => exact ⟨.here (isIn.grows loosens.toGrows), occupied⟩
  | @out r p q isIn goes parent _ ih =>
    have stands : (t.scope r).parent = some p :=
      (loosens.parent_of_occupied isIn occupied).trans parent
    obtain ⟨climbs, occupied⟩ := ih (.inr ⟨r, isIn, stands⟩)
    exact ⟨.out (isIn.grows loosens.toGrows) (imp r isIn goes) stands climbs, occupied⟩

theorem Climbs.trans (first : s.Climbs through r q) (second : s.Climbs through q o) :
    s.Climbs through r o := by
  induction first with
  | here _ => exact second
  | out isIn goes parent _ ih => exact .out isIn goes parent (ih second)

/-! ## Chains -/

theorem Sound.outward_eq (sound : s.Sound) {a b : Nat} (left : r.index < a) (right : r.index < b) :
    s.outward a r = s.outward b r := by
  induction a generalizing b r with
  | zero => exact absurd left (Nat.not_lt_zero _)
  | succ a ih =>
    cases b with
    | zero => exact absurd right (Nat.not_lt_zero _)
    | succ b =>
      simp only [outward]
      cases parent : (s.scope r).parent with
      | none => rfl
      | some p =>
        have older : p.index < r.index := (sound.scope r).parent p parent
        exact congrArg (r :: ·) (ih (by omega) (by omega))

theorem Sound.chain_eq (sound : s.Sound) (here : s.HasScope r) :
    s.chain r = r :: (s.scope r).parent.elim [] s.chain := by
  have more : s.chain r = s.outward (s.scopes.size + 1) r :=
    sound.outward_eq here (Nat.lt_succ_of_lt here)
  rw [more]
  rfl

/-- The chain of a scope is what the way outward goes through, and the chain where it comes to. -/
theorem Climbs.chain (sound : s.Sound) (climbs : s.Climbs through r q) :
    ∃ inner, s.chain r = inner ++ s.chain q ∧ ∀ x ∈ inner, through x := by
  induction climbs with
  | here _ => exact ⟨[], rfl, fun x never => by cases never⟩
  | @out r p q isIn goes parent _ ih =>
    obtain ⟨inner, chain, all⟩ := ih
    refine ⟨r :: inner, ?_, fun x member => ?_⟩
    · rw [sound.chain_eq isIn, parent, Option.elim_some, chain]
      rfl
    · rcases List.mem_cons.1 member with rfl | later
      · exact goes
      · exact all x later

end Scriptlet.Store
