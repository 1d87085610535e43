import Scriptlet.Proofs.Store.Confined
import Scriptlet.Proofs.Store.Lineage

/-!
# Templates of classes

The template of a class is a scope like any other one, but no instance has it as its member storage.
So its variables stay as they are (`Template.validity`), unless something sets a variable that is
looked up from a scope inside the template (`Store.Outside`), or the template goes with a scope that
declares it (`Store.vars_leave`).
-/

namespace Scriptlet

namespace Store

variable {s t : Store} {r q : ScopeRef} {held : List Value}

/-! ## What stands inside a scope -/

/-- Whether a scope is another one or stands inside it. -/
def Inside (s : Store) (r q : ScopeRef) : Prop := s.Climbs (fun _ => True) r q

theorem Inside.mem_chain (sound : s.Sound) (inside : s.Inside r q) : q ∈ s.chain r := by
  obtain ⟨inner, chain, -⟩ := Climbs.chain sound inside
  rw [chain, sound.chain_eq inside.hasScope_end]
  exact List.mem_append_right _ List.mem_cons_self

theorem Sound.inside_of_mem_chain (sound : s.Sound) (here : s.HasScope r)
    (member : q ∈ s.chain r) : s.Inside r q := by
  have all {fuel : Nat} {r : ScopeRef} (here : s.HasScope r) (member : q ∈ s.outward fuel r) :
      s.Inside r q := by
    induction fuel generalizing r with
    | zero => cases member
    | succ fuel ih =>
      rcases List.mem_cons.1 member with rfl | outside
      · exact .here here
      · cases parent : (s.scope r).parent with
        | none =>
          rw [parent] at outside
          cases outside
        | some p =>
          rw [parent] at outside
          have older : p.index < r.index := (sound.scope r).parent p parent
          exact .out here trivial parent (ih (Nat.lt_trans older here) outside)
  exact all here member

theorem Inside.eq_or_parent (inside : s.Inside r q) :
    r = q ∨ ∃ p, (s.scope r).parent = some p ∧ s.Inside p q := by
  cases inside with
  | here _ => exact .inl rfl
  | out _ _ parent climbs => exact .inr ⟨_, parent, climbs⟩

theorem Inside.continues (continues : s.Continues t) (inside : s.Inside r q) : t.Inside r q :=
  Climbs.continues continues (fun _ _ _ => trivial) inside

/-- What stands inside a scope stood inside it before. -/
theorem Loosens.inside (loosens : s.Loosens t) (sound : s.Sound) (here : s.HasScope r)
    (inside : t.Inside r q) : s.Inside r q := by
  induction inside with
  | here _ => exact .here here
  | @out r p q _ _ parent _ ih =>
    rcases loosens.parent r here with same | ⟨lost, -⟩
    · rw [same] at parent
      have older : p.index < r.index := (sound.scope r).parent p parent
      exact .out here trivial parent (ih (Nat.lt_trans older here))
    · rw [lost] at parent
      cases parent

/-! ## What is declared in a scope -/

/-- Whether a scope is another one, or is the template of a class that is declared in it, or in the
template of such a class. -/
inductive Declares (s : Store) : ScopeRef → ScopeRef → Prop
  | here (r : ScopeRef) : Declares s r r
  | inner {r p q : ScopeRef} : p ∈ (s.scope r).scopes.values → Declares s p q → Declares s r q

/-- What is declared after a scope has been emptied was declared before. -/
theorem Declares.of_clear {p : ScopeRef} (declares : (s.modifyScope p Scope.cleared).Declares r q) :
    s.Declares r q := by
  induction declares with
  | here r => exact .here r
  | @inner r _ _ member _ ih =>
    rcases scope_modifyScope_or s p r Scope.cleared with same | ⟨-, new⟩
    · rw [same] at member
      exact .inner member ih
    · rw [new] at member
      cases member

/-- The variables of a scope stay, or go with a scope that declares it. -/
theorem vars_teardown (s : Store) (r q : ScopeRef) :
    ((s.teardown r).scope q).vars = (s.scope q).vars ∨
      ((s.teardown r).scope q).vars = .empty ∧ s.Declares r q := by
  have clear (s : Store) (r : ScopeRef) :
      ((s.modifyScope r Scope.cleared).scope q).vars = (s.scope q).vars ∨
        ((s.modifyScope r Scope.cleared).scope q).vars = .empty ∧ s.Declares r q := by
    rcases scope_modifyScope_or s r q Scope.cleared with same | ⟨rfl, new⟩
    · rw [same]
      exact .inl rfl
    · rw [new]
      exact .inr ⟨rfl, .here r⟩
  have all (fuel : Nat) (pending : List ScopeRef) (s : Store) :
      ((s.teardownWithin fuel pending).scope q).vars = (s.scope q).vars ∨
        ((s.teardownWithin fuel pending).scope q).vars = .empty ∧
          ∃ r ∈ pending, s.Declares r q := by
    induction fuel generalizing s pending with
    | zero => exact .inl rfl
    | succ fuel ih =>
      cases pending with
      | nil => exact .inl rfl
      | cons r pending =>
        rcases ih ((s.scope r).scopes.values ++ pending) (s.modifyScope r Scope.cleared) with
          same | ⟨empty, p, member, declares⟩
        · rcases clear s r with before | ⟨empty, declares⟩
          · exact .inl (same.trans before)
          · exact .inr ⟨same.trans empty, r, List.mem_cons_self, declares⟩
        · rcases List.mem_append.1 member with named | later
          · exact .inr ⟨empty, r, List.mem_cons_self, .inner named declares.of_clear⟩
          · exact .inr ⟨empty, p, List.mem_cons_of_mem _ later, declares.of_clear⟩
  unfold Store.teardown
  split
  · exact clear s r
  · rcases all (s.namedLinks + 1) [r] s with same | ⟨empty, p, member, declares⟩
    · exact .inl same
    · rw [List.mem_singleton.1 member] at declares
      exact .inr ⟨empty, declares⟩

theorem vars_forget (s : Store) (r q : ScopeRef) :
    ((s.forget r).scope q).vars = (s.scope q).vars ∨
      r = q ∧ ((s.forget r).scope q).vars = .empty := by
  unfold Store.forget
  split
  · rcases scope_modifyScope_or s r q fun scope => .new scope.name none scope.isClass with
      same | ⟨rfl, new⟩
    · rw [same]
      exact .inl rfl
    · rw [new]
      exact .inr ⟨rfl, rfl⟩
  · exact .inl rfl

/-- When a scope is left, the variables of a scope stay, or go with one that declares it and is not
kept. -/
theorem vars_leave (s : Store) (held : List Value) (r q : ScopeRef) :
    ((s.leave held r).2.scope q).vars = (s.scope q).vars ∨
      ((s.leave held r).2.scope q).vars = .empty ∧ s.Declares r q ∧
        (s.leave held r).1 = false := by
  rw [leave_eq]
  split
  · rcases vars_forget s r q with same | ⟨rfl, empty⟩
    · exact .inl same
    · exact .inr ⟨empty, .here r, rfl⟩
  · split
    · exact .inl rfl
    · rcases vars_forget (s.teardown r) r q with
        same | ⟨rfl, empty⟩
      · rcases vars_teardown s r q with before | ⟨empty, declares⟩
        · exact .inl (same.trans before)
        · exact .inr ⟨same.trans empty, declares, rfl⟩
      · exact .inr ⟨empty, .here r, rfl⟩

theorem functions_leave (s : Store) (held : List Value) (r : ScopeRef) :
    (s.leave held r).2.functions = s.functions := by
  rw [leave_eq]
  split
  · exact functions_forget s r
  · split
    · rfl
    · exact (functions_forget _ r).trans (functions_teardown s r)

/-- Leaving a scope changes no collection. -/
theorem collections_leave (s : Store) (held : List Value) (r : ScopeRef) :
    (s.leave held r).2.lists = s.lists ∧ (s.leave held r).2.arrays = s.arrays ∧
      (s.leave held r).2.dictionaries = s.dictionaries := by
  have within (fuel : Nat) (pending : List ScopeRef) (s : Store) :
      (s.teardownWithin fuel pending).lists = s.lists ∧
        (s.teardownWithin fuel pending).arrays = s.arrays ∧
        (s.teardownWithin fuel pending).dictionaries = s.dictionaries := by
    induction fuel generalizing s pending with
    | zero => exact ⟨rfl, rfl, rfl⟩
    | succ fuel ih =>
      cases pending with
      | nil => exact ⟨rfl, rfl, rfl⟩
      | cons r pending => exact ih _ _
  have forgets (s : Store) : (s.forget r).lists = s.lists ∧ (s.forget r).arrays = s.arrays ∧
      (s.forget r).dictionaries = s.dictionaries := by
    unfold Store.forget
    split <;> exact ⟨rfl, rfl, rfl⟩
  have tears : (s.teardown r).lists = s.lists ∧ (s.teardown r).arrays = s.arrays ∧
      (s.teardown r).dictionaries = s.dictionaries := by
    unfold Store.teardown
    split
    · exact ⟨rfl, rfl, rfl⟩
    · exact within _ _ s
  rw [leave_eq]
  split
  · exact forgets s
  · split
    · exact ⟨rfl, rfl, rfl⟩
    · obtain ⟨lists, arrays, dictionaries⟩ := forgets (s.teardown r)
      exact ⟨lists.trans tears.1, arrays.trans tears.2.1, dictionaries.trans tears.2.2⟩

/-- Leaving a scope makes nothing an instance. -/
theorem InstancesIn.leave {among : ScopeRef → Prop} (inside : s.InstancesIn among)
    (held : List Value) (r : ScopeRef) : (s.leave held r).2.InstancesIn among := by
  obtain ⟨lists, arrays, dictionaries⟩ := s.collections_leave held r
  refine ⟨fun l => ?_, fun a => ?_, fun d => ?_, fun q => ?_⟩
  · rw [Store.list, lists]
    exact inside.list l
  · rw [Store.array, arrays]
    exact inside.array a
  · rw [Store.dictionary, dictionaries]
    exact inside.dictionary d
  · rcases vars_leave s held r q with same | ⟨empty, -⟩
    · rw [same]
      exact inside.vars q
    · rw [empty]
      intro e never
      cases never

/-! ## What definitions keep -/

/-- What a change of one scope keeps of another one, or of the same. -/
theorem keeps_modifyScope {α : Type} (part : Scope → α) {change : Scope → Scope}
    (same : r = q → part (change (s.scope r)) = part (s.scope r)) :
    part ((s.modifyScope r change).scope q) = part (s.scope q) := by
  rcases scope_modifyScope_or s r q change with other | ⟨rfl, new⟩
  · rw [other]
  · rw [new]
    exact same rfl

theorem vars_defineFunction (s : Store) (r q : ScopeRef) (f : Function) :
    ((s.defineFunction r f).scope q).vars = (s.scope q).vars :=
  keeps_modifyScope (s := (s.newFunction f).2) Scope.vars fun _ => rfl

theorem vars_defineClass (s : Store) (r q template : ScopeRef) (name : String) :
    ((s.defineClass r name template).scope q).vars = (s.scope q).vars :=
  (vars_defineFunction _ r q _).trans (keeps_modifyScope Scope.vars fun _ => rfl)

/-- An instance has the variables of the template. -/
theorem vars_instantiate (s : Store) (name : String) (template : ScopeRef) :
    ((s.instantiate name template).2.scope (s.instantiate name template).1).vars =
      (s.scope template).vars := by
  unfold Store.instantiate
  dsimp only
  rw [scope_newScope]

/-- A class is registered under its name. -/
theorem scopes_defineClass (here : s.HasScope r) (name : String) (template : ScopeRef) :
    ((s.defineClass r name template).scope r).scopes = (s.scope r).scopes.insert name template := by
  have registers : ((s.addScope r name template).scope r).scopes =
      (s.scope r).scopes.insert name template := by
    rw [Store.addScope, scope_modifyScope s r r _ here, if_pos rfl]
  rw [← registers]
  exact keeps_modifyScope (s := ((s.addScope r name template).newFunction _).2) Scope.scopes
    fun _ => rfl

/-! ## Scopes that are instances -/

theorem Valid.instancesIn {v : Value} (valid : s.Valid v) : v.InstancesIn s.HasScope := by
  induction v with
  | member collection key first second =>
    intro r member
    rcases List.mem_append.1 member with inside | inside
    · exact first valid.1 r inside
    · exact second valid.2 r inside
  | object o =>
    intro r member
    obtain rfl : r = o := by simpa [Value.referents] using member
    exact valid.1
  | function _ | array _ | list _ | dictionary _ =>
    intro r never
    simp [Value.referents] at never
  | null | int _ | float _ | vec3 _ | pointer _ | string _ =>
    exact Value.instancesIn_of_isScalar rfl

theorem Sound.instancesIn (sound : s.Sound) : s.InstancesIn s.HasScope where
  list l v member := (sound.list l v member).instancesIn
  array a v member := (sound.array a v member).instancesIn
  dictionary d e member := (sound.dictionary d e member).imp Valid.instancesIn Valid.instancesIn
  vars r e member := ((sound.scope r).vars e member).instancesIn

theorem InstancesIn.child {among : ScopeRef → Prop} (inside : s.InstancesIn among) (r : ScopeRef)
    (name : String) (c : Bool) : (s.child r name c).2.InstancesIn among := by
  refine ⟨inside.list, inside.array, inside.dictionary, fun q => ?_⟩
  have read : (s.child r name c).2.scope q = _ :=
    getD_push s.scopes (.new name (some r) c) default q.index
  rw [read]
  split
  · intro e never
    cases never
  · exact inside.vars q

theorem InstancesIn.defineClass {among : ScopeRef → Prop} (inside : s.InstancesIn among)
    (r : ScopeRef) (name : String) (template : ScopeRef) :
    (s.defineClass r name template).InstancesIn among := by
  refine ⟨inside.list, inside.array, inside.dictionary, fun q => ?_⟩
  rw [vars_defineClass]
  exact inside.vars q

variable {T : ScopeRef}

/-- A store as a place where every scope may gain names, and every scope but one may be the member
storage of an instance. -/
def apart (s : Store) (T : ScopeRef) : Site := ⟨s, T, (· ≠ T)⟩

theorem InstancesIn.apart (inside : s.InstancesIn (· ≠ T)) : (s.apart T).Confined s :=
  Site.confined_before _ inside

theorem open_apart (s : Store) (T r : ScopeRef) : (s.apart T).Open r := by
  by_cases same : r = T
  · exact .inl same
  · exact .inr (.inr same)

theorem ne_of_object_apart (here : s.HasScope T) (object : (s.apart T).Object r) : r ≠ T := by
  rcases object with new | other
  · rintro rfl
    exact Nat.not_lt_of_le new here
  · exact other

/-- What base classes define does not make a scope an instance. -/
theorem InstancesIn.inheritAll (inside : s.InstancesIn (· ≠ T)) (here : s.HasScope T)
    {current template : ScopeRef} {bases : List String} {line : Line}
    (h : s.inheritAll current template line bases = .ok t) :
    t.InstancesIn (· ≠ T) ∧ t.HasScope T := by
  have becomes := (s.apart T).validity_lawful.inheritAll (P := fun _ => True)
    (fun confined _ base =>
      ⟨Site.Confined.inherit confined (s.open_apart T template) base, trivial⟩)
    inside.apart trivial h
  exact ⟨becomes.sound.toInstancesIn.imp fun _ => ne_of_object_apart here,
    Nat.lt_of_lt_of_le here becomes.sound.size⟩

/-! ## Templates -/

/-- Whether there is a class with a template. -/
def Defines (s : Store) (T : ScopeRef) : Prop := ∃ f, (s.function f).body = .construct T

/-- Whether a scope stands outside a template, if there is the class. -/
structure Outside (s : Store) (T r : ScopeRef) : Prop where
  here : s.HasScope r
  outside : s.Defines T → ¬ s.Inside r T

theorem Defines.hasScope (defines : s.Defines T) (sound : s.Sound) : s.HasScope T := by
  obtain ⟨f, body⟩ := defines
  exact ((sound.function f).template T body).1

theorem Defines.of_functions (same : t.functions = s.functions) (defines : t.Defines T) :
    s.Defines T := by
  obtain ⟨f, body⟩ := defines
  refine ⟨f, ?_⟩
  rw [function, ← same]
  exact body

/-- Another function is no constructor of the class. -/
theorem Defines.of_defineFunction {f : Function} (other : f.body ≠ .construct T)
    (defines : (s.defineFunction r f).Defines T) : s.Defines T := by
  obtain ⟨g, body⟩ := defines
  have read : (s.defineFunction r f).function g = if g.index = s.functions.size then f
      else s.function g := getD_push s.functions f default g.index
  rw [read] at body
  split at body
  · exact absurd body other
  · exact ⟨g, body⟩

theorem Outside.ne (outside : s.Outside T r) (defines : s.Defines T) : r ≠ T := by
  rintro rfl
  exact outside.outside defines (.here outside.here)

/-- A new scope stands outside a template if the scope around it does. -/
theorem Outside.child (outside : s.Outside T r) (sound : s.Sound) (name : String) (c : Bool) :
    (s.child r name c).2.Outside T (s.child r name c).1 := by
  have continues := (sound.continues_child outside.here name c).grows
  refine ⟨s.hasScope_newScope _, fun defines inside => ?_⟩
  have defined : s.Defines T := Defines.of_functions rfl defines
  rcases inside.eq_or_parent with same | ⟨p, parent, around⟩
  · exact Nat.lt_irrefl _ (same ▸ defined.hasScope sound)
  · rw [s.scope_child] at parent
    obtain rfl : r = p := Option.some.inj parent
    exact outside.outside defined (continues.loosens.inside sound outside.here around)

end Store

namespace Template

variable {T : ScopeRef} {s t u : Store} {r q : ScopeRef} {v : Value}

/-- How a store may change: no class is defined with a template that has been there. -/
structure Lasts (T : ScopeRef) (s t : Store) : Prop extends s.Continues t where
  before : s.HasScope T → t.Defines T → s.Defines T

/-- How a store may change while evaluation leaves no scope: no class with the template is defined,
and if there is the class, the variables of the template stay. -/
structure Keeps (T : ScopeRef) (s t : Store) : Prop extends s.Continues t where
  defined : t.Defines T → s.Defines T
  vars : s.Defines T → (t.scope T).vars = (s.scope T).vars

/-- What holds of a store: the template is no instance, if there is the class. -/
structure Sound (T : ScopeRef) (s : Store) : Prop where
  store : s.Sound
  instances : s.Defines T → s.InstancesIn (· ≠ T)

/-- Sound stores in which the template of a class stays as it is, and in which it is no instance. -/
def validity (T : ScopeRef) : Validity :=
  ⟨Sound T, fun s v => s.Valid v ∧ (s.Defines T → v.InstancesIn (· ≠ T)), Keeps T⟩

theorem Lasts.refl (s : Store) : Lasts T s s := ⟨.refl s, fun _ defines => defines⟩

theorem Lasts.trans (first : Lasts T s t) (second : Lasts T t u) : Lasts T s u :=
  ⟨first.toContinues.trans second.toContinues, fun here defines =>
    first.before here (second.before (here.grows first.toGrows) defines)⟩

theorem Keeps.lasts (keeps : Keeps T s t) : Lasts T s t := ⟨keeps.toContinues, fun _ => keeps.defined⟩

/-- A class that has been defined is still there. -/
theorem defines_of_continues (continues : s.Continues t) (defines : s.Defines T) : t.Defines T := by
  obtain ⟨f, body⟩ := defines
  have here : s.HasFunction f := Store.hasFunction_of_ne fun same => by rw [same] at body; cases body
  exact ⟨f, by rw [continues.same f here]; exact body⟩

/-- There has been the class before, or the template is new. -/
theorem Lasts.defines_or (lasts : Lasts T s t) (defines : t.Defines T) :
    s.Defines T ∨ ∀ r, s.HasScope r → r ≠ T := by
  by_cases here : s.HasScope T
  · exact .inl (lasts.before here defines)
  · refine .inr fun r isIn same => here ?_
    rw [← same]
    exact isIn

theorem Lasts.valid (lasts : Lasts T s t)
    (valid : s.Valid v ∧ (s.Defines T → v.InstancesIn (· ≠ T))) :
    t.Valid v ∧ (t.Defines T → v.InstancesIn (· ≠ T)) := by
  refine ⟨valid.1.grows lasts.toGrows, fun defines => ?_⟩
  rcases lasts.defines_or defines with defined | other
  · exact valid.2 defined
  · exact valid.1.instancesIn.imp other

theorem Lasts.outside (lasts : Lasts T s t) (sound : s.Sound) (outside : s.Outside T r) :
    t.Outside T r := by
  refine ⟨outside.here.grows lasts.toGrows, fun defines inside => ?_⟩
  have inside := lasts.toContinues.loosens.inside sound outside.here inside
  rcases lasts.defines_or defines with defined | other
  · exact outside.outside defined inside
  · exact other T inside.hasScope_end rfl

theorem Keeps.refl (s : Store) : Keeps T s s := ⟨.refl s, fun defines => defines, fun _ => rfl⟩

theorem Keeps.trans (first : Keeps T s t) (second : Keeps T t u) : Keeps T s u :=
  ⟨first.toContinues.trans second.toContinues, fun defines => first.defined (second.defined defines),
    fun defines =>
      (second.vars (defines_of_continues first.toContinues defines)).trans (first.vars defines)⟩

namespace Sound

variable (sound : Sound T s)
include sound

/-- A store becomes another one of them, in which there is no other class. -/
theorem becomes (places : Store.lineage.Becomes s t) (same : t.Defines T → s.Defines T)
    (confined : s.Defines T → (s.apart T).validity.Becomes s t)
    (vars : s.Defines T → (t.scope T).vars = (s.scope T).vars) : (validity T).Becomes s t := by
  refine ⟨⟨places.grows, same, vars⟩, places.sound, fun defines => ?_⟩
  have defined := same defines
  exact (confined defined).sound.toInstancesIn.imp fun _ =>
    Store.ne_of_object_apart (defined.hasScope sound.store)

theorem gives {result : Value × Store} (places : Store.lineage.Gives s result)
    (functions : result.2.functions = s.functions)
    (confined : s.Defines T → (s.apart T).validity.Gives s result)
    (vars : (result.2.scope T).vars = (s.scope T).vars) : (validity T).Gives s result := by
  have same (defines : result.2.Defines T) : s.Defines T := .of_functions functions defines
  refine ⟨sound.becomes places.becomes same (fun defines => (confined defines).becomes)
    fun _ => vars, places.valid, fun defines => ?_⟩
  have defined := same defines
  exact Value.InstancesIn.imp (confined defined).valid fun _ =>
    Store.ne_of_object_apart (defined.hasScope sound.store)

theorem apart (defines : s.Defines T) : (s.apart T).Confined s :=
  Store.InstancesIn.apart (sound.instances defines)

theorem setVariable {name : String} (other : s.Defines T → r ≠ T) (valid : s.Valid v)
    (instances : s.Defines T → v.InstancesIn (· ≠ T)) :
    (validity T).Becomes s (s.setVariable r name v) :=
  sound.becomes (sound.store.continues_setVariable r name valid) (.of_functions rfl)
    (fun defines => (sound.apart defines).setVariable (.inl (Store.open_apart s _ r))
      ((instances defines).imp fun _ => .inr))
    fun defines => Store.keeps_modifyScope Scope.vars fun same => absurd same (other defines)

end Sound

/-- Templates stay as they are when values are operated on. -/
theorem validity_lawful (T : ScopeRef) : (validity T).Lawful where
  refl := .refl
  trans := .trans
  grows keeps valid := keeps.lasts.valid valid
  scalar plain := ⟨Store.valid_of_isScalar plain, fun _ => Value.instancesIn_of_isScalar plain⟩
  member valid :=
    ⟨⟨valid.1.1, fun defines r member => valid.2 defines r (List.mem_append_left _ member)⟩,
      ⟨valid.1.2, fun defines r member => valid.2 defines r (List.mem_append_right _ member)⟩⟩
  list sound l v member :=
    ⟨sound.store.list l v member, fun defines => (sound.instances defines).list l v member⟩
  array sound a v member :=
    ⟨sound.store.array a v member, fun defines => (sound.instances defines).array a v member⟩
  dictionary sound d e member := by
    obtain ⟨key, value⟩ := sound.store.dictionary d e member
    exact ⟨⟨key, fun defines => ((sound.instances defines).dictionary d e member).1⟩, value,
      fun defines => ((sound.instances defines).dictionary d e member).2⟩
  vars sound r e member :=
    ⟨(sound.store.scope r).vars e member, fun defines => (sound.instances defines).vars r e member⟩
  functions sound r e member := by
    refine ⟨((sound.store.scope r).functions e member).1, fun _ q never => ?_⟩
    simp [Value.referents] at never
  newList sound _ valid :=
    sound.gives (Store.lineage_lawful.newList sound.store fun v member => (valid v member).1) rfl
      (fun defines => (sound.apart defines).newList fun v member =>
        ((valid v member).2 defines).imp fun _ => .inr) rfl
  newArray sound _ valid :=
    sound.gives (Store.lineage_lawful.newArray sound.store fun v member => (valid v member).1) rfl
      (fun defines => (sound.apart defines).newArray fun v member =>
        ((valid v member).2 defines).imp fun _ => .inr) rfl
  newDictionary sound _ valid :=
    sound.gives (Store.lineage_lawful.newDictionary sound.store fun e member =>
        ⟨(valid e member).1.1, (valid e member).2.1⟩) rfl
      (fun defines => (sound.apart defines).newDictionary fun e member =>
        ⟨((valid e member).1.2 defines).imp fun _ => .inr,
          ((valid e member).2.2 defines).imp fun _ => .inr⟩) rfl
  setList sound l _ valid :=
    sound.becomes (Store.lineage_lawful.setList sound.store l fun v member => (valid v member).1)
      (.of_functions rfl) (fun defines => (sound.apart defines).setList l fun v member =>
        ((valid v member).2 defines).imp fun _ => .inr) fun _ => rfl
  setArray sound a _ valid :=
    sound.becomes (Store.lineage_lawful.setArray sound.store a fun v member => (valid v member).1)
      (.of_functions rfl) (fun defines => (sound.apart defines).setArray a fun v member =>
        ((valid v member).2 defines).imp fun _ => .inr) fun _ => rfl
  setDictionary sound d _ valid :=
    sound.becomes (Store.lineage_lawful.setDictionary sound.store d fun e member =>
        ⟨(valid e member).1.1, (valid e member).2.1⟩) (.of_functions rfl)
      (fun defines => (sound.apart defines).setDictionary d fun e member =>
        ⟨((valid e member).1.2 defines).imp fun _ => .inr,
          ((valid e member).2.2 defines).imp fun _ => .inr⟩) fun _ => rfl
  setMember sound o object name _ valid :=
    -- an instance is never the template
    sound.setVariable (fun defines => object.2 defines o List.mem_cons_self) valid.1 valid.2

namespace Sound

variable (sound : Sound T s)
include sound

/-! ## Scopes that evaluation opens -/

/-- A new scope does not change the template. -/
theorem vars_newScope (defines : s.Defines T) (scope : Scope) :
    ((s.newScope scope).2.scope T).vars = (s.scope T).vars := by
  have read : (s.newScope scope).2.scope T = _ :=
    Store.getD_push s.scopes scope default T.index
  rw [read, if_neg (Nat.ne_of_lt (defines.hasScope sound.store))]
  rfl

theorem child (here : s.HasScope r) (name : String) (c : Bool) :
    (validity T).Becomes s (s.child r name c).2 :=
  sound.becomes (sound.store.continues_child here name c) (.of_functions rfl)
    (fun defines => ((sound.apart defines).child r name c).1)
    fun defines => sound.vars_newScope defines _

theorem instantiate (here : s.HasScope r) (name : String) :
    (validity T).Becomes s (s.instantiate name r).2 ∧
      (validity T).Valid (s.instantiate name r).2 (.object (s.instantiate name r).1) := by
  have confined (defines : s.Defines T) := Site.Confined.instantiate (sound.apart defines) name r
  refine ⟨sound.becomes (sound.store.continues_instantiate here name) (.of_functions rfl)
    (fun defines => (confined defines).1) fun defines => sound.vars_newScope defines _,
    s.valid_instantiate name r, fun defines q member => ?_⟩
  have defined : s.Defines T := .of_functions rfl defines
  obtain rfl : q = _ := by simpa [Value.referents] using member
  exact Store.ne_of_object_apart (defined.hasScope sound.store) (.inl (confined defined).2)

/-! ## Definitions -/

theorem defineFunction (r : ScopeRef) {f : Function} (valid : s.SoundFunction f)
    (other : f.body ≠ .construct T) : (validity T).Becomes s (s.defineFunction r f) :=
  sound.becomes (sound.store.continues_defineFunction r valid) (.of_defineFunction other)
    (fun defines => (sound.apart defines).defineFunction (Store.open_apart s _ r) f)
    fun _ => s.vars_defineFunction r T f

/-- Another class that is registered in a scope of the store. -/
theorem defineClass (around : s.HasScope r) (here : s.HasScope q)
    (isClass : (s.scope q).isClass = true) (other : q ≠ T) :
    (validity T).Becomes s (s.defineClass r (s.scope q).name q) := by
  refine sound.becomes (sound.store.continues_defineClass r here isClass)
    (fun defines => ?_) (fun defines => ?_) fun _ => s.vars_defineClass r T q _
  · have added : (s.addScope r (s.scope q).name q).Defines T :=
      Store.Defines.of_defineFunction (r := r) (fun same => other (FunctionBody.construct.inj same))
        defines
    exact .of_functions rfl added
  · have confined := sound.apart defines
    have adds : (s.apart T).validity.Becomes s (s.addScope r (s.scope q).name q) :=
      confined.modifyOpen (Store.open_apart s _ r) (confined.vars r) fun fresh =>
        absurd around (Nat.not_lt_of_le fresh)
    exact (Site.validity_lawful _).andThen adds
      (adds.sound.defineFunction (Store.open_apart s _ r) _)

/-- Another class that takes over what a base class defines. -/
theorem inherit (other : r ≠ T) (base : ScopeRef) :
    (validity T).Becomes s (s.inherit r base) := by
  have copies : (validity T).Becomes s (s.copyVariables r (s.scope base).vars.entries) :=
    (validity_lawful T).copyVariables
      (fun sound _ valid => Sound.setVariable sound (fun _ => other) valid.1 valid.2)
      sound ((validity_lawful T).vars sound base)
  have copied : Sound T (s.copyVariables r (s.scope base).vars.entries) := copies.sound
  have merges := copied.store.merge copies.grows.toGrows r (sound.store.scope base)
  refine (validity_lawful T).andThen copies (copied.becomes
    (merges.lineage fun grows => grows.continues_modifyScope rfl) (.of_functions rfl)
    (fun defines => ?_) fun _ => Store.keeps_modifyScope Scope.vars fun _ => rfl)
  have confined := copied.apart defines
  exact confined.modifyOpen (Store.open_apart _ _ r) (confined.vars r) (confined.inner r)

/-! ## Scopes that evaluation leaves -/

theorem leave (held : List Value) (r : ScopeRef) : Sound T (s.leave held r).2 :=
  ⟨(sound.store.leave held r).sound, fun defines =>
    (sound.instances (defines.of_functions (s.functions_leave held r))).leave held r⟩

end Sound

end Template

end Scriptlet
