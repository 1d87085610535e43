import Scriptlet.Proofs.OrderedMap
import Scriptlet.Proofs.Store.Names
import Scriptlet.Proofs.Store.Sharing
import Scriptlet.Proofs.Store.Templates

/-!
# What a template inherits

A template gains what base classes define, in their order: a variable is a copy of what the last
base that has it holds, and a function is that of the last base that has it (`inheritAll_cases`).
Nothing that was there before changes (`Adds`), so a base is looked up where the class is defined,
whatever the bases before it have brought.
-/

namespace Scriptlet

namespace Store

variable {s t u : Store} {r q T : ScopeRef} {name x : String} {v w : Value} {line : Line}

/-! ## Stores that keep what is there -/

/-- Whether a store has the collections and functions of another one, each as it is there. -/
structure Includes (s t : Store) : Prop extends s.Extends t where
  dictionaries : s.dictionaries.size ≤ t.dictionaries.size
  dictionary : ∀ d, d.index < s.dictionaries.size → t.dictionary d = s.dictionary d
  functions : s.functions.size ≤ t.functions.size
  function : ∀ f, f.index < s.functions.size → t.function f = s.function f

/-- Whether a store has all of another one, each as it is there. -/
structure Adds (s t : Store) : Prop extends s.Includes t where
  scopes : s.scopes.size ≤ t.scopes.size
  scope : ∀ r, r.index < s.scopes.size → t.scope r = s.scope r

namespace Includes

theorem refl (s : Store) : s.Includes s :=
  ⟨.refl s, Nat.le_refl _, fun _ _ => rfl, Nat.le_refl _, fun _ _ => rfl⟩

theorem trans (first : s.Includes t) (second : t.Includes u) : s.Includes u where
  toExtends := first.toExtends.trans second.toExtends
  dictionaries := Nat.le_trans first.dictionaries second.dictionaries
  dictionary d here := (second.dictionary d (Nat.lt_of_lt_of_le here first.dictionaries)).trans
    (first.dictionary d here)
  functions := Nat.le_trans first.functions second.functions
  function f here := (second.function f (Nat.lt_of_lt_of_le here first.functions)).trans
    (first.function f here)

theorem of_intact (intact : s.Intact t) : s.Includes t :=
  ⟨intact.toExtends, intact.dictionaries, intact.dictionary, Nat.le_of_eq
    (congrArg Array.size intact.functions).symm, fun f _ => by
      rw [Store.function, Store.function, intact.functions]⟩

theorem newFunction (s : Store) (f : Function) : s.Includes (s.newFunction f).2 := by
  have read (g : FunctionRef) : (s.newFunction f).2.function g = _ :=
    getD_push s.functions f default g.index
  refine ⟨⟨Nat.le_refl _, Nat.le_refl _, fun _ _ => rfl, fun _ _ => rfl⟩, Nat.le_refl _,
    fun _ _ => rfl, by simp [Store.newFunction], fun g here => ?_⟩
  rw [read, if_neg (Nat.ne_of_lt here)]
  rfl

/-- Scopes are neither collections nor functions. -/
theorem withScopes (s : Store) (scopes : Array Scope) : s.Includes { s with scopes } :=
  ⟨⟨Nat.le_refl _, Nat.le_refl _, fun _ _ => rfl, fun _ _ => rfl⟩, Nat.le_refl _, fun _ _ => rfl,
    Nat.le_refl _, fun _ _ => rfl⟩

theorem valid (includes : s.Includes t) (collected : w.isCollection = true) (valid : s.Valid w) :
    t.Valid w := by
  cases w with
  | list l => exact Nat.lt_of_lt_of_le valid includes.lists
  | array a => exact Nat.lt_of_lt_of_le valid includes.arrays
  | dictionary d => exact Nat.lt_of_lt_of_le valid includes.dictionaries
  | _ => cases collected

/-- A collection has its contents still. -/
theorem sameContents (includes : s.Includes t) (valid : w.isCollection = true → s.Valid w) :
    s.SameContents w t w := by
  cases w with
  | list l => exact (includes.list l (valid rfl)).symm
  | array a => exact (includes.array a (valid rfl)).symm
  | dictionary d => exact (includes.dictionary d (valid rfl)).symm
  | _ => rfl

end Includes

theorem SameContents.trans (first : s.SameContents v t w) (second : t.SameContents w u w) :
    s.SameContents v u w := by
  cases v <;> cases w <;> first
    | exact first
    | exact Eq.trans first second

namespace Adds

theorem trans (first : s.Adds t) (second : t.Adds u) : s.Adds u where
  toIncludes := first.toIncludes.trans second.toIncludes
  scopes := Nat.le_trans first.scopes second.scopes
  scope r here := (second.scope r (Nat.lt_of_lt_of_le here first.scopes)).trans
    (first.scope r here)

theorem of_intact (intact : s.Intact t) : s.Adds t :=
  ⟨.of_intact intact, Nat.le_of_eq (congrArg Array.size intact.scopes).symm, fun r _ => by
    rw [Store.scope, Store.scope, intact.scopes]⟩

theorem newScope (s : Store) (scope : Scope) : s.Adds (s.newScope scope).2 := by
  have read (r : ScopeRef) : (s.newScope scope).2.scope r = _ :=
    getD_push s.scopes scope default r.index
  refine ⟨.withScopes s _, by simp [Store.newScope], fun r here => ?_⟩
  rw [read, if_neg (Nat.ne_of_lt here)]
  rfl

/-- A scope that was not there may change. -/
theorem modifyScope (adds : s.Adds t) (new : s.scopes.size ≤ r.index) (change : Scope → Scope) :
    s.Adds (t.modifyScope r change) := by
  refine ⟨adds.toIncludes.trans (.withScopes t _), ?_, fun q here => ?_⟩
  · simp only [Store.modifyScope, Array.size_modify]
    exact adds.scopes
  · rcases t.scope_modifyScope_or r q change with same | ⟨rfl, -⟩
    · rw [same, adds.scope q here]
    · exact absurd new (Nat.not_le_of_lt here)

theorem newFunction (adds : s.Adds t) (f : Function) : s.Adds (t.newFunction f).2 :=
  ⟨adds.toIncludes.trans (.newFunction t f), adds.scopes, adds.scope⟩

/-! ### Lookups -/

theorem outward (adds : s.Adds t) (sound : s.Sound) (here : s.HasScope r) (fuel : Nat) :
    t.outward fuel r = s.outward fuel r := by
  induction fuel generalizing r with
  | zero => rfl
  | succ fuel ih =>
    rw [Store.outward, Store.outward, adds.scope r here]
    cases parent : (s.scope r).parent with
    | none => rfl
    | some p =>
      have older : p.index < r.index := (sound.scope r).parent p parent
      exact congrArg (r :: ·) (ih (Nat.lt_trans older here))

/-- The scopes around a scope are the same. -/
theorem chain (adds : s.Adds t) (sound : s.Sound) (here : s.HasScope r) :
    t.chain r = s.chain r := by
  rw [Store.chain, Store.chain, adds.outward sound here]
  exact sound.outward_eq (Nat.lt_of_lt_of_le here adds.scopes) here

theorem findScope? (adds : s.Adds t) (sound : s.Sound) (here : s.HasScope r) (name : String) :
    t.findScope? r name = s.findScope? r name := by
  have same : ∀ q ∈ s.chain r, (t.scope q).scopes.get? name = (s.scope q).scopes.get? name :=
    fun q member => by rw [adds.scope q (sound.mem_chain here member)]
  rw [Store.findScope?, Store.findScope?, adds.chain sound here]
  generalize s.chain r = chain at same
  induction chain with
  | nil => rfl
  | cons q rest ih =>
    rw [List.findSome?_cons, List.findSome?_cons, same q List.mem_cons_self,
      ih fun p member => same p (List.mem_cons_of_mem _ member)]

end Adds

/-- A scope that is found is one of the store. -/
theorem Sound.findScope? (sound : s.Sound) (h : s.findScope? r name = some q) : s.HasScope q := by
  obtain ⟨p, -, found⟩ := List.exists_of_findSome?_eq_some h
  exact ((sound.scope p).scopes _ (OrderedMap.mem_entries_of_get? found)).1

/-! ## Copies -/

/-- A value, with the store that it is found in. -/
structure Origin where
  store : Store
  value : Value

/-- Whether a value is a copy: of a collection, one with storage that was not there and the same
contents, and of anything else the value itself. -/
structure Origin.CopiedTo (o : Origin) (t : Store) (w : Value) : Prop where
  contents : o.store.SameContents o.value t w
  fresh : o.value.isCollection = true → o.store.Fresh w
  valid : w.isCollection = true → t.Valid w

theorem Fresh.of_includes (includes : s.Includes t) (fresh : t.Fresh w) : s.Fresh w := by
  cases w with
  | list l => exact Nat.le_trans includes.lists fresh
  | array x => exact Nat.le_trans includes.arrays fresh
  | dictionary d => exact Nat.le_trans includes.dictionaries fresh
  | _ => cases fresh

theorem Origin.CopiedTo.includes {o : Origin} (copied : o.CopiedTo t w) (includes : t.Includes u) :
    o.CopiedTo u w :=
  ⟨copied.contents.trans (includes.sameContents copied.valid), copied.fresh,
    fun collected => includes.valid collected (copied.valid collected)⟩

theorem duplicate_of_not_isCollection (plain : v.isCollection = false) :
    t.duplicate v = (v, t) := by
  cases v with
  | list _ | array _ | dictionary _ => cases plain
  | _ => rfl

theorem intact_duplicate (t : Store) (v : Value) : t.Intact (t.duplicate v).2 := by
  cases collected : v.isCollection with
  | true => exact (copies_duplicate t collected).intact
  | false =>
    rw [duplicate_of_not_isCollection collected]
    exact .refl t

/-- A duplicate of what a value is still is a copy of it. -/
theorem copiedTo_duplicate (includes : s.Includes t) (same : s.SameContents v t v) :
    Origin.CopiedTo ⟨s, v⟩ (t.duplicate v).2 (t.duplicate v).1 := by
  cases collected : v.isCollection with
  | true =>
    have copies := copies_duplicate t collected
    refine ⟨?_, fun _ => copies.fresh.of_includes includes, fun _ => copies.valid⟩
    have contents := copies.contents
    generalize (t.duplicate v).1 = w, (t.duplicate v).2 = u at contents
    cases v <;> cases w <;> first
      | exact contents
      | exact Eq.trans same contents
  | false =>
    rw [duplicate_of_not_isCollection collected]
    refine ⟨same, fun never => ?_, fun never => ?_⟩
    · cases collected.symm.trans never
    · cases collected.symm.trans never

/-! ## Functions -/

theorem defineFunction_eq (t : Store) (r : ScopeRef) (f : Function) :
    t.defineFunction r f = (t.newFunction f).2.modifyScope r fun scope =>
      { scope with functions := scope.functions.insert f.name ⟨t.functions.size⟩ } := by
  unfold Store.defineFunction addFunction
  dsimp only
  rw [function_newFunction]
  rfl

/-- The function that is defined. -/
theorem function_defineFunction (t : Store) (r : ScopeRef) (f : Function) :
    (t.defineFunction r f).function ⟨t.functions.size⟩ = f := by
  rw [defineFunction_eq]
  exact function_newFunction t f

/-! ## What a scope gains -/

/-- Whether a variable holds a copy of what it has been given, or what it held if it has been given
nothing. -/
def Receives (t u : Store) (r : ScopeRef) (x : String) : Option Origin → Prop
  | some o => ∃ w, u.variableAt? r x = some w ∧ o.CopiedTo u w
  | none => u.variableAt? r x = t.variableAt? r x

/-- What is given later replaces what has been given. -/
theorem Receives.trans {a b : Option Origin} (first : s.Receives t r x a)
    (second : t.Receives u r x b) (includes : t.Includes u) : s.Receives u r x (b.or a) := by
  cases b with
  | some o => exact second
  | none =>
    cases a with
    | none => exact Eq.trans second first
    | some o =>
      obtain ⟨w, holds, copied⟩ := first
      exact ⟨w, Eq.trans second holds, copied.includes includes⟩

/-- Whether a scope that a store does not have gains variables and functions from one store to
another one, which have all of that store. -/
structure Gains (s t u : Store) (T : ScopeRef) (vars : String → Option Origin)
    (functions : String → Option FunctionRef) : Prop where
  adds : s.Adds u
  includes : t.Includes u
  scopes : t.scopes.size ≤ u.scopes.size
  isClass : (u.scope T).isClass = (t.scope T).isClass
  vars : ∀ x, t.Receives u T x (vars x)
  functions : ∀ x, u.functionAt? T x = (functions x).or (t.functionAt? T x)

namespace Gains

variable {vars vars' : String → Option Origin} {functions functions' : String → Option FunctionRef}

theorem refl (adds : s.Adds t) (T : ScopeRef) :
    Gains s t t T (fun _ => none) fun _ => none :=
  ⟨adds, .refl t, Nat.le_refl _, rfl, fun _ => rfl, fun _ => rfl⟩

theorem congr (gains : Gains s t u T vars functions) (same : ∀ x, vars' x = vars x)
    (same' : ∀ x, functions' x = functions x) : Gains s t u T vars' functions' := by
  rwa [funext same, funext same']

theorem trans {a : Store} (first : Gains a s t T vars functions)
    (second : Gains a t u T vars' functions') :
    Gains a s u T (fun x => (vars' x).or (vars x)) fun x => (functions' x).or (functions x) where
  adds := second.adds
  includes := first.includes.trans second.includes
  scopes := Nat.le_trans first.scopes second.scopes
  isClass := second.isClass.trans first.isClass
  vars x := (first.vars x).trans (second.vars x) second.includes
  functions x := by rw [second.functions, first.functions, Option.or_assoc]

/-- What changes nothing that is there gives a scope nothing. -/
theorem of_adds (before : s.Adds t) (adds : t.Adds u) (here : t.HasScope T) :
    Gains s t u T (fun _ => none) fun _ => none where
  adds := before.trans adds
  includes := adds.toIncludes
  scopes := adds.scopes
  isClass := by rw [adds.scope T here]
  vars x := by rw [Receives, variableAt?, variableAt?, adds.scope T here]
  functions x := by rw [functionAt?, functionAt?, adds.scope T here]; rfl

/-- A variable is given a value. -/
theorem setVariable (adds : s.Adds t) (new : s.scopes.size ≤ T.index) (here : t.HasScope T)
    (name : String) {o : Origin} (copied : o.CopiedTo t w) :
    Gains s t (t.setVariable T name w) T (fun x => if x = name then some o else none)
      fun _ => none where
  adds := adds.modifyScope new _
  includes := .withScopes t _
  scopes := Nat.le_of_eq (Array.size_modify).symm
  isClass := keeps_modifyScope Scope.isClass fun _ => rfl
  vars x := by
    by_cases same : x = name
    · subst same
      rw [if_pos rfl]
      exact ⟨w, variableAt?_setVariable here, copied.includes (.withScopes t _)⟩
    · rw [if_neg same]
      exact (sameBut_setVariable t T name w).vars T x (.inr same)
  functions x := (sameBut_setVariable t T name w).function T x

/-- The functions of another scope. -/
theorem merge (adds : s.Adds t) (new : s.scopes.size ≤ T.index) (here : t.HasScope T)
    (other : OrderedMap String FunctionRef) :
    Gains s t (t.modifyScope T fun scope => { scope with functions := scope.functions.merge other })
      T (fun _ => none) other.get? where
  adds := adds.modifyScope new _
  includes := .withScopes t _
  scopes := Nat.le_of_eq (Array.size_modify).symm
  isClass := keeps_modifyScope Scope.isClass fun _ => rfl
  vars x := congrArg (OrderedMap.get? · x) (keeps_modifyScope Scope.vars fun _ => rfl)
  functions x := by
    rw [functionAt?, scope_modifyScope t T T _ here, if_pos rfl]
    exact OrderedMap.get?_merge _ _ x

/-- A function is defined. -/
theorem defineFunction (adds : s.Adds t) (new : s.scopes.size ≤ T.index) (here : t.HasScope T)
    (f : Function) :
    Gains s t (t.defineFunction T f) T (fun _ => none)
      fun x => if x = f.name then some ⟨t.functions.size⟩ else none := by
  rw [defineFunction_eq]
  refine ⟨(adds.newFunction f).modifyScope new _, (Includes.newFunction t f).trans (.withScopes _ _),
    Nat.le_of_eq (Array.size_modify).symm, ?_, fun x => ?_, fun x => ?_⟩
  · exact keeps_modifyScope (s := (t.newFunction f).2) Scope.isClass fun _ => rfl
  · exact congrArg (OrderedMap.get? · x)
      (keeps_modifyScope (s := (t.newFunction f).2) Scope.vars fun _ => rfl)
  · rw [functionAt?, scope_modifyScope (t.newFunction f).2 T T _ here, if_pos rfl]
    simp only [OrderedMap.get?_insert, Std.LawfulEqOrd.compare_eq_iff_eq]
    split <;> rfl

/-- A variable is given a duplicate. -/
theorem duplicate (adds : s.Adds t) (new : s.scopes.size ≤ T.index) (here : t.HasScope T)
    (name : String) {o : Origin} (includes : o.store.Includes t)
    (same : o.store.SameContents o.value t o.value) :
    Gains s t ((t.duplicate o.value).2.setVariable T name (t.duplicate o.value).1) T
      (fun x => if x = name then some o else none) fun _ => none := by
  have intact := intact_duplicate t o.value
  have made := of_adds adds (.of_intact intact) here
  have isIn : (t.duplicate o.value).2.HasScope T := by rwa [HasScope, intact.scopes]
  simpa using made.trans (setVariable made.adds new isIn name (copiedTo_duplicate includes same))

end Gains

/-! ## Inheritance -/

/-- The entry of a key is that of the first entry that has it, or of the entries after that. -/
theorem find_cons_of_ascending {e : String × Value} {rest : List (String × Value)}
    (first : ∀ a ∈ rest, compare e.1 a.1 = .lt) (x : String) :
    OrderedMap.find x (e :: rest) =
      (OrderedMap.find x rest).or (if x = e.1 then some e.2 else none) := by
  rw [OrderedMap.find]
  cases here : compare x e.1 with
  | lt =>
    have before : ∀ a ∈ rest, compare x a.1 = .lt := fun a member =>
      Std.TransCmp.lt_trans here (first a member)
    have other : x ≠ e.1 := fun same => by simp [same] at here
    rw [OrderedMap.find_of_lt before, if_neg other]
    rfl
  | eq =>
    obtain rfl := Std.LawfulEqOrd.eq_of_compare here
    rw [OrderedMap.find_of_lt first, if_pos rfl]
    rfl
  | gt =>
    have other : x ≠ e.1 := fun same => by simp [same] at here
    rw [if_neg other, Option.or_none]

/-- Copies of variables, given by their entries. -/
theorem gains_copyVariables (adds : s.Adds t) (new : s.scopes.size ≤ T.index) (here : t.HasScope T)
    {entries : List (String × Value)}
    (ascending : entries.Pairwise fun a b => compare a.1 b.1 = .lt)
    (valid : ∀ e ∈ entries, s.Valid e.2) :
    Gains s t (t.copyVariables T entries) T
      (fun x => (OrderedMap.find x entries).map (⟨s, ·⟩)) fun _ => none := by
  induction ascending generalizing t with
  | nil => exact .refl adds T
  | @cons e rest first _ ih =>
    have same : s.SameContents e.2 t e.2 :=
      adds.sameContents fun _ => valid e List.mem_cons_self
    have gains := Gains.duplicate (o := ⟨s, e.2⟩) adds new here e.1 adds.toIncludes same
    have isIn := Nat.lt_of_lt_of_le here gains.scopes
    have rest' := ih gains.adds isIn fun a member => valid a (List.mem_cons_of_mem _ member)
    refine (gains.trans rest').congr (fun x => ?_) fun _ => rfl
    rw [find_cons_of_ascending first]
    split <;> cases OrderedMap.find x rest <;> rfl

/-- What a base class defines. -/
theorem gains_inherit (sound : s.Sound) (adds : s.Adds t) (new : s.scopes.size ≤ T.index)
    (here : t.HasScope T) {base : ScopeRef} (old : s.HasScope base) :
    Gains s t (t.inherit T base) T (fun x => (s.variableAt? base x).map (⟨s, ·⟩))
      (s.functionAt? base) := by
  have copies := gains_copyVariables adds new here (s.scope base).vars.ascending
    fun e member => (sound.scope base).vars e member
  have isIn := Nat.lt_of_lt_of_le here copies.scopes
  have merges := Gains.merge copies.adds new isIn (s.scope base).functions
  rw [inherit, adds.scope base old]
  refine (copies.trans merges).congr (fun x => ?_) fun x => ?_
  · rw [Option.none_or]
    rfl
  · rw [Option.or_none]
    rfl

/-- The value of a variable of the last base that has it. -/
def inheritedVariable? (s : Store) (current : ScopeRef) (bases : List String) (x : String) :
    Option Value :=
  bases.reverse.findSome? fun name => (s.findScope? current name).bind (s.variableAt? · x)

/-- The function of the last base that has one of a name. -/
def inheritedFunction? (s : Store) (current : ScopeRef) (bases : List String) (x : String) :
    Option FunctionRef :=
  bases.reverse.findSome? fun name => (s.findScope? current name).bind (s.functionAt? · x)

/-- The first base that is not known. -/
def unknownBase? (s : Store) (current : ScopeRef) (bases : List String) : Option String :=
  bases.find? fun name => (s.findScope? current name).isNone

/-- What base classes define, if all of them are known; else the first one that is not is named. -/
theorem inheritAll_cases (sound : s.Sound) (adds : s.Adds t) (new : s.scopes.size ≤ T.index)
    (here : t.HasScope T) {current : ScopeRef} (around : s.HasScope current) (line : Line)
    (bases : List String) :
    (∃ name, s.unknownBase? current bases = some name ∧
      t.inheritAll current T line bases = .error (.unknownClass name line)) ∨
    ∃ u, s.unknownBase? current bases = none ∧ t.inheritAll current T line bases = .ok u ∧
      Gains s t u T (fun x => (s.inheritedVariable? current bases x).map (⟨s, ·⟩))
        (s.inheritedFunction? current bases) := by
  induction bases generalizing t with
  | nil => exact .inr ⟨t, rfl, rfl, .refl adds T⟩
  | cons name rest ih =>
    rw [inheritAll, adds.findScope? sound around]
    cases found : s.findScope? current name with
    | none => exact .inl ⟨name, by simp [unknownBase?, found], rfl⟩
    | some base =>
      have unknown : s.unknownBase? current (name :: rest) = s.unknownBase? current rest := by
        simp [unknownBase?, found]
      have first := gains_inherit sound adds new here (sound.findScope? found)
      rw [unknown]
      rcases ih first.adds (Nat.lt_of_lt_of_le here first.scopes) with fails | ⟨u, known, ok, rest'⟩
      · exact .inl fails
      · refine .inr ⟨u, known, ok, (first.trans rest').congr (fun x => ?_) fun x => ?_⟩
        · simp [inheritedVariable?, found, Option.map_or]
        · simp [inheritedFunction?, found]

end Store

end Scriptlet
