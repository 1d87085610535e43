import Scriptlet.Proofs.Evaluation.Definitions
import Scriptlet.Proofs.Evaluation.Lineage
import Scriptlet.Proofs.Evaluation.Sharing
import Scriptlet.Proofs.Evaluation.Templates
import Scriptlet.Proofs.Store.Inheritance

/-!
# Definitions of classes

The definition of a class fills a template first, from the bases in their order and then from the
body, and registers the class at the end. If it fails on the way, the current scope has the
functions and classes that it had; otherwise the class and its constructor are new ones. A body that
only defines variables and functions replaces what the template inherits under their names
(`Evaluator.class_mergesOrFails`).
-/

namespace Scriptlet

open Store (Origin)

variable {setting : Setting} {m n k j : Machine} {log : FileLog} {name : String}
  {bases : List String} {body : List Stmt} {line : Line} {s t : Store} {T : ScopeRef}

/-! ## The body -/

/-- The parameters and the body of a function of a name, if a statement defines one. -/
def Stmt.definition? (x : String) : Stmt → Option (List String × List Stmt)
  | .function y parameters body _ => if x = y then some (parameters, body) else none
  | _ => none

/-- The last function of a name that statements define. -/
def lastDefinition? (body : List Stmt) (x : String) : Option (List String × List Stmt) :=
  body.reverse.findSome? (Stmt.definition? x)

/-- Whether evaluation goes on in a template that a store does not have. -/
structure Machine.InTemplate (s : Store) (m : Machine) : Prop where
  adds : s.Adds m.store
  new : s.scopes.size ≤ m.current.index
  here : m.store.HasScope m.current
  ofClass : (m.store.scope m.current).isClass = true

/-- A template that gains something still is one. -/
theorem Machine.InTemplate.next {vars : String → Option Origin}
    {functions : String → Option FunctionRef} (inside : m.InTemplate s)
    (gains : Store.Gains s m.store j.store m.current vars functions)
    (same : j.current = m.current) : j.InTemplate s where
  adds := gains.adds
  new := by rw [same]; exact inside.new
  here := by rw [same]; exact Nat.lt_of_lt_of_le inside.here gains.scopes
  ofClass := by rw [same]; exact gains.isClass.trans inside.ofClass

namespace Evaluator

/-- Statements that are executed one after another and only define variables and functions: what
gives a variable its first value changes nothing that is there. Of each variable the value is
recorded, with the store that it was found in, before it was copied into the variable. -/
inductive Declares (setting : Setting) : Machine → Value → FileLog → List Stmt →
    List (String × Origin) → Machine → Prop where
  | nil {m : Machine} {u : Value} : Declares setting m u [] [] [] m
  | var {m k j n : Machine} {u v w : Value} {l₁ l₂ : FileLog} {fuel : Nat} {x : String}
      {e : Expr} {line : Line} {rest : List Stmt} {declared : List (String × Origin)} :
      ((eval fuel e).resolved e.line).Exits (setting.hold [u]) m l₁ (.ok v) k →
      m.store.Adds k.store → k.current = m.current →
      Executes (setting.hold [u]) m l₁ (.define x e line) (.ok (.normal w)) j →
      Declares setting j w l₂ rest declared n →
        Declares setting m u (l₁ ++ l₂) (.define x e line :: rest)
          ((x, ⟨k.store, v⟩) :: declared) n
  | bare {m j n : Machine} {u w : Value} {log : FileLog} {x : String} {line : Line}
      {rest : List Stmt} {declared : List (String × Origin)} :
      Executes (setting.hold [u]) m [] (.expr (.define x line)) (.ok (.normal w)) j →
      Declares setting j w log rest declared n →
        Declares setting m u log (.expr (.define x line) :: rest)
          ((x, ⟨m.store, .null⟩) :: declared) n
  | function {m j n : Machine} {u w : Value} {log : FileLog} {x : String}
      {parameters : List String} {statements rest : List Stmt} {line : Line}
      {declared : List (String × Origin)} :
      Executes (setting.hold [u]) m [] (.function x parameters statements line)
        (.ok (.normal w)) j →
      Declares setting j w log rest declared n →
        Declares setting m u log (.function x parameters statements line :: rest) declared n

/-! ## What single definitions do -/

theorem executes_variable {x : String} {e : Expr} {fuel : Nat} {v : Value}
    (evaluates : ((eval fuel e).resolved e.line).Exits setting m log (.ok v) k)
    (stays : k.current = m.current) (line : Line) :
    Executes setting m log (.define x e line) (.ok (.normal (k.store.duplicate v).1))
      { k with store :=
        (k.store.duplicate v).2.setVariable m.current x (k.store.duplicate v).1 } := by
  refine ⟨fuel + 1, ?_⟩
  rw [exec, ← List.append_nil log, ← stays]
  exact .bind evaluates (.bind_nil .value (.bind_nil .value .value))

theorem executes_bare (setting : Setting) (m : Machine) (x : String) (line : Line) :
    Executes setting m [] (.expr (.define x line)) (.ok (.normal .null))
      { m with store := m.store.setVariable m.current x .null } := by
  refine ⟨2, ?_⟩
  rw [exec, eval]
  exact .bind_nil (.bind_nil .value .value) .value

theorem executes_function (setting : Setting) (m : Machine) (x : String)
    (parameters : List String) (statements : List Stmt) (line : Line) :
    Executes setting m [] (.function x parameters statements line) (.ok (.normal .null))
      { m with
        store := m.store.defineFunction m.current
          ⟨x, if (m.store.scope m.current).isClass then .method else .free, parameters,
            .script statements, some m.current⟩ } := by
  refine ⟨1, ?_⟩
  rw [exec]
  exact .bind_nil .value .value

/-! ## What a body gives the template -/

/-- Whether functions are the methods that statements define last under their names. -/
def Methods (body : List Stmt) (T : ScopeRef) (s : Store)
    (functions : String → Option FunctionRef) : Prop :=
  ∀ x, match lastDefinition? body x with
    | some (parameters, statements) => ∃ f, functions x = some f ∧ f.index < s.functions.size ∧
        s.function f = ⟨x, .method, parameters, .script statements, some T⟩
    | none => functions x = none

/-- Whether the current scope, which a store does not have, gains what a body defines. -/
def Fills (s : Store) (m : Machine) (body : List Stmt) (declared : List (String × Origin))
    (n : Machine) : Prop :=
  n.current = m.current ∧ ∃ functions,
    Store.Gains s m.store n.store m.current (declared.reverse.lookup ·) functions ∧
      Methods body m.current n.store functions

theorem lastDefinition?_cons (st : Stmt) (rest : List Stmt) (x : String) :
    lastDefinition? (st :: rest) x = (lastDefinition? rest x).or (st.definition? x) := by
  simp [lastDefinition?, List.findSome?_append]

theorem lookup_reverse_cons (x : String) (o : Origin) (declared : List (String × Origin))
    (y : String) : ((x, o) :: declared).reverse.lookup y =
      (declared.reverse.lookup y).or (if y = x then some o else none) := by
  rw [List.reverse_cons, List.lookup_append]
  by_cases same : y = x
  · simp [same]
  · simp [same, List.lookup_cons, beq_false_of_ne same]

/-- A body that begins with a variable. -/
theorem Fills.var {x : String} {o : Origin} {st : Stmt} {declared : List (String × Origin)}
    (rest : Fills s j body declared n)
    (first : Store.Gains s m.store j.store m.current (fun y => if y = x then some o else none)
      fun _ => none)
    (same : j.current = m.current) (plain : ∀ y, st.definition? y = none) :
    Fills s m (st :: body) ((x, o) :: declared) n := by
  obtain ⟨current, functions, gains, methods⟩ := rest
  rw [same] at gains methods
  refine ⟨current.trans same, functions, (first.trans gains).congr (fun y => ?_) fun y => ?_,
    fun y => ?_⟩
  · exact lookup_reverse_cons x o declared y
  · exact (Option.or_none).symm
  · rw [lastDefinition?_cons, plain, Option.or_none]
    exact methods y

/-- A body that begins with a function. -/
theorem Fills.function {x : String} {parameters : List String} {statements : List Stmt}
    {declared : List (String × Origin)} (rest : Fills s j body declared n)
    (inside : m.InTemplate s)
    (defined : j.store = m.store.defineFunction m.current
      ⟨x, .method, parameters, .script statements, some m.current⟩)
    (same : j.current = m.current) (line : Line) :
    Fills s m (.function x parameters statements line :: body) declared n := by
  obtain ⟨current, functions, gains, methods⟩ := rest
  rw [same] at gains methods
  have first := Store.Gains.defineFunction inside.adds inside.new inside.here
    ⟨x, .method, parameters, .script statements, some m.current⟩
  rw [← defined] at first
  have isIn : m.store.functions.size < j.store.functions.size := by
    simp [defined, Store.defineFunction_eq, Store.newFunction, Store.modifyScope]
  refine ⟨current.trans same, _, (first.trans gains).congr (fun y => ?_) fun y => rfl,
    fun y => ?_⟩
  · exact (Option.or_none).symm
  · have later := methods y
    rw [lastDefinition?_cons]
    cases last : lastDefinition? body y with
    | some definition =>
      rw [last] at later
      obtain ⟨f, found, bound, record⟩ := later
      exact ⟨f, by rw [found]; rfl, bound, record⟩
    | none =>
      rw [last] at later
      by_cases named : y = x
      · subst named
        have record : n.store.function ⟨m.store.functions.size⟩ = _ :=
          gains.includes.function _ isIn
        rw [defined, Store.function_defineFunction] at record
        simp only [Stmt.definition?, if_true, Option.none_or, later]
        exact ⟨_, rfl, Nat.lt_of_lt_of_le isIn gains.includes.functions, record⟩
      · simp [Stmt.definition?, named, later]

/-- A body that only defines variables and functions. -/
theorem Declares.fills {u : Value} {declared : List (String × Origin)}
    (declares : Declares setting m u log body declared n) (inside : m.InTemplate s) :
    Fills s m body declared n := by
  induction declares with
  | nil => exact ⟨rfl, _, .refl inside.adds _, fun x => rfl⟩
  | @var m k j n u v w l₁ l₂ fuel x e line rest declared evaluates quiet stays executes _ ih =>
    obtain ⟨-, rfl⟩ := executes.determined (executes_variable evaluates stays line)
    have quietly := Store.Gains.of_adds inside.adds quiet inside.here
    have isIn : k.store.HasScope m.current := Nat.lt_of_lt_of_le inside.here quietly.scopes
    have gives := Store.Gains.duplicate (o := ⟨k.store, v⟩) quietly.adds inside.new isIn x (.refl _)
      (Store.sameContents_refl _ _)
    have first := (quietly.trans gives).congr (fun y => (Option.or_none).symm) fun y => rfl
    exact .var (ih (inside.next first stays)) first stays fun y => rfl
  | @bare m j n u w log x line rest declared executes _ ih =>
    obtain ⟨-, rfl⟩ := executes.determined (executes_bare _ m x line)
    have first := Store.Gains.setVariable (o := ⟨m.store, .null⟩) inside.adds inside.new
      inside.here x ⟨rfl, nofun, nofun⟩
    exact .var (ih (inside.next first rfl)) first rfl fun y => rfl
  | @function m j n u w log x parameters statements rest line declared executes _ ih =>
    obtain ⟨-, rfl⟩ := executes.determined
      (executes_function _ m x parameters statements line)
    simp only [inside.ofClass, if_true] at ih ⊢
    have first := Store.Gains.defineFunction inside.adds inside.new inside.here
      ⟨x, .method, parameters, .script statements, some m.current⟩
    exact .function (ih (inside.next first rfl)) inside rfl rfl line

/-- The statements of such a body are executed one after another. -/
theorem Declares.runs {u : Value} {declared : List (String × Origin)}
    (declares : Declares setting m u log body declared n) :
    ∃ fuel v, (sequence fuel u body).Exits setting m log (.ok (.normal v)) n := by
  have step {m j n : Machine} {u w : Value} {l₁ l₂ : FileLog} {st : Stmt} {rest : List Stmt}
      (first : Executes (setting.hold [u]) m l₁ st (.ok (.normal w)) j)
      (later : ∃ fuel v, (sequence fuel w rest).Exits setting j l₂ (.ok (.normal v)) n) :
      ∃ fuel v, (sequence fuel u (st :: rest)).Exits setting m (l₁ ++ l₂) (.ok (.normal v)) n := by
    obtain ⟨a, first⟩ := first
    obtain ⟨b, v, later⟩ := later
    refine ⟨max a b + 1, v, ?_⟩
    rw [sequence]
    exact .bind (x := Eval.holding [u] (exec (max a b) st))
      ((endsIn (Nat.le_max_left a b)).exec st first)
      ((endsIn (Nat.le_max_right a b)).sequence w rest later)
  induction declares with
  | nil => exact ⟨1, _, by rw [sequence]; exact .value⟩
  | var _ _ _ executes _ ih => exact step executes ih
  | bare executes _ ih => exact step executes ih
  | function executes _ ih => exact step executes ih

/-- A statement that defines a variable or a function and, for a variable that has a value, changes
nothing that is there to compute it. -/
inductive Defines : Stmt → Prop where
  | var {x : String} {e : Expr} {line : Line} (quiet : Quiet e) : Defines (.define x e line)
  | bare {x : String} {line : Line} : Defines (.expr (.define x line))
  | function {x : String} {parameters : List String} {statements : List Stmt} {line : Line} :
      Defines (.function x parameters statements line)

/-- What a variable is given has been evaluated before. -/
theorem exists_of_exits_variable {fuel : Nat} {x : String} {e : Expr} {line : Line} {flow : Flow}
    (ends : (exec fuel (.define x e line)).Exits setting m log (.ok flow) n) :
    ∃ fuel v k w, ((eval fuel e).resolved e.line).Exits setting m log (.ok v) k ∧
      flow = .normal w := by
  cases fuel with
  | zero =>
    rw [exec] at ends
    cases ends
  | succ fuel =>
    rw [exec] at ends
    obtain ⟨l, _, v, k, rfl, evaluates, ends⟩ := Eval.exists_of_exits_bind_ok ends
    have sets : _ = [] ∧ Except.ok flow = .ok (.normal (k.store.duplicate v).1) ∧ _ :=
      Outcome.exits_value_iff.1 ends
    obtain ⟨rfl, normal, -⟩ := sets
    exact ⟨fuel, v, k, _, by simpa using evaluates, Except.ok.inj normal⟩

/-- A body of definitions that does not fail does nothing but define. -/
theorem exists_declares {fuel : Nat} {u : Value} {flow : Flow}
    (defines : ∀ st ∈ body, Defines st)
    (runs : (sequence fuel u body).Exits setting m log (.ok flow) n) :
    ∃ declared, Declares setting m u log body declared n := by
  induction body generalizing fuel setting m log u with
  | nil =>
    cases fuel with
    | zero =>
      rw [sequence] at runs
      cases runs
    | succ fuel =>
      rw [sequence] at runs
      obtain ⟨rfl, -, rfl⟩ := Eval.exits_pure_iff.1 runs
      exact ⟨[], .nil⟩
  | cons st rest ih =>
    cases fuel with
    | zero =>
      rw [sequence] at runs
      cases runs
    | succ fuel =>
      rw [sequence] at runs
      obtain ⟨l₁, l₂, ended, j, rfl, first, later⟩ := Eval.exists_of_exits_bind_ok runs
      have first : (exec fuel st).Exits (setting.hold [u]) m l₁ (.ok ended) j := first
      have rest' {w : Value} (normal : ended = .normal w) :
          ∃ declared, Declares setting j w l₂ rest declared n := by
        subst normal
        exact ih (fun st member => defines st (List.mem_cons_of_mem _ member)) later
      cases defines st List.mem_cons_self with
      | var quiet =>
        obtain ⟨_, v, k, w, evaluates, rfl⟩ := exists_of_exits_variable first
        obtain ⟨declared, declares⟩ := rest' rfl
        obtain ⟨intact, stays⟩ := quiet evaluates
        exact ⟨_, .var evaluates (.of_intact intact) stays ⟨_, first⟩ declares⟩
      | bare =>
        obtain ⟨rfl, ⟨⟩, -⟩ := (executes_bare _ m _ _).determined_of_nil ⟨_, first⟩
        obtain ⟨declared, declares⟩ := rest' rfl
        exact ⟨_, .bare ⟨_, first⟩ declares⟩
      | function =>
        obtain ⟨rfl, ⟨⟩, -⟩ := (executes_function _ m _ _ _ _).determined_of_nil ⟨_, first⟩
        obtain ⟨declared, declares⟩ := rest' rfl
        exact ⟨_, .function ⟨_, first⟩ declares⟩

end Evaluator

/-! ## Definitions step by step -/

/-- The template has what the bases define, unless one of them is not known. -/
theorem Machine.Placed.inClass_cases (placed : m.Placed) (name : String) (bases : List String)
    (line : Line) :
    (∃ B, m.store.unknownBase? m.current bases = some B ∧
      m.inClass name bases line = .error (.unknownClass B line)) ∨
    ∃ k, m.store.unknownBase? m.current bases = none ∧ m.inClass name bases line = .ok k ∧
      k.current = ⟨m.store.scopes.size⟩ ∧ k.InTemplate m.store ∧
      Store.Gains m.store (m.store.child m.current name true).2 k.store ⟨m.store.scopes.size⟩
        (fun x => (m.store.inheritedVariable? m.current bases x).map (⟨m.store, ·⟩))
        (m.store.inheritedFunction? m.current bases) := by
  have adds : m.store.Adds (m.store.child m.current name true).2 := .newScope m.store _
  have here := m.store.hasScope_newScope (.new name (some m.current) true)
  rcases Store.inheritAll_cases placed.store adds (Nat.le_refl _) here placed.current line bases
    with ⟨B, unknown, fails⟩ | ⟨t, known, inherits, gains⟩
  · refine .inl ⟨B, unknown, ?_⟩
    exact congrArg (Except.map _) fails
  · have ofClass := congrArg Scope.isClass (m.store.scope_child m.current name true)
    refine .inr ⟨_, known, congrArg (Except.map _) inherits, rfl, ?_, gains⟩
    exact ⟨gains.adds, Nat.le_refl _, Nat.lt_of_lt_of_le here gains.scopes,
      gains.isClass.trans ofClass⟩

namespace Evaluator

variable {fuel : Nat} {r : Except RuntimeError Flow} {scripts : Prop}

/-- With a base that is not known, the definition of a class fails. -/
theorem executes_classDef_error {e : RuntimeError}
    (fails : m.inClass name bases line = .error e) :
    ∃ n, Executes setting m [] (.classDef name bases body line) (.error e) n := by
  have failed : (Eval.attempt fun s =>
      (s.inheritAll m.current ⟨m.store.scopes.size⟩ line bases).map ((), ·)).Exits setting
        { m with store := (m.store.child m.current name true).2 } [] (.error e) _ :=
    .attempt_error (congrArg (Except.map _) (map_eq_error_iff.1 fails))
  refine ⟨{ m with store := (m.store.child m.current name true).2 }, 1, ?_⟩
  rw [exec]
  exact .bind_nil .value (.bind_nil .value (.bind_error failed))

/-- With bases that are known, the definition of a class ends as its body does. -/
theorem executes_classDef {result : Except RuntimeError Flow}
    (begun : m.inClass name bases line = .ok k)
    (runs : (sequence fuel .null body).Exits (setting.hold [.object m.current]) k log result j) :
    ∃ n, Executes setting m log (.classDef name bases body line)
      (result.map fun _ => .normal .null) n := by
  obtain ⟨t, inherits, rfl⟩ := map_eq_ok_iff.1 begun
  have inherited : (Eval.attempt fun s =>
      (s.inheritAll m.current ⟨m.store.scopes.size⟩ line bases).map ((), ·)).Exits setting
        { m with store := (m.store.child m.current name true).2 } [] (.ok ())
        { m with store := t } :=
    .attempt (congrArg (Except.map _) inherits)
  have inside : (Eval.within ⟨m.store.scopes.size⟩ Flow.values (sequence fuel .null body)).Exits
      setting { m with store := t } log result _ :=
    Outcome.exits_finish_iff.2 ⟨j, runs, rfl⟩
  -- what follows the bases
  let following : Eval Flow := do
    let _ ← Eval.within ⟨m.store.scopes.size⟩ Flow.values (sequence fuel .null body)
    Eval.changeHere fun s current => s.defineClass current name ⟨m.store.scopes.size⟩
    return .normal .null
  have ends : ∃ n, following.Exits setting { m with store := t } log
      (result.map fun _ => .normal .null) n := by
    cases result with
    | error e => exact ⟨_, .bind_error inside⟩
    | ok flow =>
      rw [← List.append_nil log]
      exact ⟨_, .bind inside (.bind_nil .value .value)⟩
  obtain ⟨n, ends⟩ := ends
  refine ⟨n, fuel + 1, ?_⟩
  rw [exec]
  exact .bind_nil .value (.bind_nil .value (.bind_nil inherited ends))

end Evaluator

/-! ## What a definition leaves -/

/-- Whether the scope in which evaluation goes on has the functions and the classes that it had. -/
structure Machine.KeepsRegistry (m n : Machine) : Prop where
  current : n.current = m.current
  functions : (n.store.scope m.current).functions = (m.store.scope m.current).functions
  classes : (n.store.scope m.current).scopes = (m.store.scope m.current).scopes

/-- Whether the scope in which evaluation goes on also has a class and its constructor. -/
structure Machine.Registers (m : Machine) (name : String) (T : ScopeRef) (n : Machine) : Prop where
  current : n.current = m.current
  classes : (n.store.scope m.current).scopes = (m.store.scope m.current).scopes.insert name T
  constructor : ∃ f, n.store.function f = ⟨name, .constructor, [], .construct T, none⟩ ∧
    (n.store.scope m.current).functions = (m.store.scope m.current).functions.insert name f

namespace Store

/-- Whether a variable holds a copy of a value, or does not exist if there is no value. -/
def HoldsCopy (t : Store) (T : ScopeRef) (x : String) : Option Origin → Prop
  | some o => ∃ w, t.variableAt? T x = some w ∧ o.CopiedTo t w
  | none => t.variableAt? T x = none

/-- Whether a template has what bases and a body define: of each name, what the body defines last,
or else what the last base that has the name defines. -/
structure Merges (s : Store) (current : ScopeRef) (bases : List String) (body : List Stmt)
    (declared : List (String × Origin)) (t : Store) (T : ScopeRef) : Prop where
  includes : s.Includes t
  vars : ∀ x, t.HoldsCopy T x
    ((declared.reverse.lookup x).or ((s.inheritedVariable? current bases x).map (⟨s, ·⟩)))
  methods : ∀ x, match lastDefinition? body x with
    | some (parameters, statements) => ∃ f, t.functionAt? T x = some f ∧
        t.function f = ⟨x, .method, parameters, .script statements, some T⟩
    | none => t.functionAt? T x = s.inheritedFunction? current bases x

theorem functions_defineFunction (here : s.HasScope T) (f : Function) :
    ((s.defineFunction T f).scope T).functions =
      (s.scope T).functions.insert f.name ⟨s.functions.size⟩ := by
  rw [defineFunction_eq, scope_modifyScope (s.newFunction f).2 T T _ here, if_pos rfl]
  rfl

end Store

namespace Machine

/-- What keeps all definitions keeps those of the current scope. -/
theorem KeepsRegistry.of_kept (here : m.store.HasScope m.current)
    (kept : m.store.KeepsDefinitions n.store) (current : n.current = m.current) :
    m.KeepsRegistry n :=
  ⟨current, kept.functions _ here, kept.scopes _ here⟩

/-- A class that is registered where nothing has changed yet. -/
theorem KeepsRegistry.registers (keeps : m.KeepsRegistry n) (here : n.store.HasScope m.current)
    (name : String) (T : ScopeRef) :
    m.Registers name T { n with store := n.store.defineClass n.current name T } := by
  have added : (n.store.addScope m.current name T).HasScope m.current := by
    simpa [Store.addScope, Store.modifyScope, Store.HasScope] using here
  have functions : ((n.store.addScope m.current name T).scope m.current).functions = _ :=
    (Store.keeps_modifyScope Scope.functions fun _ => rfl).trans keeps.functions
  rw [keeps.current]
  refine ⟨rfl, ?_, ⟨n.store.functions.size⟩, ?_, ?_⟩
  · exact (Store.scopes_defineClass here name T).trans (by rw [keeps.classes])
  · exact Store.function_defineFunction (n.store.addScope m.current name T) _ _
  · exact (Store.functions_defineFunction added _).trans (by rw [functions]; rfl)

/-- A new template is no change of what was there. -/
theorem keepsDefinitions_opened (m : Machine) (name : String) :
    m.store.KeepsDefinitions (m.store.child m.current name true).2 :=
  ((Store.KeepsDefinitions.refl m.store).newScope rfl).1

theorem beyond_inClass (begun : m.inClass name bases line = .ok k) : k.Beyond m.store := by
  obtain ⟨t, inherits, rfl⟩ := map_eq_ok_iff.1 begun
  have opened := keepsDefinitions_opened m name
  exact ⟨opened.inheritAll (Nat.le_refl _) inherits, Nat.le_refl _⟩

end Machine

namespace Store

variable {r : ScopeRef} {vars : String → Option Origin} {functions : String → Option FunctionRef}

theorem Includes.defineClass (t : Store) (r : ScopeRef) (name : String) (T : ScopeRef) :
    t.Includes (t.defineClass r name T) := by
  have registers : t.Includes (t.addScope r name T) := .withScopes t _
  rw [Store.defineClass, defineFunction_eq]
  exact (registers.trans (.newFunction _ _)).trans (.withScopes _ _)

/-- Other scopes than the one in which a class is registered are as they were. -/
theorem scope_defineClass (other : T ≠ r) (t : Store) (name : String) (C : ScopeRef) :
    (t.defineClass r name C).scope T = t.scope T := by
  have same (u : Store) (change : Scope → Scope) : (u.modifyScope r change).scope T = u.scope T :=
    keeps_modifyScope id fun same => absurd same.symm other
  rw [Store.defineClass, defineFunction_eq, same]
  exact same t _

/-- A new template that gains what the bases and the body define, once it is registered. -/
theorem Gains.merges {declared : List (String × Origin)} (here : s.HasScope r)
    (gains : Gains s (s.child r name true).2 t ⟨s.scopes.size⟩
      (fun x => (declared.reverse.lookup x).or ((s.inheritedVariable? r bases x).map (⟨s, ·⟩)))
      fun x => (functions x).or (s.inheritedFunction? r bases x))
    (methods : Evaluator.Methods body ⟨s.scopes.size⟩ t functions) :
    s.Merges r bases body declared (t.defineClass r name ⟨s.scopes.size⟩) ⟨s.scopes.size⟩ := by
  have other : (⟨s.scopes.size⟩ : ScopeRef) ≠ r := by
    rintro rfl
    exact Nat.lt_irrefl _ here
  have registered := scope_defineClass other t name ⟨s.scopes.size⟩
  have included := Includes.defineClass t r name ⟨s.scopes.size⟩
  have empty : (s.child r name true).2.scope ⟨s.scopes.size⟩ = .new name (some r) true :=
    s.scope_child r name true
  refine ⟨gains.adds.toIncludes.trans included, fun x => ?_, fun x => ?_⟩
  · have receives := gains.vars x
    generalize Option.or _ _ = given at receives
    cases given with
    | none =>
      rw [Receives, variableAt?, variableAt?, empty] at receives
      rw [HoldsCopy, variableAt?, registered]
      exact receives
    | some o =>
      obtain ⟨w, holds, copied⟩ := receives
      refine ⟨w, ?_, copied.includes included⟩
      rw [variableAt?, registered]
      exact holds
  · have defines := methods x
    have fresh : (s.child r name true).2.functionAt? ⟨s.scopes.size⟩ x = none := by
      rw [functionAt?, empty]
      rfl
    have found : (t.defineClass r name ⟨s.scopes.size⟩).functionAt? ⟨s.scopes.size⟩ x =
        (functions x).or (s.inheritedFunction? r bases x) := by
      rw [functionAt?, registered, ← functionAt?, gains.functions, fresh, Option.or_none]
    rw [found]
    cases last : lastDefinition? body x with
    | none =>
      rw [last] at defines
      rw [defines, Option.none_or]
    | some definition =>
      rw [last] at defines
      obtain ⟨f, defined, bound, record⟩ := defines
      exact ⟨f, by rw [defined, Option.some_or], (included.function f bound).trans record⟩

end Store

namespace Evaluator

variable {fuel : Nat} {r : Except RuntimeError Flow} {scripts : Prop} {e : RuntimeError}

/-- What runs in the template keeps the definitions around it. -/
theorem kept_of_sequence {result : Except RuntimeError Flow} (orderly : setting.Orderly scripts)
    (beyond : k.Beyond s) (runs : (sequence fuel .null body).Exits setting k log result j) :
    s.KeepsDefinitions j.store := by
  obtain ⟨left, stopped⟩ := Outcome.Reaches.of_exits
    ((staysBeyond s scripts fuel).sequence .null body setting k orderly beyond) runs
  cases result with
  | ok flow => exact (left flow rfl).kept
  | error e => exact (stopped e rfl).kept

theorem sequence_determined {a b : Nat} {result result' : Except RuntimeError Flow} {u : Value}
    (first : (sequence a u body).Exits setting m log result n)
    (second : (sequence b u body).Exits setting m log result' k) : result = result' ∧ n = k := by
  have same : log ++ [] = log ++ [] := rfl
  exact (exits_determined (fun le => (endsIn le).sequence u body) first second same).2

/-- The definition of a class fails where a base is not known, or where the body fails as that
does. -/
theorem classDef_fails_iff (placed : m.Placed) :
    (∃ n, Executes setting m log (.classDef name bases body line) (.error e) n) ↔
      (∃ B, m.store.unknownBase? m.current bases = some B ∧ e = .unknownClass B line ∧ log = []) ∨
      ∃ k j fuel, m.inClass name bases line = .ok k ∧
        (sequence fuel .null body).Exits (setting.hold [.object m.current]) k log (.error e) j := by
  constructor
  · rintro ⟨n, _, ends⟩
    rcases classDef_cases ends with ⟨_, fails, ⟨⟩, rfl, -⟩ | ⟨k, a, _, j, _, begun, runs, ended⟩
    · rcases placed.inClass_cases name bases line with ⟨B, unknown, named⟩ | ⟨k, _, begun, _⟩
      · cases fails.symm.trans named
        exact .inl ⟨B, unknown, rfl, rfl⟩
      · cases fails.symm.trans begun
    · obtain ⟨_, rfl, ⟨⟩, -⟩ | ⟨_, _, never, -⟩ := ended
      · exact .inr ⟨k, j, a, begun, runs⟩
      · cases never
  · rintro (⟨B, unknown, rfl, rfl⟩ | ⟨k, j, _, begun, runs⟩)
    · rcases placed.inClass_cases name bases line with ⟨C, first, fails⟩ | ⟨_, known, _⟩
      · cases unknown.symm.trans first
        exact executes_classDef_error fails
      · cases unknown.symm.trans known
    · exact executes_classDef begun runs

/-- A class that is not registered leaves what was registered; one that is replaces what had its
name. -/
theorem classDef_registers (placed : m.Placed) (orderly : setting.Orderly scripts)
    (executes : Executes setting m log (.classDef name bases body line) r n) :
    (∃ e, r = .error e ∧ m.KeepsRegistry n) ∨
      r = .ok (.normal .null) ∧ m.Registers name ⟨m.store.scopes.size⟩ n := by
  obtain ⟨_, ends⟩ := executes
  have here := placed.current
  rcases classDef_cases ends with ⟨e, -, rfl, -, rfl⟩ | ⟨k, fuel, _, j, held, begun, runs, ended⟩
  · exact .inl ⟨e, rfl, .of_kept here (Machine.keepsDefinitions_opened m name) rfl⟩
  · have orderly : (setting.hold [.object m.current]).Orderly scripts := orderly
    have kept := kept_of_sequence orderly (Machine.beyond_inClass begun) runs
    have closed := Machine.kept_close (m := { j with current := m.current }) kept (Nat.le_refl _)
      (r := ⟨m.store.scopes.size⟩) held
    have keeps := Machine.KeepsRegistry.of_kept here closed (Machine.scopes_close _ held _).2
    rcases ended with ⟨e, -, rfl, rfl⟩ | ⟨flow, -, rfl, rfl⟩
    · exact .inl ⟨e, rfl, keeps⟩
    · exact .inr ⟨rfl, keeps.registers (Nat.lt_of_lt_of_le here closed.size) name _⟩

/-- A body that only defines variables and functions does not fail, and adds them to what the bases
define. -/
theorem classDef_merges {declared : List (String × Origin)} (placed : m.Placed)
    (begun : m.inClass name bases line = .ok k)
    (declares : Declares (setting.hold [.object m.current]) k .null log body declared j) :
    ∃ n, Executes setting m log (.classDef name bases body line) (.ok (.normal .null)) n ∧
      m.store.Merges m.current bases body declared n.store ⟨m.store.scopes.size⟩ := by
  obtain ⟨_, v, runs⟩ := declares.runs
  obtain ⟨n, fuel, ends⟩ := executes_classDef begun runs
  refine ⟨n, ⟨fuel, ends⟩, ?_⟩
  obtain ⟨_, _, never, -⟩ | ⟨_, _, _, i, _, begun', runs', ended⟩ := classDef_cases ends
  · cases never
  cases begun.symm.trans begun'
  obtain ⟨rfl, rfl⟩ := sequence_determined runs runs'
  obtain ⟨_, _, fails⟩ | ⟨_, _, begun', current, inside, inherits⟩ :=
    placed.inClass_cases name bases line
  · cases begun.symm.trans fails
  cases begun.symm.trans begun'
  obtain ⟨-, functions, fills, methods⟩ := declares.fills inside
  have left := fills.isClass.trans inside.ofClass
  rw [current] at fills methods left
  obtain ⟨_, never, -⟩ | ⟨flow, -, -, rfl⟩ := ended
  · cases never
  rw [Machine.close_of_class { j with current := m.current } _ left]
  exact (inherits.trans fills).merges placed.current methods

/-- The definition of a class merges or fails. It fails where a base is not known or where the body
fails, and nothing else than a failure keeps it from being registered, with its constructor, in the
scope where it is defined; when it fails, that scope has what was registered before. A body that
only defines variables and functions does not fail: of each name, the template has what the body
defines last, or else what the last base that has the name defines.

The host has to be orderly, since the body may call it: a script that it runs and that fails goes
back to the global scope, and a host that went on there could replace the class or define others
around it. -/
theorem class_mergesOrFails (placed : m.Placed) (orderly : setting.Orderly scripts) :
    (∀ e, (∃ n, Executes setting m log (.classDef name bases body line) (.error e) n) ↔
      (∃ B, m.store.unknownBase? m.current bases = some B ∧ e = .unknownClass B line ∧ log = []) ∨
      ∃ k j fuel, m.inClass name bases line = .ok k ∧
        (sequence fuel .null body).Exits (setting.hold [.object m.current]) k log (.error e) j) ∧
    (∀ r n, Executes setting m log (.classDef name bases body line) r n →
      (∃ e, r = .error e ∧ m.KeepsRegistry n) ∨
      r = .ok (.normal .null) ∧ m.Registers name ⟨m.store.scopes.size⟩ n) ∧
    ∀ k declared j, m.inClass name bases line = .ok k →
      Declares (setting.hold [.object m.current]) k .null log body declared j →
      ∃ n, Executes setting m log (.classDef name bases body line) (.ok (.normal .null)) n ∧
        m.store.Merges m.current bases body declared n.store ⟨m.store.scopes.size⟩ := by
  refine ⟨fun e => ?_, fun r n executes => ?_, fun k declared j begun declares => ?_⟩
  · exact classDef_fails_iff placed
  · exact classDef_registers placed orderly executes
  · exact classDef_merges placed begun declares

/-- A class with two variables and a method. -/
def animalClass : Stmt := .classDef "Animal" [] [
  .define "legs" (.constant (.int 4) 1) 1,
  .define "tags" (.list [.constant (.int 1) 1] 1) 1,
  .function "speak" [] [.ret (some (.constant (.string "...") 1)) 1] 1] 1

/-- A class with a variable that the other one has too. -/
def namedClass : Stmt := .classDef "Named" [] [
  .define "tags" (.list [.constant (.int 2) 2] 2) 2,
  .define "name" (.constant (.string "rex") 2) 2] 2

/-- A body that replaces a variable and a method. -/
def dogBody : List Stmt := [
  .define "legs" (.constant (.int 3) 3) 3,
  .function "speak" [] [.ret (some (.constant (.string "woof") 3)) 3] 3]

/-- A class that has both as bases. -/
def dogClass : Stmt := .classDef "Dog" ["Animal", "Named"] dogBody 3

/-- A class with a base that is not known. -/
def catClass : Stmt := .classDef "Animal" ["Named", "Missing"] [] 4

/-- A host function that runs its argument as a script, and fails where that fails. -/
def load : Host.Code := fun call =>
  match call.argument 0 with
  | .string source => .runScript source fun
    | .ok v => .value v
    | .error e => .error (.nativeFailure "load" e.message call.line)
  | v => .value v

/-- The setting with that host function. -/
def loading : Setting := ⟨#[load], ".", []⟩

/-- A new machine with that host function. -/
def loader : Machine :=
  { Machine.new with
    store := Machine.new.store.defineFunction ⟨0⟩ ⟨"load", .free, [], .host .plain ⟨0⟩, none⟩ }

/-- A class with a variable that a script of the host gives. -/
def wolfClass : Stmt := .classDef "Wolf" ["Named"] [
  .define "pups" (.call "load" [.constant (.string "6 * 7;") 4] (.ofName "load") 4) 4] 4

/-- A class with a body that fails in a script of the host. -/
def lostClass : Stmt := .classDef "Animal" [] [
  .expr (.call "load" [.constant (.string "nosuch();") 5] (.ofName "load") 5)] 5

theorem defines_dogBody : ∀ st ∈ dogBody, Defines st := by
  intro st member
  rcases List.mem_pair.1 member with rfl | rfl
  · exact .var (quiet_constant _ _)
  · exact .function

theorem placed_loader : loader.Placed := by
  have new := Machine.sound_new.placed
  have defines := new.store.defineFunction ⟨0⟩
    (f := ⟨"load", .free, [], .host .plain ⟨0⟩, none⟩) ⟨nofun, nofun⟩
  exact ⟨defines.sound, new.global.grows defines.toGrows, new.current.grows defines.toGrows⟩

theorem orderly_loading : loading.Orderly True := by
  intro code member call
  obtain rfl := List.mem_singleton.1 (Array.mem_toList_iff.2 member)
  unfold load
  split
  · exact ⟨trivial, fun _ => trivial, fun e => ⟨_, rfl⟩⟩
  · exact trivial

/-- A class takes its list from the base that comes last and replaces a variable of the other one.
Another one takes a variable from a script that the host runs. And where a base is not known, or a
script of the host fails, a class of the same name stays. -/
theorem class_mergesOrFails_animals : ∃ (m n w k l : Machine) (declared : List (String × Origin)),
    Executes loading m [] dogClass (.ok (.normal .null)) n ∧ m.Registers "Dog" ⟨3⟩ n ∧
      m.store.Merges m.current ["Animal", "Named"] dogBody declared n.store ⟨3⟩ ∧
      n.store.variableAt? ⟨3⟩ "legs" = some (.int 3) ∧
      n.store.variableAt? ⟨3⟩ "tags" = some (.list ⟨5⟩) ∧ n.store.list ⟨5⟩ = [.int 2] ∧
      Executes loading m [] wolfClass (.ok (.normal .null)) w ∧ m.Registers "Wolf" ⟨3⟩ w ∧
      w.store.variableAt? ⟨3⟩ "pups" = some (.int 42) ∧
      Executes loading m [] catClass (.error (.unknownClass "Missing" 4)) k ∧
      (k.store.scope m.current).scopes.get? "Animal" = some ⟨1⟩ ∧
      (∃ e, Executes loading m [] lostClass (.error e) l) ∧
      (l.store.scope m.current).scopes.get? "Animal" = some ⟨1⟩ := by
  have evaluated : ((exec 40 animalClass ⟨#[], ".", []⟩ loader).value?.bind fun a =>
      (exec 40 namedClass ⟨#[], ".", []⟩ a.2).value?.bind fun b =>
        (exec 40 dogClass loading b.2).value?.bind fun c =>
          (exec 40 wolfClass loading b.2).value?.bind fun d =>
            (exec 40 lostClass loading b.2).error?.map fun _ => decide (
              b.2.store.scopes.size = 3 ∧
              b.2.store.unknownBase? b.2.current ["Named", "Missing"] = some "Missing" ∧
              (b.2.store.scope b.2.current).scopes.get? "Animal" = some ⟨1⟩ ∧
              c.2.store.variableAt? ⟨3⟩ "legs" = some (.int 3) ∧
              c.2.store.variableAt? ⟨3⟩ "tags" = some (.list ⟨5⟩) ∧
              c.2.store.list ⟨5⟩ = [.int 2] ∧
              d.2.store.variableAt? ⟨3⟩ "pups" = some (.int 42))) = some true := by
    decide +kernel
  obtain ⟨a, first, evaluated⟩ := Option.bind_eq_some_iff.1 evaluated
  obtain ⟨b, second, evaluated⟩ := Option.bind_eq_some_iff.1 evaluated
  obtain ⟨c, third, evaluated⟩ := Option.bind_eq_some_iff.1 evaluated
  obtain ⟨d, fourth, evaluated⟩ := Option.bind_eq_some_iff.1 evaluated
  obtain ⟨e, fifth, evaluated⟩ := Option.map_eq_some_iff.1 evaluated
  obtain ⟨size, unknown, former, legs, tags, two, pups⟩ := of_decide_eq_true evaluated
  have exits {setting : Setting} {st : Stmt} {m : Machine} {p : Flow × Machine}
      (ends : (exec 40 st setting m).value? = some p) :
      (exec 40 st).Exits setting m [] (.ok p.1) p.2 :=
    Outcome.exits_of_value? ends
  have placed : b.2.Placed :=
    (follows_exec rfl (follows_exec rfl placed_loader (exits first)).1.placed
      (exits second)).1.placed
  have registers {name : String} {bases : List String} {body : List Stmt} {line : Line}
      {r : Except RuntimeError Flow} {n : Machine}
      (executes : Executes loading b.2 [] (.classDef name bases body line) r n) :
      (∃ e, r = .error e ∧ b.2.KeepsRegistry n) ∨
        r = .ok (.normal .null) ∧ b.2.Registers name ⟨b.2.store.scopes.size⟩ n := by
    obtain ⟨-, registers, -⟩ : _ ∧
        (∀ r n, Executes loading b.2 [] (.classDef name bases body line) r n → _) ∧ _ :=
      class_mergesOrFails placed orderly_loading
    exact registers r n executes
  -- the body does nothing but define
  obtain ⟨_, _, never, -⟩ | ⟨x, _, _, j, _, begun, runs, ended⟩ := classDef_cases (exits third)
  · cases never
  obtain ⟨_, _, never, -⟩ | ⟨flow, rfl, -, -⟩ := ended
  · cases never
  obtain ⟨declared, declares⟩ := exists_declares defines_dogBody runs
  obtain ⟨fails, -, -⟩ :
      (∀ e, (∃ k, Executes loading b.2 [] catClass (.error e) k) ↔ _) ∧ _ ∧ _ :=
    class_mergesOrFails placed orderly_loading
  obtain ⟨-, -, merges⟩ : _ ∧ (∀ r n, Executes loading b.2 [] dogClass r n → _) ∧ _ :=
    class_mergesOrFails placed orderly_loading
  obtain ⟨n, executes, merged⟩ := merges x declared j begun declares
  obtain ⟨-, rfl⟩ := executes.determined ⟨40, exits third⟩
  have wolfs : Executes loading b.2 [] wolfClass (.ok d.1) d.2 := ⟨40, exits fourth⟩
  obtain ⟨k, failed⟩ := (fails _).2 (.inl ⟨"Missing", unknown, rfl, rfl⟩)
  have lost : Executes loading b.2 [] lostClass (.error e.1) e.2 :=
    ⟨40, Outcome.exits_of_error? fifth⟩
  obtain ⟨_, never, -⟩ | ⟨-, dog⟩ := registers executes
  · cases never
  obtain ⟨_, never, -⟩ | ⟨normal, wolf⟩ := registers wolfs
  · cases never
  obtain ⟨_, -, kept⟩ | ⟨never, -⟩ := registers failed
  case inr => cases never
  obtain ⟨_, -, left⟩ | ⟨never, -⟩ := registers lost
  case inr => cases never
  rw [size] at dog wolf merged
  exact ⟨b.2, c.2, d.2, k, e.2, declared, executes, dog, merged, legs, tags, two,
    normal ▸ wolfs, wolf, pups, failed, by rw [kept.classes, former], ⟨_, lost⟩,
    by rw [left.classes, former]⟩

end Evaluator

end Scriptlet
