import Scriptlet.Proofs.Evaluation.Lineage
import Scriptlet.Proofs.Evaluation.Run

/-!
# Methods that are called without an instance

A method of an instance calls other methods by their names alone, also in its blocks, branches and
loops and in the functions that it defines, whenever these are called. The instance is not passed
on: it is found again as the nearest class scope (`Evaluator.callParent`). All these calls run on
the instance that the first method was called on, whose members they read and set
(`State.ActsFor.runsOn`). The exception is a function that is called as the member of an instance;
that runs on this instance, wherever it was defined.
-/

namespace Scriptlet

namespace Store

variable {s : Store} {r p q : ScopeRef} {name : String} {v : Value}

/-- Whether a scope belongs to no class. -/
def Plain (s : Store) (r : ScopeRef) : Prop := (s.scope r).isClass = false

/-- The scopes from a scope outward as far as they belong to no class. -/
def locals (s : Store) (r : ScopeRef) : List ScopeRef :=
  (s.chain r).takeWhile fun q => !(s.scope q).isClass

theorem hasFunction_of_method {f : FunctionRef} (isMethod : (s.function f).kind = .method) :
    s.HasFunction f :=
  hasFunction_of_ne fun same => by rw [same] at isMethod; cases isMethod

/-- The chain of a scope, up to the nearest class scope and from there. -/
theorem Climbs.chain_locals (sound : s.Sound) (climbs : s.Climbs s.Plain r p)
    (here : s.HasScope p) (ofClass : (s.scope p).isClass = true) :
    s.chain r = s.locals r ++ s.chain p := by
  obtain ⟨inner, chain, plain⟩ := climbs.chain sound
  have passes (q : ScopeRef) (member : q ∈ inner) : (!(s.scope q).isClass) = true := by
    rw [plain q member]
    rfl
  have same : s.locals r = inner := by
    rw [locals, chain, List.takeWhile_append_of_pos passes, sound.chain_eq here]
    simp [ofClass]
  rw [same]
  exact chain

theorem Climbs.nearestClassScope? (sound : s.Sound) (climbs : s.Climbs s.Plain r p)
    (here : s.HasScope p) (ofClass : (s.scope p).isClass = true) :
    s.nearestClassScope? r = some p := by
  obtain ⟨inner, chain, plain⟩ := climbs.chain sound
  have none : inner.find? (fun q => (s.scope q).isClass) = none := by
    refine List.find?_eq_none.2 fun q member => ?_
    rw [plain q member]
    decide
  rw [Store.nearestClassScope?, chain, List.find?_append, none, sound.chain_eq here]
  simp [ofClass]

/-- A name that nothing before the nearest class scope has, is read there. -/
theorem findValue?_of_locals (sound : s.Sound) (chain : s.chain r = s.locals r ++ s.chain p)
    (here : s.HasScope p) (free : ∀ q ∈ s.locals r, s.valueAt? q name = none)
    (found : s.variableAt? p name = some v) : s.findValue? r name = some v := by
  have none : (s.locals r).findSome? (s.valueAt? · name) = none := List.findSome?_eq_none_iff.2 free
  have has : s.valueAt? p name = some v := by rw [valueAt?, found]
  rw [Store.findValue?, chain, List.findSome?_append, none, sound.chain_eq here]
  simp [has]

/-- A variable that nothing before the nearest class scope has, is found there. -/
theorem findVariableScope?_of_locals (sound : s.Sound)
    (chain : s.chain r = s.locals r ++ s.chain p) (here : s.HasScope p)
    (free : ∀ q ∈ s.locals r, s.variableAt? q name = none)
    (found : s.variableAt? p name = some v) : s.findVariableScope? r name = some p := by
  have none : (s.locals r).find? (fun q => (s.variableAt? q name).isSome) = none :=
    List.find?_eq_none.2 fun q member => by simp [free q member]
  rw [Store.findVariableScope?, chain, List.find?_append, none, sound.chain_eq here]
  simp [found]

/-- Whether the way outward from a scope comes to an instance before any other class scope, and from
there, past no other class scope, to the global scope. -/
structure Serves (s : Store) (global p r : ScopeRef) : Prop where
  ofClass : (s.scope p).isClass = true
  way : s.Climbs s.Plain r p
  home : s.Climbs (fun q => (s.scope q).isClass = true → q = p) p global
  plain : s.Plain global
  outermost : (s.scope global).parent = none

namespace Serves

variable {t : Store} {global : ScopeRef}

theorem here (serves : s.Serves global p r) : s.HasScope p := serves.home.hasScope

/-- The instance serves itself. -/
theorem atInstance (serves : s.Serves global p r) : s.Serves global p p :=
  { serves with way := .here serves.here }

theorem nearest (serves : s.Serves global p r) (sound : s.Sound) :
    s.nearestClassScope? r = some p :=
  serves.way.nearestClassScope? sound serves.here serves.ofClass

theorem chain (serves : s.Serves global p r) (sound : s.Sound) :
    s.chain r = s.locals r ++ s.chain p :=
  serves.way.chain_locals sound serves.here serves.ofClass

/-- The instance is the only one on the chain. -/
theorem only (serves : s.Serves global p r) (sound : s.Sound) (member : q ∈ s.chain r)
    (isClass : (s.scope q).isClass = true) : q = p := by
  obtain ⟨inner, chain, plain⟩ := serves.way.chain sound
  obtain ⟨outer, beyond, others⟩ := serves.home.chain sound
  have last : s.chain global = [global] := by
    rw [sound.chain_eq serves.home.hasScope_end, serves.outermost]
    rfl
  rw [chain, beyond, last] at member
  rcases List.mem_append.1 member with inside | outside
  · rw [plain q inside] at isClass
    cases isClass
  · rcases List.mem_append.1 outside with between | final
    · exact others q between isClass
    · rw [List.mem_singleton.1 final, serves.plain] at isClass
      cases isClass

/-- What lasts of the way to the instance when a store changes into another one. -/
theorem grows (serves : s.Serves global p r) (grows : s.Grows t)
    (way : (∀ q, s.HasScope q → s.Plain q → t.Plain q) → t.Climbs t.Plain r p)
    (home : (∀ q, s.HasScope q → ((s.scope q).isClass = true → q = p) →
      (t.scope q).isClass = true → q = p) →
        t.Climbs (fun q => (t.scope q).isClass = true → q = p) p global)
    (outermost : (t.scope global).parent = none) : t.Serves global p r where
  ofClass := (grows.scope p serves.here).2.trans serves.ofClass
  way := way fun q isIn plain => (grows.scope q isIn).2.trans plain
  home := home fun q isIn only isClass => only ((grows.scope q isIn).2.symm.trans isClass)
  plain := (grows.scope global serves.home.hasScope_end).2.trans serves.plain
  outermost := outermost

theorem continues (serves : s.Serves global p r) (continues : s.Continues t) :
    t.Serves global p r :=
  serves.grows continues.toGrows (serves.way.continues continues) (serves.home.continues continues)
    ((continues.parent global serves.home.hasScope_end).trans serves.outermost)

/-- A scope in which something still stands. -/
theorem loosens (serves : s.Serves global p r) (loosens : s.Loosens t) (occupied : s.Occupied t r) :
    t.Serves global p r := by
  refine serves.grows loosens.toGrows (fun imp => (serves.way.loosens loosens imp occupied).1)
    (fun imp => ?_) ?_
  · have reached : s.Occupied t p :=
      (serves.way.loosens loosens (fun _ _ plain => plain) occupied).2
    exact (serves.home.loosens loosens imp reached).1
  · rcases loosens.parent global serves.home.hasScope_end with same | ⟨none, -, -⟩
    · exact same.trans serves.outermost
    · exact none

end Serves

/-- Whether evaluation on behalf of an instance may be in a scope. -/
structure WorksFor (s : Store) (global p r : ScopeRef) : Prop extends s.Serves global p r where
  inner : s.Plain r

theorem WorksFor.continues {t : Store} {global : ScopeRef} (inside : s.WorksFor global p r)
    (continues : s.Continues t) : t.WorksFor global p r where
  toServes := inside.toServes.continues continues
  inner := (continues.toGrows.scope r inside.way.hasScope).2.trans inside.inner

/-- A scope that is opened where names are looked up on behalf of an instance. -/
theorem Opens.worksFor {global : ScopeRef} {opened : ScopeRef × Store} (opens : s.Opens r opened)
    (serves : s.Serves global p r) : opened.2.WorksFor global p opened.1 := by
  have before := serves.continues opens.becomes.grows
  exact { before with
    way := .out opens.here opens.ofClass opens.parent before.way
    inner := opens.ofClass }

end Store

/-- Evaluations that go on alike wherever the first one ends, end alike. -/
theorem Eval.exits_bind_congr {α β : Type} {x : Eval α} {f g : α → Eval β} {setting : Setting}
    {m n : Machine} {log : FileLog} {r : Except RuntimeError β}
    (same : ∀ l a k, x.Exits setting m l (.ok a) k → f a setting k = g a setting k) :
    (x >>= f).Exits setting m log r n ↔ (x >>= g).Exits setting m log r n := by
  have turn {f g : α → Eval β}
      (same : ∀ l a k, x.Exits setting m l (.ok a) k → f a setting k = g a setting k)
      (ends : (x >>= f).Exits setting m log r n) : (x >>= g).Exits setting m log r n := by
    rcases exists_of_exits_bind ends with ⟨e, rfl, fails⟩ | ⟨l₁, l₂, a, k, rfl, first, last⟩
    · exact .bind_error fails
    · rw [Eval.Exits, same l₁ a k first] at last
      exact .bind first last
  exact ⟨turn same, turn fun l a k first => (same l a k first).symm⟩

namespace Machine

/-- Whether a scope is a class scope in the global scope, as the member storage of an instance of a
class that is declared there is. -/
structure TopLevel (m : Machine) (p : ScopeRef) : Prop where
  ofClass : (m.store.scope p).isClass = true
  parent : (m.store.scope p).parent = some m.global
  plain : m.store.Plain m.global
  outermost : (m.store.scope m.global).parent = none

instance (m : Machine) (p : ScopeRef) : Decidable (m.TopLevel p) :=
  decidable_of_iff ((m.store.scope p).isClass = true ∧ (m.store.scope p).parent = some m.global ∧
    (m.store.scope m.global).isClass = false ∧ (m.store.scope m.global).parent = none)
    ⟨fun ⟨ofClass, parent, plain, outermost⟩ => ⟨ofClass, parent, plain, outermost⟩,
      fun top => ⟨top.ofClass, top.parent, top.plain, top.outermost⟩⟩

/-- Whether what is evaluated on a machine runs on an instance. -/
structure RunsOn (m : Machine) (p : ScopeRef) : Prop where
  /-- The instance is the only one around. -/
  only : ∀ q ∈ m.store.chain m.current, (m.store.scope q).isClass = true → q = p
  /-- A call of a method by its name alone runs on the instance. -/
  calls : ∀ {name : String} {f : FunctionRef} {statements : List Stmt},
    m.store.findFunction? m.current name = some f → (m.store.function f).kind = .method →
    (m.store.function f).body = .script statements → ∀ {setting : Setting}, setting.hosts = #[] →
    ∀ (fuel : Nat) (operands : List Expr) (line : Line) {log : FileLog}
      {r : Except RuntimeError Value} {n : Machine},
      (Evaluator.call (fuel + 1) name operands line).Exits setting m log r n ↔
        (do let values ← Eval.holding [.function f] (Evaluator.arguments fuel operands)
            Eval.holding [.function f] (Evaluator.invoke fuel f values (some p) line)).Exits
          setting m log r n
  /-- A member that no local name hides is read from the instance. -/
  reads : ∀ {name : String} {v : Value},
    (∀ q ∈ m.store.locals m.current, m.store.valueAt? q name = none) →
    m.store.variableAt? p name = some v → ∀ (fuel : Nat) (line : Line) (setting : Setting),
      Evaluator.eval (fuel + 1) (.named name line) setting m = .value v m
  /-- A member that no local variable hides is assigned to on the instance. -/
  assigns : ∀ {name : String} {v : Value},
    (∀ q ∈ m.store.locals m.current, m.store.variableAt? q name = none) →
    m.store.variableAt? p name = some v →
    ∀ (fuel : Nat) (line line' : Line) (setting : Setting),
      Evaluator.place (fuel + 1) (.named name line) line' setting m = .value (.named p name) m

end Machine

/-! ## Calls by name -/

section

variable {m : Machine} {p : ScopeRef}

theorem Machine.TopLevel.serves (top : m.TopLevel p) (placed : m.Placed)
    (here : m.store.HasScope p) : m.store.Serves m.global p p where
  ofClass := top.ofClass
  way := .here here
  home := .out here (fun _ => rfl) top.parent (.here placed.global)
  plain := top.plain
  outermost := top.outermost

theorem callParent_method {s : Store} {f : Function} {r : ScopeRef} (isMethod : f.kind = .method)
    (nearest : s.nearestClassScope? r = some p) : Evaluator.callParent f none s r = p := by
  simp [Evaluator.callParent, isMethod, nearest]

theorem callParent_environment {s : Store} {f : Function} {r e : ScopeRef}
    (isFree : f.kind = .free) (environment : f.environment = some e) :
    Evaluator.callParent f none s r = e := by
  simp [Evaluator.callParent, isFree, environment]

/-- A method that is called without an instance runs where it would run on the nearest one. -/
theorem invoke_of_nearest {f : FunctionRef} {statements : List Stmt}
    (isMethod : (m.store.function f).kind = .method)
    (isScript : (m.store.function f).body = .script statements)
    (nearest : m.store.nearestClassScope? m.current = some p) (fuel : Nat) (values : List Value)
    (line : Line) (setting : Setting) :
    Evaluator.invoke fuel f values none line setting m =
      Evaluator.invoke fuel f values (some p) line setting m := by
  cases fuel with
  | zero => rw [Evaluator.invoke, Evaluator.invoke]
  | succ fuel =>
    have same : Evaluator.callScope m (m.store.function f) none values =
        Evaluator.callScope m (m.store.function f) (some p) values := by
      unfold Evaluator.callScope
      rw [callParent_method isMethod nearest]
      rfl
    rw [Evaluator.invoke_script isScript, Evaluator.invoke_script isScript, same]

/-- A call of a function by its name. -/
theorem call_eq {name : String} {f : FunctionRef}
    (found : m.store.findFunction? m.current name = some f) (fuel : Nat) (operands : List Expr)
    (line : Line) (setting : Setting) :
    Evaluator.call (fuel + 1) name operands line setting m =
      (do let values ← Eval.holding [.function f] (Evaluator.arguments fuel operands)
          Eval.holding [.function f] (Evaluator.invoke fuel f values none line)) setting m := by
  rw [Evaluator.call]
  dsimp only [Bind.bind, Eval.look, Outcome.andThen]
  rw [found]
  rfl

/-- Where an instance is found again, methods that are called without one run on it, and names that
are bound nowhere before are its members. -/
theorem Store.Serves.runs {global : ScopeRef} (serves : m.store.Serves global p m.current)
    (placed : m.Placed) : m.RunsOn p := by
  have store := placed.store
  refine ⟨fun q member => serves.only store member, ?_, ?_, ?_⟩
  · intro name f statements found isMethod isScript setting hosts fuel operands line log r n
    rw [Eval.Exits, call_eq found]
    refine Eval.exits_bind_congr fun l values k ends => ?_
    -- the arguments leave everything as it is that the call depends on
    have follows := (Evaluator.follows_arguments
      (show (setting.hold [.function f]).hosts = #[] from hosts) placed ends).1
    have same := follows.continues.same f (Store.hasFunction_of_method isMethod)
    have later := serves.continues follows.continues
    rw [← follows.current] at later
    exact invoke_of_nearest ((congrArg Function.kind same).trans isMethod)
      ((congrArg Function.body same).trans isScript) (later.nearest follows.placed.store) fuel values
      line _
  · intro name v free found fuel line setting
    have reads := Store.findValue?_of_locals store (serves.chain store) serves.here free found
    rw [Evaluator.eval]
    show Outcome.value ((m.store.findValue? m.current name).getD .null) m = _
    rw [reads]
    rfl
  · intro name v free found fuel line line' setting
    have finds :=
      Store.findVariableScope?_of_locals store (serves.chain store) serves.here free found
    rw [Evaluator.place]
    show Outcome.value
      (Place.named ((m.store.findVariableScope? m.current name).getD m.current) name) m = _
    rw [finds]
    rfl

end

/-! ## As a discipline -/

/-- The discipline of evaluation on behalf of an instance, which goes into no calls and defines no
classes. -/
def service (p g : ScopeRef) : Discipline where
  toValidity := Store.lineage
  Extends := Store.Continues
  Known := Store.HasScope
  Current s r := s.WorksFor g p r
  Opened s name c r := s.HasNamed name c r ∧ s.WorksFor g p r
  Writable s r _ := s.HasScope r
  Running m := m.Placed ∧ m.store.WorksFor g p m.current
  Suits setting _ := setting.hosts = #[]
  line _ := True
  imports := True
  Parent s r := s.Serves g p r
  MayCall _ _ _ _ := False
  MayDeclare _ := False

variable {p g : ScopeRef}

/-- Evaluation on behalf of an instance opens no class scope. -/
theorem not_opened {s : Store} {name : String} {r : ScopeRef} {P : Prop}
    (opened : s.HasNamed name true r ∧ s.WorksFor g p r) : P := by
  have plain := opened.2.inner
  rw [Store.Plain, opened.1.ofClass] at plain
  cases plain

theorem service_lawful (p g : ScopeRef) : (service p g).Lawful where
  toLawful := Store.lineage_lawful
  extends_of_grows continues := continues
  extends_trans := Store.Continues.trans
  valid_extends continues valid := Store.Valid.grows continues.toGrows valid
  known_extends continues here := here.grows continues.toGrows
  current_extends _ continues inside := inside.continues continues
  opened_extends _ continues opened :=
    ⟨opened.1.grows continues.toGrows, opened.2.continues continues⟩
  writable_extends continues here := here.grows continues.toGrows
  suits_extends _ none := none
  known_of_current inside := inside.way.hasScope
  parent_of_current inside := inside.toServes
  known_of_writable here := here
  known_of_valid valid := valid.1
  current_of_opened opened := opened.2
  writable_of_current inside _ := inside.way.hasScope
  writable_of_found sound inside found :=
    Store.Sound.findVariableScope? sound inside.way.hasScope found
  parent_callParent _ _ _ never := never.elim
  setVariable sound _ valid := Store.Sound.continues_setVariable sound _ _ valid
  child {s r} sound serves name c may := by
    have opens := Store.Sound.opens_child sound serves.way.hasScope name
    have scope := s.scope_child r name c
    cases c with
    | true => exact (may rfl).elim
    | false =>
      exact ⟨opens.becomes, ⟨opens.here, by rw [scope]; rfl, by rw [scope]; rfl⟩,
        opens.worksFor serves⟩
  instantiate sound body name := lineage_lawful.instantiate sound body name
  defineFunction sound inside _ name kind parameters :=
    lineage_lawful.defineFunction sound inside.way.hasScope (fun st _ => soundness_admits st) name
      kind parameters
  inherit _ opened _ := not_opened opened
  defineClass _ _ opened := not_opened opened
  body _ _ st _ := soundness_admits st
  imported _ st := soundness_admits st
  sound running := running.1.store
  current running := running.2
  put running becomes :=
    ⟨running.1.put becomes.sound becomes.grows.toGrows, running.2.continues becomes.grows⟩
  print running _ := ⟨⟨running.1.store, running.1.global, running.1.current⟩, running.2⟩
  enter running opened := ⟨running.1.enter opened.1.here, opened.2⟩
  hold none _ := none
  leave {s setting n o name r held} sound inside continues fresh running none opened usable := by
    obtain ⟨placed, later, keeps⟩ := lineage_lawful.leave sound inside.way.hasScope continues fresh
      running.1 none opened.1 usable
    refine ⟨⟨placed, ?_⟩, later, keeps⟩
    rw [(Machine.scopes_close { n with current := o } _ r).2]
    exact inside.continues later
  leaveTemplate _ _ _ opened _ := not_opened opened
  hosts none sound registered valid names := lineage_lawful.hosts none sound registered valid names

/-! ## On behalf of an instance -/

/-- Whether evaluation that goes into a point stays where it is: the point is no call of a function
that is written in a script and no definition of a class. -/
def Point.Stays (x : Point) : Prop :=
  match x.work with
  | .invoke f _ _ _ => (x.machine.store.function f).body.isScript = false
  | .exec (.classDef _ _ _ _) => False
  | _ => True

namespace State

/-- The states of an evaluation that are on behalf of an instance: in the body of a method that is
called on it; from there in whatever is evaluated but calls and definitions of classes, which
are evaluated as a whole; in the body of a method that is called without an instance; and, at any
time later, in the body of a function that was defined in one of these states, when it is called
without an instance. -/
inductive ActsFor (source : String) (setting : Setting) (m : Machine) (p : ScopeRef) :
    State (.run source) → Prop
  | method {σ ρ τ : State (.run source)} {log : FileLog} {f : FunctionRef} {values : List Value}
      {line : Line} {around : Setting} {n : Machine} {y : Point} :
      (start (.run source) setting m).Leads log σ →
      σ.Enters ⟨.invoke f values (some p) line, around, n⟩ ρ → n.TopLevel p →
      (n.store.function f).body.isScript = true → ρ.Enters y τ → ActsFor source setting m p τ
  | enters {σ τ : State (.run source)} {x : Point} : ActsFor source setting m p σ →
      σ.Enters x τ → x.Stays → ActsFor source setting m p τ
  | answers {σ τ : State (.run source)} {asked : FileRequest × FileAnswer} :
      ActsFor source setting m p σ → σ.Step [asked] τ → ActsFor source setting m p τ
  | passes {σ τ : State (.run source)} {x : Point} {log : FileLog}
      {r : Except RuntimeError x.work.Result} {n : Machine} : ActsFor source setting m p σ →
      σ.Passes x log r n τ → ActsFor source setting m p τ
  | unqualified {σ ρ τ : State (.run source)} {f : FunctionRef} {values : List Value} {line : Line}
      {around : Setting} {n : Machine} {y : Point} : ActsFor source setting m p σ →
      σ.Enters ⟨.invoke f values none line, around, n⟩ ρ → (n.store.function f).kind = .method →
      (n.store.function f).body.isScript = true → ρ.Enters y τ → ActsFor source setting m p τ
  | inner {σ ρ υ ω τ : State (.run source)} {name : String} {parameters : List String}
      {statements : List Stmt} {line line' : Line} {log : FileLog} {values : List Value}
      {around around' : Setting} {n n' : Machine} {y : Point} : ActsFor source setting m p σ →
      σ.Enters ⟨.exec (.function name parameters statements line), around, n⟩ ρ →
      ρ.Leads log υ →
      υ.Enters ⟨.invoke ⟨n.store.functions.size⟩ values none line', around', n'⟩ ω →
      ω.Enters y τ → ActsFor source setting m p τ

variable {source : String} {setting around : Setting} {m n : Machine} {log : FileLog} {x y : Point}
  {root : Work} {σ ρ τ υ : State root} {f : FunctionRef} {values : List Value} {line : Line}
  {receiver : Option ScopeRef}

/-- Whether evaluation goes on on behalf of an instance. -/
def Serves (p : ScopeRef) (σ : State root) : Prop :=
  ∃ g b s, σ.level.Goes (service p g) b s ((service p g).Results σ.work)

theorem Enters.serves (enters : σ.Enters x τ)
    (ready : (service p g).Ready x.setting x.machine)
    (takes : (service p g).Takes x.work x.machine.store)
    (may : (service p g).May x.work x.machine) : τ.Serves p := by
  cases enters with
  | @mk v w around n resume outer =>
    exact ⟨g, n, n.store, (service_lawful p g).proceeds w ready takes may n.store trivial⟩

/-- The body of a function that is called where names are looked up on behalf of an instance. -/
theorem Enters.serves_body (calls : σ.Enters ⟨.invoke f values receiver line, around, n⟩ ρ)
    (placed : Point.Placed ⟨.invoke f values receiver line, around, n⟩)
    (isScript : (n.store.function f).body.isScript = true)
    (serves : n.store.Serves g p
      (Evaluator.callParent (n.store.function f) receiver n.store n.current))
    (enters : ρ.Enters y τ) : τ.Serves p := by
  obtain ⟨statements, body⟩ := FunctionBody.exists_of_isScript isScript
  obtain rfl := calls.body body enters
  have opens := placed.machine.opens_call (f := f) placed.takes.2.1 placed.takes.1
  have grows := opens.becomes.grows.toGrows
  refine enters.serves (g := g) ⟨⟨⟨opens.becomes.sound, placed.machine.global.grows grows,
    opens.here⟩, opens.worksFor serves⟩, placed.hosts⟩ ?_ trivial
  exact fun st _ => soundness_admits st

theorem Stays.may (stays : x.Stays) : (service p g).May x.work x.machine := by
  obtain ⟨work, setting, machine⟩ := x
  refine Discipline.may_of (fun f values receiver line same isScript => ?_)
    fun name bases body line same => ?_
  · cases same
    have plain : (machine.store.function f).body.isScript = false := stays
    rw [isScript] at plain
    cases plain
  · cases same
    exact stays.elim

/-- What is taken on behalf of an instance is what evaluation comes to in any case. -/
theorem takes_lineage {w : Work} {s : Store} (takes : (service p g).Takes w s) :
    lineage.Takes w s := by
  cases w <;> exact takes

theorem hasPlace_service {q : Place} {s : Store} (here : lineage.HasPlace s q) :
    (service p g).HasPlace s q := by
  induction q with
  | component container i ih => exact ih here
  | _ => exact here

/-- What is a result in any case is one on behalf of an instance. -/
theorem results_service {w : Work} {r : w.Result} {s : Store} (result : lineage.Results w r s) :
    (service p g).Results w r s := by
  cases w with
  | place target line => exact hasPlace_service result
  | _ => exact result

/-- A point on behalf of an instance. -/
theorem Serves.enters (serves : σ.Serves p) (enters : σ.Enters x τ) :
    ∃ g, x.Placed ∧ x.machine.store.WorksFor g p x.machine.current ∧
      (x.Stays → τ.Serves p) := by
  obtain ⟨g, b, s, goes⟩ := serves
  have entered := enters
  cases enters with
  | @mk v w around n resume outer =>
    obtain ⟨-, -, ready, takes, -⟩ := goes
    exact ⟨g, ⟨ready.running.1, ready.setting, takes_lineage takes⟩, ready.running.2,
      fun stays => entered.serves ready takes (Stays.may stays)⟩

/-- A point on behalf of an instance that is evaluated as a whole. -/
theorem Serves.passes {r : Except RuntimeError x.work.Result} (serves : σ.Serves p)
    (passes : σ.Passes x log r n τ) : τ.Serves p := by
  obtain ⟨g, b, s, goes⟩ := serves
  cases passes with
  | @mk v w around m n log resume outer r ends =>
    obtain ⟨-, -, ready, takes, rest⟩ := goes
    have placed : Point.Placed ⟨w, around, m⟩ :=
      ⟨ready.running.1, ready.setting, takes_lineage takes⟩
    obtain ⟨follows, ended⟩ := placed.follows ends
    have inside := ready.running.2.continues follows.continues
    rw [← follows.current] at inside
    exact ⟨g, b, n.store, rest r n ⟨⟨⟨follows.placed, inside⟩, follows.continues⟩,
      fun a same => results_service (ended.value a same), fun _ _ => trivial⟩⟩

/-- A function that is defined in a scope of no class is free and looks up names there. -/
theorem Enters.defines {name : String} {parameters : List String} {statements : List Stmt}
    {s : Store} (enters : σ.Enters ⟨.exec (.function name parameters statements line), around, n⟩ ρ)
    (plain : n.store.Plain n.current) (keeps : ρ.Keeps lineage s) :
    ρ.Keeps lineage (n.store.defineFunction n.current
      ⟨name, .free, parameters, .script statements, some n.current⟩) := by
  have kind : (if (n.store.scope n.current).isClass = true then FunctionKind.method else .free) =
      .free := if_neg (by rw [plain]; decide)
  rw [← kind]
  cases enters
  exact keeps.since lineage_lawful rfl

/-- The scope that a function was defined in on behalf of an instance leads to the instance for as
long as there is the function, that is, always. -/
theorem serves_of_defined {s t : Store} {r : ScopeRef} {f : Function}
    (inside : s.WorksFor g p r) (continues : s.Continues (s.defineFunction r f))
    (environment : f.environment = some r) (loosens : (s.defineFunction r f).Loosens t) :
    t.function ⟨s.functions.size⟩ = f ∧ t.Serves g p r := by
  have here : (s.defineFunction r f).HasFunction ⟨s.functions.size⟩ := s.hasFunction_newFunction f
  have defined : (s.defineFunction r f).function ⟨s.functions.size⟩ = f := by
    simp [Store.defineFunction, Store.newFunction, Store.addFunction, Store.modifyScope,
      Store.function]
  have same := (loosens.same _ here).trans defined
  -- the function itself holds on to the scope of its definition
  exact ⟨same, (inside.toServes.continues continues).loosens loosens
    (.inl ⟨_, here, by rw [same]; exact environment⟩)⟩

variable {σ τ : State (.run source)}

/-- Whatever evaluation comes to on behalf of an instance, it comes to in a scope where the
instance is found again. -/
theorem ActsFor.serves (hosts : setting.hosts = #[]) (placed : m.Placed)
    (acts : ActsFor source setting m p σ) :
    (∃ log, (start (.run source) setting m).Leads log σ) ∧ σ.Serves p := by
  induction acts with
  | @method σ ρ τ log f values line around n y leads calls top isScript enters =>
    obtain ⟨t, -, keeps⟩ := leads.keeps_lineage hosts placed
    obtain ⟨-, placed⟩ := keeps.placed calls
    refine ⟨⟨_, leads.trans (.enter calls (.enter enters (.here τ)))⟩, ?_⟩
    exact calls.serves_body placed isScript
      (top.serves placed.machine (placed.takes.2.1 p rfl)) enters
  | @enters σ τ x _ enters stays ih =>
    obtain ⟨⟨log, leads⟩, serves⟩ := ih
    obtain ⟨g, -, -, inside⟩ := serves.enters enters
    exact ⟨⟨_, leads.trans (.enter enters (.here τ))⟩, inside stays⟩
  | @answers σ τ asked _ step ih =>
    obtain ⟨⟨log, leads⟩, g, b, s, goes⟩ := ih
    refine ⟨⟨_, leads.trans (.single step)⟩, g, b, s, ?_⟩
    cases step with
    | answers answer => exact goes answer
  | passes _ passes ih =>
    obtain ⟨⟨log, leads⟩, serves⟩ := ih
    exact ⟨⟨_, leads.trans passes.leads⟩, serves.passes passes⟩
  | @unqualified σ ρ τ f values line around n y _ calls isMethod isScript enters ih =>
    obtain ⟨⟨log, leads⟩, serves⟩ := ih
    obtain ⟨g, placed, inside, -⟩ := serves.enters calls
    refine ⟨⟨_, leads.trans (.enter calls (.enter enters (.here τ)))⟩, ?_⟩
    refine calls.serves_body (g := g) placed isScript ?_ enters
    rw [callParent_method isMethod (inside.nearest placed.machine.store)]
    exact inside.atInstance
  | @inner σ ρ υ ω τ name parameters statements line line' log values around around' n n' y _ defines
      leads calls enters ih =>
    obtain ⟨⟨log', before⟩, serves⟩ := ih
    obtain ⟨g, here, inside, -⟩ := serves.enters defines
    obtain ⟨t, -, keeps⟩ := (before.trans (.enter defines (.here ρ))).keeps_lineage hosts placed
    obtain ⟨loosens, placed⟩ := (defines.defines inside.inner keeps).later leads calls
    have continues := (lineage_lawful.defineFunction here.machine.store inside.way.hasScope
      (fun st (_ : st ∈ statements) => soundness_admits st) name .free parameters).grows
    obtain ⟨same, lasts⟩ := serves_of_defined inside continues rfl loosens
    have leads := leads.trans (.enter calls (.enter enters (.here τ)))
    refine ⟨⟨_, before.trans (.enter defines leads)⟩, ?_⟩
    refine calls.serves_body (g := g) placed (by rw [same]; rfl) ?_ enters
    rw [same, callParent_environment rfl rfl]
    exact lasts

/-- The states of a script are those of its evaluation, and on behalf of an instance, methods that
are called without one run on it, and names that are bound nowhere before are its members. -/
theorem ActsFor.runsOn (hosts : setting.hosts = #[]) (placed : m.Placed)
    (acts : ActsFor source setting m p σ) :
    (∀ {x : Point} {log : FileLog} {r : Except RuntimeError x.work.Result} {n : Machine},
      x.Exits log r n ↔ (start x.work x.setting x.machine).Leads log (finished r n)) ∧
    (∃ log, (start (.run source) setting m).Leads log σ) ∧
    ∀ {x : Point}, σ.Enters x τ → x.machine.RunsOn p := by
  obtain ⟨leads, serves⟩ := acts.serves hosts placed
  refine ⟨Point.exits_iff_leads, leads, fun enters => ?_⟩
  obtain ⟨g, here, inside, -⟩ := serves.enters enters
  exact inside.toServes.runs here.machine

end State

/-- A function that a method of one instance has made becomes a member of another one, where it is
called. -/
def borrowedFunction : String :=
  "class C \x7b var x=0; func set() \x7b x=7; \x7d func make() \x7b func f() \x7b set(); \x7d " ++
    "return f; \x7d \x7d var p=C(); var q=C(); q.k=p.make(); q.k();"

/-- A function that is called as the member of an instance runs on this instance, not on the one
that it was made for. -/
theorem run_borrowedFunction : ∃ v m,
    Evaluator.run 200 borrowedFunction ⟨#[], ".", []⟩ Machine.new = .value v m ∧
    m.store.findValue? m.global "p" = some (.object ⟨2⟩) ∧
    m.store.findValue? m.global "q" = some (.object ⟨4⟩) ∧
    m.store.variableAt? ⟨2⟩ "x" = some (.int 0) ∧ m.store.variableAt? ⟨4⟩ "x" = some (.int 7) := by
  have evaluated : ((Evaluator.run 200 borrowedFunction ⟨#[], ".", []⟩ Machine.new).value?.map
      fun p => [p.2.store.findValue? p.2.global "p", p.2.store.findValue? p.2.global "q",
        p.2.store.variableAt? ⟨2⟩ "x", p.2.store.variableAt? ⟨4⟩ "x"]) =
        some [some (.object ⟨2⟩), some (.object ⟨4⟩), some (.int 0), some (.int 7)] := by
    rw [Evaluator.run, show borrowedFunction = .ofList _ from String.ofList_append.symm,
      Lexer.tokenize_ofList]
    decide +kernel
  obtain ⟨p, ends, values⟩ := Option.map_eq_some_iff.1 evaluated
  simp only [List.cons.injEq, and_true] at values
  exact ⟨p.1, p.2, Outcome.eq_value_of_value? ends, values⟩

/-- A class whose method `use` calls its method `inc` by its name. -/
def counter : String :=
  "class C \x7b var n=0; func inc() \x7b n+=1; \x7d func use() \x7b inc(); \x7d \x7d C().use();"

namespace State

variable {root : Work}

/-- Whether a function that is written in a script is called in a state, on an instance in the
global scope. -/
def callsOn (p : ScopeRef) (name : String) (σ : State root) : Bool :=
  match σ.point? with
  | some (⟨.invoke f _ (some o) _, _, m⟩, _) => (m.store.function f).name == name && o == p &&
    (m.store.function f).body.isScript && decide (m.TopLevel p)
  | _ => false

/-- Whether a method is called in a state without an instance. -/
def callsMethod (name : String) (σ : State root) : Bool :=
  match σ.point? with
  | some (⟨.invoke f _ none _, _, m⟩, _) => (m.store.function f).name == name &&
    (m.store.function f).kind == .method && (m.store.function f).body.isScript
  | _ => false

instance (x : Point) : Decidable x.Stays := by
  unfold Point.Stays
  split <;> infer_instance

/-- The state that evaluation enters if it stays where it is. -/
def inward? (σ : State root) : Option (State root) :=
  σ.point?.bind fun p => if p.1.Stays then some p.2 else none

/-- The state in the body of the function that is called in a state. -/
def body? (σ : State root) : Option (State root) := σ.point?.bind fun p => p.2.point?.map (·.2)

variable {source name : String} {setting : Setting} {m : Machine} {p : ScopeRef} {log : FileLog}
  {σ τ : State (.run source)}

theorem enters_of_body? (body : σ.body? = some τ) :
    ∃ x ρ y, σ.point? = some (x, ρ) ∧ σ.Enters x ρ ∧ ρ.Enters y τ := by
  obtain ⟨⟨x, ρ⟩, calls, inside⟩ := Option.bind_eq_some_iff.1 body
  obtain ⟨⟨y, _⟩, enters, rfl⟩ := Option.map_eq_some_iff.1 inside
  exact ⟨x, ρ, y, calls, enters_of_point? calls, enters_of_point? enters⟩

theorem ActsFor.of_callsOn (leads : (start (.run source) setting m).Leads log σ)
    (calls : σ.callsOn p name = true) (body : σ.body? = some τ) :
    ActsFor source setting m p τ := by
  obtain ⟨x, ρ, y, found, enters, inside⟩ := enters_of_body? body
  rw [callsOn, found] at calls
  split at calls
  · rename_i same
    cases same
    simp only [Bool.and_eq_true, beq_iff_eq, decide_eq_true_eq] at calls
    obtain ⟨⟨⟨-, rfl⟩, isScript⟩, top⟩ := calls
    exact .method leads enters top isScript inside
  · cases calls

theorem ActsFor.of_callsMethod (acts : ActsFor source setting m p σ)
    (calls : σ.callsMethod name = true) (body : σ.body? = some τ) :
    ActsFor source setting m p τ := by
  obtain ⟨x, ρ, y, found, enters, inside⟩ := enters_of_body? body
  rw [callsMethod, found] at calls
  split at calls
  · rename_i same
    cases same
    simp only [Bool.and_eq_true, beq_iff_eq] at calls
    obtain ⟨⟨-, isMethod⟩, isScript⟩ := calls
    exact .unqualified acts enters isMethod isScript inside
  · cases calls

theorem ActsFor.inward (acts : ActsFor source setting m p σ) (inward : σ.inward? = some τ) :
    ActsFor source setting m p τ := by
  obtain ⟨⟨x, ρ⟩, found, inward⟩ := Option.bind_eq_some_iff.1 inward
  split at inward
  · rename_i stays
    cases inward
    exact .enters acts (enters_of_point? found) stays
  · cases inward

theorem ActsFor.skip {fuel : Nat} {n : Machine} (acts : ActsFor source setting m p σ)
    (skips : σ.skip? fuel = some (n, τ)) : ActsFor source setting m p τ := by
  obtain ⟨x, υ, found⟩ := exists_point_of_skip? skips
  obtain ⟨a, passes⟩ := passes_of_skip? skips found
  exact .passes acts passes

/-- The variable of an instance that a method reads which another method of the instance calls by
its name alone. -/
theorem runsOn_counter : ∃ (σ τ : State (.run counter)) (x : Point),
    ActsFor counter ⟨#[], ".", []⟩ .new ⟨2⟩ σ ∧ σ.Enters x τ ∧
    Evaluator.eval 1 (.named "n" 1) ⟨#[], ".", []⟩ x.machine = .value (.int 0) x.machine := by
  have evaluated : (((start (.run counter) ⟨#[], ".", []⟩ .new).first? (callsOn ⟨2⟩ "use")
      200).bind fun σ => σ.body?.bind fun τ₁ => τ₁.inward?.bind fun τ₂ => τ₂.inward?.bind fun τ₃ =>
      τ₃.inward?.bind fun τ₄ => (τ₄.skip? 40).bind fun τ₅ => τ₅.2.body?.bind fun τ₆ =>
      τ₆.point?.map fun e => decide (τ₅.2.callsMethod "inc" = true ∧
        (∀ q ∈ e.1.machine.store.locals e.1.machine.current,
          e.1.machine.store.valueAt? q "n" = none) ∧
        e.1.machine.store.variableAt? ⟨2⟩ "n" = some (.int 0))) = some true := by
    decide +kernel
  obtain ⟨σ, found, evaluated⟩ := Option.bind_eq_some_iff.1 evaluated
  obtain ⟨τ₁, body, evaluated⟩ := Option.bind_eq_some_iff.1 evaluated
  obtain ⟨τ₂, exec, evaluated⟩ := Option.bind_eq_some_iff.1 evaluated
  obtain ⟨τ₃, eval, evaluated⟩ := Option.bind_eq_some_iff.1 evaluated
  obtain ⟨τ₄, call, evaluated⟩ := Option.bind_eq_some_iff.1 evaluated
  obtain ⟨⟨n, τ₅⟩, arguments, evaluated⟩ := Option.bind_eq_some_iff.1 evaluated
  obtain ⟨τ₆, inc, evaluated⟩ := Option.bind_eq_some_iff.1 evaluated
  obtain ⟨⟨x, τ⟩, entry, evaluated⟩ := Option.map_eq_some_iff.1 evaluated
  obtain ⟨calls, free, zero⟩ := of_decide_eq_true evaluated
  obtain ⟨leads, used⟩ := leads_of_first? found
  have acts := ((((ActsFor.of_callsOn leads used body).inward exec).inward eval).inward call).skip
    arguments
  have inside := acts.of_callsMethod calls inc
  have enters := enters_of_point? entry
  obtain ⟨-, -, runs⟩ := inside.runsOn rfl Machine.sound_new.placed
  exact ⟨τ₆, τ, x, inside, enters, (runs enters).reads free zero 0 1 ⟨#[], ".", []⟩⟩

end State

end Scriptlet
