import Scriptlet.Proofs.Evaluation.Receivers
import Scriptlet.Proofs.Store.Templates

/-!
# New instances

A new instance has what the template of its class has. The template stays as the definition of the
class has left it as long as nothing is evaluated in a scope that stands inside it. Scopes for blocks
and loops stand in the current one, so evaluation gets there only by a call. Methods run on
instances, functions in the scope of their definition; so a call leads into the template if it is
on an instance that stands inside the template, or without an instance, of a function that was
defined inside the template, unless it is a method and a class scope is around (`Store.Disturbs`,
`Store.Sound.outside_callParent`). The template is also emptied with a scope that declares the class,
if that is not kept when evaluation leaves it (`Machine.Drops`). Otherwise a new instance starts from
the definition of its class (`State.instance_startsFrom_definition`).
-/

namespace Scriptlet

/-! ## Which calls lead into a template -/

namespace Store

variable {s : Store} {T r : ScopeRef} {f : FunctionRef} {receiver : Option ScopeRef}

/-- Whether a call of a function from a scope, on an instance or not, leads into a template. -/
def Disturbs (s : Store) (T current : ScopeRef) (f : FunctionRef) : Option ScopeRef → Prop
  | some o => T ∈ s.chain o
  | none => ((s.function f).kind = .method → s.nearestClassScope? current = none) ∧
    ∃ e ∈ (s.function f).environment, T ∈ s.chain e

instance (T : ScopeRef) : (receiver : Option ScopeRef) → Decidable (s.Disturbs T r f receiver)
  | some o => inferInstanceAs (Decidable (T ∈ s.chain o))
  | none => inferInstanceAs (Decidable (_ ∧ _))

/-- No other call leads into a template from a scope outside it. -/
theorem Sound.outside_callParent (sound : s.Sound) (outside : s.Outside T r)
    (receivers : ∀ o, receiver = some o → s.HasScope o)
    (calm : s.Defines T → ¬ s.Disturbs T r f receiver) :
    s.Outside T (Evaluator.callParent (s.function f) receiver s r) := by
  refine ⟨sound.callParent outside.here (sound.function f) receivers, fun defines => ?_⟩
  have calm := calm defines
  have away := outside.outside defines
  cases receiver with
  | some o =>
    -- on an instance
    show ¬ s.Inside o T
    exact fun inside => calm (inside.mem_chain sound)
  | none =>
    by_cases onNearest : (s.function f).kind = .method ∧ s.nearestClassScope? r ≠ none
    · -- on the nearest instance
      obtain ⟨isMethod, some⟩ := onNearest
      obtain ⟨q, nearest⟩ := Option.ne_none_iff_exists'.1 some
      have member : q ∈ s.chain r := List.mem_of_find?_eq_some nearest
      rw [callParent_method isMethod nearest]
      exact fun inside => away ((sound.inside_of_mem_chain outside.here member).trans inside)
    · have unreceived : (s.function f).kind = .method → s.nearestClassScope? r = none := by
        intro isMethod
        by_contra some
        exact onNearest ⟨isMethod, some⟩
      have parent : Evaluator.callParent (s.function f) none s r =
          (s.function f).environment.getD r := by
        unfold Evaluator.callParent
        split
        · rename_i isMethod
          rw [unreceived isMethod]
          rfl
        · rfl
      rw [parent]
      cases environment : (s.function f).environment with
      | some e =>
        -- in the scope of the definition
        exact fun inside => calm ⟨unreceived, e, environment, inside.mem_chain sound⟩
      | none => exact away

end Store

/-- Whether evaluation goes into a template in a point. -/
def Point.Disturbs (T : ScopeRef) (x : Point) : Prop :=
  match x.work with
  | .invoke f _ receiver _ => (x.machine.store.function f).body.isScript = true ∧
    x.machine.store.Disturbs T x.machine.current f receiver
  | _ => False

/-! ## Scopes that are left -/

namespace Machine

variable {m : Machine} {held : List Value} {r : ScopeRef}

/-- A scope that belongs to no class is closed when it is left. -/
theorem exists_closing (m : Machine) (held : List Value)
    (plain : (m.store.scope r).isClass = false) :
    ∃ held', (m.close held r).store = (m.store.leave held' r).2 ∧
      (m.close held r).closings ⟨m.store, held', r⟩ := by
  unfold Machine.close
  rw [if_neg (by simp [plain])]
  exact ⟨_, rfl, .inl rfl⟩

/-- Whether evaluation has left a scope that declared a class, and did not keep it. -/
def Drops (m : Machine) (T : ScopeRef) : Prop :=
  ∃ c, m.closings c ∧ c.store.Declares c.scope T ∧ (c.store.leave c.held c.scope).1 = false

/-- When a scope is left, the variables of a template stay, or go with the scope. -/
theorem vars_close (m : Machine) (held : List Value) (r T : ScopeRef) :
    ((m.close held r).store.scope T).vars = (m.store.scope T).vars ∨
      ((m.close held r).store.scope T).vars = .empty ∧ (m.close held r).Drops T := by
  by_cases plain : (m.store.scope r).isClass = false
  · obtain ⟨held', store, closed⟩ := m.exists_closing held plain
    rw [store]
    rcases m.store.vars_leave held' r T with same | ⟨empty, declares, lost⟩
    · exact .inl same
    · exact .inr ⟨empty, _, closed, declares, lost⟩
  · rw [m.close_of_class held (by simpa using plain)]
    exact .inl rfl

theorem functions_close (m : Machine) (held : List Value) (r : ScopeRef) :
    (m.close held r).store.functions = m.store.functions :=
  m.store_close held r rfl fun held' => m.store.functions_leave held' r

end Machine

namespace Template

variable {T : ScopeRef} {V : OrderedMap String Value} {m n : Machine} {t : Store} {o r : ScopeRef}
  {held : List Value}

/-- A scope outside a template is outside it after another one has been left. -/
theorem outside_close (sound : m.store.Sound) (outside : m.store.Outside T r) (held : List Value)
    (o : ScopeRef) : (m.close held o).store.Outside T r := by
  have loosens := Machine.loosens_close sound held o
  exact ⟨outside.here.grows loosens.toGrows, fun defines inside =>
    outside.outside (defines.of_functions (m.functions_close held o))
      (loosens.inside sound outside.here inside)⟩

theorem Sound.close (sound : Sound T m.store) (held : List Value) (r : ScopeRef) :
    Sound T (m.close held r).store :=
  m.store_close held r sound fun held' => sound.leave held' r

/-! ## As a discipline -/

/-- The machines on which the template of a class has its variables, unless it has been emptied. -/
structure Running (T : ScopeRef) (V : OrderedMap String Value) (m : Machine) : Prop where
  sound : Sound T m.store
  global : m.store.Outside T m.global
  current : m.store.Outside T m.current
  vars : m.store.Defines T →
    (m.store.scope T).vars = V ∨ (m.store.scope T).vars = .empty ∧ m.Drops T

namespace Running

/-- There is nothing to say before the class has been defined. -/
theorem of_placed (placed : m.Placed) (before : ¬ m.store.Defines T) : Running T V m :=
  ⟨⟨placed.store, fun defines => absurd defines before⟩,
    ⟨placed.global, fun defines => absurd defines before⟩,
    ⟨placed.current, fun defines => absurd defines before⟩, fun defines => absurd defines before⟩

theorem put (running : Running T V m) (becomes : (validity T).Becomes m.store t) :
    Running T V { m with store := t } := by
  have lasts := becomes.grows.lasts
  have store := running.sound.store
  refine ⟨becomes.sound, lasts.outside store running.global, lasts.outside store running.current,
    fun defines => ?_⟩
  have defined := becomes.grows.defined defines
  rw [becomes.grows.vars defined]
  exact running.vars defined

theorem enter (running : Running T V m) (outside : m.store.Outside T r) :
    Running T V { m with current := r } :=
  ⟨running.sound, running.global, outside, running.vars⟩

/-- A scope that is left for one that stands outside the template. -/
theorem close (running : Running T V m) (outside : m.store.Outside T o) :
    Running T V ({ m with current := o }.close held r) := by
  have returned := running.enter outside
  obtain ⟨global, current⟩ := Machine.scopes_close { m with current := o } held r
  refine ⟨returned.sound.close held r, ?_, ?_, fun defines => ?_⟩
  · rw [global]
    exact outside_close returned.sound.store returned.global held r
  · rw [current]
    exact outside_close returned.sound.store returned.current held r
  · rcases Machine.vars_close { m with current := o } held r T with same | gone
    · rw [same]
      refine (returned.vars (defines.of_functions (Machine.functions_close _ held r))).imp_right ?_
      rintro ⟨empty, c, closed, drops⟩
      exact ⟨empty, c, (Machine.Homes.close _ held r).closings c closed, drops⟩
    · exact .inr gone

end Running

/-- The discipline of machines on which the template of a class keeps its variables. -/
def steadiness (T : ScopeRef) (V : OrderedMap String Value) : Discipline where
  toValidity := validity T
  Extends := Lasts T
  Known := Store.HasScope
  Current s r := s.Outside T r
  Opened s name c r := s.HasNamed name c r ∧ s.Outside T r ∧ (c = true → r ≠ T)
  Writable s r _ := s.HasScope r ∧ (s.Defines T → r ≠ T)
  Running := Running T V
  Suits setting _ := setting.hosts = #[]
  line _ := True
  imports := True
  Parent s r := s.Outside T r
  MayCall s r f receiver := s.Defines T → ¬ s.Disturbs T r f receiver
  MayDeclare s := s.scopes.size ≠ T.index

theorem steadiness_lawful (T : ScopeRef) (V : OrderedMap String Value) :
    (steadiness T V).Lawful where
  toLawful := validity_lawful T
  extends_of_grows keeps := keeps.lasts
  extends_trans := Lasts.trans
  valid_extends lasts valid := lasts.valid valid
  known_extends lasts here := here.grows lasts.toGrows
  current_extends sound lasts outside := lasts.outside sound.store outside
  opened_extends sound lasts opened := ⟨opened.1.grows lasts.toGrows,
    lasts.outside sound.store opened.2.1, opened.2.2⟩
  writable_extends {s t r name} lasts writable := by
    refine ⟨writable.1.grows lasts.toGrows, fun defines => ?_⟩
    rcases lasts.defines_or defines with defined | other
    · exact writable.2 defined
    · exact other r writable.1
  suits_extends _ none := none
  known_of_current outside := outside.here
  parent_of_current outside := outside
  known_of_writable writable := writable.1
  known_of_valid valid := valid.1.1
  current_of_opened opened := opened.2.1
  writable_of_current outside _ := ⟨outside.here, outside.ne⟩
  writable_of_found {s r q name} sound outside found := by
    have member : q ∈ s.chain r := List.mem_of_find?_eq_some found
    refine ⟨sound.store.mem_chain outside.here member, fun defines => ?_⟩
    rintro rfl
    exact outside.outside defines (sound.store.inside_of_mem_chain outside.here member)
  parent_callParent sound outside receivers calm :=
    sound.store.outside_callParent outside receivers calm
  setVariable sound writable valid := sound.setVariable writable.2 valid.1 valid.2
  child {s r} sound outside name c may := by
    have scope := s.scope_child r name c
    refine ⟨sound.child outside.here name c, ⟨s.hasScope_newScope _, by rw [scope]; rfl,
      by rw [scope]; rfl⟩, outside.child sound.store name c, fun isClass => ?_⟩
    exact fun same => may isClass (congrArg ScopeRef.index same)
  instantiate {s f template} sound body name :=
    sound.instantiate ((sound.store.function f).template template body).1 name
  defineFunction {s r statements} sound outside _ name kind parameters := by
    refine sound.defineFunction r ⟨fun q same => ?_, fun q never => ?_⟩ fun never => ?_
    · cases same
      exact outside.here
    · cases never
    · cases never
  inherit sound opened base := sound.inherit (opened.2.2 rfl) base
  defineClass sound outside opened := by
    rw [← opened.1.named]
    exact sound.defineClass outside.here opened.1.here opened.1.ofClass (opened.2.2 rfl)
  body _ _ st _ := soundness_admits st
  imported _ st := soundness_admits st
  sound running := running.sound
  current running := running.current
  put running becomes := running.put becomes
  print running _ := ⟨running.sound, running.global, running.current, running.vars⟩
  enter running opened := running.enter opened.2.1
  hold none _ := none
  leave {s setting n o name r held} sound outside lasts fresh running _ _ _ := by
    have store := running.sound.store
    have continues := Machine.continues_close (m := { n with current := o }) lasts.toContinues store
      fresh (held ++ setting.held)
    have functions := Machine.functions_close { n with current := o } (held ++ setting.held) r
    have closes : Lasts T s ({ n with current := o }.close (held ++ setting.held) r).store :=
      ⟨continues, fun here defines => lasts.before here (defines.of_functions functions)⟩
    refine ⟨running.close (lasts.outside sound.store outside), closes, fun v valid => ?_⟩
    have loosens := Machine.loosens_close (m := { n with current := o }) store
      (held ++ setting.held) r
    exact ⟨valid.1.grows loosens.toGrows, fun defines => valid.2 (defines.of_functions functions)⟩
  leaveTemplate {setting n o name r held} outside running _ opened _ := by
    rw [Machine.close_of_class { n with current := o } _ opened.1.ofClass]
    exact ⟨running.enter outside, .refl n.store⟩
  hosts {setting s i code call} none _ registered _ _ := by
    have empty : setting.hosts = #[] := none
    simp [empty] at registered

end Template

/-! ## The definition of a class -/

/-- The template that a constructor makes instances of. -/
def FunctionBody.template? : FunctionBody → Option ScopeRef
  | .construct template => some template
  | _ => none

theorem FunctionBody.eq_construct {b : FunctionBody} {template : ScopeRef}
    (h : b.template? = some template) : b = .construct template := by
  cases b with
  | construct own =>
    cases h
    rfl
  | _ => cases h

/-- The machine in the template of a class, which has what the bases define. -/
def Machine.inClass (m : Machine) (name : String) (bases : List String) (line : Line) :
    Except RuntimeError Machine :=
  let (template, s) := m.store.child m.current name true
  (s.inheritAll m.current template line bases).map fun store =>
    { m with store, current := template }

namespace Evaluator

/-- A constructor makes an instance and runs the method on it that is named like the class. -/
theorem invoke_construct {m : Machine} {f : FunctionRef} {template : ScopeRef}
    (constructs : (m.store.function f).body = .construct template) (fuel : Nat)
    (values : List Value) (receiver : Option ScopeRef) (line : Line) (setting : Setting) :
    invoke (fuel + 1) f values receiver line setting m =
      let (o, s) := m.store.instantiate (m.store.function f).name template
      Eval.holding (.object o :: values) (Eval.nested (m.store.function f).name (fun v => [v])
        (initialized fuel o values line)) setting { m with store := s } := by
  rw [invoke]
  dsimp only [Bind.bind, Eval.look, Outcome.andThen]
  rw [constructs]
  rfl

variable {setting : Setting} {fuel : Nat} {name : String} {bases : List String} {body : List Stmt}
  {line : Line} {log : FileLog} {flow : Flow} {r : Except RuntimeError Flow} {m n : Machine}

/-- The definition of a class fails with the bases, or runs the body in the template, which is left
again; if the body does not fail, the class is registered. -/
theorem classDef_cases
    (ends : (exec fuel (.classDef name bases body line)).Exits setting m log r n) :
    (∃ e, m.inClass name bases line = .error e ∧ r = .error e ∧ log = [] ∧
      n = { m with store := (m.store.child m.current name true).2 }) ∨
    ∃ k fuel result j held, m.inClass name bases line = .ok k ∧
      (sequence fuel .null body).Exits (setting.hold [.object m.current]) k log result j ∧
      let c := { j with current := m.current }.close held ⟨m.store.scopes.size⟩
      (∃ e, result = .error e ∧ r = .error e ∧ n = c) ∨
      ∃ flow, result = .ok flow ∧ r = .ok (.normal .null) ∧
        n = { c with store := c.store.defineClass c.current name ⟨m.store.scopes.size⟩ } := by
  cases fuel with
  | zero =>
    rw [exec] at ends
    exact absurd ends Outcome.not_exits_cutOff
  | succ fuel =>
    rw [exec] at ends
    have ends := Eval.of_exits_bind_value ends rfl
    have ends := Eval.of_exits_bind_value ends rfl
    obtain ⟨e, rfl, fails⟩ | ⟨_, _, _, _, rfl, attempts, ends⟩ := Eval.exists_of_exits_bind ends
    · obtain ⟨failed, rfl⟩ := Eval.of_exits_attempt_error fails
      obtain rfl := Eval.nil_of_exits_attempt fails
      refine .inl ⟨e, ?_, rfl, rfl, rfl⟩
      exact congrArg (Except.map _) (map_eq_error_iff.1 failed)
    obtain rfl := Eval.nil_of_exits_attempt attempts
    obtain ⟨t, found, rfl⟩ := Eval.exists_of_exits_attempt attempts
    obtain ⟨t, inherits, same⟩ := map_eq_ok_iff.1 found
    cases same
    refine .inr ⟨{ m with store := t, current := ⟨m.store.scopes.size⟩ }, fuel, ?_⟩
    have begun : m.inClass name bases line =
        .ok { m with store := t, current := ⟨m.store.scopes.size⟩ } :=
      congrArg (Except.map _) inherits
    obtain ⟨e, rfl, fails⟩ | ⟨l, _, flow, _, rfl, runs, ends⟩ := Eval.exists_of_exits_bind ends
    · obtain ⟨j, inside, rfl⟩ := Outcome.exits_finish_iff.1 fails
      exact ⟨.error e, j, _, begun, inside, .inl ⟨e, rfl, rfl, rfl⟩⟩
    obtain ⟨j, inside, rfl⟩ := Outcome.exits_finish_iff.1 runs
    have ends := Eval.of_exits_bind_value ends rfl
    obtain ⟨rfl, rfl, rfl⟩ := Eval.exits_pure_iff.1 ends
    refine ⟨.ok flow, j, flow.values ++ setting.held, begun, ?_, .inr ⟨flow, rfl, rfl, ?_⟩⟩
    · simpa using inside
    · rfl

/-- The body of a class makes its template no instance. -/
theorem instancesIn_of_sequence {T : ScopeRef} (hosts : setting.hosts = #[])
    (inside : m.store.InstancesIn (· ≠ T)) (here : m.store.HasScope T) (current : m.current = T)
    {last : Value} {statements : List Stmt} {r : Except RuntimeError Flow}
    (scalar : last.isScalar = true)
    (ends : (sequence fuel last statements).Exits setting m log r n) :
    n.store.InstancesIn (· ≠ T) := by
  let site : Site := m.store.apart T
  have ready : site.confinement.Ready setting m := by
    refine ⟨⟨inside.apart, .inl current⟩, fun code never => ?_⟩
    rw [hosts] at never
    simp at never
  have takes : site.confinement.Takes (.sequence last statements) m.store :=
    ⟨Value.instancesIn_of_isScalar scalar, fun st _ => soundness_admits st⟩
  have ended := (site.confinement_lawful.goes {} fuel (.sequence last statements) ready takes).exits
    ends
  exact ended.turns.running.1.toInstancesIn.imp fun _ => Store.ne_of_object_apart here

/-- The template of a class is a new scope, which is registered under the name of the class and is
no instance. -/
theorem template_of_exits (sound : m.store.Sound) (hosts : setting.hosts = #[])
    (ends : (exec fuel (.classDef name bases body line)).Exits setting m log (.ok flow) n) :
    flow = .normal .null ∧ n.store.InstancesIn (· ≠ ⟨m.store.scopes.size⟩) ∧
      ∃ t : Store, n.store = t.defineClass n.current name ⟨m.store.scopes.size⟩ := by
  obtain ⟨_, -, never, -⟩ | ⟨_, _, _, j, held, begun, runs, ended⟩ := classDef_cases ends
  · cases never
  obtain ⟨_, -, never, -⟩ | ⟨_, -, normal, rfl⟩ := ended
  · cases never
  obtain ⟨s, inherits, rfl⟩ := map_eq_ok_iff.1 begun
  have first : m.store.InstancesIn (· ≠ ⟨m.store.scopes.size⟩) :=
    sound.instancesIn.imp fun r here same => by
      rw [same] at here
      exact Nat.lt_irrefl _ here
  obtain ⟨before, here⟩ :=
    (first.child m.current name true).inheritAll (m.store.hasScope_newScope _) inherits
  have after : j.store.InstancesIn (· ≠ ⟨m.store.scopes.size⟩) :=
    instancesIn_of_sequence (show (setting.hold _).hosts = #[] from hosts) before here rfl rfl runs
  refine ⟨Except.ok.inj normal, Store.InstancesIn.defineClass ?_ _ _ _, _, rfl⟩
  exact Machine.store_close { j with current := m.current } held _ after fun held' =>
    after.leave held' _

end Evaluator

/-! ## Evaluation before and after the definition of a class -/

namespace State

variable {source : String} {setting around : Setting} {m n k : Machine} {log l : FileLog}
  {x y : Point} {root : Work} {σ ρ τ υ : State root} {name : String} {bases : List String}
  {body : List Stmt} {line : Line} {T : ScopeRef} {V : OrderedMap String Value} {s : Store}

/-- The definition of a class begins with a new scope. -/
theorem exists_machine_classDef (placed : m.Placed) (name : String) (bases : List String)
    (body : List Stmt) (line : Line) :
    ∃ n, ((Work.exec (.classDef name bases body line)).level setting m).machine? = some n ∧
      m.store.scopes.size < n.store.scopes.size := by
  obtain ⟨becomes, opened⟩ := lineage_lawful.child placed.store placed.current name true
    fun _ => trivial
  have size : m.store.scopes.size < (m.store.child m.current name true).2.scopes.size := by
    simp [Store.child, Store.newScope]
  rw [Work.level, Stepwise.exec, Stepwise.classDef]
  dsimp only [Bind.bind, Stepwise.lift, Eval.look, Level.ofOutcome, Level.andThen, Eval.child,
    Eval.change, Eval.attempt]
  cases inherited : (m.store.child m.current name true).2.inheritAll m.current
      (m.store.child m.current name true).1 line bases with
  | error e => exact ⟨_, rfl, size⟩
  | ok t =>
    have inherits := lineage_lawful.inheritAll becomes.sound opened inherited
    exact ⟨_, rfl, Nat.lt_of_lt_of_le size inherits.grows.scopes⟩

/-- Scopes are never removed, and the definition of a class adds one before anything else. -/
theorem Keeps.size_le (keeps : ρ.Keeps lineage s) (enters : ρ.Enters x υ) (leads : υ.Leads l σ)
    (comes : σ.Enters y τ) : x.machine.store.scopes.size ≤ y.machine.store.scopes.size ∧
      ∀ name bases body line, x.work = .exec (.classDef name bases body line) →
        x.machine.store.scopes.size < y.machine.store.scopes.size := by
  have placed := (keeps.placed enters).2
  have inside := keeps.entered lineage_lawful enters (Discipline.Free.may {} _ _)
  refine ⟨(inside.later leads comes).1.scopes, fun name bases body line same => ?_⟩
  cases enters with
  | @mk v w setting m resume outer =>
    obtain rfl : w = .exec (.classDef name bases body line) := same
    obtain ⟨n, begins, more⟩ := exists_machine_classDef placed.machine name bases body line
    exact Nat.lt_of_lt_of_le more ((inside.since lineage_lawful begins).later leads comes).1.scopes

/-- What evaluation may go into, for the template of a class to keep its variables. -/
theorem may_steadiness (calm : x.machine.store.Defines T → ¬ x.Disturbs T)
    (declares : ∀ name bases body line, x.work = .exec (.classDef name bases body line) →
      x.machine.store.scopes.size ≠ T.index) :
    (Template.steadiness T V).May x.work x.machine := by
  obtain ⟨work, setting, machine⟩ := x
  refine Discipline.may_of (fun f values receiver line same isScript defines disturbs => ?_) declares
  obtain rfl : work = .invoke f values receiver line := same
  exact calm defines ⟨isScript, disturbs⟩

/-- Before the definition of a class there is nothing to disturb. -/
theorem Leads.steady (hosts : setting.hosts = #[]) (placed : m.Placed) {σ τ : State (.run source)}
    (leads : (start (.run source) setting m).Leads log σ)
    (defines : σ.Enters ⟨.exec (.classDef name bases body line), around, k⟩ τ)
    (V : OrderedMap String Value) :
    ∃ s, σ.Keeps (Template.steadiness ⟨k.store.scopes.size⟩ V) s := by
  have undefined {n : Machine} (placed : n.Placed)
      (before : n.store.scopes.size ≤ k.store.scopes.size) :
      ¬ n.store.Defines ⟨k.store.scopes.size⟩ := fun defines =>
    absurd (defines.hasScope placed.store) (Nat.not_lt_of_le before)
  have begin := (keeps_start lineage_lawful
    (fun placed => ⟨placed.store, placed.global, placed.global⟩) trivial ⟨placed, hosts⟩ source)
  have ready : (Template.steadiness ⟨k.store.scopes.size⟩ V).Ready setting m :=
    ⟨.of_placed placed (undefined placed (begin.later leads defines).1.scopes), hosts⟩
  have steady := keeps_start (Template.steadiness_lawful _ V)
    (fun running => ⟨running.sound, running.global, running.global, running.vars⟩) trivial ready
    source
  obtain ⟨t, -, keeps⟩ := leads.keeps (Template.steadiness_lawful _ V) steady
    fun before enters after => by
      obtain ⟨u, -, keeps⟩ := before.keeps_lineage hosts placed
      obtain ⟨size, more⟩ := keeps.size_le enters after defines
      exact may_steadiness
        (fun defined => absurd defined (undefined (keeps.placed enters).2.machine size))
        fun name bases body line same => Nat.ne_of_lt (more name bases body line same)
  exact ⟨t, keeps⟩

/-- The machine after the definition of a class, on which its template has its variables. -/
theorem running_of_exits {flow : Flow}
    (placed : Point.Placed ⟨.exec (.classDef name bases body line), around, k⟩)
    (defines : Point.Exits ⟨.exec (.classDef name bases body line), around, k⟩ log (.ok flow) m)
    (registered : (m.store.scope m.current).scopes.get? name = some T) :
    flow = .normal .null ∧ T = ⟨k.store.scopes.size⟩ ∧ m.store.HasScope T ∧
      Template.Running T (m.store.scope T).vars m := by
  have follows := (placed.follows defines).1
  have after := follows.placed
  obtain ⟨fuel, ends⟩ := defines
  obtain ⟨isNull, instances, t, defined⟩ :=
    Evaluator.template_of_exits placed.machine.store placed.hosts ends
  obtain ⟨key, member⟩ := OrderedMap.mem_of_get? registered
  have here : m.store.HasScope T := ((after.store.scope m.current).scopes _ member).1
  obtain rfl : T = ⟨k.store.scopes.size⟩ := by
    have current : t.HasScope m.current := by
      have grown := after.current
      rw [defined] at grown
      simpa [Store.HasScope, Store.defineClass, Store.defineFunction, Store.addFunction,
        Store.newFunction, Store.addScope, Store.modifyScope] using grown
    rw [defined, Store.scopes_defineClass current, OrderedMap.get?_insert,
      if_pos Std.ReflCmp.compare_self] at registered
    exact (Option.some.inj registered).symm
  -- nothing that was there before stands inside the new template
  have outside {r : ScopeRef} (before : k.store.HasScope r) :
      m.store.Outside ⟨k.store.scopes.size⟩ r := by
    refine ⟨before.grows follows.continues.toGrows, fun _ inside => ?_⟩
    have older := follows.continues.loosens.inside placed.machine.store before inside
    exact absurd older.hasScope_end (Nat.lt_irrefl _)
  refine ⟨isNull, rfl, here, ⟨after.store, fun _ => instances⟩, ?_, ?_, fun _ => .inl rfl⟩
  · rw [follows.global]
    exact outside placed.machine.global
  · rw [follows.current]
    exact outside placed.machine.current

/-- A new instance starts from the definition of its class: let a script define a class and go on
from there until a constructor of the class is called. The constructor makes an instance, and only
then runs the method on it that is named like the class. The member variables of the instance have
the values that they had when the class had been defined, unless a call in between has led into the
template of the class, or the template has been emptied with a scope that declared it. -/
theorem instance_startsFrom_definition {source : String} {setting : Setting} {m₀ : Machine}
    {σ σ' τ υ : State (.run source)} {l₁ l₂ l₃ : FileLog} {flow : Flow} {f : FunctionRef}
    {values : List Value} {receiver : Option ScopeRef} {line' : Line} {around' : Setting}
    (hosts : setting.hosts = #[]) (placed : m₀.Placed)
    (begins : (start (.run source) setting m₀).Leads l₁ σ)
    (defines : σ.Passes ⟨.exec (.classDef name bases body line), around, k⟩ l₂ (.ok flow) m σ')
    (registered : (m.store.scope m.current).scopes.get? name = some T)
    (later : σ'.Leads l₃ τ)
    (calls : τ.Enters ⟨.invoke f values receiver line', around', n⟩ υ)
    (constructs : (n.store.function f).body = .construct T) :
    (∀ {x : Point} {log : FileLog} {r : Except RuntimeError x.work.Result} {n : Machine},
      x.Exits log r n ↔ (start x.work x.setting x.machine).Leads log (finished r n)) ∧
    ∃ o s, (∀ (fuel : Nat) (values : List Value) (receiver : Option ScopeRef) (line : Line)
        (setting : Setting),
        Evaluator.invoke (fuel + 1) f values receiver line setting n =
          Eval.holding (.object o :: values) (Eval.nested (n.store.function f).name (fun v => [v])
            (Evaluator.initialized fuel o values line)) setting { n with store := s }) ∧
      ((∀ member, s.variableAt? o member = m.store.variableAt? T member) ∨
        (∃ l ρ x ρ' l', σ'.Leads l ρ ∧ ρ.Enters x ρ' ∧ ρ'.Leads l' τ ∧ x.Disturbs T) ∨
        (n.store.scope T).vars = .empty ∧ n.Drops T) := by
  refine ⟨Point.exits_iff_leads, _, _, Evaluator.invoke_construct constructs, ?_⟩
  refine or_iff_not_imp_right.2 fun others => ?_
  obtain ⟨calm, kept⟩ := not_or.1 others
  obtain ⟨σ₁, enters⟩ := defines.enters
  obtain ⟨t, -, keeps⟩ := begins.keeps_lineage hosts placed
  have here := (keeps.placed enters).2
  obtain ⟨rfl, isNew, isIn, running⟩ := running_of_exits here defines.exits registered
  obtain ⟨follows, ended⟩ := here.follows defines.exits
  -- the template is in no store before
  have before : Template.Lasts T k.store m.store := ⟨follows.continues, fun known => by
    rw [isNew] at known
    exact absurd known (Nat.lt_irrefl _)⟩
  have after := keeps.passes defines ended
  obtain ⟨u, steady⟩ := begins.steady hosts placed enters (m.store.scope T).vars
  rw [← isNew] at steady
  have steady := steady.passes defines
    (.ok ⟨running, before⟩ ((Template.validity_lawful T).scalar (v := .null) rfl))
  have lawful := Template.steadiness_lawful T (m.store.scope T).vars
  obtain ⟨w, -, steady⟩ := later.keeps lawful steady fun leads enters rest =>
    may_steadiness (fun _ disturbs => calm ⟨_, _, _, _, _, leads, enters, rest, disturbs⟩)
      fun name bases body line _ =>
        Nat.ne_of_gt (Nat.lt_of_lt_of_le isIn (after.later leads enters).1.scopes)
  have last := (steady.enters calls).2.1.running
  have vars := (last.vars ⟨f, constructs⟩).resolve_right kept
  intro member
  have copied := n.store.vars_instantiate (n.store.function f).name T
  exact congrArg (fun vars => vars.get? member) (copied.trans vars)

/-- A method of an instance that stands inside the template of another class. -/
def insideTemplate : String :=
  "class C \x7b var n=0; class N \x7b func inc() \x7b n+=1; \x7d \x7d \x7d C().N().inc(); C().n;"

/-- The method sets a variable of the template. -/
example : (Evaluator.run 200 insideTemplate ⟨#[], ".", []⟩ Machine.new).value?.map (·.1) =
    some (.ok (.int 1)) := by
  rw [Evaluator.run, show insideTemplate = .ofList _ from rfl, Lexer.tokenize_ofList]
  decide +kernel

/-- The constructor of a class in the body of another one is handed out of a call. -/
def handedOut : String :=
  "func f() \x7b class P \x7b class C \x7b var n=1; \x7d \x7d return P().C; \x7d f()().n;"

/-- The template goes with the scope of the call: the instance has no members. -/
example : (Evaluator.run 200 handedOut ⟨#[], ".", []⟩ Machine.new).value?.map (·.1) =
    some (.error (.running (.unknownMember "n" .object 1))) := by
  rw [Evaluator.run, show handedOut = .ofList _ from rfl, Lexer.tokenize_ofList]
  decide +kernel

/-- A method that is called as a function, without an instance. -/
def calledWithoutInstance : String :=
  "class C \x7b var n=0; func inc() \x7b n+=1; \x7d \x7d var g=C().inc; g(); var y=C().n;"

/-- The method runs inside the template, so a new instance does not start from the definition. -/
theorem run_calledWithoutInstance : ∃ v m,
    Evaluator.run 200 calledWithoutInstance ⟨#[], ".", []⟩ Machine.new = .value v m ∧
    m.store.findValue? m.global "y" = some (.int 1) := by
  have evaluated : ((Evaluator.run 200 calledWithoutInstance ⟨#[], ".", []⟩ Machine.new).value?.map
      fun p => p.2.store.findValue? p.2.global "y") = some (some (.int 1)) := by
    rw [Evaluator.run, show calledWithoutInstance = .ofList _ from rfl, Lexer.tokenize_ofList]
    decide +kernel
  obtain ⟨p, ends, found⟩ := Option.map_eq_some_iff.1 evaluated
  exact ⟨p.1, p.2, Outcome.eq_value_of_value? ends, found⟩

/-- A class with a method that changes a member, which is called on an instance before another
instance is made. -/
def boxes : String :=
  "class Box \x7b var v=1; func inc() \x7b v+=1; \x7d \x7d var a=Box(); a.inc(); Box();"

/-- Whether the definition of a class begins in a state. -/
def definesClass (name : String) (σ : State root) : Bool :=
  match σ.point? with
  | some (⟨.exec (.classDef defined _ _ _), _, _⟩, _) => defined == name
  | _ => false

/-- Whether a constructor is called in a state after a member of an instance has been set. -/
def constructsAfter (T o : ScopeRef) (member : String) (v : Value) (σ : State root) : Bool :=
  match σ.point? with
  | some (⟨.invoke f _ _ _, _, n⟩, _) => (n.store.function f).body.template? = some T ∧
    n.store.variableAt? o member = some v
  | _ => false

/-- Whether no call leads into a template in a state. -/
def calm (T : ScopeRef) (σ : State root) : Bool :=
  match σ.point? with
  | some (⟨.invoke f _ receiver _, _, m⟩, _) => !((m.store.function f).body.isScript &&
    decide (m.store.Disturbs T m.current f receiver))
  | _ => true

theorem not_disturbs_of_calm (isCalm : σ.calm T = true) (enters : σ.Enters x τ) :
    ¬ x.Disturbs T := by
  obtain ⟨w, around, m⟩ := x
  unfold Point.Disturbs
  split
  · rename_i called
    cases called
    simpa [calm, point?_of_enters enters, imp_iff_not_or] using isCalm
  · exact id

theorem exists_of_definesClass (defines : σ.definesClass name = true) :
    ∃ bases body line around m τ,
      σ.point? = some (⟨.exec (.classDef name bases body line), around, m⟩, τ) := by
  unfold definesClass at defines
  split at defines
  · rename_i found
    obtain rfl := beq_iff_eq.1 defines
    exact ⟨_, _, _, _, _, _, found⟩
  · cases defines

theorem exists_of_constructsAfter {o : ScopeRef} {member : String} {v : Value}
    (constructs : σ.constructsAfter T o member v = true) :
    ∃ f values receiver line around n τ,
      σ.point? = some (⟨.invoke f values receiver line, around, n⟩, τ) ∧
      (n.store.function f).body = .construct T ∧ n.store.variableAt? o member = some v := by
  unfold constructsAfter at constructs
  split at constructs
  · rename_i found
    obtain ⟨isConstructor, has⟩ := of_decide_eq_true constructs
    exact ⟨_, _, _, _, _, _, _, found, FunctionBody.eq_construct isConstructor, has⟩
  · cases constructs

/-- After a method has changed a member of an instance, another instance starts from the definition
of the class. -/
theorem startsFrom_boxes : ∃ (τ υ : State (.run boxes)) (f : FunctionRef) (values : List Value)
    (receiver : Option ScopeRef) (line : Line) (around : Setting) (n : Machine) (log : FileLog)
    (o : ScopeRef) (s : Store),
    (start (.run boxes) ⟨#[], ".", []⟩ .new).Leads log τ ∧
    τ.Enters ⟨.invoke f values receiver line, around, n⟩ υ ∧
    n.store.variableAt? ⟨2⟩ "v" = some (.int 2) ∧ s.variableAt? o "v" = some (.int 1) ∧
    ∀ (fuel : Nat) (values : List Value) (receiver : Option ScopeRef) (line : Line)
      (setting : Setting),
      Evaluator.invoke (fuel + 1) f values receiver line setting n =
        Eval.holding (.object o :: values) (Eval.nested (n.store.function f).name (fun v => [v])
          (Evaluator.initialized fuel o values line)) setting { n with store := s } := by
  have evaluated : (((start (.run boxes) ⟨#[], ".", []⟩ .new).first? (definesClass "Box")
      200).bind fun σ => (σ.skip? 40).bind fun e =>
      (e.2.first? (constructsAfter ⟨1⟩ ⟨2⟩ "v" (.int 2)) 400).map fun τ =>
        decide ((e.1.store.scope e.1.current).scopes.get? "Box" = some ⟨1⟩ ∧
          e.1.store.variableAt? ⟨1⟩ "v" = some (.int 1) ∧
          e.2.settles (calm ⟨1⟩) 400 = true ∧
          ∀ p ∈ τ.point?, p.1.machine.store.variableAt? ⟨1⟩ "v" = some (.int 1))) = some true := by
    decide +kernel
  obtain ⟨σ, found, evaluated⟩ := Option.bind_eq_some_iff.1 evaluated
  obtain ⟨⟨m, σ'⟩, skips, evaluated⟩ := Option.bind_eq_some_iff.1 evaluated
  obtain ⟨τ, reached, evaluated⟩ := Option.map_eq_some_iff.1 evaluated
  obtain ⟨registered, one, settles, still⟩ := of_decide_eq_true evaluated
  obtain ⟨begins, defines⟩ := leads_of_first? found
  obtain ⟨later, constructs⟩ := leads_of_first? reached
  obtain ⟨bases, body, line, around, k, σ₁, entry⟩ := exists_of_definesClass defines
  obtain ⟨f, values, receiver, line', around', n, υ, called, isConstructor, two⟩ :=
    exists_of_constructsAfter constructs
  obtain ⟨flow, passes⟩ := passes_of_skip? skips entry
  have calls := enters_of_point? called
  obtain ⟨-, o, s, runs, members⟩ := instance_startsFrom_definition rfl Machine.sound_new.placed
    begins passes registered later calls isConstructor
  refine ⟨τ, υ, f, values, receiver, line', around', n, _, o, s, begins.trans (passes.leads.trans
    later), calls, two, ?_, runs⟩
  rcases members with members | ⟨l, ρ, x, ρ', l', leads, enters, -, disturbs⟩ | ⟨empty, -⟩
  · exact (members "v").trans one
  · exact absurd disturbs (not_disturbs_of_calm (leads.settles settles) enters)
  · have holds : n.store.variableAt? ⟨1⟩ "v" = some (.int 1) := still _ called
    rw [Store.variableAt?, empty] at holds
    cases holds

end State

end Scriptlet
