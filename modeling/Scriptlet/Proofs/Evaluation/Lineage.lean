import Scriptlet.Proofs.Evaluation.Confined
import Scriptlet.Proofs.Evaluation.Homing
import Scriptlet.Proofs.Evaluation.Soundness
import Scriptlet.Proofs.Store.Lineage

/-!
# Evaluation leaves scopes in place

What evaluation opens it leaves again, so that it ends in the scope that it began in, and every
scope that was there before stands where it stood (`Machine.Follows`).
-/

namespace Scriptlet

/-- A machine with a sound store that has the scopes of the machine. -/
structure Machine.Placed (m : Machine) : Prop where
  store : m.store.Sound
  global : m.store.HasScope m.global
  current : m.store.HasScope m.current

namespace Machine

variable {m n : Machine} {t : Store} {o r : ScopeRef}

theorem Sound.placed (sound : m.Sound) : m.Placed := ⟨sound.store, sound.global, sound.current⟩

theorem Placed.put (placed : m.Placed) (sound : t.Sound) (grows : m.store.Grows t) :
    Machine.Placed { m with store := t } :=
  ⟨sound, placed.global.grows grows, placed.current.grows grows⟩

theorem Placed.enter (placed : m.Placed) (here : m.store.HasScope r) :
    Machine.Placed { m with current := r } :=
  ⟨placed.store, placed.global, here⟩

theorem loosens_close (sound : m.store.Sound) (held : List Value) (r : ScopeRef) :
    m.store.Loosens (m.close held r).store :=
  m.store_close held r (Store.Continues.refl m.store).loosens fun held' =>
    sound.loosens_leave held' r

theorem Placed.close (placed : m.Placed) (held : List Value) (r : ScopeRef) :
    (m.close held r).Placed := by
  have grows := (loosens_close placed.store held r).toGrows
  have sound : (m.close held r).store.Sound :=
    m.store_close held r placed.store fun held' => (placed.store.leave held' r).sound
  refine ⟨sound, ?_, ?_⟩
  · rw [(m.scopes_close held r).1]
    exact placed.global.grows grows
  · rw [(m.scopes_close held r).2]
    exact placed.current.grows grows

/-- A store continues when a scope is left that it did not have. -/
theorem continues_close {s : Store} (continues : s.Continues m.store) (sound : m.store.Sound)
    (fresh : s.scopes.size ≤ r.index) (held : List Value) :
    s.Continues (m.close held r).store :=
  m.store_close held r continues fun held' => continues.leave sound held' fresh

end Machine

/-! ## As a discipline -/

/-- The discipline of machines whose scopes stay in place. -/
def lineage : Discipline where
  toValidity := Store.lineage
  Extends := Store.Continues
  Known := Store.HasScope
  Current := Store.HasScope
  Opened := Store.HasNamed
  Writable s r _ := s.HasScope r
  Running := Machine.Placed
  Suits setting _ := setting.hosts = #[]
  line _ := True
  imports := True
  Moves := Store.Loosens

theorem lineage_lawful : lineage.Lawful where
  toLawful := Store.lineage_lawful
  extends_of_grows continues := continues
  moves_of_extends := Store.Continues.loosens
  moves_trans := Store.Loosens.trans
  moves_close {n} placed o held r :=
    Machine.loosens_close (m := { n with current := o }) placed.store held r
  extends_trans := Store.Continues.trans
  valid_extends continues valid := Store.Valid.grows continues.toGrows valid
  known_extends continues here := here.grows continues.toGrows
  current_extends _ continues here := here.grows continues.toGrows
  opened_extends _ continues opened := opened.grows continues.toGrows
  writable_extends continues here := here.grows continues.toGrows
  suits_extends _ none := none
  known_of_current here := here
  parent_of_current here := here
  known_of_writable here := here
  known_of_valid valid := valid.1
  current_of_opened opened := opened.here
  writable_of_current here _ := here
  writable_of_found sound here found := Store.Sound.findVariableScope? sound here found
  parent_callParent sound here receivers _ :=
    Store.Sound.callParent sound here (Store.Sound.function sound _) receivers
  setVariable sound _ valid := Store.Sound.continues_setVariable sound _ _ valid
  child {s r} sound here name c _ := by
    have scope := s.scope_child r name c
    exact ⟨Store.Sound.continues_child sound here name c, s.hasScope_newScope _,
      by rw [scope]; rfl, by rw [scope]; rfl⟩
  instantiate {s f template} sound body name :=
    ⟨Store.Sound.continues_instantiate sound
      (((Store.Sound.function sound f).template template body).1) name,
      s.valid_instantiate name template⟩
  defineFunction {s r statements} sound here _ name kind parameters := by
    refine Store.Sound.continues_defineFunction sound r ⟨fun q same => ?_, fun q never => ?_⟩
    · cases same
      exact here
    · cases never
  inherit sound _ base := Store.Sound.continues_inherit sound _ base
  defineClass {s r name template} sound _ opened := by
    rw [← opened.named]
    exact Store.Sound.continues_defineClass sound r opened.here opened.ofClass
  body _ _ st _ := soundness_admits st
  imported _ st := soundness_admits st
  sound placed := placed.store
  current placed := placed.current
  put placed becomes := placed.put becomes.sound becomes.grows.toGrows
  print placed _ := ⟨placed.store, placed.global, placed.current⟩
  enter placed opened := placed.enter opened.here
  hold none _ := none
  leave {s setting n o name r held} _ here continues fresh placed _ _ _ := by
    have returned := placed.enter (here.grows continues.toGrows)
    exact ⟨returned.close _ r,
      Machine.continues_close (m := { n with current := o }) continues placed.store fresh _,
      fun v valid => Store.Valid.grows
        (Machine.loosens_close (m := { n with current := o }) placed.store _ r).toGrows valid⟩
  leaveTemplate {setting n o name r held} here placed _ opened _ := by
    refine ⟨(placed.enter here).close _ r, ?_⟩
    rw [Machine.close_of_class { n with current := o } _ opened.ofClass]
    exact .refl n.store
  hosts {setting s i code call} none _ registered _ _ := by
    have empty : setting.hosts = #[] := none
    simp [empty] at registered

/-! ## Whole evaluations -/

/-- Whether a machine is as evaluation leaves another one. -/
structure Machine.Follows (m n : Machine) : Prop where
  placed : n.Placed
  continues : m.store.Continues n.store
  global : n.global = m.global
  current : n.current = m.current
  closings : ∀ c, m.closings c → n.closings c

namespace Evaluator

variable {α : Type} {x : Eval α} {P Q : α → Store → Prop} {setting : Setting} {m n : Machine}
  {log : FileLog} {r : Except RuntimeError α} {fuel : Nat}

/-- The place of a machine, where every scope may be the member storage of an instance. -/
def siteOf (m : Machine) : Site := ⟨m.store, m.current, fun _ => True⟩

theorem ready_siteOf (m : Machine) (hosts : setting.hosts = #[]) :
    (siteOf m).confinement.Ready setting m := by
  have known : m.store.InstancesIn (siteOf m).instances :=
    ⟨fun _ _ _ _ _ => trivial, fun _ _ _ _ _ => trivial,
      fun _ _ _ => ⟨fun _ _ => trivial, fun _ _ => trivial⟩, fun _ _ _ _ _ => trivial⟩
  refine ⟨⟨(siteOf m).confined_before known, .inl rfl⟩, fun code never => ?_⟩
  rw [hosts] at never
  simp at never

/-- Every value is valid at the place of a machine. -/
theorem takes_siteOf {w : Work} {s : Store} (takes : lineage.Takes w s) :
    (siteOf m).confinement.Takes w s := by
  have valid (t : Store) (v : Value) : (siteOf m).confinement.Valid t v := fun _ _ => .inr trivial
  have all (values : List Value) : (siteOf m).confinement.AllValid values s := fun v _ => valid s v
  have admits (e : Expr) : (siteOf m).confinement.Admits e :=
    Expr.eachLine_of_all (fun _ => trivial) e
  have admitsAll (statements : List Stmt) : (siteOf m).confinement.AdmitsAll statements :=
    fun st _ => soundness_admits st
  cases w with
  | eval e => exact admits e
  | arguments operands => exact fun e _ => admits e
  | call name operands line => exact ⟨fun e _ => admits e, trivial⟩
  | invoke f values receiver line => exact ⟨all values, fun _ _ => trivial, trivial⟩
  | body statements => exact admitsAll statements
  | initialized o values line => exact ⟨valid s _, all values, trivial⟩
  | apply values line => exact ⟨all values, trivial⟩
  | callMember receiver name values line => exact ⟨valid s _, all values, trivial⟩
  | hosted ref made => exact ⟨all _, trivial⟩
  | act action =>
    exact Host.Action.Plain.imp takes (fun s v _ => valid s v) fun _ _ => trivial
  | assignment op operands line => exact ⟨fun e _ => admits e, trivial⟩
  | place target line => exact ⟨admits target, trivial⟩
  | exec statement => exact soundness_admits statement
  | sequence last statements => exact ⟨valid s _, admitsAll statements⟩
  | repeated test iterate statements last =>
    exact ⟨fun e _ => admits e, fun e _ => admits e, admitsAll statements, valid s _⟩
  | each name statements last values => exact ⟨admitsAll statements, valid s _, all values⟩
  | choose branches => exact ⟨fun _ _ e _ => admits e, fun b _ => admitsAll b.body⟩
  | run source => exact takes.elim
  | script source => trivial
  | feed r tokens last => exact ⟨admitsAll _, valid s _⟩
  | executed statements last => exact ⟨admitsAll statements, valid s _⟩

end Evaluator

variable {setting : Setting} {m n : Machine} {log : FileLog} {x : Point}

/-- Whether evaluation may come to a point. -/
structure Point.Placed (x : Point) : Prop where
  machine : x.machine.Placed
  hosts : x.setting.hosts = #[]
  takes : lineage.Takes x.work x.machine.store

/-- The scope in which evaluation ends is not new, since it is the one before or the global one. -/
theorem Point.Placed.follows (placed : x.Placed) {r : Except RuntimeError x.work.Result}
    (ends : x.Exits log r n) :
    x.machine.Follows n ∧ lineage.Ended x.machine (lineage.Results x.work) r n := by
  obtain ⟨fuel, ends⟩ := ends
  have homes := (Work.related (Evaluator.homing fuel) x.work) ends
  have ended := (lineage_lawful.goes {} fuel x.work ⟨placed.machine, placed.hosts⟩
    placed.takes).exits ends
  let site := Evaluator.siteOf x.machine
  have stays := (site.confinement_lawful.goes {} fuel x.work
    (Evaluator.ready_siteOf x.machine placed.hosts) (Evaluator.takes_siteOf placed.takes)).exits ends
  refine ⟨⟨ended.turns.running, ended.turns.more, homes.global, ?_, homes.closings⟩, ended⟩
  rcases homes.current with same | global
  · exact same
  · rcases stays.turns.running.2 with same | new
    · exact same
    · rw [global] at new
      exact absurd placed.machine.global (Nat.not_lt_of_le new)

namespace Evaluator

variable {fuel : Nat}

theorem follows_eval (hosts : setting.hosts = #[]) (placed : m.Placed) {e : Expr}
    {r : Except RuntimeError Value} (ends : (eval fuel e).Exits setting m log r n) :
    m.Follows n ∧ ∀ v, r = .ok v → n.store.Valid v := by
  have here : Point.Placed ⟨.eval e, setting, m⟩ :=
    ⟨placed, hosts, Expr.eachLine_of_all (fun _ => trivial) e⟩
  obtain ⟨follows, ended⟩ := here.follows ⟨fuel, ends⟩
  exact ⟨follows, ended.value⟩

theorem follows_arguments (hosts : setting.hosts = #[]) (placed : m.Placed) {operands : List Expr}
    {r : Except RuntimeError (List Value)}
    (ends : (arguments fuel operands).Exits setting m log r n) :
    m.Follows n ∧ ∀ values, r = .ok values → ∀ v ∈ values, n.store.Valid v := by
  have here : Point.Placed ⟨.arguments operands, setting, m⟩ :=
    ⟨placed, hosts, fun e _ => Expr.eachLine_of_all (fun _ => trivial) e⟩
  obtain ⟨follows, ended⟩ := here.follows ⟨fuel, ends⟩
  exact ⟨follows, ended.value⟩

theorem follows_exec (hosts : setting.hosts = #[]) (placed : m.Placed) {statement : Stmt}
    {r : Except RuntimeError Flow} (ends : (exec fuel statement).Exits setting m log r n) :
    m.Follows n ∧ ∀ flow, r = .ok flow → n.store.Valid flow.value := by
  have here : Point.Placed ⟨.exec statement, setting, m⟩ :=
    ⟨placed, hosts, soundness_admits statement⟩
  obtain ⟨follows, ended⟩ := here.follows ⟨fuel, ends⟩
  exact ⟨follows, ended.value⟩

/-! ## Calls -/

/-- The scope of a call of a function that is written in a script, and the store in which it holds
the arguments. -/
def callScope (m : Machine) (f : Function) (receiver : Option ScopeRef) (values : List Value) :
    ScopeRef × Store :=
  let (r, s) := m.store.child (callParent f receiver m.store m.current) f.name false
  (r, bind s r f.parameters values)

/-- A function that is written in a script runs in the scope of its call. -/
theorem invoke_script {m : Machine} {ref : FunctionRef} {statements : List Stmt}
    (isScript : (m.store.function ref).body = .script statements) (fuel : Nat)
    (values : List Value) (receiver : Option ScopeRef) (line : Line) (setting : Setting) :
    invoke (fuel + 1) ref values receiver line setting m =
      Eval.holding (values.drop (m.store.function ref).parameters.length)
        (Eval.within (callScope m (m.store.function ref) receiver values).1 (fun v => [v])
          (body fuel statements)) setting
        { m with store := (callScope m (m.store.function ref) receiver values).2 } := by
  rw [invoke]
  dsimp only [Bind.bind, Eval.look, Outcome.andThen]
  rw [isScript]
  rfl

end Evaluator

/-- What a scope opens in: it is no class scope and stands in the scope that it was opened in. -/
structure Store.Opens (s : Store) (parent : ScopeRef) (opened : ScopeRef × Store) : Prop where
  becomes : Store.lineage.Becomes s opened.2
  here : opened.2.HasScope opened.1
  ofClass : (opened.2.scope opened.1).isClass = false
  parent : (opened.2.scope opened.1).parent = some parent

theorem Store.Sound.opens_child {s : Store} (sound : s.Sound) {r : ScopeRef} (here : s.HasScope r)
    (name : String) : s.Opens r (s.child r name false) := by
  have scope := s.scope_child r name false
  exact ⟨sound.continues_child here name false, s.hasScope_newScope _,
    by rw [scope]; rfl, by rw [scope]; rfl⟩

/-- The scope of a call stands where the body of the function looks up names. -/
theorem Machine.Placed.opens_call (placed : m.Placed) {f : FunctionRef}
    {receiver : Option ScopeRef} (receivers : ∀ o, receiver = some o → m.store.HasScope o)
    {values : List Value} (valid : ∀ v ∈ values, m.store.Valid v) :
    m.store.Opens (Evaluator.callParent (m.store.function f) receiver m.store m.current)
      (Evaluator.callScope m (m.store.function f) receiver values) := by
  have known := placed.store.callParent placed.current (placed.store.function f) receivers
  have child := placed.store.opens_child known (m.store.function f).name
  have opened : Store.HasNamed _ (m.store.function f).name false _ :=
    ⟨child.here, by rw [m.store.scope_child]; rfl, child.ofClass⟩
  have binds := lineage_lawful.bind child.becomes.sound opened (m.store.function f).parameters
    fun v member => (valid v member).grows child.becomes.grows.toGrows
  have later := opened.grows binds.grows.toGrows
  exact ⟨Store.lineage_lawful.andThen child.becomes binds, later.here, later.ofClass,
    (binds.grows.parent _ child.here).trans child.parent⟩

/-! ## States -/

namespace State

variable {root : Work} {source : String} {σ τ υ : State root} {s : Store}

/-- What evaluation enters in a call of a function that is written in a script. -/
theorem Enters.body {f : FunctionRef} {values : List Value} {receiver : Option ScopeRef}
    {line : Line} {statements : List Stmt} {y : Point}
    (calls : σ.Enters ⟨.invoke f values receiver line, setting, m⟩ τ)
    (isScript : (m.store.function f).body = .script statements) (enters : τ.Enters y υ) :
    y = ⟨.body statements,
      (setting.hold (values.drop (m.store.function f).parameters.length)).hold
        [.object m.current],
      { m with
        store := (Evaluator.callScope m (m.store.function f) receiver values).2
        current := (Evaluator.callScope m (m.store.function f) receiver values).1 }⟩ := by
  have level : (Work.invoke f values receiver line).level setting m =
      Stepwise.scriptCall (m.store.function f) statements values receiver setting m := by
    rw [Work.level, Stepwise.invoke]
    dsimp only [Bind.bind, Stepwise.lift, Eval.look, Level.ofOutcome, Level.andThen]
    rw [isScript]
  cases calls
  rw [level] at enters
  cases enters
  rfl

/-- Wherever a script comes to, every scope stands where it stood, unless evaluation has left it. -/
theorem Leads.keeps_lineage (hosts : setting.hosts = #[]) (placed : m.Placed)
    {σ : State (.run source)} (leads : (start (.run source) setting m).Leads log σ) :
    ∃ t, m.store.Loosens t ∧ σ.Keeps lineage t :=
  leads.keeps lineage_lawful
    (keeps_start lineage_lawful (fun placed => ⟨placed.store, placed.global, placed.global⟩) trivial
      ⟨placed, hosts⟩ source)
    fun _ _ _ => Discipline.Free.may {} _ _

theorem Keeps.placed (keeps : σ.Keeps lineage s) (enters : σ.Enters x τ) :
    s.Loosens x.machine.store ∧ x.Placed := by
  obtain ⟨loosens, ready, takes⟩ := keeps.enters enters
  exact ⟨loosens, ready.running, ready.setting, takes⟩

/-- What evaluation comes to later. -/
theorem Keeps.later (keeps : σ.Keeps lineage s) (leads : σ.Leads log τ) (enters : τ.Enters x υ) :
    s.Loosens x.machine.store ∧ x.Placed := by
  obtain ⟨t, loosens, keeps⟩ := leads.keeps lineage_lawful keeps
    fun _ _ _ => Discipline.Free.may {} _ _
  obtain ⟨later, placed⟩ := keeps.placed enters
  exact ⟨loosens.trans later, placed⟩

end State

end Scriptlet
