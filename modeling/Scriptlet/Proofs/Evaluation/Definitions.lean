import Scriptlet.Proofs.Evaluation.Lineage
import Scriptlet.Proofs.Evaluation.Steps
import Scriptlet.Proofs.Store.Definitions

/-!
# Definitions around an evaluation

What is evaluated in a scope that a store does not have yet keeps the definitions of that store,
however it ends and whatever it calls, imports or gives back to the host (`Evaluator.staysBeyond`).
There is one way out: a script that the host runs and that fails goes back to the global scope. So a
host that runs scripts must fail where they fail; one that runs none may do as it likes.
-/

namespace Scriptlet

variable {α β : Type} {s t : Store} {scripts : Prop} {m n : Machine} {setting : Setting}

/-- Whether an action of the host goes on after no failure that may have left its scope. That is
every failure if the host may run scripts, as `scripts` says, and else none. -/
def Host.Action.Orderly (scripts : Prop) : Host.Action → Prop
  | .finish _ => True
  | .look next => ∀ s, (next s).Orderly scripts
  | .file _ next => ∀ answer, (next answer).Orderly scripts
  | .assign _ _ _ next => next.Orderly scripts
  | .makeList _ next => ∀ v, (next v).Orderly scripts
  | .invoke _ _ _ _ next | .callMember _ _ _ _ next =>
    (∀ v, (next (.ok v)).Orderly scripts) ∧
      ∀ e, (¬ scripts ∧ (next (.error e)).Orderly scripts) ∨ ∃ f, next (.error e) = .error f
  | .runScript _ next =>
    scripts ∧ (∀ v, (next (.ok v)).Orderly scripts) ∧ ∀ e, ∃ f, next (.error e) = .error f

/-- Whether all functions of the host are orderly. -/
def Setting.Orderly (setting : Setting) (scripts : Prop) : Prop :=
  ∀ code ∈ setting.hosts, ∀ call, (code call).Orderly scripts

/-! ## Machines -/

namespace Machine

/-- Whether evaluation goes on in a scope that a store does not have, and has kept the definitions
of that store. -/
structure Beyond (s : Store) (m : Machine) : Prop where
  kept : s.KeepsDefinitions m.store
  current : s.scopes.size ≤ m.current.index

/-- Whether evaluation that has failed has kept the definitions of a store; it is still in a scope
that the store does not have, unless a script of the host has failed. -/
structure Stopped (s : Store) (scripts : Prop) (m : Machine) : Prop where
  kept : s.KeepsDefinitions m.store
  current : ¬ scripts → s.scopes.size ≤ m.current.index

theorem Beyond.stopped (beyond : m.Beyond s) : m.Stopped s scripts :=
  ⟨beyond.kept, fun _ => beyond.current⟩

theorem Beyond.put (beyond : m.Beyond s) (kept : s.KeepsDefinitions t) :
    Beyond s { m with store := t } :=
  ⟨kept, beyond.current⟩

/-- A scope that the store does not have is left. -/
theorem kept_close {r : ScopeRef} (kept : s.KeepsDefinitions m.store)
    (new : s.scopes.size ≤ r.index) (held : List Value) :
    s.KeepsDefinitions (m.close held r).store :=
  m.store_close held r kept fun held' => kept.leave new held'

/-- A scope that is left for one that the store does not have either. -/
theorem Beyond.close {o r : ScopeRef} (kept : s.KeepsDefinitions m.store)
    (outer : s.scopes.size ≤ o.index) (new : s.scopes.size ≤ r.index) (held : List Value) :
    ({ m with current := o }.close held r).Beyond s := by
  refine ⟨kept_close (m := { m with current := o }) kept new held, ?_⟩
  rw [(Machine.scopes_close { m with current := o } held r).2]
  exact outer

end Machine

/-! ## Evaluations -/

namespace Eval

/-- Whether an outcome keeps the definitions of a store, and leaves evaluation in a scope that the
store does not have. -/
def Remains (s : Store) (scripts : Prop) (o : Outcome α) : Prop :=
  o.Reaches (fun _ n => n.Beyond s) (fun _ n => n.Stopped s scripts) fun _ => True

/-- Whether an evaluation that begins in a scope which a store does not have keeps the definitions
of that store. -/
def StaysBeyond (s : Store) (scripts : Prop) (x : Eval α) : Prop :=
  ∀ setting m, setting.Orderly scripts → m.Beyond s → Remains s scripts (x setting m)

/-- The same of an evaluation that begins where another one has failed. -/
def StaysStopped (s : Store) (scripts : Prop) (x : Eval α) : Prop :=
  ∀ setting m, setting.Orderly scripts → m.Stopped s scripts → Remains s scripts (x setting m)

/-- What holds of the machine where an evaluation has ended, with a value or an error. -/
def Left (s : Store) (scripts : Prop) : Except RuntimeError α → Machine → Prop
  | .ok _, n => n.Beyond s
  | .error _, n => n.Stopped s scripts

namespace StaysBeyond

variable {x : Eval α} {f : α → Eval β}

theorem pure (a : α) : StaysBeyond s scripts (Pure.pure a : Eval α) := fun _ _ _ beyond => beyond

theorem fail (e : RuntimeError) : StaysBeyond s scripts (Eval.fail e : Eval α) :=
  fun _ _ _ beyond => beyond.stopped

theorem cutOff : StaysBeyond s scripts (Eval.cutOff : Eval α) := fun _ _ _ _ => trivial

theorem bind (first : StaysBeyond s scripts x) (next : ∀ a, StaysBeyond s scripts (f a)) :
    StaysBeyond s scripts (x >>= f) := fun setting m orderly beyond =>
  (first setting m orderly beyond).andThen fun a n beyond => next a setting n orderly beyond

theorem look (f : Store → ScopeRef → α) : StaysBeyond s scripts (Eval.look f) :=
  fun _ _ _ beyond => beyond

theorem check (f : Store → Except RuntimeError α) : StaysBeyond s scripts (Eval.check f) := by
  intro setting m _ beyond
  unfold Eval.check
  split
  · exact beyond
  · exact beyond.stopped

theorem change {f : Store → α × Store}
    (keeps : ∀ {t}, s.KeepsDefinitions t → s.KeepsDefinitions (f t).2) :
    StaysBeyond s scripts (Eval.change f) := fun _ _ _ beyond => beyond.put (keeps beyond.kept)

theorem changeHere {f : Store → ScopeRef → Store} (keeps : ∀ {t r}, s.KeepsDefinitions t →
    s.scopes.size ≤ r.index → s.KeepsDefinitions (f t r)) :
    StaysBeyond s scripts (Eval.changeHere f) :=
  fun _ _ _ beyond => beyond.put (keeps beyond.kept beyond.current)

theorem attempt {f : Store → Except RuntimeError (α × Store)}
    (keeps : ∀ {t r}, s.KeepsDefinitions t → f t = .ok r → s.KeepsDefinitions r.2) :
    StaysBeyond s scripts (Eval.attempt f) := by
  intro setting m _ beyond
  unfold Eval.attempt
  split
  · next found => exact beyond.put (keeps beyond.kept found)
  · exact beyond.stopped

theorem define (name : String) (v : Value) : StaysBeyond s scripts (Eval.define name v) :=
  changeHere fun kept _ => kept.setVariable _ name v

theorem ask (request : FileRequest) : StaysBeyond s scripts (Eval.ask request) :=
  fun _ _ _ beyond _ => beyond

theorem print (text : String) : StaysBeyond s scripts (Eval.print text) :=
  fun _ _ _ beyond => ⟨beyond.kept, beyond.current⟩

/-- What depends on the functions of the host. -/
theorem withSetting {f : Setting → Eval α}
    (next : ∀ got, got.Orderly scripts → StaysBeyond s scripts (f got)) :
    StaysBeyond s scripts (Eval.setting >>= f) :=
  fun got m orderly beyond => next got orderly got m orderly beyond

theorem holding (values : List Value) (inside : StaysBeyond s scripts x) :
    StaysBeyond s scripts (Eval.holding values x) :=
  fun setting m orderly beyond => inside (setting.hold values) m orderly beyond

theorem resolved {x : Eval Value} (inside : StaysBeyond s scripts x) (line : Line) :
    StaysBeyond s scripts (x.resolved line) := inside.bind fun _ => check _

/-- An evaluation in another scope that the store does not have. -/
theorem within {r : ScopeRef} (new : s.scopes.size ≤ r.index) (results : α → List Value)
    (inside : StaysBeyond s scripts x) : StaysBeyond s scripts (Eval.within r results x) := by
  intro setting m orderly beyond
  have entered : Machine.Beyond s { m with current := r } := ⟨beyond.kept, new⟩
  refine Outcome.Reaches.finish (inside (setting.hold _) _ orderly entered)
    (fun _ n after => ?_) (fun _ n after => ?_) fun _ _ => trivial
  · exact Machine.Beyond.close after.kept beyond.current new _
  · exact (Machine.Beyond.close after.kept beyond.current new _).stopped

/-- What goes on with a new scope. -/
theorem child (parent : ScopeRef) (name : String) (isClass : Bool) {f : ScopeRef → Eval α}
    (next : ∀ r : ScopeRef, s.scopes.size ≤ r.index → StaysBeyond s scripts (f r)) :
    StaysBeyond s scripts (Eval.child parent name isClass >>= f) := by
  intro setting m orderly beyond
  obtain ⟨kept, new⟩ : s.KeepsDefinitions (m.store.child parent name isClass).2 ∧
      s.scopes.size ≤ (m.store.child parent name isClass).1.index := beyond.kept.newScope rfl
  exact next _ new setting _ orderly (beyond.put kept)

theorem nested (name : String) (results : α → List Value) (inside : StaysBeyond s scripts x) :
    StaysBeyond s scripts (Eval.nested name results x) :=
  (look _).bind fun current => child current name false fun _ new => within new results inside

/-- What is left of an evaluation whose error has become a value. -/
theorem caught (inside : StaysBeyond s scripts x) (orderly : setting.Orderly scripts)
    (beyond : m.Beyond s) : (Eval.catching x setting m).Reaches (Left s scripts)
      (fun _ n => n.Stopped s scripts) fun _ => True :=
  Outcome.Reaches.caught (inside setting m orderly beyond) (fun _ _ after => after)
    fun _ _ after => after

/-- What goes on after an evaluation, whether that has failed or not. -/
theorem catching {f : Except RuntimeError α → Eval β} (first : StaysBeyond s scripts x)
    (next : ∀ a, StaysBeyond s scripts (f (.ok a)))
    (failed : ∀ e, StaysStopped s scripts (f (.error e))) :
    StaysBeyond s scripts (Eval.catching x >>= f) := by
  intro setting m orderly beyond
  refine (first.caught orderly beyond).andThen fun r n after => ?_
  cases r with
  | ok a => exact next a setting n orderly after
  | error e => exact failed e setting n orderly after

end StaysBeyond

theorem StaysStopped.fail (e : RuntimeError) : StaysStopped s scripts (Eval.fail e : Eval α) :=
  fun _ _ _ stopped => stopped

theorem StaysStopped.cutOff : StaysStopped s scripts (Eval.cutOff : Eval α) :=
  fun _ _ _ _ => trivial

/-- Without scripts, nothing leaves its scope when it fails. -/
theorem StaysBeyond.stopped {x : Eval α} (stays : StaysBeyond s scripts x) (none : ¬ scripts) :
    StaysStopped s scripts x :=
  fun setting m orderly stopped => stays setting m orderly ⟨stopped.kept, stopped.current none⟩

/-- Whether a script keeps the definitions of a store, and ends in a scope that the store does not
have unless it fails. -/
def ScriptStays (s : Store) (x : Eval (Except Error Value)) : Prop :=
  ∀ setting m, setting.Orderly True → m.Beyond s → (x setting m).Reaches
    (fun r n => (∃ v, r = .ok v) ∧ n.Beyond s ∨ (∃ e, r = .error e) ∧ s.KeepsDefinitions n.store)
    (fun _ n => n.Stopped s True) fun _ => True

theorem ScriptStays.asScript {x : Eval (Except SyntaxError Value)} (stays : StaysBeyond s True x) :
    ScriptStays s (Eval.asScript x) := by
  intro setting m orderly beyond
  refine (stays.caught orderly beyond).andThen fun r n after => ?_
  match r with
  | .ok (.ok v) => exact .inl ⟨⟨v, rfl⟩, after⟩
  | .ok (.error e) => exact .inr ⟨⟨.reading e, rfl⟩, (show n.Beyond s from after).kept⟩
  | .error e => exact .inr ⟨⟨.running e, rfl⟩, (show n.Stopped s True from after).kept⟩

end Eval

/-! ## Operations on the store -/

namespace Store.KeepsDefinitions

open Evaluator

variable {u : Store} {v w : Value} {line : Line} {p : Place}

theorem bind (kept : s.KeepsDefinitions t) (r : ScopeRef) (parameters : List String)
    (arguments : List Value) : s.KeepsDefinitions (Evaluator.bind t r parameters arguments) := by
  induction parameters generalizing t arguments with
  | nil => exact kept
  | cons p rest ih => exact ih (kept.setVariable r p _) _

theorem combined (kept : s.KeepsDefinitions t) {op : AssignOperator}
    (h : Evaluator.combined t p op v line = .ok (w, u)) : s.KeepsDefinitions u := by
  unfold Evaluator.combined at h
  split at h
  · cases h
    exact kept
  · obtain ⟨old, -, h⟩ := bind_eq_ok_iff.1 h
    exact (s.keptDefinitions_lawful.append kept trivial trivial h).becomes.sound
  · obtain ⟨old, -, h⟩ := bind_eq_ok_iff.1 h
    exact (s.keptDefinitions_lawful.binary kept trivial trivial h).becomes.sound

theorem write (kept : s.KeepsDefinitions t) (h : p.write t v line = .ok u) :
    s.KeepsDefinitions u := by
  induction p generalizing v with
  | named r name =>
    cases h
    exact kept.setVariable r name v
  | element collection key =>
    exact (s.keptDefinitions_lawful.setElement kept trivial trivial trivial h).sound
  | component container i ih =>
    obtain ⟨x, -, h⟩ := bind_eq_ok_iff.1 h
    obtain ⟨x, -, h⟩ := bind_eq_ok_iff.1 h
    obtain ⟨x, -, h⟩ := bind_eq_ok_iff.1 h
    dsimp only at h
    split at h
    · exact ih h
    · cases h
  | temporary x => cases h

theorem inheritAll (kept : s.KeepsDefinitions t) {current template : ScopeRef}
    (new : s.scopes.size ≤ template.index) {bases : List String}
    (h : t.inheritAll current template line bases = .ok u) : s.KeepsDefinitions u := by
  induction bases generalizing t with
  | nil =>
    cases h
    exact kept
  | cons name rest ih =>
    unfold Store.inheritAll at h
    split at h
    · cases h
    · next base _ => exact ih (kept.inherit new base) h

end Store.KeepsDefinitions

/-! ## The evaluator -/

namespace Evaluator

open Eval (StaysBeyond StaysStopped ScriptStays)

variable {fuel : Nat}

/-- Every function of the evaluator, with some number of steps. -/
structure Stays (s : Store) (scripts : Prop) (fuel : Nat) : Prop where
  eval : ∀ e, StaysBeyond s scripts (eval fuel e)
  arguments : ∀ operands, StaysBeyond s scripts (arguments fuel operands)
  call : ∀ name operands line, StaysBeyond s scripts (call fuel name operands line)
  invoke : ∀ f values receiver line, StaysBeyond s scripts (invoke fuel f values receiver line)
  body : ∀ statements, StaysBeyond s scripts (body fuel statements)
  initialized : ∀ o values line, StaysBeyond s scripts (initialized fuel o values line)
  apply : ∀ values line, StaysBeyond s scripts (apply fuel values line)
  callMember : ∀ receiver name values line,
    StaysBeyond s scripts (callMember fuel receiver name values line)
  hosted : ∀ ref call, StaysBeyond s scripts (hosted fuel ref call)
  act : ∀ action : Host.Action, action.Orderly scripts → StaysBeyond s scripts (act fuel action)
  assignment : ∀ op operands line, StaysBeyond s scripts (assignment fuel op operands line)
  place : ∀ target line, StaysBeyond s scripts (place fuel target line)
  exec : ∀ statement, StaysBeyond s scripts (exec fuel statement)
  sequence : ∀ last statements, StaysBeyond s scripts (sequence fuel last statements)
  repeated : ∀ test iterate statements last,
    StaysBeyond s scripts (repeated fuel test iterate statements last)
  each : ∀ name statements last values,
    StaysBeyond s scripts (each fuel name statements last values)
  choose : ∀ branches, StaysBeyond s scripts (choose fuel branches)
  run : scripts → ∀ source, ScriptStays s (run fuel source)
  script : ∀ source, StaysBeyond s scripts (script fuel source)
  feed : ∀ r tokens last, StaysBeyond s scripts (feed fuel r tokens last)
  executed : ∀ statements last, StaysBeyond s scripts (executed fuel statements last)

theorem Stays.zero (s : Store) (scripts : Prop) : Stays s scripts 0 where
  eval _ := by rw [Evaluator.eval]; exact .cutOff
  arguments _ := by rw [Evaluator.arguments]; exact .cutOff
  call _ _ _ := by rw [Evaluator.call]; exact .cutOff
  invoke _ _ _ _ := by rw [Evaluator.invoke]; exact .cutOff
  body _ := by rw [Evaluator.body]; exact .cutOff
  initialized _ _ _ := by rw [Evaluator.initialized]; exact .cutOff
  apply _ _ := by rw [Evaluator.apply]; exact .cutOff
  callMember _ _ _ _ := by rw [Evaluator.callMember]; exact .cutOff
  hosted _ _ := by rw [Evaluator.hosted]; exact .cutOff
  act _ _ := by rw [Evaluator.act]; exact .cutOff
  assignment _ _ _ := by rw [Evaluator.assignment]; exact .cutOff
  place _ _ := by rw [Evaluator.place]; exact .cutOff
  exec _ := by rw [Evaluator.exec]; exact .cutOff
  sequence _ _ := by rw [Evaluator.sequence]; exact .cutOff
  repeated _ _ _ _ := by rw [Evaluator.repeated]; exact .cutOff
  each _ _ _ _ := by rw [Evaluator.each]; exact .cutOff
  choose _ := by rw [Evaluator.choose]; exact .cutOff
  run _ _ := by rw [Evaluator.run]; exact fun _ _ _ _ => trivial
  script _ := by rw [Evaluator.script]; exact .cutOff
  feed _ _ _ := by rw [Evaluator.feed]; exact .cutOff
  executed _ _ := by rw [Evaluator.executed]; exact .cutOff

namespace Stays

variable (stays : Stays s scripts fuel)
include stays

/-! ### Expressions -/

theorem eval_succ (e : Expr) : StaysBeyond s scripts (Evaluator.eval (fuel + 1) e) := by
  cases e with
  | constant value line =>
    simp only [Evaluator.eval]
    refine .change fun kept => ?_
    exact (s.keptDefinitions_lawful.ofConstant kept value).becomes.sound
  | named name line =>
    simp only [Evaluator.eval]
    exact .look _
  | define name line =>
    simp only [Evaluator.eval]
    exact (StaysBeyond.define name .null).bind fun _ => .pure _
  | list elements line =>
    simp only [Evaluator.eval]
    exact (stays.arguments elements).bind fun _ => .change fun kept => kept.of_scopes rfl
  | call name operands precedence line =>
    simp only [Evaluator.eval]
    split
    · exact stays.assignment _ operands line
    · exact stays.call name operands line

theorem arguments_succ (operands : List Expr) :
    StaysBeyond s scripts (Evaluator.arguments (fuel + 1) operands) := by
  cases operands with
  | nil =>
    simp only [Evaluator.arguments]
    exact .pure _
  | cons e rest =>
    simp only [Evaluator.arguments]
    refine ((stays.eval e).resolved e.line).bind fun v => ?_
    exact (StaysBeyond.holding [v] (stays.arguments rest)).bind fun _ => .pure _

theorem call_succ (name : String) (operands : List Expr) (line : Line) :
    StaysBeyond s scripts (Evaluator.call (fuel + 1) name operands line) := by
  simp only [Evaluator.call]
  refine (StaysBeyond.look _).bind fun target => ?_
  refine (StaysBeyond.holding _ (stays.arguments operands)).bind fun values => ?_
  split
  · exact .holding _ (stays.invoke _ _ none line)
  · exact .holding _ (stays.invoke _ _ none line)
  · exact .fail _

/-! ### Calls -/

theorem invoke_succ (ref : FunctionRef) (values : List Value) (receiver : Option ScopeRef)
    (line : Line) : StaysBeyond s scripts (Evaluator.invoke (fuel + 1) ref values receiver line) := by
  simp only [Evaluator.invoke]
  refine (StaysBeyond.look _).bind fun f => ?_
  split
  · refine (StaysBeyond.look _).bind fun parent => ?_
    refine .child parent f.name false fun r new => ?_
    refine (StaysBeyond.change fun kept => kept.bind r f.parameters values).bind fun _ => ?_
    exact .holding _ (.within new _ (stays.body _))
  · refine (StaysBeyond.look _).bind fun output => ?_
    refine (StaysBeyond.attempt fun kept called => ?_).bind fun v => ?_
    · exact (s.keptDefinitions_lawful.builtinCall kept (fun _ _ => trivial) called).becomes.sound
    · split
      · exact (StaysBeyond.print _).bind fun _ => .pure _
      · exact .pure _
  · exact .holding _ (.nested _ _ (stays.apply values line))
  · refine (StaysBeyond.change fun kept => (kept.newScope rfl).1).bind fun o => ?_
    exact .holding _ (.nested _ _ (stays.initialized o values line))
  · exact (StaysBeyond.look _).bind fun current => .holding _ (stays.hosted _ _)
  · refine .holding _ (.nested _ _ ?_)
    exact (StaysBeyond.look _).bind fun current => stays.hosted _ _

theorem body_succ (statements : List Stmt) :
    StaysBeyond s scripts (Evaluator.body (fuel + 1) statements) := by
  cases statements with
  | nil =>
    simp only [Evaluator.body]
    exact .pure _
  | cons st rest =>
    simp only [Evaluator.body]
    refine (stays.exec st).bind fun flow => ?_
    cases flow with
    | normal v => exact stays.body rest
    | ret v => exact .pure _

theorem initialized_succ (o : ScopeRef) (values : List Value) (line : Line) :
    StaysBeyond s scripts (Evaluator.initialized (fuel + 1) o values line) := by
  simp only [Evaluator.initialized]
  refine (StaysBeyond.look _).bind fun found => ?_
  cases found with
  | none => exact .pure _
  | some f =>
    exact (StaysBeyond.holding _ (stays.invoke f values (some o) line)).bind fun _ => .pure _

theorem apply_succ (values : List Value) (line : Line) :
    StaysBeyond s scripts (Evaluator.apply (fuel + 1) values line) := by
  unfold Evaluator.apply
  split
  · exact stays.callMember _ _ _ line
  · refine (StaysBeyond.look _).bind fun kind => ?_
    split
    · exact stays.invoke _ _ _ line
    · exact stays.invoke _ _ _ line
  · exact .fail _
  · exact .fail _
  · exact .fail _

theorem callMember_succ (receiver : Value) (name : String) (values : List Value) (line : Line) :
    StaysBeyond s scripts (Evaluator.callMember (fuel + 1) receiver name values line) := by
  simp only [Evaluator.callMember]
  refine (StaysBeyond.look _).bind fun own => ?_
  cases own with
  | some found => exact .holding _ (stays.invoke _ _ _ line)
  | none =>
    refine (StaysBeyond.look _).bind fun current => ?_
    refine (StaysBeyond.check _).bind fun f => ?_
    refine (StaysBeyond.look _).bind fun besides => ?_
    split
    · exact .holding _ (stays.invoke _ _ _ line)
    · exact .holding _ (stays.invoke _ _ _ line)

/-! ### The host -/

theorem hosted_succ (ref : HostRef) (call : Host.Call) :
    StaysBeyond s scripts (Evaluator.hosted (fuel + 1) ref call) := by
  simp only [Evaluator.hosted]
  refine .withSetting fun got orderly => ?_
  split
  · next code registered =>
    exact stays.act _ (orderly code (Array.mem_of_getElem? registered) call)
  · exact .pure _

omit stays in
/-- An action that ends in an error fails, wherever it is. -/
theorem stopped_error (e : RuntimeError) :
    StaysStopped s scripts (Evaluator.act fuel (.error e)) := by
  cases fuel with
  | zero =>
    rw [Evaluator.act]
    exact .cutOff
  | succ fuel =>
    rw [Host.Action.error, Evaluator.act]
    exact .fail e

/-- What follows a call by the host. -/
theorem act_called {x : Eval Value} (first : StaysBeyond s scripts x)
    {next : Except RuntimeError Value → Host.Action} (done : ∀ v, (next (.ok v)).Orderly scripts)
    (failed : ∀ e, (¬ scripts ∧ (next (.error e)).Orderly scripts) ∨
      ∃ f, next (.error e) = .error f) :
    StaysBeyond s scripts (Eval.catching x >>= fun r => Evaluator.act fuel (next r)) := by
  refine first.catching (fun v => stays.act _ (done v)) fun e => ?_
  rcases failed e with ⟨none, orderly⟩ | ⟨f, same⟩
  · exact (stays.act _ orderly).stopped none
  · rw [same]
    exact stopped_error f

theorem act_succ {action : Host.Action} (orderly : action.Orderly scripts) :
    StaysBeyond s scripts (Evaluator.act (fuel + 1) action) := by
  cases action with
  | finish result =>
    cases result with
    | ok v =>
      simp only [Evaluator.act]
      exact .pure _
    | error e =>
      simp only [Evaluator.act]
      exact .fail _
  | look next =>
    simp only [Evaluator.act]
    exact (StaysBeyond.look _).bind fun s => stays.act _ (orderly s)
  | file request next =>
    simp only [Evaluator.act]
    exact (StaysBeyond.ask _).bind fun answer => stays.act _ (orderly answer)
  | assign r name v next =>
    simp only [Evaluator.act]
    exact (StaysBeyond.change fun kept => kept.setVariable r name v).bind fun _ =>
      stays.act _ orderly
  | makeList items next =>
    simp only [Evaluator.act]
    exact (StaysBeyond.change fun kept => kept.of_scopes rfl).bind fun v => stays.act _ (orderly v)
  | invoke f values receiver line next =>
    simp only [Evaluator.act]
    exact stays.act_called (stays.invoke f values receiver line) orderly.1 orderly.2
  | callMember receiver name values line next =>
    simp only [Evaluator.act]
    exact stays.act_called (stays.callMember receiver name values line) orderly.1 orderly.2
  | runScript source next =>
    simp only [Evaluator.act]
    obtain ⟨may, done, failed⟩ := orderly
    obtain rfl : scripts = True := eq_true may
    intro setting m orderly beyond
    refine (stays.run may source setting m orderly beyond).andThen fun r n after => ?_
    rcases after with ⟨⟨v, rfl⟩, beyond⟩ | ⟨⟨e, rfl⟩, kept⟩
    · exact stays.act _ (done v) setting n orderly beyond
    · obtain ⟨f, same⟩ := failed e
      have stopped : n.Stopped s True := ⟨kept, fun never => absurd trivial never⟩
      simp only [same]
      exact stopped_error f setting n orderly stopped

/-! ### Assignments -/

omit stays in
theorem store (p : Place) (op : AssignOperator) (v : Value) (line : Line) :
    StaysBeyond s scripts (Evaluator.store p op v line) := by
  refine (StaysBeyond.attempt fun kept found => kept.combined found).bind fun w => ?_
  refine (StaysBeyond.attempt fun kept found => ?_).bind fun _ => .pure _
  obtain ⟨t, writes, rfl⟩ := map_eq_ok_iff.1 found
  exact kept.write writes

theorem assignment_succ (op : AssignOperator) (operands : List Expr) (line : Line) :
    StaysBeyond s scripts (Evaluator.assignment (fuel + 1) op operands line) := by
  unfold Evaluator.assignment
  split
  · exact (stays.place _ line).bind fun p => store p op _ line
  · refine (stays.place _ line).bind fun p => ?_
    refine (StaysBeyond.holding _ ((stays.eval _).resolved _)).bind fun v => ?_
    exact store p op v line
  · exact .fail _

theorem place_succ (target : Expr) (line : Line) :
    StaysBeyond s scripts (Evaluator.place (fuel + 1) target line) := by
  unfold Evaluator.place
  split
  · exact .look _
  · exact (stays.eval _).bind fun _ => .look _
  · refine (stays.place _ line).bind fun container => ?_
    exact (StaysBeyond.holding _ ((stays.eval _).resolved _)).bind fun key => .check _
  · refine (stays.eval target).bind fun v => ?_
    split
    · exact .pure _
    · exact .pure _

/-! ### Statements -/

omit stays in
theorem imported (path : String) (line : Line) {x : Eval (Except SyntaxError Value)}
    (inside : StaysBeyond s scripts x) : StaysBeyond s scripts (Evaluator.imported path line x) := by
  refine inside.catching (fun result => ?_) fun e => .fail _
  cases result with
  | ok v => exact .pure _
  | error e => exact .fail _

theorem exec_classDef (name : String) (bases : List String) (statements : List Stmt) (line : Line) :
    StaysBeyond s scripts (Evaluator.exec (fuel + 1) (.classDef name bases statements line)) := by
  simp only [Evaluator.exec]
  refine (StaysBeyond.look _).bind fun current => ?_
  refine .child current name true fun template new => ?_
  refine (StaysBeyond.attempt fun kept found => ?_).bind fun _ => ?_
  · obtain ⟨t, inherits, rfl⟩ := map_eq_ok_iff.1 found
    exact kept.inheritAll new inherits
  · refine (StaysBeyond.within new _ (stays.sequence .null statements)).bind fun _ => ?_
    exact (StaysBeyond.changeHere fun kept here => kept.defineClass here new name).bind
      fun _ => .pure _

theorem exec_succ (statement : Stmt) :
    StaysBeyond s scripts (Evaluator.exec (fuel + 1) statement) := by
  cases statement with
  | expr e =>
    simp only [Evaluator.exec]
    exact (stays.eval e).bind fun v => .pure _
  | define name e line =>
    simp only [Evaluator.exec]
    refine ((stays.eval e).resolved e.line).bind fun v => ?_
    refine (StaysBeyond.change fun kept => ?_).bind fun v => ?_
    · exact (s.keptDefinitions_lawful.duplicate kept trivial).becomes.sound
    · exact (StaysBeyond.define name v).bind fun _ => .pure _
  | function name parameters statements line =>
    simp only [Evaluator.exec]
    exact (StaysBeyond.changeHere fun kept here => kept.defineFunction here _).bind fun _ => .pure _
  | classDef name bases statements line => exact stays.exec_classDef name bases statements line
  | block statements line =>
    simp only [Evaluator.exec]
    exact .nested _ _ (stays.sequence .null statements)
  | ret value line =>
    cases value with
    | none =>
      simp only [Evaluator.exec]
      exact .pure _
    | some e =>
      simp only [Evaluator.exec]
      exact ((stays.eval e).resolved e.line).bind fun v => .pure _
  | loop init test iterate statements line =>
    cases init with
    | none =>
      simp only [Evaluator.exec]
      exact .nested _ _ (stays.repeated test iterate statements .null)
    | some e =>
      simp only [Evaluator.exec]
      exact .nested _ _ ((stays.eval e).bind fun _ => stays.repeated test iterate statements .null)
  | foreach name source statements line =>
    simp only [Evaluator.exec]
    refine ((stays.eval source).resolved source.line).bind fun v => ?_
    refine (StaysBeyond.check _).bind fun values => ?_
    exact .nested _ _ (stays.each name statements .null values)
  | choice branches line =>
    simp only [Evaluator.exec]
    exact stays.choose branches
  | importFile path line =>
    simp only [Evaluator.exec]
    refine .withSetting fun got _ => ?_
    refine (StaysBeyond.ask _).bind fun answer => ?_
    cases answer with
    | error reason => exact .fail _
    | ok source => exact (imported path line (stays.script source)).bind fun v => .pure _

theorem sequence_succ (last : Value) (statements : List Stmt) :
    StaysBeyond s scripts (Evaluator.sequence (fuel + 1) last statements) := by
  cases statements with
  | nil =>
    simp only [Evaluator.sequence]
    exact .pure _
  | cons st rest =>
    simp only [Evaluator.sequence]
    refine (StaysBeyond.holding [last] (stays.exec st)).bind fun flow => ?_
    cases flow with
    | normal v => exact stays.sequence v rest
    | ret v => exact .pure _

theorem repeated_succ (test iterate : Option Expr) (statements : List Stmt) (last : Value) :
    StaysBeyond s scripts (Evaluator.repeated (fuel + 1) test iterate statements last) := by
  unfold Evaluator.repeated
  -- what follows the test, whatever it gives
  extract_lets following
  have round (goes : Bool) : StaysBeyond s scripts (following goes) := by
    cases goes with
    | false => exact .pure _
    | true =>
      refine (StaysBeyond.holding [last] (stays.sequence .null statements)).bind fun flow => ?_
      cases flow with
      | ret v => exact .pure _
      | normal v =>
        cases iterate with
        | none => exact stays.repeated test none statements v
        | some e =>
          refine (StaysBeyond.holding [v] (stays.eval e)).bind fun _ => ?_
          exact stays.repeated test (some e) statements v
  cases test with
  | none => exact round true
  | some e =>
    refine (StaysBeyond.holding [last] ((stays.eval e).resolved e.line)).bind fun v => ?_
    exact (StaysBeyond.look _).bind round

theorem each_succ (name : String) (statements : List Stmt) (last : Value) (values : List Value) :
    StaysBeyond s scripts (Evaluator.each (fuel + 1) name statements last values) := by
  cases values with
  | nil =>
    simp only [Evaluator.each]
    exact .pure _
  | cons item rest =>
    simp only [Evaluator.each]
    refine (StaysBeyond.define name item).bind fun _ => ?_
    refine (StaysBeyond.holding _ (stays.sequence .null statements)).bind fun flow => ?_
    cases flow with
    | normal v => exact stays.each name statements v rest
    | ret v => exact .pure _

theorem choose_succ (branches : List Branch) :
    StaysBeyond s scripts (Evaluator.choose (fuel + 1) branches) := by
  cases branches with
  | nil =>
    simp only [Evaluator.choose]
    exact .pure _
  | cons b rest =>
    have taken (takes : Bool) : StaysBeyond s scripts
        (if takes = true then Eval.nested "if" Flow.values (Evaluator.sequence fuel .null b.body)
          else Evaluator.choose fuel rest) := by
      cases takes with
      | false => exact stays.choose rest
      | true => exact .nested _ _ (stays.sequence .null b.body)
    simp only [Evaluator.choose]
    cases b.test with
    | none => exact taken true
    | some e =>
      exact ((stays.eval e).resolved e.line).bind fun v => (StaysBeyond.look _).bind taken

/-! ### Scripts -/

theorem run_succ (may : scripts) (source : String) :
    ScriptStays s (Evaluator.run (fuel + 1) source) := by
  obtain rfl : scripts = True := eq_true may
  simp only [Evaluator.run]
  split
  · next e _ => exact fun _ _ _ beyond => .inr ⟨⟨.reading e, rfl⟩, beyond.kept⟩
  · exact .asScript (stays.feed .new _ .null)

theorem script_succ (source : String) :
    StaysBeyond s scripts (Evaluator.script (fuel + 1) source) := by
  simp only [Evaluator.script]
  split
  · exact .pure _
  · exact stays.feed .new _ .null

theorem feed_succ (r : StatementReader) (tokens : List PlacedToken) (last : Value) :
    StaysBeyond s scripts (Evaluator.feed (fuel + 1) r tokens last) := by
  cases tokens with
  | nil =>
    simp only [Evaluator.feed]
    split
    · exact .pure _
    · exact (stays.executed _ last).bind fun v => .pure _
  | cons t rest =>
    simp only [Evaluator.feed]
    split
    · exact .pure _
    · exact (stays.executed _ last).bind fun v => stays.feed _ rest v

theorem executed_succ (statements : List Stmt) (last : Value) :
    StaysBeyond s scripts (Evaluator.executed (fuel + 1) statements last) := by
  cases statements with
  | nil =>
    simp only [Evaluator.executed]
    exact .pure _
  | cons st rest =>
    simp only [Evaluator.executed]
    exact (StaysBeyond.holding [last] (stays.exec st)).bind fun flow =>
      stays.executed rest flow.value

/-- One more step. -/
theorem succ : Stays s scripts (fuel + 1) where
  eval := stays.eval_succ
  arguments := stays.arguments_succ
  call := stays.call_succ
  invoke := stays.invoke_succ
  body := stays.body_succ
  initialized := stays.initialized_succ
  apply := stays.apply_succ
  callMember := stays.callMember_succ
  hosted := stays.hosted_succ
  act _ := stays.act_succ
  assignment := stays.assignment_succ
  place := stays.place_succ
  exec := stays.exec_succ
  sequence := stays.sequence_succ
  repeated := stays.repeated_succ
  each := stays.each_succ
  choose := stays.choose_succ
  run := stays.run_succ
  script := stays.script_succ
  feed := stays.feed_succ
  executed := stays.executed_succ

end Stays

/-- What is evaluated in a new scope keeps the definitions around it, however many steps it may
make. -/
theorem staysBeyond (s : Store) (scripts : Prop) (fuel : Nat) : Stays s scripts fuel := by
  induction fuel with
  | zero => exact .zero s scripts
  | succ fuel ih => exact ih.succ

end Evaluator

end Scriptlet
