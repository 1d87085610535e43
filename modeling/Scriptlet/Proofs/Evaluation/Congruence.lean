import Scriptlet.Evaluator

/-!
# Relations that evaluation respects

The evaluator is put together from primitive evaluations in a few ways. A relation that holds
between every primitive and itself, and that each of these ways keeps, is a congruence. It then
holds between whatever the evaluator does in some number of steps and what it does in more of them
(`Evaluator.related`). This is the one induction over the evaluator that such relations share; a
predicate is a relation that looks at one side only.
-/

namespace Scriptlet

namespace Eval

/-- The evaluations of one step. -/
inductive Primitive : {α : Type} → Eval α → Prop where
  | pure {α : Type} (a : α) : Primitive (pure a)
  | fail {α : Type} (e : RuntimeError) : Primitive (fail e : Eval α)
  | look {α : Type} (f : Store → ScopeRef → α) : Primitive (look f)
  | check {α : Type} (f : Store → Except RuntimeError α) : Primitive (check f)
  | change {α : Type} (f : Store → α × Store) : Primitive (change f)
  | changeHere (f : Store → ScopeRef → Store) : Primitive (changeHere f)
  | attempt {α : Type} (f : Store → Except RuntimeError (α × Store)) : Primitive (attempt f)
  | leaveAll : Primitive leaveAll
  | ask (request : FileRequest) : Primitive (ask request)
  | print (text : String) : Primitive (print text)

/-- Whether what is done with a setting does not depend on the values in use. -/
def Insensitive {α : Type} (f : Setting → Eval α) : Prop :=
  ∀ got held, f { got with held } = f got

/-- A relation that the ways of putting evaluations together keep. An evaluation that is cut off
is related to every other one. -/
structure Congruence (R : {α : Type} → Eval α → Eval α → Prop) : Prop where
  cutOff : ∀ {α : Type} (y : Eval α), R cutOff y
  primitive : ∀ {α : Type} {x : Eval α}, Primitive x → R x x
  setting : ∀ {α : Type} {f g : Setting → Eval α}, (∀ got, R (f got) (g got)) → Insensitive f →
    Insensitive g → R (setting >>= f) (setting >>= g)
  bind : ∀ {α β : Type} {x y : Eval α} {f g : α → Eval β}, R x y → (∀ a, R (f a) (g a)) →
    R (x >>= f) (y >>= g)
  catching : ∀ {α : Type} {x y : Eval α}, R x y → R (catching x) (catching y)
  holding : ∀ {α : Type} {x y : Eval α} (values : List Value), R x y →
    R (holding values x) (holding values y)
  within : ∀ {α : Type} {x y : Eval α} (r : ScopeRef) (results : α → List Value), R x y →
    R (within r results x) (within r results y)

namespace Congruence

variable {R : {α : Type} → Eval α → Eval α → Prop} {α : Type}

theorem before (c : Congruence R) {β : Type} {x : Eval α} {f g : α → Eval β} (x_is : Primitive x)
    (after : ∀ a, R (f a) (g a)) : R (x >>= f) (x >>= g) :=
  c.bind (c.primitive x_is) after

theorem resolved (c : Congruence R) {x y : Eval Value} (line : Line) (h : R x y) :
    R (x.resolved line) (y.resolved line) :=
  c.bind h fun _ => c.primitive (.check _)

theorem nested (c : Congruence R) {x y : Eval α} (name : String) (results : α → List Value)
    (h : R x y) : R (nested name results x) (nested name results y) :=
  c.before (.look _) fun _ => c.before (.change _) fun r => c.within r results h

theorem asScript (c : Congruence R) {x y : Eval (Except SyntaxError Value)} (h : R x y) :
    R (asScript x) (asScript y) := by
  refine c.bind (c.catching h) fun result => ?_
  match result with
  | .ok (.ok v) => exact c.primitive (.pure _)
  | .ok (.error e) => exact c.before .leaveAll fun _ => c.primitive (.pure _)
  | .error e => exact c.before .leaveAll fun _ => c.primitive (.pure _)

end Congruence

end Eval

namespace Evaluator

variable {R : {α : Type} → Eval α → Eval α → Prop} {n k : Nat}

/-- Every function of the evaluator, with some number of steps on one side and another on the
other side. -/
structure Related (R : {α : Type} → Eval α → Eval α → Prop) (n k : Nat) : Prop where
  eval : ∀ e, R (eval n e) (eval k e)
  arguments : ∀ operands, R (arguments n operands) (arguments k operands)
  call : ∀ name operands line, R (call n name operands line) (call k name operands line)
  invoke : ∀ f values receiver line,
    R (invoke n f values receiver line) (invoke k f values receiver line)
  body : ∀ statements, R (body n statements) (body k statements)
  initialized : ∀ o values line, R (initialized n o values line) (initialized k o values line)
  apply : ∀ values line, R (apply n values line) (apply k values line)
  callMember : ∀ receiver name values line,
    R (callMember n receiver name values line) (callMember k receiver name values line)
  hosted : ∀ ref call, R (hosted n ref call) (hosted k ref call)
  act : ∀ action, R (act n action) (act k action)
  assignment : ∀ op operands line,
    R (assignment n op operands line) (assignment k op operands line)
  place : ∀ target line, R (place n target line) (place k target line)
  exec : ∀ statement, R (exec n statement) (exec k statement)
  sequence : ∀ last statements, R (sequence n last statements) (sequence k last statements)
  repeated : ∀ test iterate statements last,
    R (repeated n test iterate statements last) (repeated k test iterate statements last)
  each : ∀ name statements last values,
    R (each n name statements last values) (each k name statements last values)
  choose : ∀ branches, R (choose n branches) (choose k branches)
  run : ∀ source, R (run n source) (run k source)
  script : ∀ source, R (script n source) (script k source)
  feed : ∀ r tokens last, R (feed n r tokens last) (feed k r tokens last)
  executed : ∀ statements last, R (executed n statements last) (executed k statements last)

open Eval (Congruence)

theorem Related.zero (c : Congruence R) (k : Nat) : Related R 0 k where
  eval _ := by rw [Evaluator.eval]; exact c.cutOff _
  arguments _ := by rw [Evaluator.arguments]; exact c.cutOff _
  call _ _ _ := by rw [Evaluator.call]; exact c.cutOff _
  invoke _ _ _ _ := by rw [Evaluator.invoke]; exact c.cutOff _
  body _ := by rw [Evaluator.body]; exact c.cutOff _
  initialized _ _ _ := by rw [Evaluator.initialized]; exact c.cutOff _
  apply _ _ := by rw [Evaluator.apply]; exact c.cutOff _
  callMember _ _ _ _ := by rw [Evaluator.callMember]; exact c.cutOff _
  hosted _ _ := by rw [Evaluator.hosted]; exact c.cutOff _
  act _ := by rw [Evaluator.act]; exact c.cutOff _
  assignment _ _ _ := by rw [Evaluator.assignment]; exact c.cutOff _
  place _ _ := by rw [Evaluator.place]; exact c.cutOff _
  exec _ := by rw [Evaluator.exec]; exact c.cutOff _
  sequence _ _ := by rw [Evaluator.sequence]; exact c.cutOff _
  repeated _ _ _ _ := by rw [Evaluator.repeated]; exact c.cutOff _
  each _ _ _ _ := by rw [Evaluator.each]; exact c.cutOff _
  choose _ := by rw [Evaluator.choose]; exact c.cutOff _
  run _ := by rw [Evaluator.run]; exact c.cutOff _
  script _ := by rw [Evaluator.script]; exact c.cutOff _
  feed _ _ _ := by rw [Evaluator.feed]; exact c.cutOff _
  executed _ _ := by rw [Evaluator.executed]; exact c.cutOff _

/-! ## Expressions -/

theorem Related.eval_succ (c : Congruence R) (h : Related R n k) (e : Expr) :
    R (Evaluator.eval (n + 1) e) (Evaluator.eval (k + 1) e) := by
  cases e with
  | constant value line =>
    simp only [Evaluator.eval]
    exact c.primitive (.change _)
  | named name line =>
    simp only [Evaluator.eval]
    exact c.primitive (.look _)
  | define name line =>
    simp only [Evaluator.eval]
    exact c.before (.changeHere _) fun _ => c.primitive (.pure _)
  | list elements line =>
    simp only [Evaluator.eval]
    exact c.bind (h.arguments elements) fun _ => c.primitive (.change _)
  | call name operands precedence line =>
    simp only [Evaluator.eval]
    split
    · exact h.assignment _ operands line
    · exact h.call name operands line

theorem Related.arguments_succ (c : Congruence R) (h : Related R n k) (operands : List Expr) :
    R (Evaluator.arguments (n + 1) operands) (Evaluator.arguments (k + 1) operands) := by
  cases operands with
  | nil =>
    simp only [Evaluator.arguments]
    exact c.primitive (.pure _)
  | cons e rest =>
    simp only [Evaluator.arguments]
    refine c.bind (c.resolved e.line (h.eval e)) fun v => ?_
    exact c.bind (c.holding [v] (h.arguments rest)) fun _ => c.primitive (.pure _)

theorem Related.call_succ (c : Congruence R) (h : Related R n k) (name : String)
    (operands : List Expr) (line : Line) :
    R (Evaluator.call (n + 1) name operands line) (Evaluator.call (k + 1) name operands line) := by
  simp only [Evaluator.call]
  refine c.before (.look _) fun target => ?_
  refine c.bind (c.holding _ (h.arguments operands)) fun values => ?_
  split
  · exact c.holding _ (h.invoke _ _ none line)
  · exact c.holding _ (h.invoke _ _ none line)
  · exact c.primitive (.fail _)

/-! ## Calls -/

theorem Related.invoke_succ (c : Congruence R) (h : Related R n k) (ref : FunctionRef)
    (values : List Value) (receiver : Option ScopeRef) (line : Line) :
    R (Evaluator.invoke (n + 1) ref values receiver line)
      (Evaluator.invoke (k + 1) ref values receiver line) := by
  simp only [Evaluator.invoke]
  refine c.before (.look _) fun f => ?_
  split
  · refine c.before (.look _) fun parent => ?_
    refine c.before (.change _) fun r => ?_
    refine c.before (.change _) fun _ => ?_
    exact c.holding _ (c.within r _ (h.body _))
  · refine c.before (.look _) fun output => ?_
    refine c.before (.attempt _) fun v => ?_
    split
    · exact c.before (.print _) fun _ => c.primitive (.pure _)
    · exact c.primitive (.pure _)
  · exact c.holding _ (c.nested _ _ (h.apply values line))
  · refine c.before (.change _) fun o => ?_
    exact c.holding _ (c.nested _ _ (h.initialized o values line))
  · refine c.before (.look _) fun current => ?_
    exact c.holding _ (h.hosted _ _)
  · refine c.holding _ (c.nested _ _ ?_)
    exact c.before (.look _) fun current => h.hosted _ _

theorem Related.body_succ (c : Congruence R) (h : Related R n k) (statements : List Stmt) :
    R (Evaluator.body (n + 1) statements) (Evaluator.body (k + 1) statements) := by
  cases statements with
  | nil =>
    simp only [Evaluator.body]
    exact c.primitive (.pure _)
  | cons s rest =>
    simp only [Evaluator.body]
    refine c.bind (h.exec s) fun flow => ?_
    cases flow with
    | normal v => exact h.body rest
    | ret v => exact c.primitive (.pure _)

theorem Related.initialized_succ (c : Congruence R) (h : Related R n k) (o : ScopeRef)
    (values : List Value) (line : Line) :
    R (Evaluator.initialized (n + 1) o values line)
      (Evaluator.initialized (k + 1) o values line) := by
  simp only [Evaluator.initialized]
  refine c.before (.look _) fun found => ?_
  cases found with
  | none => exact c.primitive (.pure _)
  | some f =>
    refine c.bind (c.holding _ (h.invoke f values (some o) line)) fun _ => ?_
    exact c.primitive (.pure _)

theorem Related.apply_succ (c : Congruence R) (h : Related R n k) (values : List Value)
    (line : Line) :
    R (Evaluator.apply (n + 1) values line) (Evaluator.apply (k + 1) values line) := by
  unfold Evaluator.apply
  split
  · exact h.callMember _ _ _ line
  · refine c.before (.look _) fun kind => ?_
    split
    · exact h.invoke _ _ _ line
    · exact h.invoke _ _ _ line
  · exact c.primitive (.fail _)
  · exact c.primitive (.fail _)
  · exact c.primitive (.fail _)

theorem Related.callMember_succ (c : Congruence R) (h : Related R n k) (receiver : Value)
    (name : String) (values : List Value) (line : Line) :
    R (Evaluator.callMember (n + 1) receiver name values line)
      (Evaluator.callMember (k + 1) receiver name values line) := by
  simp only [Evaluator.callMember]
  refine c.before (.look _) fun own => ?_
  cases own with
  | some found => exact c.holding _ (h.invoke _ _ _ line)
  | none =>
    refine c.before (.look _) fun current => ?_
    refine c.before (.check _) fun f => ?_
    refine c.before (.look _) fun besides => ?_
    split
    · exact c.holding _ (h.invoke _ _ _ line)
    · exact c.holding _ (h.invoke _ _ _ line)

/-! ## The host -/

theorem Related.hosted_succ (c : Congruence R) (h : Related R n k) (ref : HostRef)
    (call : Host.Call) :
    R (Evaluator.hosted (n + 1) ref call) (Evaluator.hosted (k + 1) ref call) := by
  simp only [Evaluator.hosted]
  refine c.setting (fun got => ?_) (fun _ _ => rfl) (fun _ _ => rfl)
  split
  · exact h.act _
  · exact c.primitive (.pure _)

theorem Related.act_succ (c : Congruence R) (h : Related R n k) (action : Host.Action) :
    R (Evaluator.act (n + 1) action) (Evaluator.act (k + 1) action) := by
  cases action with
  | finish result =>
    cases result with
    | ok v =>
      simp only [Evaluator.act]
      exact c.primitive (.pure _)
    | error e =>
      simp only [Evaluator.act]
      exact c.primitive (.fail _)
  | look next =>
    simp only [Evaluator.act]
    exact c.before (.look _) fun s => h.act _
  | file request next =>
    simp only [Evaluator.act]
    exact c.before (.ask _) fun answer => h.act _
  | assign r name v next =>
    simp only [Evaluator.act]
    exact c.before (.change _) fun _ => h.act _
  | makeList items next =>
    simp only [Evaluator.act]
    exact c.before (.change _) fun v => h.act _
  | invoke f values receiver line next =>
    simp only [Evaluator.act]
    exact c.bind (c.catching (h.invoke f values receiver line)) fun result => h.act _
  | callMember receiver name values line next =>
    simp only [Evaluator.act]
    exact c.bind (c.catching (h.callMember receiver name values line)) fun result => h.act _
  | runScript source next =>
    simp only [Evaluator.act]
    exact c.bind (h.run source) fun result => h.act _

/-! ## Assignments -/

theorem related_store (c : Congruence R) (p : Place) (op : AssignOperator) (v : Value)
    (line : Line) : R (store p op v line) (store p op v line) :=
  c.before (.attempt _) fun _ => c.before (.attempt _) fun _ => c.primitive (.pure _)

theorem Related.assignment_succ (c : Congruence R) (h : Related R n k) (op : AssignOperator)
    (operands : List Expr) (line : Line) :
    R (Evaluator.assignment (n + 1) op operands line)
      (Evaluator.assignment (k + 1) op operands line) := by
  unfold Evaluator.assignment
  split
  · exact c.bind (h.place _ line) fun p => related_store c p op _ line
  · refine c.bind (h.place _ line) fun p => ?_
    refine c.bind (c.holding _ (c.resolved _ (h.eval _))) fun v => ?_
    exact related_store c p op v line
  · exact c.primitive (.fail _)

theorem Related.place_succ (c : Congruence R) (h : Related R n k) (target : Expr) (line : Line) :
    R (Evaluator.place (n + 1) target line) (Evaluator.place (k + 1) target line) := by
  unfold Evaluator.place
  split
  · exact c.primitive (.look _)
  · exact c.bind (h.eval _) fun _ => c.primitive (.look _)
  · refine c.bind (h.place _ line) fun container => ?_
    refine c.bind (c.holding _ (c.resolved _ (h.eval _))) fun key => ?_
    exact c.primitive (.check _)
  · refine c.bind (h.eval target) fun v => ?_
    split
    · exact c.primitive (.pure _)
    · exact c.primitive (.pure _)

/-! ## Statements -/

theorem related_imported (c : Congruence R) (path : String) (line : Line)
    {x y : Eval (Except SyntaxError Value)} (h : R x y) :
    R (imported path line x) (imported path line y) := by
  refine c.bind (c.catching h) fun result => ?_
  match result with
  | .ok (.ok v) => exact c.primitive (.pure _)
  | .ok (.error e) => exact c.primitive (.fail _)
  | .error e => exact c.primitive (.fail _)

theorem Related.exec_succ (c : Congruence R) (h : Related R n k) (statement : Stmt) :
    R (Evaluator.exec (n + 1) statement) (Evaluator.exec (k + 1) statement) := by
  cases statement with
  | expr e =>
    simp only [Evaluator.exec]
    exact c.bind (h.eval e) fun v => c.primitive (.pure _)
  | define name e line =>
    simp only [Evaluator.exec]
    refine c.bind (c.resolved e.line (h.eval e)) fun v => ?_
    refine c.before (.change _) fun v => ?_
    exact c.before (.changeHere _) fun _ => c.primitive (.pure _)
  | function name parameters statements line =>
    simp only [Evaluator.exec]
    exact c.before (.changeHere _) fun _ => c.primitive (.pure _)
  | classDef name bases statements line =>
    simp only [Evaluator.exec]
    refine c.before (.look _) fun current => ?_
    refine c.before (.change _) fun template => ?_
    refine c.before (.attempt _) fun _ => ?_
    refine c.bind (c.within template _ (h.sequence .null statements)) fun _ => ?_
    exact c.before (.changeHere _) fun _ => c.primitive (.pure _)
  | block statements line =>
    simp only [Evaluator.exec]
    exact c.nested _ _ (h.sequence .null statements)
  | ret value line =>
    cases value with
    | none =>
      simp only [Evaluator.exec]
      exact c.primitive (.pure _)
    | some e =>
      simp only [Evaluator.exec]
      exact c.bind (c.resolved e.line (h.eval e)) fun v => c.primitive (.pure _)
  | loop init test iterate statements line =>
    cases init with
    | none =>
      simp only [Evaluator.exec]
      exact c.nested _ _ (h.repeated test iterate statements .null)
    | some e =>
      simp only [Evaluator.exec]
      refine c.nested _ _ (c.bind (h.eval e) fun _ => ?_)
      exact h.repeated test iterate statements .null
  | foreach name source statements line =>
    simp only [Evaluator.exec]
    refine c.bind (c.resolved source.line (h.eval source)) fun v => ?_
    refine c.before (.check _) fun values => ?_
    exact c.nested _ _ (h.each name statements .null values)
  | choice branches line =>
    simp only [Evaluator.exec]
    exact h.choose branches
  | importFile path line =>
    simp only [Evaluator.exec]
    refine c.setting (fun got => ?_) (fun _ _ => rfl) (fun _ _ => rfl)
    refine c.before (.ask _) fun answer => ?_
    cases answer with
    | error reason => exact c.primitive (.fail _)
    | ok source =>
      exact c.bind (related_imported c path line (h.script source)) fun v => c.primitive (.pure _)

theorem Related.sequence_succ (c : Congruence R) (h : Related R n k) (last : Value)
    (statements : List Stmt) :
    R (Evaluator.sequence (n + 1) last statements)
      (Evaluator.sequence (k + 1) last statements) := by
  cases statements with
  | nil =>
    simp only [Evaluator.sequence]
    exact c.primitive (.pure _)
  | cons s rest =>
    simp only [Evaluator.sequence]
    refine c.bind (c.holding [last] (h.exec s)) fun flow => ?_
    cases flow with
    | normal v => exact h.sequence v rest
    | ret v => exact c.primitive (.pure _)

theorem Related.repeated_succ (c : Congruence R) (h : Related R n k) (test iterate : Option Expr)
    (statements : List Stmt) (last : Value) :
    R (Evaluator.repeated (n + 1) test iterate statements last)
      (Evaluator.repeated (k + 1) test iterate statements last) := by
  unfold Evaluator.repeated
  -- what follows the test, whatever it gives
  extract_lets first second
  have round (goes : Bool) : R (first goes) (second goes) := by
    cases goes with
    | false => exact c.primitive (.pure _)
    | true =>
      refine c.bind (c.holding [last] (h.sequence .null statements)) fun flow => ?_
      cases flow with
      | ret v => exact c.primitive (.pure _)
      | normal v =>
        cases iterate with
        | none => exact h.repeated test none statements v
        | some e =>
          refine c.bind (c.holding [v] (h.eval e)) fun _ => ?_
          exact h.repeated test (some e) statements v
  cases test with
  | none => exact round true
  | some e =>
    refine c.bind (c.holding [last] (c.resolved e.line (h.eval e))) fun v => ?_
    exact c.before (.look _) round

theorem Related.each_succ (c : Congruence R) (h : Related R n k) (name : String)
    (statements : List Stmt) (last : Value) (values : List Value) :
    R (Evaluator.each (n + 1) name statements last values)
      (Evaluator.each (k + 1) name statements last values) := by
  cases values with
  | nil =>
    simp only [Evaluator.each]
    exact c.primitive (.pure _)
  | cons item rest =>
    simp only [Evaluator.each]
    refine c.before (.changeHere _) fun _ => ?_
    refine c.bind (c.holding _ (h.sequence .null statements)) fun flow => ?_
    cases flow with
    | normal v => exact h.each name statements v rest
    | ret v => exact c.primitive (.pure _)

theorem Related.choose_succ (c : Congruence R) (h : Related R n k) (branches : List Branch) :
    R (Evaluator.choose (n + 1) branches) (Evaluator.choose (k + 1) branches) := by
  cases branches with
  | nil =>
    simp only [Evaluator.choose]
    exact c.primitive (.pure _)
  | cons b rest =>
    have taken (takes : Bool) :
        R (if takes = true then Eval.nested "if" Flow.values (Evaluator.sequence n .null b.body)
            else Evaluator.choose n rest)
          (if takes = true then Eval.nested "if" Flow.values (Evaluator.sequence k .null b.body)
            else Evaluator.choose k rest) := by
      cases takes with
      | false => exact h.choose rest
      | true => exact c.nested _ _ (h.sequence .null b.body)
    simp only [Evaluator.choose]
    cases b.test with
    | none => exact taken true
    | some e =>
      refine c.bind (c.resolved e.line (h.eval e)) fun v => ?_
      exact c.before (.look _) fun takes => taken takes

/-! ## Scripts -/

theorem Related.run_succ (c : Congruence R) (h : Related R n k) (source : String) :
    R (Evaluator.run (n + 1) source) (Evaluator.run (k + 1) source) := by
  simp only [Evaluator.run]
  split
  · exact c.primitive (.pure _)
  · exact c.asScript (h.feed .new _ .null)

theorem Related.script_succ (c : Congruence R) (h : Related R n k) (source : String) :
    R (Evaluator.script (n + 1) source) (Evaluator.script (k + 1) source) := by
  simp only [Evaluator.script]
  split
  · exact c.primitive (.pure _)
  · exact h.feed .new _ .null

theorem Related.feed_succ (c : Congruence R) (h : Related R n k) (r : StatementReader)
    (tokens : List PlacedToken) (last : Value) :
    R (Evaluator.feed (n + 1) r tokens last) (Evaluator.feed (k + 1) r tokens last) := by
  cases tokens with
  | nil =>
    simp only [Evaluator.feed]
    split
    · exact c.primitive (.pure _)
    · exact c.bind (h.executed _ last) fun v => c.primitive (.pure _)
  | cons t rest =>
    simp only [Evaluator.feed]
    split
    · exact c.primitive (.pure _)
    · exact c.bind (h.executed _ last) fun v => h.feed _ rest v

theorem Related.executed_succ (c : Congruence R) (h : Related R n k) (statements : List Stmt)
    (last : Value) :
    R (Evaluator.executed (n + 1) statements last)
      (Evaluator.executed (k + 1) statements last) := by
  cases statements with
  | nil =>
    simp only [Evaluator.executed]
    exact c.primitive (.pure _)
  | cons s rest =>
    simp only [Evaluator.executed]
    exact c.bind (c.holding [last] (h.exec s)) fun flow => h.executed rest flow.value

/-! ## All together -/

theorem Related.succ (c : Congruence R) (h : Related R n k) : Related R (n + 1) (k + 1) where
  eval := h.eval_succ c
  arguments := h.arguments_succ c
  call := h.call_succ c
  invoke := h.invoke_succ c
  body := h.body_succ c
  initialized := h.initialized_succ c
  apply := h.apply_succ c
  callMember := h.callMember_succ c
  hosted := h.hosted_succ c
  act := h.act_succ c
  assignment := h.assignment_succ c
  place := h.place_succ c
  exec := h.exec_succ c
  sequence := h.sequence_succ c
  repeated := h.repeated_succ c
  each := h.each_succ c
  choose := h.choose_succ c
  run := h.run_succ c
  script := h.script_succ c
  feed := h.feed_succ c
  executed := h.executed_succ c

/-- A congruence relates the evaluator to itself with more steps. -/
theorem related (c : Congruence R) {n k : Nat} (le : n ≤ k) : Related R n k := by
  induction n generalizing k with
  | zero => exact .zero c k
  | succ n ih =>
    obtain ⟨k, rfl⟩ : ∃ j, k = j + 1 := ⟨k - 1, by omega⟩
    exact (ih (by omega)).succ c

end Evaluator

end Scriptlet
