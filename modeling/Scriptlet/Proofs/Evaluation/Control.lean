import Scriptlet.Proofs.Evaluation.Executions
import Scriptlet.Proofs.Evaluation.Lineage
import Scriptlet.Proofs.Evaluation.Run

/-!
# Control in a call

Inside a call, control goes from task to task: through the statements of a body, into a block, a
branch or a round of a loop, and on to the next one when a task has ended normally. `Control.Comes`
says where it comes to, from the statements that are executed, the tests that hold and the clauses
that are evaluated on the way. The evaluator does one task by what comes first in it and the task
that is left then.
-/

namespace Scriptlet.Evaluator

variable {setting : Setting} {m k n : Machine} {log l₁ l₂ l₃ : FileLog} {u v last : Value}

/-! ## What is done on the way -/

/-- The value of an expression in which a handle gives way to its element. -/
def Resolves (setting : Setting) (m : Machine) (log : FileLog) (e : Expr) (v : Value)
    (n : Machine) : Prop :=
  ∃ fuel, ((eval fuel e).resolved e.line).Exits setting m log (.ok v) n

/-- A test that holds or does not; one that is left out holds. -/
inductive Tests (setting : Setting) (m : Machine) :
    FileLog → Option Expr → Bool → Machine → Prop
  | none : Tests setting m [] none true m
  | some {e : Expr} {log : FileLog} {v : Value} {n : Machine} :
      Resolves setting m log e v n → Tests setting m log (some e) (n.store.truthy v) n

/-- The clause of a loop is evaluated, if there is one. -/
inductive Clause (setting : Setting) (m : Machine) : FileLog → Option Expr → Machine → Prop
  | none : Clause setting m [] none m
  | some {fuel : Nat} {e : Expr} {log : FileLog} {v : Value} {n : Machine} :
      (eval fuel e).Exits setting m log (.ok v) n → Clause setting m log (some e) n

/-- The value of a `return`, which is null if it has no expression. -/
inductive Returns (setting : Setting) (m : Machine) :
    FileLog → Option Expr → Value → Machine → Prop
  | none : Returns setting m [] none .null m
  | some {e : Expr} {log : FileLog} {v : Value} {n : Machine} :
      Resolves setting m log e v n → Returns setting m log (some e) v n

/-- The statements of a round of a loop end normally. -/
def Round (setting : Setting) (m : Machine) (log : FileLog) (statements : List Stmt) (v : Value)
    (n : Machine) : Prop :=
  ∃ fuel, (sequence fuel .null statements).Exits setting m log (.ok (.normal v)) n

/-! ## Control -/

/-- What is left to do at one level of a call. -/
inductive Task where
  | body (statements : List Stmt)
  | statement (s : Stmt)
  | sequence (last : Value) (statements : List Stmt)
  | rounds (test iterate : Option Expr) (statements : List Stmt) (last : Value)
  | items (name : String) (statements : List Stmt) (last : Value) (values : List Value)
  | branches (branches : List Branch)

/-- How a task ends; the end of a body is a return. -/
def Task.run (fuel : Nat) : Task → Eval Flow
  | body statements => do
    let v ← Evaluator.body fuel statements
    return .ret v
  | statement s => exec fuel s
  | sequence last statements => Evaluator.sequence fuel last statements
  | rounds test iterate statements last => repeated fuel test iterate statements last
  | items name statements last values => each fuel name statements last values
  | branches bs => choose fuel bs

/-- A scope that is left when the tasks in it have ended. -/
structure Opened where
  scope : ScopeRef
  outer : ScopeRef
  /-- The values in use around it. -/
  held : List Value

/-- The machine after a scope has been left with a value. -/
def Opened.leave (o : Opened) (v : Value) (m : Machine) : Machine :=
  { m with current := o.outer }.close (v :: o.held) o.scope

/-- The machine after some scopes have been left with a value, the innermost one first. -/
def unwind (opened : List Opened) (v : Value) (m : Machine) : Machine :=
  opened.foldl (fun m o => o.leave v m) m

/-- Where control is in a call. -/
structure Control where
  setting : Setting
  machine : Machine
  task : Task
  /-- The scopes that the call has opened, the innermost one first. -/
  opened : List Opened

namespace Control

/-- Control in a new scope, with a task in it. -/
def opening (setting : Setting) (m : Machine) (os : List Opened) (name : String) (task : Task) :
    Control :=
  let (r, store) := m.store.child m.current name false
  ⟨setting.hold [.object m.current], { m with store, current := r }, task,
    ⟨r, m.current, setting.held⟩ :: os⟩

/-- Where control is when a function that is written in a script is called: before its body, in the
scope of the call. -/
def call (setting : Setting) (m : Machine) (f : Function) (receiver : Option ScopeRef)
    (values : List Value) (statements : List Stmt) : Control :=
  let (r, store) := callScope m f receiver values
  let outside := setting.hold (values.drop f.parameters.length)
  ⟨outside.hold [.object m.current], { m with store, current := r }, .body statements,
    [⟨r, m.current, outside.held⟩]⟩

/-- How control goes on. -/
inductive Step : Control → FileLog → Control → Prop
  /-- The body of the function: a statement of it, and the next one. -/
  | first {setting : Setting} {m : Machine} {s : Stmt} {rest : List Stmt} {os : List Opened} :
      Step ⟨setting, m, .body (s :: rest), os⟩ [] ⟨setting, m, .statement s, os⟩
  | next {setting : Setting} {m n : Machine} {s : Stmt} {rest : List Stmt} {os : List Opened}
      {log : FileLog} {v : Value} : Executes setting m log s (.ok (.normal v)) n →
        Step ⟨setting, m, .body (s :: rest), os⟩ log ⟨setting, n, .body rest, os⟩
  /-- Statements in a scope of their own, which keep the value of the one before in use. -/
  | inner {setting : Setting} {m : Machine} {last : Value} {s : Stmt} {rest : List Stmt}
      {os : List Opened} : Step ⟨setting, m, .sequence last (s :: rest), os⟩ []
        ⟨setting.hold [last], m, .statement s, os⟩
  | innerNext {setting : Setting} {m n : Machine} {last v : Value} {s : Stmt} {rest : List Stmt}
      {os : List Opened} {log : FileLog} :
      Executes (setting.hold [last]) m log s (.ok (.normal v)) n →
        Step ⟨setting, m, .sequence last (s :: rest), os⟩ log ⟨setting, n, .sequence v rest, os⟩
  | block {setting : Setting} {m : Machine} {statements : List Stmt} {line : Line}
      {os : List Opened} : Step ⟨setting, m, .statement (.block statements line), os⟩ []
        (opening setting m os "block" (.sequence .null statements))
  /-- A loop: its first clause, and then a round and the next one. -/
  | loop {setting : Setting} {m n : Machine} {init test iterate : Option Expr}
      {statements : List Stmt} {line : Line} {os : List Opened} {x : Control} {log : FileLog} :
      x = opening setting m os "loop" (.rounds test iterate statements .null) →
      Clause x.setting x.machine log init n →
        Step ⟨setting, m, .statement (.loop init test iterate statements line), os⟩ log
          { x with machine := n }
  | round {setting : Setting} {m n : Machine} {test iterate : Option Expr}
      {statements : List Stmt} {last : Value} {os : List Opened} {log : FileLog} :
      Tests (setting.hold [last]) m log test true n →
        Step ⟨setting, m, .rounds test iterate statements last, os⟩ log
          ⟨setting.hold [last], n, .sequence .null statements, os⟩
  | nextRound {setting : Setting} {m k j n : Machine} {test iterate : Option Expr}
      {statements : List Stmt} {last v : Value} {os : List Opened} {l₁ l₂ l₃ : FileLog} :
      Tests (setting.hold [last]) m l₁ test true k →
      Round (setting.hold [last]) k l₂ statements v j → Clause (setting.hold [v]) j l₃ iterate n →
        Step ⟨setting, m, .rounds test iterate statements last, os⟩ (l₁ ++ (l₂ ++ l₃))
          ⟨setting, n, .rounds test iterate statements v, os⟩
  /-- A loop over values: what it goes through, and then a round and the next one. -/
  | foreach {setting : Setting} {m n : Machine} {name : String} {source : Expr}
      {statements : List Stmt} {line : Line} {v : Value} {values : List Value} {os : List Opened}
      {log : FileLog} : Resolves setting m log source v n → items n.store line v = .ok values →
        Step ⟨setting, m, .statement (.foreach name source statements line), os⟩ log
          (opening setting n os "foreach" (.items name statements .null values))
  | item {setting : Setting} {m : Machine} {name : String} {statements : List Stmt}
      {last v : Value} {values : List Value} {os : List Opened} :
      Step ⟨setting, m, .items name statements last (v :: values), os⟩ []
        ⟨setting.hold (last :: values),
          { m with store := m.store.setVariable m.current name v }, .sequence .null statements, os⟩
  | nextItem {setting : Setting} {m n : Machine} {name : String} {statements : List Stmt}
      {last v u : Value} {values : List Value} {os : List Opened} {log : FileLog} :
      Round (setting.hold (last :: values))
        { m with store := m.store.setVariable m.current name v } log statements u n →
        Step ⟨setting, m, .items name statements last (v :: values), os⟩ log
          ⟨setting, n, .items name statements u values, os⟩
  /-- A chain of branches: the first one whose test holds. -/
  | choice {setting : Setting} {m : Machine} {bs : List Branch} {line : Line} {os : List Opened} :
      Step ⟨setting, m, .statement (.choice bs line), os⟩ [] ⟨setting, m, .branches bs, os⟩
  | taken {setting : Setting} {m n : Machine} {b : Branch} {rest : List Branch}
      {os : List Opened} {log : FileLog} : Tests setting m log b.test true n →
        Step ⟨setting, m, .branches (b :: rest), os⟩ log
          (opening setting n os "if" (.sequence .null b.body))
  | passed {setting : Setting} {m n : Machine} {b : Branch} {rest : List Branch}
      {os : List Opened} {log : FileLog} : Tests setting m log b.test false n →
        Step ⟨setting, m, .branches (b :: rest), os⟩ log ⟨setting, n, .branches rest, os⟩

/-- Where control comes to. -/
inductive Comes : Control → FileLog → Control → Prop
  | here {x : Control} : Comes x [] x
  | step {x y z : Control} {l₁ l₂ : FileLog} : Step x l₁ y → Comes y l₂ z → Comes x (l₁ ++ l₂) z

/-- Control comes to a `return`, whose value is found, and `n` is where the scopes around it have
been left. -/
def ComesToReturn (x : Control) (log : FileLog) (v : Value) (n : Machine) : Prop :=
  ∃ l₁ l₂ y e line k, log = l₁ ++ l₂ ∧ x.Comes l₁ y ∧ y.task = .statement (.ret e line) ∧
    Returns y.setting y.machine l₂ e v k ∧ n = unwind y.opened v k

/-- Control comes to the end of a body, and `n` is where the scopes around it have been left. -/
def ComesToEnd (x : Control) (log : FileLog) (n : Machine) : Prop :=
  ∃ y, x.Comes log y ∧ y.task = .body [] ∧ n = unwind y.opened .null y.machine

/-- The end of the task that is left to do. -/
def Ends (x : Control) (log : FileLog) (flow : Flow) (n : Machine) : Prop :=
  ∃ fuel, (x.task.run fuel).Exits x.setting x.machine log (.ok flow) n

end Control

open Control (opening)

/-! ## One step -/

variable {os : List Opened} {flow : Flow} {statements : List Stmt} {test iterate : Option Expr}

/-- What is done in a new scope, which is left afterwards. -/
theorem exits_nested_iff {x : Eval Flow} {name : String} (os : List Opened) (task : Task) :
    (Eval.nested name Flow.values x).Exits setting m log (.ok flow) n ↔
      ∃ k, x.Exits (opening setting m os name task).setting (opening setting m os name task).machine
        log (.ok flow) k ∧
        n = Opened.leave ⟨(m.store.child m.current name false).1, m.current, setting.held⟩
          flow.value k :=
  Outcome.exits_finish_iff

/-- Whether a test holds, while some values are in use. -/
def testing (fuel : Nat) (held : List Value) : Option Expr → Eval Bool
  | none => pure true
  | some e => do
    let v ← Eval.holding held ((eval fuel e).resolved e.line)
    Eval.look fun s _ => s.truthy v

/-- A clause of a loop, while some values are in use. -/
def clause (fuel : Nat) (held : List Value) : Option Expr → Eval Unit
  | none => pure ()
  | some e => do
    let _ ← Eval.holding held (eval fuel e)
    return ()

/-- What comes next unless a statement ends in a return. -/
def unlessReturned (x : Eval Flow) (next : Value → Eval Flow) : Eval Flow := do
  match ← x with
  | .normal v => next v
  | .ret v => return .ret v

section

open Eval (congruence_endsIn)

variable {a b : Nat}

theorem endsIn_resolved (le : a ≤ b) (e : Expr) :
    ((eval a e).resolved e.line).EndsIn ((eval b e).resolved e.line) :=
  congruence_endsIn.bind ((endsIn le).eval e) fun _ => Eval.EndsIn.refl _

theorem endsIn_testing (le : a ≤ b) (held : List Value) (test : Option Expr) :
    (testing a held test).EndsIn (testing b held test) := by
  cases test with
  | none => exact Eval.EndsIn.refl _
  | some e =>
    exact congruence_endsIn.bind (congruence_endsIn.holding held (endsIn_resolved le e))
      fun _ => Eval.EndsIn.refl _

theorem endsIn_clause (le : a ≤ b) (held : List Value) (e : Option Expr) :
    (clause a held e).EndsIn (clause b held e) := by
  cases e with
  | none => exact Eval.EndsIn.refl _
  | some e =>
    exact congruence_endsIn.bind (congruence_endsIn.holding held ((endsIn le).eval e))
      fun _ => Eval.EndsIn.refl _

theorem endsIn_unlessReturned {x y : Eval Flow} {f g : Value → Eval Flow} (first : x.EndsIn y)
    (second : ∀ v, (f v).EndsIn (g v)) : (unlessReturned x f).EndsIn (unlessReturned y g) := by
  refine congruence_endsIn.bind first fun flow => ?_
  cases flow with
  | normal v => exact second v
  | ret v => exact Eval.EndsIn.refl _

theorem endsIn_run (le : a ≤ b) (t : Task) : (t.run a).EndsIn (t.run b) := by
  cases t with
  | body ss => exact congruence_endsIn.bind ((endsIn le).body ss) fun _ => Eval.EndsIn.refl _
  | statement s => exact (endsIn le).exec s
  | sequence last ss => exact (endsIn le).sequence last ss
  | rounds test iterate ss last => exact (endsIn le).repeated test iterate ss last
  | items name ss last vs => exact (endsIn le).each name ss last vs
  | branches bs => exact (endsIn le).choose bs

end

theorem exists_exits_testing_iff {held : List Value} {b : Bool} :
    (∃ fuel, (testing fuel held test).Exits setting m log (.ok b) n) ↔
      Tests (setting.hold held) m log test b n := by
  constructor
  · rintro ⟨fuel, ends⟩
    cases test with
    | none =>
      obtain ⟨rfl, same, rfl⟩ := Eval.exits_pure_iff.1 ends
      cases same
      exact .none
    | some e =>
      obtain ⟨l₁, l₂, v, k, rfl, first, look⟩ := Eval.exists_of_exits_bind_ok ends
      obtain ⟨rfl, same, rfl⟩ := Outcome.exits_value_iff.1 look
      cases same
      rw [List.append_nil]
      exact .some ⟨fuel, first⟩
  · intro tests
    cases tests with
    | none => exact ⟨0, .value⟩
    | @some e log v n resolves =>
      obtain ⟨fuel, first⟩ := resolves
      refine ⟨fuel, ?_⟩
      rw [← List.append_nil log]
      exact .bind (x := Eval.holding held ((eval fuel e).resolved e.line)) first .value

theorem exists_exits_clause_iff (held : List Value) {e : Option Expr} :
    (∃ fuel, (clause fuel held e).Exits setting m log (.ok ()) n) ↔
      Clause (setting.hold held) m log e n := by
  constructor
  · rintro ⟨fuel, ends⟩
    cases e with
    | none =>
      obtain ⟨rfl, -, rfl⟩ := Eval.exits_pure_iff.1 ends
      exact .none
    | some e =>
      obtain ⟨_, never, -⟩ | ⟨v, -, first⟩ := Eval.exits_bind_pure_iff.1 ends
      · cases never
      · exact .some first
  · intro clause
    cases clause with
    | none => exact ⟨0, .value⟩
    | @some fuel e log v n first => exact ⟨fuel, Eval.exits_bind_pure_iff.2 (.inr ⟨v, rfl, first⟩)⟩

theorem exits_unlessReturned_iff {x : Eval Flow} {f : Value → Eval Flow} :
    (unlessReturned x f).Exits setting m log (.ok flow) n ↔
      (∃ v, flow = .ret v ∧ x.Exits setting m log (.ok (.ret v)) n) ∨
      ∃ l₁ l₂ v k, log = l₁ ++ l₂ ∧ x.Exits setting m l₁ (.ok (.normal v)) k ∧
        (f v).Exits setting k l₂ (.ok flow) n := by
  constructor
  · intro ends
    obtain ⟨l₁, l₂, ended, k, rfl, first, rest⟩ := Eval.exists_of_exits_bind_ok ends
    cases ended with
    | normal v => exact .inr ⟨l₁, l₂, v, k, rfl, first, rest⟩
    | ret v =>
      obtain ⟨rfl, same, rfl⟩ := Eval.exits_pure_iff.1 rest
      cases same
      rw [List.append_nil]
      exact .inl ⟨v, rfl, first⟩
  · rintro (⟨v, rfl, first⟩ | ⟨l₁, l₂, v, k, rfl, first, rest⟩)
    · rw [← List.append_nil log]
      exact .bind first .value
    · exact .bind first rest

section

variable {x : Nat → Eval Flow} {f : Nat → Value → Eval Flow}

theorem exists_exits_of_returned (first : ∃ fuel, (x fuel).Exits setting m log (.ok (.ret v)) n) :
    ∃ fuel, (unlessReturned (x fuel) (f fuel)).Exits setting m log (.ok (.ret v)) n := by
  obtain ⟨fuel, first⟩ := first
  exact ⟨fuel, exits_unlessReturned_iff.2 (.inl ⟨v, rfl, first⟩)⟩

theorem exists_exits_of_normal (more : ∀ {b c}, b ≤ c → (x b).EndsIn (x c))
    (more' : ∀ {b c}, b ≤ c → ∀ v, (f b v).EndsIn (f c v))
    (first : ∃ fuel, (x fuel).Exits setting m l₁ (.ok (.normal u)) k)
    (rest : ∃ fuel, (f fuel u).Exits setting k l₂ (.ok flow) n) :
    ∃ fuel, (unlessReturned (x fuel) (f fuel)).Exits setting m (l₁ ++ l₂) (.ok flow) n := by
  obtain ⟨b, first⟩ := first
  obtain ⟨c, rest⟩ := rest
  exact ⟨max b c, exits_unlessReturned_iff.2 (.inr ⟨l₁, l₂, u, k, rfl,
    more (Nat.le_max_left b c) first, more' (Nat.le_max_right b c) u rest⟩)⟩

end

/-! ## Tasks step by step -/

namespace Task

variable (fuel : Nat)

theorem run_body_cons (s : Stmt) (rest : List Stmt) : (body (s :: rest)).run (fuel + 1) =
    unlessReturned (exec fuel s) fun _ => (body rest).run fuel := by
  rw [run, Evaluator.body, bind_assoc]
  refine congrArg (exec fuel s >>= ·) (funext fun flow => ?_)
  cases flow <;> rfl

theorem run_sequence_cons (last : Value) (s : Stmt) (rest : List Stmt) :
    (sequence last (s :: rest)).run (fuel + 1) =
      unlessReturned (Eval.holding [last] (exec fuel s)) fun v => (sequence v rest).run fuel := by
  rw [run, Evaluator.sequence]
  rfl

/-- A round of a loop whose test holds, and the rounds after it. -/
def round (test iterate : Option Expr) (statements : List Stmt) (last : Value) : Eval Flow :=
  unlessReturned (Eval.holding [last] (Evaluator.sequence fuel .null statements)) fun v =>
    clause fuel [v] iterate >>= fun _ => (rounds test iterate statements v).run fuel

theorem run_rounds (test iterate : Option Expr) (statements : List Stmt) (last : Value) :
    (rounds test iterate statements last).run (fuel + 1) =
      testing fuel [last] test >>= fun goes =>
        if goes then round fuel test iterate statements last else pure (.normal last) := by
  rw [run]
  unfold repeated
  extract_lets goesOn
  have round (goes : Bool) : goesOn goes =
      if goes then round fuel test iterate statements last else pure (.normal last) := by
    cases goes with
    | false => rfl
    | true =>
      refine bind_congr fun flow => ?_
      cases flow with
      | ret v => rfl
      | normal v =>
        cases iterate with
        | none => rfl
        | some e =>
          show _ = clause fuel [v] (some e) >>= fun _ => _
          rw [clause, bind_assoc]
          rfl
  cases test with
  | none => exact round true
  | some e =>
    rw [testing, bind_assoc]
    exact bind_congr fun v => bind_congr fun goes => round goes

theorem run_items_cons (name : String) (statements : List Stmt) (last v : Value)
    (values : List Value) : (items name statements last (v :: values)).run (fuel + 1) =
      Eval.define name v >>= fun _ =>
        unlessReturned (Eval.holding (last :: values) (Evaluator.sequence fuel .null statements))
          fun u => (items name statements u values).run fuel := by
  rw [run, each]
  rfl

theorem run_branches_cons (b : Branch) (rest : List Branch) :
    (branches (b :: rest)).run (fuel + 1) = testing fuel [] b.test >>= fun taken =>
      if taken then Eval.nested "if" Flow.values ((sequence .null b.body).run fuel)
      else (branches rest).run fuel := by
  obtain ⟨test, _, _⟩ := b
  cases test with
  | none =>
    simp only [run, choose]
    rfl
  | some e =>
    show _ = testing fuel [] (some e) >>= fun taken => _
    rw [testing, bind_assoc]
    simp only [run, choose]
    rfl

theorem run_loop (init test iterate : Option Expr) (statements : List Stmt) (line : Line) :
    (statement (.loop init test iterate statements line)).run (fuel + 1) =
      Eval.nested "loop" Flow.values (clause fuel [] init >>= fun _ =>
        (rounds test iterate statements .null).run fuel) := by
  cases init with
  | none =>
    rw [run, exec]
    rfl
  | some e =>
    rw [run, exec, clause, bind_assoc]
    rfl

theorem run_block (statements : List Stmt) (line : Line) :
    (statement (.block statements line)).run (fuel + 1) =
      Eval.nested "block" Flow.values ((sequence .null statements).run fuel) := by
  rw [run, exec]
  rfl

theorem run_foreach (name : String) (source : Expr) (statements : List Stmt) (line : Line) :
    (statement (.foreach name source statements line)).run (fuel + 1) =
      (eval fuel source).resolved source.line >>= fun v =>
        Eval.check (Evaluator.items · line v) >>= fun values =>
          Eval.nested "foreach" Flow.values ((items name statements .null values).run fuel) := by
  rw [run, exec]
  rfl

theorem run_choice (bs : List Branch) (line : Line) :
    (statement (.choice bs line)).run (fuel + 1) = (branches bs).run fuel := by
  rw [run, exec]
  rfl

theorem run_zero (t : Task) : t.run 0 = Eval.cutOff := by
  cases t with
  | body ss =>
    rw [run, Evaluator.body]
    rfl
  | statement s => rw [run, exec]
  | sequence last ss => rw [run, Evaluator.sequence]
  | rounds test iterate ss last => rw [run, repeated]
  | items name ss last vs => rw [run, each]
  | branches bs => rw [run, choose]

end Task

namespace Control

variable {x y : Control} {t : Task}

theorem ends_iff_of_succ {f : Nat → Eval Flow} (step : ∀ fuel, t.run (fuel + 1) = f fuel) :
    Ends ⟨setting, m, t, os⟩ log flow n ↔ ∃ fuel, (f fuel).Exits setting m log (.ok flow) n :=
  Eval.exists_exits_iff_of_succ t.run_zero step

/-- What is done in a new scope ends in a return, and then the task that has opened the scope. -/
theorem exists_exits_of_opening {x : Nat → Eval Flow} {name : String} (os : List Opened)
    (task : Task)
    (inside : ∃ fuel, (x fuel).Exits (opening setting m os name task).setting
      (opening setting m os name task).machine log (.ok (.ret v)) n) :
    ∃ k, (∃ fuel, (Eval.nested name Flow.values (x fuel)).Exits setting m log (.ok (.ret v)) k) ∧
      unwind os v k = unwind (opening setting m os name task).opened v n := by
  obtain ⟨fuel, inside⟩ := inside
  exact ⟨_, ⟨fuel, (exits_nested_iff os task).2 ⟨n, inside, rfl⟩⟩, rfl⟩

theorem endsIn_statements {a b : Nat} (le : a ≤ b) (held : List Value) (statements : List Stmt) :
    (Eval.holding held (sequence a .null statements)).EndsIn
      (Eval.holding held (sequence b .null statements)) :=
  Eval.congruence_endsIn.holding held ((endsIn le).sequence .null statements)

theorem endsIn_then {a b : Nat} (le : a ≤ b) (held : List Value) (e : Option Expr) (t : Task) :
    (clause a held e >>= fun _ => t.run a).EndsIn (clause b held e >>= fun _ => t.run b) :=
  Eval.congruence_endsIn.bind (endsIn_clause le held e) fun _ => endsIn_run le t

theorem endsIn_round {a b : Nat} (le : a ≤ b) (test iterate : Option Expr)
    (statements : List Stmt) (last : Value) : (Task.round a test iterate statements last).EndsIn
      (Task.round b test iterate statements last) :=
  endsIn_unlessReturned (endsIn_statements le [last] statements) fun v => endsIn_then le [v] iterate _

/-- A task that comes after a test. -/
theorem exists_exits_of_tests {held : List Value} {b : Bool} {f : Nat → Bool → Eval Flow}
    (tests : Tests (setting.hold held) m l₁ test b k)
    (more : ∀ {a c}, a ≤ c → (f a b).EndsIn (f c b))
    (rest : ∃ fuel, (f fuel b).Exits setting k l₂ (.ok flow) n) :
    ∃ fuel, (testing fuel held test >>= f fuel).Exits setting m (l₁ ++ l₂) (.ok flow) n :=
  (Eval.exists_exits_bind_iff (fun le => endsIn_testing le held test) more
    (exists_exits_testing_iff.2 tests)).2 rest

/-- A task that comes after a clause. -/
theorem exists_exits_of_clause {held : List Value} {e : Option Expr}
    (evaluated : Clause (setting.hold held) m l₁ e k) (ends : Ends ⟨setting, k, t, os⟩ l₂ flow n) :
    ∃ fuel, (clause fuel held e >>= fun _ => t.run fuel).Exits setting m (l₁ ++ l₂) (.ok flow) n :=
  (Eval.exists_exits_bind_iff (f := fun fuel _ => t.run fuel) (fun le => endsIn_clause le held e)
    (fun le => endsIn_run le t) ((exists_exits_clause_iff _).2 evaluated)).2 ends

end Control

end Scriptlet.Evaluator
