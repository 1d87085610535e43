import Scriptlet.Proofs.Evaluation.Control
import Scriptlet.Proofs.Expr.Grammar

/-!
# Returns

When control comes to a `return` in a call, every task around that one ends with the returned value
as soon as the value is known, and only the scopes of these tasks are left (`Control.Comes.ends`).
So nothing else of the call is done. An expression ends in no `return`.
-/

namespace Scriptlet.Evaluator

variable {setting : Setting} {m k n : Machine} {log l₁ l₂ l₃ : FileLog} {u v : Value}
  {os : List Opened} {flow : Flow} {statements : List Stmt}

namespace Control

variable {x y : Control}

/-! ## Up to a return -/

/-- When the task that control goes on with ends in a return, the one before ends in it. -/
theorem Step.ends (step : x.Step l₁ y) (ends : y.Ends l₂ (.ret v) n) :
    ∃ k, x.Ends (l₁ ++ l₂) (.ret v) k ∧ unwind x.opened v k = unwind y.opened v n := by
  cases step with
  | @first setting m s rest os =>
    refine ⟨n, (ends_iff_of_succ fun fuel => Task.run_body_cons fuel s rest).2 ?_, rfl⟩
    exact exists_exits_of_returned ends
  | @next setting m k s rest os log u executes =>
    refine ⟨n, (ends_iff_of_succ fun fuel => Task.run_body_cons fuel s rest).2 ?_, rfl⟩
    exact exists_exits_of_normal (fun le => (endsIn le).exec s) (fun le _ => endsIn_run le _)
      executes ends
  | @inner setting m last s rest os =>
    refine ⟨n, (ends_iff_of_succ fun fuel => Task.run_sequence_cons fuel last s rest).2 ?_, rfl⟩
    exact exists_exits_of_returned (x := fun fuel => Eval.holding [last] (exec fuel s)) ends
  | @innerNext setting m k last u s rest os log executes =>
    refine ⟨n, (ends_iff_of_succ fun fuel => Task.run_sequence_cons fuel last s rest).2 ?_, rfl⟩
    exact exists_exits_of_normal (x := fun fuel => Eval.holding [last] (exec fuel s))
      (fun le => Eval.congruence_endsIn.holding [last] ((endsIn le).exec s))
      (fun le _ => endsIn_run le _) executes ends
  | @block setting m statements line os =>
    obtain ⟨k, outside, same⟩ := exists_exits_of_opening os _ ends
    exact ⟨k, (ends_iff_of_succ fun fuel => Task.run_block fuel statements line).2 outside, same⟩
  | @loop setting m k init test iterate statements line os x log opened clause =>
    subst opened
    -- a first clause is evaluated before any value of a round is in use
    have clause : Clause ((opening setting m os "loop" (.rounds test iterate statements .null)).setting.hold
      []) _ l₁ init k := clause
    have inside := exists_exits_of_clause clause ends
    obtain ⟨k, outside, same⟩ := exists_exits_of_opening os _ inside
    exact ⟨k, (ends_iff_of_succ fun fuel =>
      Task.run_loop fuel init test iterate statements line).2 outside, same⟩
  | @round setting m k test iterate statements last os log tests =>
    refine ⟨n, (ends_iff_of_succ fun fuel =>
      Task.run_rounds fuel test iterate statements last).2 ?_, rfl⟩
    refine exists_exits_of_tests tests (fun le => endsIn_round le test iterate statements last) ?_
    exact exists_exits_of_returned
      (x := fun fuel => Eval.holding [last] (sequence fuel .null statements)) ends
  | @nextRound setting m k j i test iterate statements last u os l₁ l₃ l₄ tests round clause =>
    refine ⟨n, (ends_iff_of_succ fun fuel =>
      Task.run_rounds fuel test iterate statements last).2 ?_, rfl⟩
    rw [List.append_assoc, List.append_assoc]
    refine exists_exits_of_tests tests (fun le => endsIn_round le test iterate statements last) ?_
    exact exists_exits_of_normal
      (x := fun fuel => Eval.holding [last] (sequence fuel .null statements))
      (fun le => endsIn_statements le [last] statements) (fun le v => endsIn_then le [v] iterate _)
      round (exists_exits_of_clause clause ends)
  | @foreach setting m k name source statements line u values os log resolves through =>
    obtain ⟨j, outside, same⟩ := exists_exits_of_opening os _ ends
    refine ⟨j, (ends_iff_of_succ fun fuel =>
      Task.run_foreach fuel name source statements line).2 ?_, same⟩
    have found : (Eval.check (items · line u)).Exits setting k [] (.ok values) k := by
      rw [Eval.Exits, Eval.check, through]
      exact .value
    refine (Eval.exists_exits_bind_iff (fun le => endsIn_resolved le source) (fun le => ?_)
      resolves).2 ?_
    · exact Eval.congruence_endsIn.bind (Eval.EndsIn.refl _) fun values =>
        Eval.congruence_endsIn.nested _ _ (endsIn_run le (.items name statements .null values))
    · obtain ⟨fuel, outside⟩ := outside
      exact ⟨fuel, .bind_nil found outside⟩
  | @item setting m name statements last u values os =>
    refine ⟨n, (ends_iff_of_succ fun fuel =>
      Task.run_items_cons fuel name statements last u values).2 ?_, rfl⟩
    exact exists_exits_of_returned
      (x := fun fuel => Eval.holding (last :: values) (sequence fuel .null statements)) ends
  | @nextItem setting m k name statements last u w values os log round =>
    refine ⟨n, (ends_iff_of_succ fun fuel =>
      Task.run_items_cons fuel name statements last u values).2 ?_, rfl⟩
    exact exists_exits_of_normal
      (x := fun fuel => Eval.holding (last :: values) (sequence fuel .null statements))
      (fun le => endsIn_statements le (last :: values) statements) (fun le v => endsIn_run le _)
      round ends
  | @choice setting m bs line os =>
    exact ⟨n, (ends_iff_of_succ fun fuel => Task.run_choice fuel bs line).2 ends, rfl⟩
  | @taken setting m k b rest os log tests =>
    obtain ⟨j, outside, same⟩ := exists_exits_of_opening os _ ends
    refine ⟨j, (ends_iff_of_succ fun fuel => Task.run_branches_cons fuel b rest).2 ?_, same⟩
    have tests : Tests (setting.hold []) m l₁ b.test true k := tests
    exact exists_exits_of_tests tests (fun le => Eval.congruence_endsIn.nested _ _
      (endsIn_run le (.sequence .null b.body))) outside
  | @passed setting m k b rest os log tests =>
    refine ⟨n, (ends_iff_of_succ fun fuel => Task.run_branches_cons fuel b rest).2 ?_, rfl⟩
    have tests : Tests (setting.hold []) m l₁ b.test false k := tests
    exact exists_exits_of_tests tests (fun le => endsIn_run le (.branches rest)) ends

/-- Every task around one that ends in a return ends in it, and nothing is done but that the scopes
of these tasks are left. -/
theorem Comes.ends (comes : x.Comes l₁ y) (ends : y.Ends l₂ (.ret v) n) :
    ∃ k, x.Ends (l₁ ++ l₂) (.ret v) k ∧ unwind x.opened v k = unwind y.opened v n := by
  induction comes with
  | here => exact ⟨n, ends, rfl⟩
  | step step _ ih =>
    obtain ⟨j, later, same⟩ := ih ends
    obtain ⟨k, whole, unwinds⟩ := step.ends later
    rw [List.append_assoc]
    exact ⟨k, whole, unwinds.trans same⟩

theorem ends_return_iff (os : List Opened) {e : Option Expr} {line : Line} :
    Ends ⟨setting, m, .statement (.ret e line), os⟩ log flow n ↔
      ∃ v, flow = .ret v ∧ Returns setting m log e v n := by
  cases e with
  | none =>
    rw [ends_iff_of_succ (f := fun _ => pure (.ret .null)) fun fuel => by rw [Task.run, exec]]
    simp only [Eval.exits_pure_iff, exists_const]
    constructor
    · rintro ⟨rfl, same, rfl⟩
      cases same
      exact ⟨.null, rfl, .none⟩
    · rintro ⟨v, rfl, returns⟩
      cases returns
      exact ⟨rfl, rfl, rfl⟩
  | some e =>
    rw [ends_iff_of_succ (f := fun fuel => (eval fuel e).resolved e.line >>= fun v => pure (.ret v))
      fun fuel => by rw [Task.run, exec]]
    simp only [Eval.exits_bind_pure_iff]
    constructor
    · rintro ⟨fuel, ⟨_, never, -⟩ | ⟨v, same, resolves⟩⟩
      · cases never
      · cases same
        exact ⟨v, rfl, .some ⟨fuel, resolves⟩⟩
    · rintro ⟨v, rfl, returns⟩
      cases returns with
      | some resolves =>
        obtain ⟨fuel, resolves⟩ := resolves
        exact ⟨fuel, .inr ⟨v, rfl, resolves⟩⟩

/-- A call ends with the value that its body returns, and its scopes are left. -/
theorem exits_invoke_iff {ref : FunctionRef} {receiver : Option ScopeRef} {values : List Value}
    (line : Line) (isScript : (m.store.function ref).body = .script statements) :
    (∃ fuel, (invoke fuel ref values receiver line).Exits setting m log (.ok v) n) ↔ ∃ k,
      (call setting m (m.store.function ref) receiver values statements).Ends log (.ret v) k ∧
        n = unwind (call setting m (m.store.function ref) receiver values statements).opened v k := by
  constructor
  · rintro ⟨fuel, ends⟩
    cases fuel with
    | zero =>
      rw [invoke] at ends
      cases ends
    | succ fuel =>
      rw [Eval.Exits, invoke_script isScript] at ends
      obtain ⟨k, inside, rfl⟩ := Outcome.exits_finish_iff.1 ends
      exact ⟨k, ⟨fuel, Eval.exits_bind_pure_iff.2 (.inr ⟨v, rfl, inside⟩)⟩, rfl⟩
  · rintro ⟨k, ⟨fuel, ends⟩, rfl⟩
    obtain ⟨_, never, -⟩ | ⟨_, same, inside⟩ := Eval.exits_bind_pure_iff.1 ends
    · cases never
    · cases same
      refine ⟨fuel + 1, ?_⟩
      rw [Eval.Exits, invoke_script isScript]
      exact Outcome.exits_finish_iff.2 ⟨k, inside, rfl⟩

/-! ## What returns come from -/

/-- Whether an evaluation cannot end in a return. -/
def EndsNormally (x : Eval Flow) : Prop :=
  ∀ {setting m log v n}, ¬ x.Exits setting m log (.ok (.ret v)) n

theorem endsNormally_pure (v : Value) : EndsNormally (pure (.normal v)) := by
  intro setting m log u n ends
  obtain ⟨-, never, -⟩ := Eval.exits_pure_iff.1 ends
  cases never

theorem endsNormally_bind {α : Type} {x : Eval α} {f : α → Eval Flow}
    (rest : ∀ a, EndsNormally (f a)) : EndsNormally (x >>= f) := by
  intro setting m log v n ends
  obtain ⟨_, _, a, k, -, -, last⟩ := Eval.exists_of_exits_bind_ok ends
  exact rest a last

theorem endsNormally_fail (e : RuntimeError) : EndsNormally (Eval.fail e) := by
  intro setting m log v n ends
  obtain ⟨-, never, -⟩ := Outcome.exits_error_iff.1 ends
  cases never

/-- The statements that are not made of others, and those whose own statements are not executed in
the call. -/
theorem endsNormally_exec {s : Stmt} (plain : match s with
      | .expr _ | .define .. | .function .. | .classDef .. | .importFile .. => True
      | _ => False) (fuel : Nat) : EndsNormally (exec fuel s) := by
  cases fuel with
  | zero =>
    rw [exec]
    exact Outcome.not_exits_cutOff
  | succ fuel =>
    cases s with
    | expr e =>
      rw [exec]
      exact endsNormally_bind endsNormally_pure
    | define name e line =>
      rw [exec]
      exact endsNormally_bind fun _ => endsNormally_bind fun v => endsNormally_bind fun _ =>
        endsNormally_pure v
    | function name parameters body line =>
      rw [exec]
      exact endsNormally_bind fun _ => endsNormally_pure .null
    | classDef name bases body line =>
      rw [exec]
      exact endsNormally_bind fun _ => endsNormally_bind fun _ => endsNormally_bind fun _ =>
        endsNormally_bind fun _ => endsNormally_bind fun _ => endsNormally_pure .null
    | importFile path line =>
      rw [exec]
      refine endsNormally_bind fun _ => endsNormally_bind fun answer => ?_
      cases answer with
      | error reason => exact endsNormally_fail _
      | ok source => exact endsNormally_bind endsNormally_pure
    | _ => exact plain.elim

/-- Whether control goes on from a task that ends in a return, with one that ends in it with less
fuel. -/
def StepsOn (x : Control) (fuel : Nat) (log : FileLog) (v : Value) (n : Machine) : Prop :=
  ∃ l₁ l₂ y k, log = l₁ ++ l₂ ∧ x.Step l₁ y ∧
    (y.task.run fuel).Exits y.setting y.machine l₂ (.ok (.ret v)) k ∧
      unwind y.opened v k = unwind x.opened v n

section

variable {fuel : Nat} {name : String} {s : Stmt} {b : Branch} {bs : List Branch} {last : Value}
  {values : List Value} {init test iterate : Option Expr} {source : Expr} {line : Line}

theorem stepsOn_body (ends : ((Task.body (s :: statements)).run (fuel + 1)).Exits setting m log
    (.ok (.ret v)) n) : StepsOn ⟨setting, m, .body (s :: statements), os⟩ fuel log v n := by
  rw [Task.run_body_cons] at ends
  obtain ⟨_, same, first⟩ | ⟨l₁, l₂, u, k, rfl, first, rest⟩ := exits_unlessReturned_iff.1 ends
  · cases same
    exact ⟨[], log, _, n, rfl, .first, first, rfl⟩
  · exact ⟨l₁, l₂, _, n, rfl, .next ⟨fuel, first⟩, rest, rfl⟩

theorem stepsOn_sequence (ends : ((Task.sequence last (s :: statements)).run (fuel + 1)).Exits
    setting m log (.ok (.ret v)) n) :
    StepsOn ⟨setting, m, .sequence last (s :: statements), os⟩ fuel log v n := by
  rw [Task.run_sequence_cons] at ends
  obtain ⟨_, same, first⟩ | ⟨l₁, l₂, u, k, rfl, first, rest⟩ := exits_unlessReturned_iff.1 ends
  · cases same
    exact ⟨[], log, _, n, rfl, .inner, first, rfl⟩
  · exact ⟨l₁, l₂, _, n, rfl, .innerNext ⟨fuel, first⟩, rest, rfl⟩

theorem stepsOn_rounds (ends : ((Task.rounds test iterate statements last).run (fuel + 1)).Exits
    setting m log (.ok (.ret v)) n) :
    StepsOn ⟨setting, m, .rounds test iterate statements last, os⟩ fuel log v n := by
  rw [Task.run_rounds] at ends
  obtain ⟨l₁, l₂, goes, k, rfl, tested, rest⟩ := Eval.exists_of_exits_bind_ok ends
  have tests := exists_exits_testing_iff.1 ⟨fuel, tested⟩
  cases goes with
  | false => exact (endsNormally_pure last rest).elim
  | true =>
    obtain ⟨_, same, inside⟩ | ⟨l₃, l₄, u, j, rfl, inside, rest⟩ := exits_unlessReturned_iff.1 rest
    · cases same
      exact ⟨l₁, l₂, _, n, rfl, .round tests, inside, rfl⟩
    obtain ⟨l₅, l₆, _, i, rfl, evaluated, again⟩ := Eval.exists_of_exits_bind_ok rest
    have next : Step ⟨setting, m, .rounds test iterate statements last, os⟩ (l₁ ++ (l₃ ++ l₅))
        ⟨setting, i, .rounds test iterate statements u, os⟩ :=
      .nextRound tests ⟨fuel, inside⟩ ((exists_exits_clause_iff _).1 ⟨fuel, evaluated⟩)
    exact ⟨l₁ ++ (l₃ ++ l₅), l₆, _, n, by simp, next, again, rfl⟩

theorem stepsOn_items (ends : ((Task.items name statements last (u :: values)).run (fuel + 1)).Exits
    setting m log (.ok (.ret v)) n) :
    StepsOn ⟨setting, m, .items name statements last (u :: values), os⟩ fuel log v n := by
  rw [Task.run_items_cons] at ends
  have ends : (unlessReturned _ _).Exits setting
      { m with store := m.store.setVariable m.current name u } log _ n := ends
  obtain ⟨_, same, inside⟩ | ⟨l₁, l₂, w, k, rfl, inside, rest⟩ := exits_unlessReturned_iff.1 ends
  · cases same
    exact ⟨[], log, _, n, rfl, .item, inside, rfl⟩
  · exact ⟨l₁, l₂, _, n, rfl, .nextItem ⟨fuel, inside⟩, rest, rfl⟩

theorem stepsOn_branches (ends : ((Task.branches (b :: bs)).run (fuel + 1)).Exits setting m log
    (.ok (.ret v)) n) : StepsOn ⟨setting, m, .branches (b :: bs), os⟩ fuel log v n := by
  rw [Task.run_branches_cons] at ends
  obtain ⟨l₁, l₂, taken, k, rfl, tested, rest⟩ := Eval.exists_of_exits_bind_ok ends
  have tests : Tests setting m l₁ b.test taken k := exists_exits_testing_iff.1 ⟨fuel, tested⟩
  cases taken with
  | false => exact ⟨l₁, l₂, _, n, rfl, .passed tests, rest, rfl⟩
  | true =>
    obtain ⟨j, inside, rfl⟩ := (exits_nested_iff os (.sequence .null b.body)).1 rest
    exact ⟨l₁, l₂, _, j, rfl, .taken tests, inside, rfl⟩

theorem stepsOn_loop (ends : ((Task.statement (.loop init test iterate statements line)).run
    (fuel + 1)).Exits setting m log (.ok (.ret v)) n) :
    StepsOn ⟨setting, m, .statement (.loop init test iterate statements line), os⟩ fuel log v n := by
  rw [Task.run_loop] at ends
  obtain ⟨j, inside, rfl⟩ := (exits_nested_iff os (.rounds test iterate statements .null)).1 ends
  obtain ⟨l₁, l₂, _, k, rfl, evaluated, rest⟩ := Eval.exists_of_exits_bind_ok inside
  have first : Clause (opening setting m os "loop" (.rounds test iterate statements .null)).setting
      _ l₁ init k := (exists_exits_clause_iff []).1 ⟨fuel, evaluated⟩
  exact ⟨l₁, l₂,
    { opening setting m os "loop" (.rounds test iterate statements .null) with machine := k },
    j, rfl, .loop rfl first, rest, rfl⟩

theorem stepsOn_foreach (ends : ((Task.statement (.foreach name source statements line)).run
    (fuel + 1)).Exits setting m log (.ok (.ret v)) n) :
    StepsOn ⟨setting, m, .statement (.foreach name source statements line), os⟩ fuel log v n := by
  rw [Task.run_foreach] at ends
  obtain ⟨l₁, l₂, u, k, rfl, resolved, rest⟩ := Eval.exists_of_exits_bind_ok ends
  obtain ⟨l₃, l₄, values, i, rfl, checked, nested⟩ := Eval.exists_of_exits_bind_ok rest
  obtain ⟨rfl, through, rfl⟩ := Eval.of_exits_check checked
  obtain ⟨j, inside, rfl⟩ := (exits_nested_iff os (.items name statements .null values)).1 nested
  exact ⟨l₁, l₄, _, j, rfl, .foreach ⟨fuel, resolved⟩ through, inside, rfl⟩

end

/-- A task that ends in a return is one, or it is the end of a body, or control goes on with a task
that ends in it with less fuel. -/
theorem exists_step_of_exits {fuel : Nat}
    (ends : (x.task.run (fuel + 1)).Exits x.setting x.machine log (.ok (.ret v)) n) :
    (∃ e line, x.task = .statement (.ret e line) ∧ Returns x.setting x.machine log e v n) ∨
    (x.task = .body [] ∧ log = [] ∧ v = .null ∧ n = x.machine) ∨ x.StepsOn fuel log v n := by
  obtain ⟨setting, m, t, os⟩ := x
  dsimp only at ends
  cases t with
  | body ss =>
    cases ss with
    | nil =>
      rw [Task.run, body, pure_bind] at ends
      obtain ⟨rfl, same, rfl⟩ := Eval.exits_pure_iff.1 ends
      cases same
      exact .inr (.inl ⟨rfl, rfl, rfl, rfl⟩)
    | cons s rest => exact .inr (.inr (stepsOn_body ends))
  | sequence last ss =>
    cases ss with
    | nil =>
      rw [Task.run, sequence] at ends
      exact (endsNormally_pure last ends).elim
    | cons s rest => exact .inr (.inr (stepsOn_sequence ends))
  | rounds test iterate ss last => exact .inr (.inr (stepsOn_rounds ends))
  | items name ss last vs =>
    cases vs with
    | nil =>
      rw [Task.run, each] at ends
      exact (endsNormally_pure last ends).elim
    | cons u vs => exact .inr (.inr (stepsOn_items ends))
  | branches bs =>
    cases bs with
    | nil =>
      rw [Task.run, choose] at ends
      exact (endsNormally_pure .null ends).elim
    | cons b rest => exact .inr (.inr (stepsOn_branches ends))
  | statement s =>
    cases s with
    | ret e line =>
      obtain ⟨_, same, returns⟩ := (ends_return_iff os).1 ⟨_, ends⟩
      cases same
      exact .inl ⟨e, line, rfl, returns⟩
    | block ss line =>
      rw [Task.run_block] at ends
      obtain ⟨j, inside, rfl⟩ := (exits_nested_iff os (.sequence .null ss)).1 ends
      exact .inr (.inr ⟨[], log, _, j, rfl, .block, inside, rfl⟩)
    | loop init test iterate ss line => exact .inr (.inr (stepsOn_loop ends))
    | foreach name source ss line => exact .inr (.inr (stepsOn_foreach ends))
    | choice bs line =>
      rw [Task.run_choice] at ends
      exact .inr (.inr ⟨[], log, _, n, rfl, .choice, ends, rfl⟩)
    | expr | define | function | classDef | importFile =>
      exact (endsNormally_exec trivial _ ends).elim

/-- A task that ends in a return has come to one, or to the end of a body. -/
theorem comes_of_ends (ends : x.Ends log (.ret v) n) :
    x.ComesToReturn log v (unwind x.opened v n) ∨
      v = .null ∧ x.ComesToEnd log (unwind x.opened v n) := by
  obtain ⟨fuel, ends⟩ := ends
  induction fuel generalizing x log n with
  | zero =>
    rw [Task.run_zero] at ends
    cases ends
  | succ fuel ih =>
    obtain ⟨e, line, here, returns⟩ | ⟨here, rfl, rfl, rfl⟩ | ⟨l₁, l₂, y, k, rfl, step, later, same⟩ :=
      exists_step_of_exits ends
    · exact .inl ⟨[], log, x, e, line, n, rfl, .here, here, returns, rfl⟩
    · exact .inr ⟨rfl, x, .here, here, rfl⟩
    · rw [← same]
      obtain ⟨l₃, l₄, z, e, line, j, rfl, comes, found⟩ | ⟨rfl, z, comes, found⟩ := ih later
      · exact .inl ⟨l₁ ++ l₃, l₄, z, e, line, j, by simp, .step step comes, found⟩
      · exact .inr ⟨rfl, z, .step step comes, found⟩

section

variable {ref : FunctionRef} {receiver : Option ScopeRef} {values : List Value} {line : Line}
  {r : Except RuntimeError Value}

/-- A `return` ends the call that control has come to it in: the call ends with the returned value
in the machine where the value is known, but that its scopes have been left, and asks for nothing
more. -/
theorem exits_invoke_of_return (isScript : (m.store.function ref).body = .script statements)
    (comes : (call setting m (m.store.function ref) receiver values statements).ComesToReturn
      log v n) :
    (∃ fuel, (invoke fuel ref values receiver line).Exits setting m (log ++ l₃) r k) ↔
      l₃ = [] ∧ r = .ok v ∧ k = n := by
  obtain ⟨l₁, l₂, ⟨setting', m', task, os⟩, e, line', i, rfl, comes, here, returns, rfl⟩ := comes
  obtain rfl : task = .statement (.ret e line') := here
  obtain ⟨j, whole, same⟩ := comes.ends ((ends_return_iff _).2 ⟨v, rfl, returns⟩)
  have ends := (exits_invoke_iff line isScript).2 ⟨j, whole, rfl⟩
  rw [same] at ends
  constructor
  · intro other
    obtain ⟨a, ends⟩ := ends
    obtain ⟨b, other⟩ := other
    have logs : (l₁ ++ l₂) ++ l₃ = ((l₁ ++ l₂) ++ l₃) ++ [] := (List.append_nil _).symm
    obtain ⟨logs, rfl, rfl⟩ := exits_determined
      (fun le => (endsIn le).invoke ref values receiver line) ends other logs
    exact ⟨List.self_eq_append_right.1 logs, rfl, rfl⟩
  · rintro ⟨rfl, rfl, rfl⟩
    rw [List.append_nil]
    exact ends

/-- A call that ends with a value has come to a `return` of it, or to the end of its body. -/
theorem comes_of_exits_invoke (isScript : (m.store.function ref).body = .script statements)
    (ends : ∃ fuel, (invoke fuel ref values receiver line).Exits setting m log (.ok v) n) :
    (call setting m (m.store.function ref) receiver values statements).ComesToReturn log v n ∨
      v = .null ∧
        (call setting m (m.store.function ref) receiver values statements).ComesToEnd log n := by
  obtain ⟨j, inside, rfl⟩ := (exits_invoke_iff line isScript).1 ends
  exact comes_of_ends inside

end

end Control

/-! ## Calls and expressions -/

/-- The parts of an expression, and the whole of it. -/
inductive Part : Expr → Expr → Prop
  | whole {e : Expr} : Part e e
  | argument {x a : Expr} {f : String} {arguments : List Expr} {p : Precedence} {line : Line} :
      a ∈ arguments → Part x a → Part x (.call f arguments p line)
  | element {x a : Expr} {elements : List Expr} {line : Line} :
      a ∈ elements → Part x a → Part x (.list elements line)

/-- The forms of expressions, none of which has statements in it. -/
inductive Form : Expr → Prop
  | constant (c : Constant) (line : Line) : Form (.constant c line)
  | named (name : String) (line : Line) : Form (.named name line)
  | define (name : String) (line : Line) : Form (.define name line)
  | call (f : String) (arguments : List Expr) (p : Precedence) (line : Line) :
      Form (.call f arguments p line)
  | list (elements : List Expr) (line : Line) : Form (.list elements line)

theorem form (e : Expr) : Form e := by
  cases e with
  | constant c line => exact .constant c line
  | named name line => exact .named name line
  | define name line => exact .define name line
  | call f arguments p line => exact .call f arguments p line
  | list elements line => exact .list elements line

/-- What is executed for an expression ends normally. -/
theorem Executes.normal_of_expr {e : Expr} {flow : Flow}
    (executes : Executes setting m log (.expr e) (.ok flow) n) : ∃ v, flow = .normal v := by
  obtain ⟨fuel, ends⟩ := executes
  cases flow with
  | normal v => exact ⟨v, rfl⟩
  | ret v => exact (Control.endsNormally_exec trivial fuel ends).elim

/-- A `return` ends its call. No token of an expression is one, and no part of an expression ends in
one when it is executed. In a call of a function that is written in a script, control comes to a
`return` through blocks, branches and loops at any depth; with the returned value the call ends in
the machine where the value is known, but that its scopes have been left, and asks for nothing more.
A call that ends with a value has come to such a `return`, or to the end of its body. -/
theorem return_ends_call :
    (∀ tokens e, Expr.ofTokens tokens = .ok e →
      (∀ t ∈ tokens, Grammar.OfExpression t.token) ∧ ∀ x, Part x e → Form x ∧
        ∀ setting m log flow n, Executes setting m log (.expr x) (.ok flow) n →
          ∃ v, flow = .normal v) ∧
    ∀ setting m ref receiver values line statements,
      (m.store.function ref).body = .script statements →
      ∀ start, start = Control.call setting m (m.store.function ref) receiver values statements →
      (∀ log v n, start.ComesToReturn log v n → ∀ l r k,
        (∃ fuel, (invoke fuel ref values receiver line).Exits setting m (log ++ l) r k) ↔
          l = [] ∧ r = .ok v ∧ k = n) ∧
      ∀ log v n, (∃ fuel, (invoke fuel ref values receiver line).Exits setting m log (.ok v) n) →
        start.ComesToReturn log v n ∨ v = .null ∧ start.ComesToEnd log n := by
  refine ⟨fun tokens e built => ?_, ?_⟩
  · have derives := (Grammar.ofTokens_ok_iff_derives tokens).1 ⟨e, built⟩
    refine ⟨List.forall_mem_map.1 derives.ofExpression, fun x _ => ⟨form x, ?_⟩⟩
    exact fun setting m log flow n executes => executes.normal_of_expr
  · rintro setting m ref receiver values line statements isScript _ rfl
    refine ⟨fun log v n comes l r k => Control.exits_invoke_of_return isScript comes,
      fun log v n ends => Control.comes_of_exits_invoke isScript ends⟩

/-- The body of a function that returns from inside two loops and a branch. -/
def returningBody : List Stmt :=
  [.loop none none none
    [.foreach "x" (.list [.constant (.int 0) 1, .constant (.int 7) 1] 1)
      [.choice [⟨some (.named "x" 1), [.ret (some (.named "x" 1)) 1], 1⟩] 1] 1] 1,
    .ret none 2]

/-- A machine in which that function is the last one. -/
def returningMachine : Machine :=
  { Machine.new with
    store := Machine.new.store.defineFunction Machine.new.global
      ⟨"f", .free, [], .script returningBody, none⟩ }

/-- The theorem at a name and at a call of that function, whose loop has no other end. -/
theorem return_ends_call_returning :
    (∀ setting m log flow n, Executes setting m log (.expr (.named "x" 1)) (.ok flow) n →
      ∃ v, flow = .normal v) ∧
    ∃ setting ref n, (Control.call setting returningMachine
        (returningMachine.store.function ref) none [] returningBody).ComesToReturn [] (.int 7) n ∧
      ∀ l r k, (∃ fuel, (invoke fuel ref [] none 1).Exits setting returningMachine l r k) ↔
        l = [] ∧ r = .ok (.int 7) ∧ k = n := by
  have isScript : (returningMachine.store.function
      ⟨Machine.new.store.functions.size⟩).body = .script returningBody := by rfl
  have ends : ((invoke 60 ⟨Machine.new.store.functions.size⟩ [] none 1 ⟨#[], ".", []⟩
      returningMachine).value?.map Prod.fst) = some (.int 7) := by
    decide +kernel
  obtain ⟨⟨v, n⟩, ended, rfl⟩ := Option.map_eq_some_iff.1 ends
  obtain ⟨expressions, calls⟩ := return_ends_call
  obtain ⟨decides, comes⟩ := calls ⟨#[], ".", []⟩ returningMachine _ none [] 1 returningBody isScript
    _ rfl
  obtain returns | ⟨never, -⟩ := comes [] (.int 7) n ⟨60, Outcome.exits_of_value? ended⟩
  · exact ⟨((expressions [⟨.name "x", 1⟩] (.named "x" 1) rfl).2 _ .whole).2, _, _, n, returns,
      decides [] (.int 7) n returns⟩
  · cases never

end Scriptlet.Evaluator
