import Scriptlet.Proofs.Evaluation.Executions
import Scriptlet.Proofs.Statement.Grammar
import Scriptlet.Proofs.Statement.Ready

/-!
# Scripts of one expression

A text that reads as one expression is a script of one statement: the reader collects its tokens,
and the end of the input completes it. Running the script is evaluating the expression.
-/

namespace Scriptlet

open Scriptlet.Expr (Reads)

namespace StatementReader

/-- The reader that has collected all tokens of an expression. -/
theorem exists_feedAll_expression {e : Expr} {tokens : List PlacedToken}
    (reads : Reads (.expr e) tokens)
    (other : ∀ t ∈ tokens.head?, t.token ≠ .keyword .varWord) :
    ∃ r, feedAll .new tokens = accept r ∧ r.ready = [] ∧ r.flush.2 = none ∧
      r.flush.1.ready = [.expr e] := by
  obtain ⟨t, rest, rfl⟩ := List.exists_cons_of_ne_nil reads.nonempty
  have starts := Grammar.startsLine_of_reads (other t rfl) reads
  have collected := (collects_line .new .expr t.line).feeds reads.solid.nested
    (staysInLine_of_reads reads) 0 []
  rw [List.append_nil] at collected
  obtain ⟨l, fed⟩ := Feeds.startLine (r := .new) rfl starts collected
  refine ⟨_, fed, rfl, ?_⟩
  have completes := Grammar.completeLine_expr reads
    { new.goto (.line .expr (t :: rest).reverse 0 t.line) with line := l } .expr t.line l
  have flushed : flush { new.goto (.line .expr (t :: rest).reverse 0 t.line) with line := l } =
      andThen (completeLine { new.goto (.line .expr (t :: rest).reverse 0 t.line) with line := l }
        .expr (t :: rest).reverse t.line l) fun r => accept r.release := rfl
  rw [flushed, completes]
  exact ⟨rfl, rfl⟩

end StatementReader

namespace Evaluator

open StatementReader (feedAll accept)

variable {r r₁ : StatementReader} {tokens : List PlacedToken} {e : Expr} {source : String}

/-! ## Arguments and builtins -/

section

variable {setting : Setting} {m k n : Machine} {fuel : Nat} {es : List Expr} {v w : Value}
  {vs : List Value}

theorem exits_resolved (first : (eval fuel e).Exits setting m [] (.ok v) k) {line : Line}
    (settled : k.store.resolved v line = .ok w) :
    ((eval fuel e).resolved line).Exits setting m [] (.ok w) k := by
  refine Eval.Exits.bind_nil first ?_
  show Outcome.Exits (Eval.check (·.resolved v line) setting k) _ _ _
  simp only [Eval.check, settled]
  exact .value

theorem exits_arguments_nil : (arguments (fuel + 1) []).Exits setting m [] (.ok []) m := by
  rw [arguments]
  exact .value

/-- The first argument, and then the others while it is in use. -/
theorem exits_arguments_cons {result : Except RuntimeError (List Value)}
    (first : (eval fuel e).Exits setting m [] (.ok v) k) (settled : k.store.resolved v e.line = .ok w)
    (rest : (arguments fuel es).Exits (setting.hold [w]) k [] result n) :
    (arguments (fuel + 1) (e :: es)).Exits setting m [] (result.map (w :: ·)) n := by
  rw [arguments]
  refine Eval.Exits.bind_nil (exits_resolved first settled) ?_
  have held : (Eval.holding [w] (arguments fuel es)).Exits setting k [] result n := rest
  cases result with
  | ok vs => exact Eval.Exits.bind_nil held .value
  | error failure => exact .bind_error held

theorem exits_arguments_error {failure : RuntimeError}
    (first : (eval fuel e).Exits setting m [] (.error failure) k) :
    (arguments (fuel + 1) (e :: es)).Exits setting m [] (.error failure) k := by
  rw [arguments]
  exact .bind_error (Eval.Exits.bind_error first)

/-- A builtin that writes nothing and keeps the store. -/
theorem exits_invoke_builtin {f : FunctionRef} {b : Builtin} {line : Line}
    {result : Except RuntimeError Value} (body : (m.store.function f).body = .builtin b)
    (silent : b.output m.store vs = "")
    (called : b.call m.store vs line = result.map (·, m.store)) :
    (invoke (fuel + 1) f vs none line).Exits setting m [] result m := by
  rw [invoke]
  refine Eval.Exits.bind_nil (a := m.store.function f) .value ?_
  simp only [body]
  refine Eval.Exits.bind_nil (a := "") (k := m) ?_ ?_
  · rw [← silent]
    exact .value
  · cases result with
    | ok v =>
      refine Eval.Exits.bind_nil (a := v) (k := m) ?_ .value
      show Outcome.Exits (Eval.attempt (fun s => b.call s vs line) setting m) _ _ _
      simp only [Eval.attempt, called]
      exact .value
    | error failure =>
      refine .bind_error ?_
      show Outcome.Exits (Eval.attempt (fun s => b.call s vs line) setting m) _ _ _
      simp only [Eval.attempt, called]
      exact .error

/-- A call of a function that is found by its name. -/
theorem exits_call {f : FunctionRef} {name : String} {line : Line} {result : Except RuntimeError Value}
    (found : m.store.findFunction? m.current name = some f)
    (evaluated : (arguments fuel es).Exits (setting.hold [.function f]) m [] (.ok vs) k)
    (invoked : (invoke fuel f vs none line).Exits (setting.hold [.function f]) k [] result n) :
    (call (fuel + 1) name es line).Exits setting m [] result n := by
  rw [call]
  refine Eval.Exits.bind_nil (a := some f) (k := m) ?_ ?_
  · rw [← found]
    exact .value
  · exact Eval.Exits.bind_nil
      (show (Eval.holding [.function f] (arguments fuel es)).Exits setting m [] (.ok vs) k from
        evaluated) invoked

theorem exits_call_error {f : FunctionRef} {name : String} {line : Line} {failure : RuntimeError}
    (found : m.store.findFunction? m.current name = some f)
    (evaluated : (arguments fuel es).Exits (setting.hold [.function f]) m [] (.error failure) k) :
    (call (fuel + 1) name es line).Exits setting m [] (.error failure) k := by
  rw [call]
  refine Eval.Exits.bind_nil (a := some f) (k := m) ?_ ?_
  · rw [← found]
    exact .value
  · exact .bind_error
      (show (Eval.holding [.function f] (arguments fuel es)).Exits setting m [] (.error failure) k
        from evaluated)

/-- An operator that stores nothing is called like any function. -/
theorem eval_call {name : String} {p : Precedence} {line : Line}
    (plain : (Symbol.ofText? name).bind Symbol.assign? = none) :
    eval (fuel + 1) (.call name es p line) = call fuel name es line := by
  simp only [eval, plain]

end

/-! ## Scripts -/

/-- Tokens that complete nothing only change the reader. -/
theorem feed_unready (read : feedAll r tokens = accept r₁) (taken : r.ready = [])
    (unready : r₁.ready = []) (fuel : Nat) (u : Value) :
    feed (fuel + 1 + tokens.length) r tokens u = feed (fuel + 1) r₁ [] u := by
  induction tokens generalizing r with
  | nil =>
    obtain rfl : r = r₁ := congrArg Prod.fst read
    rfl
  | cons t rest ih =>
    obtain ⟨r₂, r₃, fed, later, same⟩ := StatementReader.exists_of_feedAll_cons read
    obtain ⟨now, -⟩ : r₂.ready = [] ∧ r₃.ready = [] := by
      rw [same] at unready
      exact List.append_eq_nil_iff.1 unready
    have whole : r₁ = r₃ := by rw [same, now]; rfl
    obtain ⟨k, positive⟩ : ∃ k, fuel + 1 + rest.length = k + 1 := ⟨fuel + rest.length, by omega⟩
    have step : feed (fuel + 1 + rest.length + 1) r (t :: rest) u =
        feed (fuel + 1 + rest.length) r₂.takeReady.2 rest u := by
      rw [feed, fed]
      simp only [accept, now, positive, executed, pure_bind]
    rw [← ih (whole ▸ later) rfl, ← step]
    rfl

theorem executed_expression (fuel : Nat) (e : Expr) :
    executed (fuel + 2) [.expr e] .null = eval fuel e := by
  have kept : Eval.holding [.null] (exec (fuel + 1) (.expr e)) = exec (fuel + 1) (.expr e) := rfl
  rw [executed, kept, exec]
  simp only [bind_assoc, pure_bind, executed, Flow.value, bind_pure]

/-- Running a text that reads as an expression is evaluating the expression. -/
theorem run_expression (lexes : Lexer.tokenize source 1 = .ok tokens) (reads : Reads (.expr e) tokens)
    (other : ∀ t ∈ tokens.head?, t.token ≠ .keyword .varWord) (fuel : Nat) :
    run (fuel + 3 + tokens.length + 1) source =
      Eval.asScript (eval fuel e >>= fun v => pure (.ok v)) := by
  obtain ⟨r, fed, unready, completes, ready⟩ :=
    StatementReader.exists_feedAll_expression reads other
  obtain ⟨r₁, flushed⟩ : ∃ r₁, r.flush = (r₁, none) := ⟨_, Prod.ext rfl completes⟩
  have completed : r₁.ready = [.expr e] := by
    rw [flushed] at ready
    exact ready
  rw [run, lexes]
  simp only [feed_unready fed rfl unready]
  rw [feed, flushed]
  simp only [completed, executed_expression]

theorem run_value {setting : Setting} {m n : Machine} {v : Value}
    (lexes : Lexer.tokenize source 1 = .ok tokens) (reads : Reads (.expr e) tokens)
    (other : ∀ t ∈ tokens.head?, t.token ≠ .keyword .varWord) {fuel : Nat}
    (evaluated : eval fuel e setting m = .value v n) :
    run (fuel + 3 + tokens.length + 1) source setting m = .value (.ok v) n := by
  rw [run_expression lexes reads other]
  show Outcome.andThen (Outcome.caught (Outcome.andThen (eval fuel e setting m) _)) _ = _
  rw [evaluated]
  rfl

theorem run_error {setting : Setting} {m n : Machine} {failure : RuntimeError}
    (lexes : Lexer.tokenize source 1 = .ok tokens) (reads : Reads (.expr e) tokens)
    (other : ∀ t ∈ tokens.head?, t.token ≠ .keyword .varWord) {fuel : Nat}
    (evaluated : eval fuel e setting m = .error failure n) :
    run (fuel + 3 + tokens.length + 1) source setting m =
      .value (.error (.running failure)) { n with current := n.global } := by
  rw [run_expression lexes reads other]
  show Outcome.andThen (Outcome.caught (Outcome.andThen (eval fuel e setting m) _)) _ = _
  rw [evaluated]
  rfl

end Evaluator

end Scriptlet
