import Scriptlet.Proofs.Evaluation.Executions
import Scriptlet.Proofs.Statement.Ready

/-!
# Scripts as the statements that they hand out

A script is executed while it is read. What it does up to some token is what the statements do that
its reader has completed by then, one after another; a token that the reader refuses, or the end of
the input, decides how it ends.
-/

namespace Scriptlet.Evaluator

open Scriptlet.StatementReader (accept feedAll)

/-- The end of a script that is executed from a reader on, unless one of its statements fails. -/
def Finishes (setting : Setting) (m : Machine) (log : FileLog) (r : StatementReader)
    (tokens : List PlacedToken) (u : Value) (result : Except SyntaxError Value) (n : Machine) :
    Prop :=
  ∃ fuel, (feed fuel r tokens u).Exits setting m log (.ok result) n

variable {setting : Setting} {m n : Machine} {u v : Value} {log : FileLog}
  {r r₁ : StatementReader} {result : Except SyntaxError Value}

theorem finishes_iff_of_succ {tokens : List PlacedToken}
    {x : Nat → Eval (Except SyntaxError Value)}
    (step : ∀ fuel, feed (fuel + 1) r tokens u = x fuel) :
    Finishes setting m log r tokens u result n ↔
      ∃ fuel, (x fuel).Exits setting m log (.ok result) n :=
  Eval.exists_exits_iff_of_succ (by rw [feed]) step

theorem finishes_refused_iff {t : PlacedToken} {rest : List PlacedToken} {e : SyntaxError}
    (refused : (r.feed t).2 = some e) :
    Finishes setting m log r (t :: rest) u result n ↔ log = [] ∧ result = .error e ∧ n = m := by
  have step (fuel : Nat) : feed (fuel + 1) r (t :: rest) u = pure (.error e) := by
    obtain ⟨r₁, fed⟩ : ∃ r₁, r.feed t = (r₁, some e) := ⟨_, Prod.ext rfl refused⟩
    rw [feed]
    simp only [fed]
  rw [finishes_iff_of_succ step]
  simp only [Eval.exits_pure_iff, exists_const, Except.ok.injEq]

/-- One token: what it completes is executed before the next one is read. -/
theorem finishes_cons_iff {t : PlacedToken} {rest : List PlacedToken}
    (read : r.feed t = accept r₁) :
    Finishes setting m log r (t :: rest) u result n ↔ ∃ l₁ l₂ v k, log = l₁ ++ l₂ ∧
      Performs keepsLast setting m u l₁ r₁.ready v k ∧
        Finishes setting k l₂ r₁.takeReady.2 rest v result n := by
  have step (fuel : Nat) : feed (fuel + 1) r (t :: rest) u =
      executed fuel r₁.ready u >>= fun v => feed fuel r₁.takeReady.2 rest v := by
    rw [feed]
    simp only [read, accept]
  rw [finishes_iff_of_succ step]
  constructor
  · rintro ⟨fuel, ends⟩
    obtain ⟨l₁, l₂, v, k, rfl, now, later⟩ := Eval.exists_of_exits_bind_ok ends
    exact ⟨l₁, l₂, v, k, rfl, performs_of_exits_executed now, fuel, later⟩
  · rintro ⟨l₁, l₂, v, k, rfl, now, b, later⟩
    obtain ⟨a, now⟩ := exists_exits_executed now
    exact ⟨max a b, .bind ((endsIn (Nat.le_max_left a b)).executed _ _ now)
      ((endsIn (Nat.le_max_right a b)).feed _ _ _ later)⟩

/-- What has been executed when a run of tokens has been read. -/
theorem finishes_append_iff {pre rest : List PlacedToken} (taken : r.ready = [])
    (read : feedAll r pre = accept r₁) :
    Finishes setting m log r (pre ++ rest) u result n ↔ ∃ l₁ l₂ v k, log = l₁ ++ l₂ ∧
      Performs keepsLast setting m u l₁ r₁.ready v k ∧
        Finishes setting k l₂ r₁.takeReady.2 rest v result n := by
  induction pre generalizing r r₁ m u log with
  | nil =>
    obtain rfl : r = r₁ := congrArg Prod.fst read
    have same : r.takeReady.2 = r := StatementReader.takeReady_of_taken taken
    rw [taken, same]
    constructor
    · intro h
      exact ⟨[], log, u, m, rfl, .nil, h⟩
    · rintro ⟨l₁, l₂, v, k, rfl, first, h⟩
      obtain ⟨rfl, rfl, rfl⟩ := performs_nil_iff.1 first
      exact h
  | cons t pre ih =>
    obtain ⟨r₂, r₃, fed, later, rfl⟩ := StatementReader.exists_of_feedAll_cons read
    have ready : (r₃.after r₂.ready).ready = r₂.ready ++ r₃.ready := rfl
    have same : (r₃.after r₂.ready).takeReady.2 = r₃.takeReady.2 := rfl
    rw [List.cons_append, finishes_cons_iff fed, ready, same]
    constructor
    · rintro ⟨l, l', w, k, rfl, now, finished⟩
      obtain ⟨l₁, l₂, v, j, rfl, performed, finished⟩ := (ih rfl later).1 finished
      refine ⟨l ++ l₁, l₂, v, j, (List.append_assoc l l₁ l₂).symm, ?_, finished⟩
      exact performs_append_iff.2 ⟨l, l₁, w, k, rfl, now, performed⟩
    · rintro ⟨l', l₂, v, j, rfl, performed, finished⟩
      obtain ⟨l, l₁, w, k, rfl, now, more⟩ := performs_append_iff.1 performed
      exact ⟨l, l₁ ++ l₂, w, k, List.append_assoc l l₁ l₂, now,
        (ih rfl later).2 ⟨l₁, l₂, v, j, rfl, more, finished⟩⟩

/-- A script that ends with a value has been read to its end. -/
theorem exists_feedAll_of_finishes {tokens : List PlacedToken}
    (h : Finishes setting m log r tokens u (.ok v) n) : ∃ r₁, feedAll r tokens = accept r₁ := by
  induction tokens generalizing r m u log with
  | nil => exact ⟨r, rfl⟩
  | cons t rest ih =>
    obtain ⟨r₂, failure, fed⟩ : ∃ r₂ failure, r.feed t = (r₂, failure) := ⟨_, _, rfl⟩
    cases failure with
    | some e =>
      have refused : (r.feed t).2 = some e := congrArg Prod.snd fed
      obtain ⟨-, same, -⟩ := (finishes_refused_iff refused).1 h
      cases same
    | none =>
      obtain ⟨l₁, l₂, w, k, rfl, -, later⟩ := (finishes_cons_iff fed).1 h
      obtain ⟨r₃, fed'⟩ := ih later
      refine ⟨r₃.after r₂.ready, ?_⟩
      rw [StatementReader.feedAll_cons_of_accept fed, fed']
      rfl

/-- The end of the input completes what it can. -/
theorem finishes_nil_iff :
    Finishes setting m log r [] u (.ok v) n ↔
      r.flush.2 = none ∧ Performs keepsLast setting m u log r.flush.1.ready v n := by
  obtain ⟨r₁, failure, flushed⟩ : ∃ r₁ failure, r.flush = (r₁, failure) := ⟨_, _, rfl⟩
  rw [flushed]
  cases failure with
  | some e =>
    have step (fuel : Nat) : feed (fuel + 1) r [] u = pure (.error e) := by
      rw [feed]
      simp only [flushed]
    rw [finishes_iff_of_succ step]
    simp [Eval.exits_pure_iff]
  | none =>
    have step (fuel : Nat) : feed (fuel + 1) r [] u =
        executed fuel r₁.ready u >>= fun v => pure (.ok v) := by
      rw [feed]
      simp only [flushed]
    rw [finishes_iff_of_succ step]
    constructor
    · rintro ⟨fuel, ends⟩
      obtain ⟨l, l', w, k, rfl, now, last⟩ := Eval.exists_of_exits_bind_ok ends
      obtain ⟨rfl, same, rfl⟩ := Eval.exits_pure_iff.1 last
      cases same
      rw [List.append_nil]
      exact ⟨rfl, performs_of_exits_executed now⟩
    · rintro ⟨-, performed⟩
      obtain ⟨fuel, now⟩ := exists_exits_executed performed
      refine ⟨fuel, ?_⟩
      rw [← List.append_nil log]
      exact .bind now .value

section

variable {source : String} {tokens : List PlacedToken}

theorem exists_exits_run_iff (lexes : Lexer.tokenize source 1 = .ok tokens)
    {ended : Except RuntimeError (Except Error Value)} :
    (∃ fuel, (run fuel source).Exits setting m log ended n) ↔
      ∃ fuel, (Eval.asScript (feed fuel .new tokens .null)).Exits setting m log ended n := by
  have step (fuel : Nat) : run (fuel + 1) source = Eval.asScript (feed fuel .new tokens .null) := by
    rw [run]
    simp only [lexes]
  exact Eval.exists_exits_iff_of_succ (by rw [run]) step

theorem exists_tokens_of_run {fuel : Nat}
    (ends : (run fuel source).Exits setting m log (.ok (.ok v)) n) :
    ∃ tokens, Lexer.tokenize source 1 = .ok tokens := by
  cases lexed : Lexer.tokenize source 1 with
  | ok tokens => exact ⟨tokens, rfl⟩
  | error e =>
    cases fuel with
    | zero =>
      rw [run] at ends
      cases ends
    | succ fuel =>
      rw [run] at ends
      simp only [lexed] at ends
      obtain ⟨-, same, -⟩ := Eval.exits_pure_iff.1 ends
      cases same

/-- The end of a script with a value. -/
theorem exits_run_value_iff (lexes : Lexer.tokenize source 1 = .ok tokens) :
    (∃ fuel, (run fuel source).Exits setting m log (.ok (.ok v)) n) ↔
      Finishes setting m log .new tokens .null (.ok v) n := by
  rw [exists_exits_run_iff lexes, Finishes]
  simp [Eval.exits_asScript_iff]

/-- The end of a script at an error of its reading, which is back in the global scope. -/
theorem exits_run_reading_iff (lexes : Lexer.tokenize source 1 = .ok tokens) {e : SyntaxError} :
    (∃ fuel, (run fuel source).Exits setting m log (.ok (.error (.reading e))) n) ↔
      ∃ k, Finishes setting m log .new tokens .null (.error e) k ∧
        n = { k with current := k.global } := by
  rw [exists_exits_run_iff lexes]
  simp only [Eval.exits_asScript_iff, Finishes]
  constructor
  · rintro ⟨fuel, ⟨_, same, -⟩ | ⟨k, home, ⟨_, same, ends⟩ | ⟨_, same, -⟩⟩⟩
    · cases same
    · cases same
      exact ⟨k, ⟨fuel, ends⟩, home⟩
    · cases same
  · rintro ⟨k, ⟨fuel, ends⟩, home⟩
    exact ⟨fuel, .inr ⟨k, home, .inl ⟨e, rfl, ends⟩⟩⟩

end

end Scriptlet.Evaluator
