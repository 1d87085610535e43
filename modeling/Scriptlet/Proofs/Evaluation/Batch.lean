import Scriptlet.Proofs.Evaluation.Scripts

/-!
# Scripts that are read to their end

A script is executed while it is read: some statements are handed out by the token that ends them,
an `if` chain by the token after it, the last line by the end of the input. If the reader accepts
every token and the end, the script does what its statements do when they are executed one after
another after all of them have been read. So does an imported file, in the scope that imports it.
-/

namespace Scriptlet

namespace StatementReader

/-- The reader in which some tokens and the end of the input have been read. -/
def finished (r : StatementReader) (tokens : List PlacedToken) : Step :=
  andThen (feedAll r tokens) flush

theorem flush_after (ss : List Stmt) (r : StatementReader) :
    (r.after ss).flush = r.flush.after ss := by
  have releases (r : StatementReader) : accept (r.after ss).release = (accept r.release).after ss := by
    rw [release_after]
    rfl
  have frames : (r.after ss).frames = r.frames := rfl
  have phase : (r.after ss).phase = r.phase := rfl
  have line : (r.after ss).line = r.line := rfl
  simp only [flush, frames, phase, line]
  split
  · exact releases r
  · rw [completeLine_after]
    exact andThen_after ss _ _ releases
  · rw [emit_after, after_goto, releases]
  · rfl

/-- What the rest of the tokens completes does not depend on what is taken before. -/
theorem exists_of_finished_cons {r ended : StatementReader} {t : PlacedToken}
    {rest : List PlacedToken} (read : r.finished (t :: rest) = accept ended) :
    ∃ r₁ later, r.feed t = accept r₁ ∧ r₁.takeReady.2.finished rest = accept later ∧
      ended.ready = r₁.ready ++ later.ready := by
  obtain ⟨r₁, failure, fed⟩ : ∃ r₁ failure, r.feed t = (r₁, failure) := ⟨_, _, rfl⟩
  cases failure with
  | some e =>
    rw [finished, feedAll, fed] at read
    cases read
  | none =>
    have first : r.finished (t :: rest) = (r₁.takeReady.2.after r₁.ready).finished rest := by
      rw [after_takeReady, finished, feedAll, fed]
      rfl
    have later : (r₁.takeReady.2.after r₁.ready).finished rest =
        (r₁.takeReady.2.finished rest).after r₁.ready := by
      rw [finished, feedAll_after]
      exact andThen_after r₁.ready _ _ (flush_after r₁.ready)
    rw [first, later] at read
    have accepted : (r₁.takeReady.2.finished rest).2 = none := congrArg Prod.snd read
    have ready : (r₁.takeReady.2.finished rest).1.after r₁.ready = ended := congrArg Prod.fst read
    refine ⟨r₁, _, fed, Prod.ext rfl accepted, ?_⟩
    rw [← ready]
    rfl

end StatementReader

namespace Evaluator

open Scriptlet.StatementReader (accept)

/-- The end of statements that are executed one after another up to the first error, from a value
before them. Its value is that of the last one. The value before a statement is in use while the
statement is executed. -/
inductive ExecutesAll (setting : Setting) : Machine → Value → FileLog → List Stmt →
    Except RuntimeError Value → Machine → Prop where
  | nil {m : Machine} {u : Value} : ExecutesAll setting m u [] [] (.ok u) m
  | stop {m n : Machine} {u : Value} {log : FileLog} {s : Stmt} {rest : List Stmt}
      {e : RuntimeError} :
      Executes (setting.hold (keepsLast u)) m log s (.error e) n →
        ExecutesAll setting m u log (s :: rest) (.error e) n
  | next {m k n : Machine} {u : Value} {l₁ l₂ : FileLog} {s : Stmt} {rest : List Stmt}
      {flow : Flow} {r : Except RuntimeError Value} :
      Executes (setting.hold (keepsLast u)) m l₁ s (.ok flow) k →
        ExecutesAll setting k flow.value l₂ rest r n →
          ExecutesAll setting m u (l₁ ++ l₂) (s :: rest) r n

variable {setting : Setting} {m n : Machine} {u : Value} {log : FileLog} {ss us : List Stmt}
  {r : Except RuntimeError Value}

theorem executesAll_nil_iff :
    ExecutesAll setting m u log [] r n ↔ log = [] ∧ r = .ok u ∧ n = m := by
  constructor
  · intro h
    cases h
    exact ⟨rfl, rfl, rfl⟩
  · rintro ⟨rfl, rfl, rfl⟩
    exact .nil

theorem executesAll_cons_iff {s : Stmt} :
    ExecutesAll setting m u log (s :: ss) r n ↔
      (∃ e, r = .error e ∧ Executes (setting.hold (keepsLast u)) m log s (.error e) n) ∨
      ∃ l₁ l₂ flow k, log = l₁ ++ l₂ ∧ Executes (setting.hold (keepsLast u)) m l₁ s (.ok flow) k ∧
        ExecutesAll setting k flow.value l₂ ss r n := by
  constructor
  · intro h
    cases h with
    | stop fails => exact .inl ⟨_, rfl, fails⟩
    | next first rest => exact .inr ⟨_, _, _, _, rfl, first, rest⟩
  · rintro (⟨e, rfl, fails⟩ | ⟨l₁, l₂, flow, k, rfl, first, rest⟩)
    · exact .stop fails
    · exact .next first rest

/-- Statements that are executed in two batches. -/
theorem executesAll_append_iff :
    ExecutesAll setting m u log (ss ++ us) r n ↔
      (∃ e, r = .error e ∧ ExecutesAll setting m u log ss (.error e) n) ∨
      ∃ l₁ l₂ w k, log = l₁ ++ l₂ ∧ ExecutesAll setting m u l₁ ss (.ok w) k ∧
        ExecutesAll setting k w l₂ us r n := by
  induction ss generalizing m u log with
  | nil =>
    constructor
    · intro h
      exact .inr ⟨[], log, u, m, rfl, .nil, h⟩
    · rintro (⟨e, rfl, fails⟩ | ⟨l₁, l₂, w, k, rfl, first, rest⟩)
      · cases fails
      · cases first
        exact rest
  | cons s ss ih =>
    constructor
    · intro h
      rcases executesAll_cons_iff.1 h with ⟨e, rfl, fails⟩ | ⟨l₁, l₂, flow, k, rfl, first, rest⟩
      · exact .inl ⟨e, rfl, .stop fails⟩
      · rcases ih.1 rest with ⟨e, rfl, fails⟩ | ⟨l₃, l₄, w, j, rfl, middle, last⟩
        · exact .inl ⟨e, rfl, .next first fails⟩
        · exact .inr ⟨l₁ ++ l₃, l₄, w, j, (List.append_assoc l₁ l₃ l₄).symm, .next first middle,
            last⟩
    · rintro (⟨e, rfl, fails⟩ | ⟨l, l₄, w, j, rfl, before, last⟩)
      · rcases executesAll_cons_iff.1 fails with ⟨e, same, fails⟩ | ⟨_, _, _, _, rfl, first, rest⟩
        · cases same
          exact .stop fails
        · exact .next first (ih.2 (.inl ⟨e, rfl, rest⟩))
      · rcases executesAll_cons_iff.1 before with ⟨_, same, -⟩ | ⟨l₁, l₃, flow, k, rfl, first, rest⟩
        · cases same
        · rw [List.append_assoc]
          exact .next first (ih.2 (.inr ⟨l₃, l₄, w, j, rfl, rest, last⟩))

/-- Statements that the evaluator has at once. -/
theorem exists_exits_executed_iff :
    (∃ fuel, (executed fuel ss u).Exits setting m log r n) ↔ ExecutesAll setting m u log ss r n := by
  induction ss generalizing m u log with
  | nil =>
    have step (fuel : Nat) : executed (fuel + 1) [] u = pure u := by rw [executed]
    rw [executesAll_nil_iff, Eval.exists_exits_iff_of_succ (by rw [executed]) step, exists_const,
      Eval.exits_pure_iff]
  | cons s ss ih =>
    have step (fuel : Nat) : executed (fuel + 1) (s :: ss) u =
        Eval.holding [u] (exec fuel s) >>= fun flow => executed fuel ss flow.value := by
      rw [executed]
    have first {b c : Nat} (le : b ≤ c) :
        (Eval.holding [u] (exec b s)).EndsIn (Eval.holding [u] (exec c s)) :=
      fun ends => (endsIn le).exec s ends
    rw [executesAll_cons_iff, Eval.exists_exits_iff_of_succ (by rw [executed]) step,
      Eval.exists_exits_bind_cases first fun le flow => (endsIn le).executed ss flow.value]
    simp only [ih]
    rfl

/-- The ends of a run of tokens that are all accepted are the ends of the statements in it. -/
theorem exists_exits_feed_iff {reader ended : StatementReader} {tokens : List PlacedToken}
    {result : Except RuntimeError (Except SyntaxError Value)}
    (read : reader.finished tokens = accept ended) :
    (∃ fuel, (feed fuel reader tokens u).Exits setting m log result n) ↔
      (∃ e, result = .error e ∧ ExecutesAll setting m u log ended.ready (.error e) n) ∨
      ∃ v, result = .ok (.ok v) ∧ ExecutesAll setting m u log ended.ready (.ok v) n := by
  induction tokens generalizing reader ended m u log with
  | nil =>
    have flushed : reader.flush = (ended, none) := read
    have step (fuel : Nat) : feed (fuel + 1) reader [] u =
        executed fuel ended.ready u >>= fun v => pure (.ok v) := by
      rw [feed]
      simp only [flushed]
    rw [Eval.exists_exits_iff_of_succ (by rw [feed]) step]
    simp only [← exists_exits_executed_iff, Eval.exits_bind_pure_iff]
    constructor
    · rintro ⟨fuel, ⟨e, rfl, fails⟩ | ⟨v, rfl, ends⟩⟩
      · exact .inl ⟨e, rfl, fuel, fails⟩
      · exact .inr ⟨v, rfl, fuel, ends⟩
    · rintro (⟨e, rfl, fuel, fails⟩ | ⟨v, rfl, fuel, ends⟩)
      · exact ⟨fuel, .inl ⟨e, rfl, fails⟩⟩
      · exact ⟨fuel, .inr ⟨v, rfl, ends⟩⟩
  | cons t rest ih =>
    obtain ⟨r₁, later, fed, read, ready⟩ := StatementReader.exists_of_finished_cons read
    have step (fuel : Nat) : feed (fuel + 1) reader (t :: rest) u =
        executed fuel r₁.ready u >>= fun v => feed fuel r₁.takeReady.2 rest v := by
      rw [feed]
      simp only [fed, accept]
    rw [Eval.exists_exits_iff_of_succ (by rw [feed]) step,
      Eval.exists_exits_bind_cases (fun le => (endsIn le).executed r₁.ready u)
        fun le v => (endsIn le).feed r₁.takeReady.2 rest v]
    simp only [exists_exits_executed_iff, ih read, ready, executesAll_append_iff]
    constructor
    · rintro (⟨e, rfl, fails⟩ | ⟨l₁, l₂, w, k, rfl, now, ⟨e, rfl, fails⟩ | ⟨v, rfl, ends⟩⟩)
      · exact .inl ⟨e, rfl, .inl ⟨e, rfl, fails⟩⟩
      · exact .inl ⟨e, rfl, .inr ⟨l₁, l₂, w, k, rfl, now, fails⟩⟩
      · exact .inr ⟨v, rfl, .inr ⟨l₁, l₂, w, k, rfl, now, ends⟩⟩
    · rintro (⟨e, rfl, ⟨_, same, fails⟩ | ⟨l₁, l₂, w, k, rfl, now, fails⟩⟩ |
        ⟨v, rfl, ⟨_, same, -⟩ | ⟨l₁, l₂, w, k, rfl, now, ends⟩⟩)
      · cases same
        exact .inl ⟨e, rfl, fails⟩
      · exact .inr ⟨l₁, l₂, w, k, rfl, now, .inl ⟨e, rfl, fails⟩⟩
      · cases same
      · exact .inr ⟨l₁, l₂, w, k, rfl, now, .inr ⟨v, rfl, ends⟩⟩

section

variable {source : String} {tokens : List PlacedToken} {ended : StatementReader}

/-- The ends of a script that is read to its end; after an error it is in the global scope. -/
theorem exits_run_iff_executesAll (lexes : Lexer.tokenize source 1 = .ok tokens)
    (read : StatementReader.new.finished tokens = accept ended)
    {result : Except RuntimeError (Except Error Value)} :
    (∃ fuel, (run fuel source).Exits setting m log result n) ↔
      (∃ v, result = .ok (.ok v) ∧ ExecutesAll setting m .null log ended.ready (.ok v) n) ∨
      ∃ e k, result = .ok (.error (.running e)) ∧
        ExecutesAll setting m .null log ended.ready (.error e) k ∧
        n = { k with current := k.global } := by
  have ends (result : Except RuntimeError (Except SyntaxError Value)) (k : Machine) :
      (∃ fuel, (feed fuel .new tokens .null).Exits setting m log result k) ↔ _ :=
    exists_exits_feed_iff read
  have value (v : Value) := ends (.ok (.ok v)) n
  have refused (e : SyntaxError) (k : Machine) := ends (.ok (.error e)) k
  have fails (e : RuntimeError) (k : Machine) := ends (.error e) k
  simp only [reduceCtorEq, Except.ok.injEq, Except.error.injEq, false_and, exists_false, false_or,
    or_false, exists_eq_left'] at value refused fails
  rw [exists_exits_run_iff lexes]
  simp only [Eval.exits_asScript_iff]
  constructor
  · rintro ⟨fuel, ⟨v, rfl, ends⟩ | ⟨k, home, ⟨e, rfl, ends⟩ | ⟨e, rfl, ends⟩⟩⟩
    · exact .inl ⟨v, rfl, (value v).1 ⟨fuel, ends⟩⟩
    · exact ((refused e k).1 ⟨fuel, ends⟩).elim
    · exact .inr ⟨e, k, rfl, (fails e k).1 ⟨fuel, ends⟩, home⟩
  · rintro (⟨v, rfl, performed⟩ | ⟨e, k, rfl, performed, home⟩)
    · obtain ⟨fuel, ends⟩ := (value v).2 performed
      exact ⟨fuel, .inl ⟨v, rfl, ends⟩⟩
    · obtain ⟨fuel, ends⟩ := (fails e k).2 performed
      exact ⟨fuel, .inr ⟨k, home, .inr ⟨e, rfl, ends⟩⟩⟩

/-- An import ends as its script does, with an error of either kind wrapped. -/
theorem exits_imported_iff {path : String} {line : Line} {x : Eval (Except SyntaxError Value)} :
    (imported path line x).Exits setting m log r n ↔
      (∃ v, r = .ok v ∧ x.Exits setting m log (.ok (.ok v)) n) ∨
      (∃ e, r = .error (.importFailed path (SyntaxError.message e) line) ∧
        x.Exits setting m log (.ok (.error e)) n) ∨
      ∃ e, r = .error (.importFailed path (RuntimeError.message e) line) ∧
        x.Exits setting m log (.error e) n := by
  constructor
  · intro ends
    rcases Eval.exists_of_exits_bind ends with ⟨_, -, fails⟩ | ⟨l₁, l₂, inner, k, rfl, first, last⟩
    · obtain ⟨_, same, -⟩ := Eval.exits_catching_iff.1 fails
      cases same
    · obtain ⟨_, same, first⟩ := Eval.exits_catching_iff.1 first
      cases same
      match inner with
      | .ok (.ok v) =>
        obtain ⟨rfl, rfl, rfl⟩ := Outcome.exits_value_iff.1 last
        rw [List.append_nil]
        exact .inl ⟨v, rfl, first⟩
      | .ok (.error e) =>
        obtain ⟨rfl, rfl, rfl⟩ := Outcome.exits_error_iff.1 last
        rw [List.append_nil]
        exact .inr (.inl ⟨e, rfl, first⟩)
      | .error e =>
        obtain ⟨rfl, rfl, rfl⟩ := Outcome.exits_error_iff.1 last
        rw [List.append_nil]
        exact .inr (.inr ⟨e, rfl, first⟩)
  · rintro (⟨v, rfl, first⟩ | ⟨e, rfl, first⟩ | ⟨e, rfl, first⟩)
    · rw [← List.append_nil log]
      exact .bind (Eval.exits_catching_iff.2 ⟨_, rfl, first⟩) .value
    · rw [← List.append_nil log]
      exact .bind (Eval.exits_catching_iff.2 ⟨_, rfl, first⟩) .error
    · rw [← List.append_nil log]
      exact .bind (Eval.exits_catching_iff.2 ⟨_, rfl, first⟩) .error

/-- The ends of an import whose file is there. -/
theorem exits_importFile_iff {path : String} {line : Line} {fuel : Nat}
    {result : Except RuntimeError Flow} :
    (exec (fuel + 1) (.importFile path line)).Exits setting m
        ((.read (joinPath setting.importRoot path), .ok source) :: log) result n ↔
      (imported path line (script fuel source) >>= fun v => pure (Flow.normal v)).Exits setting m
        log result n := by
  obtain ⟨resume, asks, given⟩ : ∃ resume, exec (fuel + 1) (.importFile path line) setting m =
        .ask (.read (joinPath setting.importRoot path)) resume ∧
      resume (.ok source) =
        (imported path line (script fuel source) >>= fun v => pure (Flow.normal v)) setting m := by
    rw [exec]
    exact ⟨_, rfl, rfl⟩
  rw [Eval.Exits, asks, Eval.Exits, ← given]
  constructor
  · intro ends
    cases ends with
    | ask ends => exact ends
  · exact fun ends => .ask ends

/-- The end of an import whose statements come to an end. -/
def importEnd (path : String) (line : Line) : Except RuntimeError Value → Except RuntimeError Flow
  | .ok v => .ok (.normal v)
  | .error e => .error (.importFailed path e.message line)

/-- The ends of a file that is imported and read to its end: its statements are executed where it
is imported, and their error is that of the import. -/
theorem executes_importFile_iff {path : String} {line : Line} {result : Except RuntimeError Flow}
    (lexes : Lexer.tokenize source 1 = .ok tokens)
    (read : StatementReader.new.finished tokens = accept ended) :
    Executes setting m ((.read (joinPath setting.importRoot path), .ok source) :: log)
        (.importFile path line) result n ↔
      ∃ r, ExecutesAll setting m .null log ended.ready r n ∧ result = importEnd path line r := by
  have opens (fuel : Nat) : script (fuel + 1) source = feed fuel .new tokens .null := by
    rw [script]
    simp only [lexes]
  have inside (inner : Except RuntimeError (Except SyntaxError Value)) :
      (∃ fuel, (script fuel source).Exits setting m log inner n) ↔
        (∃ e, inner = .error e ∧ ExecutesAll setting m .null log ended.ready (.error e) n) ∨
        ∃ v, inner = .ok (.ok v) ∧ ExecutesAll setting m .null log ended.ready (.ok v) n := by
    rw [Eval.exists_exits_iff_of_succ (by rw [script]) opens]
    exact exists_exits_feed_iff read
  have value (v : Value) := inside (.ok (.ok v))
  have refused (e : SyntaxError) := inside (.ok (.error e))
  have fails (e : RuntimeError) := inside (.error e)
  simp only [reduceCtorEq, Except.ok.injEq, Except.error.injEq, false_and, exists_false, false_or,
    or_false, exists_eq_left'] at value refused fails
  constructor
  · rintro ⟨fuel, ends⟩
    cases fuel with
    | zero =>
      rw [exec] at ends
      cases ends
    | succ fuel =>
      rw [exits_importFile_iff, Eval.exits_bind_pure_iff] at ends
      simp only [exits_imported_iff] at ends
      rcases ends with ⟨e, rfl, ⟨_, same, -⟩ | ⟨e, same, ends⟩ | ⟨e, same, ends⟩⟩ |
        ⟨v, rfl, ⟨_, same, ends⟩ | ⟨_, same, -⟩ | ⟨_, same, -⟩⟩
      · cases same
      · exact ((refused e).1 ⟨fuel, ends⟩).elim
      · cases same
        exact ⟨.error e, (fails e).1 ⟨fuel, ends⟩, rfl⟩
      · cases same
        exact ⟨.ok v, (value v).1 ⟨fuel, ends⟩, rfl⟩
      · cases same
      · cases same
  · rintro ⟨r, performed, rfl⟩
    cases r with
    | ok v =>
      obtain ⟨fuel, ends⟩ := (value v).2 performed
      refine ⟨fuel + 1, exits_importFile_iff.2 (Eval.exits_bind_pure_iff.2 (.inr ⟨v, rfl, ?_⟩))⟩
      exact exits_imported_iff.2 (.inl ⟨v, rfl, ends⟩)
    | error e =>
      obtain ⟨fuel, ends⟩ := (fails e).2 performed
      refine ⟨fuel + 1, exits_importFile_iff.2 (Eval.exits_bind_pure_iff.2 (.inl ⟨_, rfl, ?_⟩))⟩
      exact exits_imported_iff.2 (.inr (.inr ⟨e, rfl, ends⟩))

end

end Evaluator

end Scriptlet
