import Scriptlet.Proofs.Evaluation.Executions
import Scriptlet.Proofs.Session.Replies
import Scriptlet.Proofs.Statement.Ready

/-!
# What a submission does

The tokens of a submission are read one after another, and each statement is executed as soon as it
is complete. `Submits` says how far they come, in as many steps as it takes. The part of a
submission before some token decides what the part after it starts from, and nothing else.
-/

namespace Scriptlet.Session

open Scriptlet.StatementReader (accept feedAll)
open Scriptlet.Evaluator (Executes Performs keepsNothing endsIn exec performs_nil_iff performs_cons_iff
  performs_append_iff)

variable {s u : Session} {setting : Setting} {first : Line} {m k n : Machine} {log l₁ l₂ : FileLog}
  {r r₁ : StatementReader} {reported reported₁ : List Error} {submission : Submission}
  {tokens pre rest : List PlacedToken}

/-! ## Steps -/

theorem endsIn_submitStatements {a b : Nat} (le : a ≤ b) (first : Line) (reported : List Error)
    (ss : List Stmt) :
    (submitStatements a first reported ss).EndsIn (submitStatements b first reported ss) :=
  related_submitStatements Eval.congruence_endsIn (endsIn le) first reported ss

theorem endsIn_submitTokens {a b : Nat} (le : a ≤ b) (first : Line) (r : StatementReader)
    (reported : List Error) (tokens : List PlacedToken) :
    (submitTokens a first r reported tokens).EndsIn (submitTokens b first r reported tokens) :=
  related_submitTokens Eval.congruence_endsIn (endsIn le) first r reported tokens

/-- The errors that have been reported stay, and no error is left for the caller. -/
theorem exists_of_exits_submitStatements {fuel : Nat} {ss : List Stmt}
    {result : Except RuntimeError (List Error × Option Error)}
    (ends : (submitStatements fuel first reported ss).Exits setting m log result n) :
    ∃ more failure, result = .ok (reported ++ more, failure) := by
  induction ss generalizing reported m log with
  | nil =>
    obtain ⟨-, rfl, -⟩ := Eval.exits_pure_iff.1 ends
    exact ⟨[], none, by rw [List.append_nil]⟩
  | cons s rest ih =>
    obtain ⟨e, rfl, fails⟩ | ⟨l₁, l₂, caught, k, rfl, -, later⟩ := Eval.exists_of_exits_bind ends
    · obtain ⟨_, same, -⟩ := Eval.exits_catching_iff.1 fails
      cases same
    · cases caught with
      | ok flow => exact ih later
      | error e =>
        dsimp only at later
        split at later
        · obtain ⟨e', rfl, fails⟩ | ⟨_, _, _, _, -, -, later⟩ := Eval.exists_of_exits_bind later
          · obtain ⟨-, same, -⟩ := Eval.exits_leaveAll_iff.1 fails
            cases same
          · obtain ⟨more, failure, rfl⟩ := ih later
            exact ⟨.running e :: more, failure, by simp⟩
        · obtain ⟨-, rfl, -⟩ := Eval.exits_pure_iff.1 later
          exact ⟨[], some (.running e), by rw [List.append_nil]⟩

theorem exists_of_exits_submitTokens {fuel : Nat} {result : Except RuntimeError Submission}
    (ends : (submitTokens fuel first r reported tokens).Exits setting m log result n) :
    ∃ submission, result = .ok submission ∧ reported <+: submission.reported := by
  induction tokens generalizing r reported m log with
  | nil =>
    obtain ⟨-, rfl, -⟩ := Eval.exits_pure_iff.1 ends
    exact ⟨_, rfl, List.prefix_refl reported⟩
  | cons t rest ih =>
    rw [submitTokens] at ends
    split at ends
    · obtain ⟨-, rfl, -⟩ := Eval.exits_pure_iff.1 ends
      exact ⟨_, rfl, List.prefix_refl reported⟩
    · obtain ⟨e, rfl, fails⟩ | ⟨l₁, l₂, ended, k, rfl, now, later⟩ := Eval.exists_of_exits_bind ends
      · obtain ⟨_, _, same⟩ := exists_of_exits_submitStatements fails
        cases same
      · obtain ⟨more, failure, same⟩ := exists_of_exits_submitStatements now
        cases same
        cases failure with
        | some e =>
          obtain ⟨-, rfl, -⟩ := Eval.exits_pure_iff.1 later
          exact ⟨_, rfl, List.prefix_append reported more⟩
        | none =>
          obtain ⟨submission, rfl, kept⟩ := ih later
          exact ⟨submission, rfl, (List.prefix_append reported more).trans kept⟩

/-! ## Runs of tokens -/

/-- How far the tokens of a submission come from a reader on. -/
def Submits (setting : Setting) (first : Line) (m : Machine) (log : FileLog) (r : StatementReader)
    (reported : List Error) (tokens : List PlacedToken) (submission : Submission) (n : Machine) :
    Prop :=
  ∃ fuel, (submitTokens fuel first r reported tokens).Exits setting m log (.ok submission) n

theorem Submits.prefix_reported
    (h : Submits setting first m log r reported tokens submission n) :
    reported <+: submission.reported := by
  obtain ⟨fuel, ends⟩ := h
  obtain ⟨_, same, kept⟩ := exists_of_exits_submitTokens ends
  cases same
  exact kept

theorem submits_nil_iff :
    Submits setting first m log r reported [] submission n ↔
      log = [] ∧ submission = ⟨r, reported, none⟩ ∧ n = m := by
  have same (fuel : Nat) : submitTokens fuel first r reported [] = pure ⟨r, reported, none⟩ := rfl
  simp only [Submits, same, Eval.exits_pure_iff, exists_const, Except.ok.injEq]

theorem submitTokens_append (fuel : Nat) (first : Line) (r : StatementReader)
    (reported : List Error) (pre rest : List PlacedToken) :
    submitTokens fuel first r reported (pre ++ rest) =
      submitTokens fuel first r reported pre >>= fun submission =>
        match submission.failure with
        | some _ => pure submission
        | none => submitTokens fuel first submission.reader submission.reported rest := by
  induction pre generalizing r reported with
  | nil => rfl
  | cons t pre ih =>
    rw [List.cons_append, submitTokens, submitTokens]
    split
    · rfl
    · rw [bind_assoc]
      congr 1
      funext ended
      obtain ⟨reported, failure⟩ := ended
      cases failure with
      | some e => rfl
      | none => exact ih _ _

/-- The part before some token decides what the part after it starts from. -/
theorem submits_append_iff
    (before : Submits setting first m l₁ r reported pre ⟨r₁, reported₁, none⟩ k) :
    Submits setting first m (l₁ ++ l₂) r reported (pre ++ rest) submission n ↔
      Submits setting first k l₂ r₁ reported₁ rest submission n := by
  simp only [Submits, submitTokens_append]
  exact Eval.exists_exits_bind_iff (endsIn_submitTokens · first r reported pre)
    (endsIn_submitTokens · first r₁ reported₁ rest) before

/-- What a submission has read when it has come to the end of some tokens. -/
theorem exists_feedAll_of_submits (taken : r.ready = [])
    (h : Submits setting first m log r reported pre ⟨r₁, reported₁, none⟩ n) :
    ∃ r₂, feedAll r pre = accept r₂ ∧ r₁ = r₂.takeReady.2 := by
  obtain ⟨fuel, ends⟩ := h
  induction pre generalizing r reported m log with
  | nil =>
    obtain ⟨-, same, -⟩ := Eval.exits_pure_iff.1 ends
    cases same
    exact ⟨r₁, rfl, (StatementReader.takeReady_of_taken taken).symm⟩
  | cons t pre ih =>
    obtain ⟨r₂, failure, fed⟩ : ∃ r₂ failure, r.feed t = (r₂, failure) := ⟨_, _, rfl⟩
    rw [submitTokens, fed] at ends
    cases failure with
    | some e =>
      obtain ⟨-, same, -⟩ := Eval.exits_pure_iff.1 ends
      cases same
    | none =>
      obtain ⟨l₁, l₂, ⟨reported', failure⟩, k, rfl, -, later⟩ := Eval.exists_of_exits_bind_ok ends
      cases failure with
      | some e =>
        obtain ⟨-, same, -⟩ := Eval.exits_pure_iff.1 later
        cases same
      | none =>
        obtain ⟨r₃, fed', rfl⟩ := ih rfl later
        refine ⟨r₃.after r₂.ready, ?_, rfl⟩
        rw [StatementReader.feedAll_cons_of_accept fed, fed']
        rfl

/-! ## One token -/

/-- What follows when the statements that a token has completed have been executed. -/
def resume (fuel : Nat) (first : Line) (r : StatementReader) (rest : List PlacedToken) :
    List Error × Option Error → Eval Submission
  | (reported, some e) => pure ⟨r, reported, some e⟩
  | (reported, none) => submitTokens fuel first r.takeReady.2 reported rest

theorem submitTokens_cons {t : PlacedToken} (read : r.feed t = accept r₁) (fuel : Nat) :
    submitTokens fuel first r reported (t :: rest) =
      submitStatements fuel first reported r₁.ready >>= resume fuel first r₁ rest := by
  rw [submitTokens, read]
  refine congrArg (submitStatements fuel first reported r₁.ready >>= ·) (funext fun ended => ?_)
  obtain ⟨reported, failure⟩ := ended
  cases failure <;> rfl

/-- A statement that fails: a statement that began before the submission fails by itself, any other
one ends the submission. -/
theorem submits_cons_of_fails {t : PlacedToken} {S : Stmt} {e : RuntimeError}
    (read : r.feed t = accept r₁) (ready : r₁.ready = [S])
    (fails : Executes setting m l₁ S (.error e) k) :
    Submits setting first m (l₁ ++ l₂) r reported (t :: rest) submission n ↔
      if S.line < first then
        Submits setting first { k with current := k.global } l₂ r₁.takeReady.2
          (reported ++ [.running e]) rest submission n
      else l₂ = [] ∧ submission = ⟨r₁, reported, some (.running e)⟩ ∧ n = k := by
  have more {b c : Nat} (le : b ≤ c) : (submitStatements b first reported [S]).EndsIn
      (submitStatements c first reported [S]) :=
    endsIn_submitStatements le first reported [S]
  have caught {fuel : Nat} (ends : (exec fuel S).Exits setting m l₁ (.error e) k) :
      (Eval.catching (exec fuel S)).Exits setting m l₁ (.ok (.error e)) k :=
    Eval.exits_catching_iff.2 ⟨_, rfl, ends⟩
  obtain ⟨fuel, ends⟩ := fails
  simp only [Submits, submitTokens_cons read, ready]
  by_cases old : S.line < first
  · have one : (submitStatements fuel first reported [S]).Exits setting m l₁
        (.ok (reported ++ [.running e], none)) { k with current := k.global } := by
      rw [← List.append_nil l₁]
      refine (Eval.exits_bind_iff (caught ends)).2 ?_
      simp only [if_pos old]
      exact .value
    rw [if_pos old]
    exact Eval.exists_exits_bind_iff more (endsIn_submitTokens · first _ _ rest) ⟨fuel, one⟩
  · have one : (submitStatements fuel first reported [S]).Exits setting m l₁
        (.ok (reported, some (.running e))) k := by
      rw [← List.append_nil l₁]
      refine (Eval.exits_bind_iff (caught ends)).2 ?_
      simp only [if_neg old]
      exact .value
    rw [if_neg old, Eval.exists_exits_bind_iff more (fun _ => Eval.EndsIn.refl _) ⟨fuel, one⟩]
    simp only [resume, Eval.exits_pure_iff, exists_const, Except.ok.injEq]

/-! ## Without an error -/

/-- Statements of which none fails. -/
theorem exits_submitStatements_iff {ss : List Stmt} {u : Value} :
    (∃ fuel, (submitStatements fuel first [] ss).Exits setting m log (.ok ([], none)) n) ↔
      ∃ v, Performs keepsNothing setting m u log ss v n := by
  induction ss generalizing m log u with
  | nil =>
    simp only [submitStatements, Eval.exits_pure_iff, performs_nil_iff]
    constructor
    · rintro ⟨_, rfl, -, rfl⟩
      exact ⟨u, rfl, rfl, rfl⟩
    · rintro ⟨v, rfl, rfl, rfl⟩
      exact ⟨0, rfl, trivial, rfl⟩
  | cons s rest ih =>
    simp only [performs_cons_iff]
    constructor
    · rintro ⟨fuel, ends⟩
      obtain ⟨l₁, l₂, caught, k, rfl, now, later⟩ := Eval.exists_of_exits_bind_ok ends
      obtain ⟨_, same, now⟩ := Eval.exits_catching_iff.1 now
      cases same
      cases caught with
      | ok flow =>
        obtain ⟨v, performed⟩ := (ih (u := flow.value)).1 ⟨fuel, later⟩
        exact ⟨v, l₁, l₂, flow, k, rfl, ⟨fuel, now⟩, performed⟩
      | error e =>
        -- the error is reported, or it ends the submission
        dsimp only at later
        split at later
        · obtain ⟨_, _, _, _, -, -, later⟩ := Eval.exists_of_exits_bind_ok later
          obtain ⟨more, failure, same⟩ := exists_of_exits_submitStatements later
          simp at same
        · obtain ⟨-, same, -⟩ := Eval.exits_pure_iff.1 later
          cases same
    · rintro ⟨v, l₁, l₂, flow, k, rfl, ⟨a, now⟩, performed⟩
      obtain ⟨b, later⟩ := ih.2 ⟨v, performed⟩
      have caught := Eval.exits_catching_iff.2 ⟨_, rfl, (endsIn (Nat.le_max_left a b)).exec s now⟩
      exact ⟨max a b, (Eval.exits_bind_iff caught).2
        (endsIn_submitStatements (Nat.le_max_right a b) first [] rest later)⟩

/-- One token: what it completes is executed before the next one is read. -/
theorem submits_cons_iff {t : PlacedToken} {r' : StatementReader} {u : Value}
    (read : r.feed t = accept r₁) :
    Submits setting first m log r [] (t :: rest) ⟨r', [], none⟩ n ↔ ∃ l₁ l₂ v k, log = l₁ ++ l₂ ∧
      Performs keepsNothing setting m u l₁ r₁.ready v k ∧
        Submits setting first k l₂ r₁.takeReady.2 [] rest ⟨r', [], none⟩ n := by
  simp only [Submits, submitTokens_cons read]
  constructor
  · rintro ⟨fuel, ends⟩
    obtain ⟨l₁, l₂, ended, k, rfl, now, later⟩ := Eval.exists_of_exits_bind_ok ends
    obtain ⟨reported, failure⟩ := ended
    cases failure with
    | some e =>
      obtain ⟨-, same, -⟩ := Eval.exits_pure_iff.1 later
      cases same
    | none =>
      -- nothing has been reported, since nothing is reported at the end
      obtain ⟨_, same, kept⟩ := exists_of_exits_submitTokens later
      cases same
      obtain rfl : reported = [] := List.prefix_nil.1 kept
      obtain ⟨v, performed⟩ := (exits_submitStatements_iff (u := u)).1 ⟨fuel, now⟩
      exact ⟨l₁, l₂, v, k, rfl, performed, fuel, later⟩
  · rintro ⟨l₁, l₂, v, k, rfl, performed, later⟩
    have now : ∃ fuel, (submitStatements fuel first [] r₁.ready).Exits setting m l₁
        (.ok ([], none)) k :=
      exits_submitStatements_iff.2 ⟨v, performed⟩
    exact (Eval.exists_exits_bind_iff (endsIn_submitStatements · first [] r₁.ready)
      (endsIn_submitTokens · first _ [] rest) now).2 later

/-- A submission without an error executes what its reader completes, one after another. -/
theorem submits_iff {r' : StatementReader} {u : Value} (taken : r.ready = [])
    (read : feedAll r tokens = accept r₁) :
    Submits setting first m log r [] tokens ⟨r', [], none⟩ n ↔
      r' = r₁.takeReady.2 ∧ ∃ v, Performs keepsNothing setting m u log r₁.ready v n := by
  induction tokens generalizing r r₁ m u log with
  | nil =>
    obtain rfl : r = r₁ := congrArg Prod.fst read
    rw [submits_nil_iff, taken, StatementReader.takeReady_of_taken taken]
    simp only [performs_nil_iff, Submission.mk.injEq, and_true]
    constructor
    · rintro ⟨rfl, rfl, rfl⟩
      exact ⟨rfl, u, rfl, rfl, rfl⟩
    · rintro ⟨rfl, v, rfl, -, rfl⟩
      exact ⟨rfl, rfl, rfl⟩
  | cons t rest ih =>
    obtain ⟨r₂, r₃, fed, later, rfl⟩ := StatementReader.exists_of_feedAll_cons read
    have ready : (r₃.after r₂.ready).ready = r₂.ready ++ r₃.ready := rfl
    have same : (r₃.after r₂.ready).takeReady.2 = r₃.takeReady.2 := rfl
    rw [submits_cons_iff (u := u) fed, ready, same]
    simp only [performs_append_iff]
    constructor
    · rintro ⟨l₁, l₂, w, k, rfl, now, rest⟩
      obtain ⟨rfl, v, performed⟩ := (ih (u := w) rfl later).1 rest
      exact ⟨rfl, v, l₁, l₂, w, k, rfl, now, performed⟩
    · rintro ⟨rfl, v, l₁, l₂, w, k, rfl, now, performed⟩
      exact ⟨l₁, l₂, w, k, rfl, now, (ih rfl later).2 ⟨rfl, v, performed⟩⟩

/-! ## Whole submissions -/

/-- The session that goes on after the lines of a text. -/
def advanced (s : Session) (source : String) : Session :=
  { s with nextLine := s.nextLine + max 1 (lineCount source) }

/-- The reply to a submission that ended with an error of the script, or with how far it came. -/
def concluded (s : Session) : Except RuntimeError Submission → Reply Bool
  | .ok submission => .done (s.conclude submission).1 (s.conclude submission).2
  | .error e => .done true (s.report (.running e))

/-- A submission that can be cut into tokens is what its tokens do, and then what the session makes
of how far they came. -/
theorem exits_submit_iff {source : String} (lexes : Lexer.tokenize source s.nextLine = .ok tokens)
    {failed : Bool} :
    (∃ fuel, (s.submit fuel source).Exits log failed u) ↔ ∃ submission n,
      Submits s.setting s.nextLine s.machine log s.reader [] tokens submission n ∧
        (failed, u) = { s.advanced source with machine := n }.conclude submission := by
  have step (fuel : Nat) : s.submit fuel source =
      ((s.advanced source).evaluate (submitTokens fuel s.nextLine s.reader [] tokens)).andThen
        fun result s => s.concluded result := by
    rw [submit]
    simp only [lexes]
    rfl
  simp only [step, Reply.exits_andThen_iff, exits_evaluate_iff]
  constructor
  · rintro ⟨fuel, l₁, l₂, result, t, rfl, ⟨n, ends, rfl⟩, concluded⟩
    obtain ⟨submission, rfl, -⟩ := exists_of_exits_submitTokens ends
    obtain ⟨rfl, rfl, rfl⟩ := Reply.exits_done_iff.1 concluded
    rw [List.append_nil]
    exact ⟨submission, n, ⟨fuel, ends⟩, rfl⟩
  · rintro ⟨submission, n, ⟨fuel, ends⟩, same⟩
    obtain ⟨rfl, rfl⟩ := Prod.ext_iff.1 same
    exact ⟨fuel, log, [], .ok submission, _, (List.append_nil log).symm, ⟨n, ends, rfl⟩, .done⟩

theorem conclude_eq_false_iff :
    (false, u) = s.conclude submission ↔
      submission = ⟨submission.reader, [], none⟩ ∧
        u = { s with reader := submission.reader, lastError := none } := by
  obtain ⟨reader, reported, failure⟩ := submission
  cases failure with
  | some e => simp [conclude]
  | none => cases reported <;> simp [conclude]

/-- A submission without an error. -/
theorem exits_submit_false_iff {source : String} {v : Value}
    (lexes : Lexer.tokenize source s.nextLine = .ok tokens) (taken : s.reader.ready = [])
    (read : feedAll s.reader tokens = accept r) :
    (∃ fuel, (s.submit fuel source).Exits log false u) ↔ ∃ w n,
      Performs keepsNothing s.setting s.machine v log r.ready w n ∧
        u = { s.advanced source with machine := n, reader := r.takeReady.2, lastError := none } := by
  simp only [exits_submit_iff lexes, conclude_eq_false_iff]
  constructor
  · rintro ⟨⟨reader, reported, failure⟩, n, submits, same, rfl⟩
    cases same
    obtain ⟨rfl, w, performed⟩ := (submits_iff (u := v) taken read).1 submits
    exact ⟨w, n, performed, rfl⟩
  · rintro ⟨w, n, performed, rfl⟩
    exact ⟨_, n, (submits_iff taken read).2 ⟨rfl, w, performed⟩, rfl, rfl⟩

end Scriptlet.Session
