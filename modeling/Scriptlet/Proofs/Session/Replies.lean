import Scriptlet.Proofs.Evaluation.Congruence
import Scriptlet.Proofs.Evaluation.Exits
import Scriptlet.Session

/-!
# How replies end

A reply that asks for files ends along the answers that it gets, as the evaluation does that it
stands for. What a session evaluates for a submission is put together as the evaluator is, so it
respects the same relations.
-/

namespace Scriptlet

variable {α β : Type}

/-- The end of a reply for some answers to what it asks. -/
inductive Reply.Exits : Reply α → FileLog → α → Session → Prop where
  | done {a : α} {s : Session} : Exits (.done a s) [] a s
  | ask {request : FileRequest} {resume : FileAnswer → Reply α} {answer : FileAnswer}
      {log : FileLog} {a : α} {s : Session} :
      Exits (resume answer) log a s → Exits (.ask request resume) ((request, answer) :: log) a s

namespace Reply

variable {r : Reply α} {log : FileLog} {s t : Session}

/-- The answer of a reply that is one, and the session after it. -/
def done? : Reply α → Option (α × Session)
  | done a s => some (a, s)
  | ask .. | cutOff => none

theorem eq_done_of_done? {p : α × Session} (h : r.done? = some p) : r = done p.1 p.2 := by
  cases r with
  | done a s =>
    obtain rfl := Option.some.inj h
    rfl
  | ask | cutOff => cases h

theorem exits_of_done? {p : α × Session} (h : r.done? = some p) : r.Exits [] p.1 p.2 := by
  rw [eq_done_of_done? h]
  exact .done

theorem exits_done_iff {a b : α} : (done a s).Exits log b t ↔ log = [] ∧ b = a ∧ t = s := by
  constructor
  · intro h
    cases h
    exact ⟨rfl, rfl, rfl⟩
  · rintro ⟨rfl, rfl, rfl⟩
    exact .done

theorem exits_map_iff {f : α → β} {b : β} :
    (r.map f).Exits log b t ↔ ∃ a, b = f a ∧ r.Exits log a t := by
  constructor
  · intro h
    induction r generalizing log with
    | done a s =>
      cases h
      exact ⟨a, rfl, .done⟩
    | ask request resume ih =>
      cases h with
      | ask h =>
        obtain ⟨a, same, first⟩ := ih _ h
        exact ⟨a, same, .ask first⟩
    | cutOff => cases h
  · rintro ⟨a, rfl, first⟩
    induction first with
    | done => exact .done
    | ask _ ih => exact .ask ih

theorem exits_andThen_iff {next : α → Session → Reply β} {b : β} :
    (r.andThen next).Exits log b t ↔ ∃ l₁ l₂ a u,
      log = l₁ ++ l₂ ∧ r.Exits l₁ a u ∧ (next a u).Exits l₂ b t := by
  constructor
  · intro h
    induction r generalizing log with
    | done a s => exact ⟨[], log, a, s, rfl, .done, h⟩
    | ask request resume ih =>
      cases h with
      | ask h =>
        obtain ⟨l₁, l₂, a, u, rfl, first, second⟩ := ih _ h
        exact ⟨_ :: l₁, l₂, a, u, rfl, .ask first, second⟩
    | cutOff => cases h
  · rintro ⟨l₁, l₂, a, u, rfl, first, second⟩
    induction first with
    | done => exact second
    | ask _ ih => exact .ask (ih second)

end Reply

namespace Session

variable {s t : Session} {log : FileLog}

theorem exits_reply_iff {o : Outcome α} {r : Except RuntimeError α} :
    (s.reply o).Exits log r t ↔ ∃ m, o.Exits log r m ∧ t = { s with machine := m } := by
  constructor
  · intro h
    induction o generalizing log with
    | value a m =>
      cases h
      exact ⟨m, .value, rfl⟩
    | error e m =>
      cases h
      exact ⟨m, .error, rfl⟩
    | ask request resume ih =>
      cases h with
      | ask h =>
        obtain ⟨m, first, same⟩ := ih _ h
        exact ⟨m, .ask first, same⟩
    | cutOff m => cases h
  · rintro ⟨m, first, rfl⟩
    induction first with
    | value => exact .done
    | error => exact .done
    | ask _ ih => exact .ask ih

/-- What the evaluations of a session depend on. -/
abbrev setting (s : Session) : Setting := ⟨s.hosts, s.config.importRoot, []⟩

theorem exits_evaluate_iff {x : Eval α} {r : Except RuntimeError α} :
    (s.evaluate x).Exits log r t ↔
      ∃ m, x.Exits s.setting s.machine log r m ∧ t = { s with machine := m } :=
  exits_reply_iff

/-! ## Submissions -/

section

open Eval (Congruence)
open Evaluator (Related)

variable {R : {α : Type} → Eval α → Eval α → Prop} {a b : Nat}

theorem related_submitStatements (c : Congruence R) (h : Related R a b) (first : Line)
    (reported : List Error) (ss : List Stmt) :
    R (submitStatements a first reported ss) (submitStatements b first reported ss) := by
  induction ss generalizing reported with
  | nil => exact c.primitive (.pure _)
  | cons s rest ih =>
    refine c.bind (c.catching (h.exec s)) fun result => ?_
    cases result with
    | ok flow => exact ih reported
    | error e =>
      dsimp only
      split
      · exact c.before .leaveAll fun _ => ih _
      · exact c.primitive (.pure _)

theorem related_submitTokens (c : Congruence R) (h : Related R a b) (first : Line)
    (r : StatementReader) (reported : List Error) (tokens : List PlacedToken) :
    R (submitTokens a first r reported tokens) (submitTokens b first r reported tokens) := by
  induction tokens generalizing r reported with
  | nil => exact c.primitive (.pure _)
  | cons t rest ih =>
    rw [submitTokens, submitTokens]
    split
    · exact c.primitive (.pure _)
    · refine c.bind (related_submitStatements c h first reported _) fun ended => ?_
      obtain ⟨reported, failure⟩ := ended
      cases failure with
      | some e => exact c.primitive (.pure _)
      | none => exact ih _ _

end

end Session

end Scriptlet
