import Scriptlet.Proofs.Evaluation.Homing
import Scriptlet.Proofs.Session.Replies

/-!
# Back in the global scope

Whatever a session evaluates for its host, it ends in the scope that it began in or in the global
one. So a session that is at its global scope is there again after whatever it evaluates.
-/

namespace Scriptlet

namespace Session

open Evaluator (homing)

variable {s t : Session} {fuel : Nat} {log : FileLog}

/-- Whether the current scope of a session is its global one. -/
def AtGlobal (s : Session) : Prop := s.machine.current = s.machine.global

/-- The sessions after a host has made a session evaluate something, for some answers to what it
asks. -/
inductive Enters (fuel : Nat) (s : Session) : FileLog → Session → Prop where
  | submit {source : String} {log : FileLog} {failed : Bool} {t : Session} :
      (s.submit fuel source).Exits log failed t → Enters fuel s log t
  | runScript {source : String} {log : FileLog} {result : Except Error Value} {t : Session} :
      (s.runScript fuel source).Exits log result t → Enters fuel s log t
  | runFile {path : String} {log : FileLog} {result : Except Error Value} {t : Session} :
      (s.runFile fuel path).Exits log result t → Enters fuel s log t
  | callFunction {function : Value} {arguments : List Value} {log : FileLog}
      {result : Except RuntimeError Value} {t : Session} :
      (s.callFunction fuel function arguments).Exits log result t → Enters fuel s log t
  | callMember {receiver : Value} {name : String} {arguments : List Value} {line : Line}
      {log : FileLog} {result : Except RuntimeError Value} {t : Session} :
      (s.callMember fuel receiver name arguments line).Exits log result t → Enters fuel s log t

theorem exists_of_evaluate {α : Type} {x : Eval α} {r : Except RuntimeError α} (homing : x.Homing)
    (ends : (s.evaluate x).Exits log r t) :
    ∃ m, s.machine.Homes m ∧ t = { s with machine := m } := by
  obtain ⟨m, inside, rfl⟩ := exits_evaluate_iff.1 ends
  exact ⟨m, homing inside, rfl⟩

theorem exists_of_runScript {source : String} {result : Except Error Value}
    (ends : (s.runScript fuel source).Exits log result t) :
    ∃ m, s.machine.Homes m ∧ t = { s with machine := m } := by
  obtain ⟨a, -, ends⟩ := Reply.exits_map_iff.1 ends
  exact exists_of_evaluate ((homing fuel).run source) ends

/-! ## Submissions -/

theorem homes_report (s : Session) (e : Error) : s.machine.Homes (s.report e).machine :=
  ⟨rfl, .inr rfl, fun _ before => before⟩

theorem homes_reports (errors : List Error) (s : Session) :
    s.machine.Homes (errors.foldl report s).machine := by
  induction errors generalizing s with
  | nil => exact .refl _
  | cons e rest ih => exact (homes_report s e).trans (ih _)

theorem homes_conclude (s : Session) (submission : Submission) :
    s.machine.Homes (s.conclude submission).2.machine := by
  have reports := homes_reports submission.reported { s with reader := submission.reader }
  unfold conclude
  dsimp only
  split
  · exact reports.trans ⟨rfl, .inr rfl, fun _ before => before⟩
  · split
    · exact reports
    · exact reports

theorem homes_of_submit {source : String} {failed : Bool}
    (ends : (s.submit fuel source).Exits log failed t) : s.machine.Homes t.machine := by
  obtain ⟨l₁, l₂, result, u, rfl, evaluated, concluded⟩ := Reply.exits_andThen_iff.1 ends
  have first : s.machine.Homes u.machine := by
    obtain ⟨m, homes, rfl⟩ :=
      exists_of_evaluate (s := { s with nextLine := s.nextLine + max 1 (lineCount source) })
        (by
          split
          · exact related_submitTokens Eval.congruence_homing (homing fuel) _ _ _ _
          · exact Eval.Primitive.homing (.pure _)) evaluated
    exact homes
  cases result with
  | ok submission =>
    obtain ⟨-, -, rfl⟩ := Reply.exits_done_iff.1 concluded
    exact first.trans (homes_conclude u submission)
  | error e =>
    obtain ⟨-, -, rfl⟩ := Reply.exits_done_iff.1 concluded
    exact first.trans (homes_report u _)

/-! ## All entries -/

/-- An entry is a submission, or it changes nothing but the machine. -/
theorem Enters.cases (enters : s.Enters fuel log t) :
    (∃ source failed, (s.submit fuel source).Exits log failed t) ∨
      ∃ m, s.machine.Homes m ∧ t = { s with machine := m } := by
  cases enters with
  | submit ends => exact .inl ⟨_, _, ends⟩
  | runScript ends => exact .inr (exists_of_runScript ends)
  | runFile ends =>
    cases ends with
    | @ask _ _ answer _ _ _ ends =>
      cases answer with
      | ok source => exact .inr (exists_of_runScript ends)
      | error reason =>
        obtain ⟨-, -, rfl⟩ := Reply.exits_done_iff.1 ends
        exact .inr ⟨_, .refl _, rfl⟩
  | callFunction ends =>
    unfold Session.callFunction at ends
    split at ends
    · exact .inr (exists_of_evaluate (Eval.Homing.holding ((homing fuel).invoke _ _ _ _) _) ends)
    · obtain ⟨-, -, rfl⟩ := Reply.exits_done_iff.1 ends
      exact .inr ⟨_, .refl _, rfl⟩
  | callMember ends =>
    exact .inr
      (exists_of_evaluate (Eval.Homing.holding ((homing fuel).callMember _ _ _ _) _) ends)

theorem Enters.homes (enters : s.Enters fuel log t) : s.machine.Homes t.machine := by
  rcases enters.cases with ⟨source, failed, ends⟩ | ⟨m, homes, rfl⟩
  · exact homes_of_submit ends
  · exact homes

/-- Whatever a session evaluates for its host, it is back at its global scope when it returns: with
a value or with an error of any kind, raised at any depth, whatever the files hold and whatever the
functions of the host do in between, also if they run scripts that fail. -/
theorem enters_atGlobal (home : s.AtGlobal) (enters : s.Enters fuel log t) :
    t.AtGlobal ∧ t.machine.global = s.machine.global := by
  have homes := enters.homes
  refine ⟨?_, homes.global⟩
  rcases homes.current with stays | leaves
  · exact stays.trans (home.trans homes.global.symm)
  · exact leaves.trans homes.global.symm

/-- A host function that runs its argument as a script and goes on if that fails. -/
def runsArgument : Host.Code := fun call =>
  match call.argument 0 with
  | .string source => .runScript source fun
    | .ok v => .value v
    | .error _ => .value .null
  | v => .value v

/-- The theorem at a submission that fails in a branch of a call, after a script that failed too
was run from there. -/
theorem enters_atGlobal_of_failures :
    let s := (new .default).register ⟨"run", .scoped, runsArgument⟩
    let source := "func f() \x7b if (true) \x7b run(\"nosuch();\"); missing(); \x7d \x7d f();"
    s.AtGlobal ∧ ∃ t, (s.submit 60 source).Exits [] true t ∧
      t.lastError = some (.running (.unknownFunction "missing" 1)) ∧
      t.AtGlobal ∧ t.machine.global = s.machine.global := by
  intro s source
  have fails : ((s.submit 60 source).done?.map fun p => (p.1, p.2.lastError)) =
      some (true, some (.running (.unknownFunction "missing" 1))) := by
    decide +kernel
  have home : s.AtGlobal := rfl
  obtain ⟨⟨failed, t⟩, submitted, same⟩ := Option.map_eq_some_iff.1 fails
  obtain ⟨rfl, reported⟩ := Prod.ext_iff.1 same
  have ends : (s.submit 60 source).Exits [] true t := Reply.exits_of_done? submitted
  exact ⟨home, t, ends, reported, enters_atGlobal home (.submit ends)⟩

/-- The sessions that a host can make of a new one. -/
inductive Reachable (config : Config) : Session → Prop where
  | new : Reachable config (new config)
  | enters {s t : Session} {fuel : Nat} {log : FileLog} :
      Reachable config s → s.Enters fuel log t → Reachable config t
  | register {s : Session} (d : Host.Definition) : Reachable config s →
      Reachable config (s.register d)
  | install {s : Session} (m : Host.Module) : Reachable config s →
      Reachable config (s.install m).2
  | reset {s : Session} : Reachable config s → Reachable config s.reset
  | takeOutput {s : Session} : Reachable config s → Reachable config s.takeOutput.2.2

/-- Installing a module keeps what registering a function keeps. -/
theorem install_of_register {P : Session → Prop} (registers : ∀ s d, P s → P (s.register d))
    (m : Host.Module) (start : P s) : P (s.install m).2 := by
  have all (functions : List Host.Definition) (s : Session) (start : P s) :
      P (functions.foldl register s) := by
    induction functions generalizing s with
    | nil => exact start
    | cons d rest ih => exact ih (s.register d) (registers s d start)
  unfold Session.install
  split
  · exact all m.functions s start
  · exact start

/-- Between two calls of its host, a session is at its global scope. -/
theorem Reachable.atGlobal {config : Config} (reachable : Reachable config s) : s.AtGlobal := by
  induction reachable with
  | new => rfl
  | enters _ enters home =>
    have homes := enters.homes
    rcases homes.current with stays | leaves
    · exact stays.trans (home.trans homes.global.symm)
    · exact leaves.trans homes.global.symm
  | register d _ home => exact home
  | install m _ home => exact install_of_register (fun s d (home : s.AtGlobal) => home) m home
  | reset => rfl
  | takeOutput _ home => exact home

end Session

end Scriptlet
