import Scriptlet.Proofs.Evaluation.Batch
import Scriptlet.Proofs.Session.GlobalScope

/-!
# Whole scripts at a session

A session runs a script while it reads it. When the reader accepts all of it, the session comes to
the same end as if it had read all of it first and then executed the statements, one after another,
up to the first error.
-/

namespace Scriptlet

open Scriptlet.StatementReader (accept)
open Scriptlet.Evaluator (Executes ExecutesAll importEnd)

namespace Evaluator

variable {setting : Setting} {m n : Machine} {u : Value} {log : FileLog} {ss : List Stmt}
  {r : Except RuntimeError Value}

theorem Executes.homes {s : Stmt} {r : Except RuntimeError Flow}
    (h : Executes setting m log s r n) : m.Homes n := by
  obtain ⟨fuel, ends⟩ := h
  exact (homing fuel).exec s ends

theorem ExecutesAll.homes (h : ExecutesAll setting m u log ss r n) : m.Homes n := by
  induction h with
  | nil => exact .refl _
  | stop fails => exact fails.homes
  | next first _ ih => exact first.homes.trans ih

end Evaluator

namespace Session

variable {source : String} {tokens : List PlacedToken} {ended : StatementReader}

theorem exits_runScript_iff {s t : Session} {log : FileLog} {result : Except Error Value}
    (home : s.AtGlobal) (lexes : Lexer.tokenize source 1 = .ok tokens)
    (read : StatementReader.new.finished tokens = accept ended) :
    (∃ fuel, (s.runScript fuel source).Exits log result t) ↔
      ∃ r n, ExecutesAll s.setting s.machine .null log ended.ready r n ∧
        result = r.mapError .running ∧ t = { s with machine := n } := by
  have ends (inner : Except RuntimeError (Except Error Value)) (n : Machine) :
      (∃ fuel, (Evaluator.run fuel source).Exits s.setting s.machine log inner n) ↔ _ :=
    Evaluator.exits_run_iff_executesAll lexes read
  -- an error that leaves the global scope leads back to it, so nothing changes at the end
  have stays {e : RuntimeError} {k : Machine}
      (h : ExecutesAll s.setting s.machine .null log ended.ready (.error e) k) :
      { k with current := k.global } = k := by
    have same : k.current = k.global := by
      rcases h.homes.current with same | leaves
      · exact same.trans (home.trans h.homes.global.symm)
      · exact leaves.trans h.homes.global.symm
    obtain ⟨store, global, current, retained, printed, closings⟩ := k
    obtain rfl : current = global := same
    rfl
  constructor
  · rintro ⟨fuel, ends'⟩
    obtain ⟨inner, rfl, evaluated⟩ := Reply.exits_map_iff.1 ends'
    obtain ⟨n, run, rfl⟩ := exits_evaluate_iff.1 evaluated
    rcases (ends inner n).1 ⟨fuel, run⟩ with ⟨v, rfl, performed⟩ | ⟨e, k, rfl, performed, rfl⟩
    · exact ⟨.ok v, n, performed, rfl, rfl⟩
    · rw [stays performed]
      exact ⟨.error e, k, performed, rfl, rfl⟩
  · rintro ⟨r, n, performed, rfl, rfl⟩
    have run : ∃ fuel inner, (Evaluator.run fuel source).Exits s.setting s.machine log inner n ∧
        r.mapError .running = flatten inner := by
      cases r with
      | ok v =>
        obtain ⟨fuel, run⟩ := (ends _ n).2 (.inl ⟨v, rfl, performed⟩)
        exact ⟨fuel, _, run, rfl⟩
      | error e =>
        obtain ⟨fuel, run⟩ := (ends _ n).2 (.inr ⟨e, n, rfl, performed, (stays performed).symm⟩)
        exact ⟨fuel, _, run, rfl⟩
    obtain ⟨fuel, inner, run, same⟩ := run
    rw [same]
    exact ⟨fuel, Reply.exits_map_iff.2 ⟨inner, rfl, exits_evaluate_iff.2 ⟨n, run, rfl⟩⟩⟩

/-- A script whose tokens a new reader accepts to the end does what its statements do one after
another up to the first error: a session at its global scope that runs it comes to the same result,
the same scopes and the same output, and so does an import of it, in the scope where it is imported,
but for the error, which is wrapped. -/
theorem executesAll_of_accepted (lexes : Lexer.tokenize source 1 = .ok tokens)
    (read : StatementReader.new.finished tokens = accept ended) :
    (∀ (s t : Session) (log : FileLog) (result : Except Error Value), s.AtGlobal →
      ((∃ fuel, (s.runScript fuel source).Exits log result t) ↔
        ∃ r n, ExecutesAll s.setting s.machine .null log ended.ready r n ∧
          result = r.mapError .running ∧ t = { s with machine := n })) ∧
    ∀ (setting : Setting) (m n : Machine) (log : FileLog) (path : String) (line : Line)
        (result : Except RuntimeError Flow),
      Executes setting m ((.read (joinPath setting.importRoot path), .ok source) :: log)
          (.importFile path line) result n ↔
        ∃ r, ExecutesAll setting m .null log ended.ready r n ∧ result = importEnd path line r := by
  constructor
  · intro s t log result home
    exact exits_runScript_iff home lexes read
  · intro setting m n log path line result
    exact Evaluator.executes_importFile_iff lexes read

/-- A script with a chain that the token after it releases, and a last line that the end of the
input completes. -/
def chainScript : String := "if (true) \x7b print(1); \x7d var a = 2; a = a + 1"

/-- The theorem at that script, for a new session and for an import of it. -/
theorem executesAll_chainScript :
    ∃ tokens ended t n, Lexer.tokenize chainScript 1 = .ok tokens ∧
      StatementReader.new.finished tokens = accept ended ∧ ended.ready.length = 3 ∧
      (∃ fuel, ((new .default).runScript fuel chainScript).Exits [] (.ok (.int 3)) t) ∧
      t = { new .default with machine := n } ∧
      ExecutesAll (new .default).setting Machine.new .null [] ended.ready (.ok (.int 3)) n ∧
      Executes (new .default).setting Machine.new
        [(.read (joinPath "." "a.sbl"), .ok chainScript)] (.importFile "a.sbl" 1)
        (.ok (.normal (.int 3))) n := by
  have lexed : (Lexer.tokenize chainScript 1).toOption.map (fun tokens =>
      ((StatementReader.new.finished tokens).2, (StatementReader.new.finished tokens).1.ready.length)) =
      some (none, 3) := by
    decide +kernel
  have runs : (((new .default).runScript 60 chainScript).done?.map Prod.fst) =
      some (.ok (.int 3)) := by
    decide +kernel
  obtain ⟨tokens, lexes, same⟩ := Option.map_eq_some_iff.1 lexed
  obtain ⟨accepted, length⟩ := Prod.ext_iff.1 same
  have lexes : Lexer.tokenize chainScript 1 = .ok tokens := by
    cases words : Lexer.tokenize chainScript 1 with
    | ok ts =>
      rw [words] at lexes
      rw [Option.some.inj lexes]
    | error e =>
      rw [words] at lexes
      cases lexes
  have read : StatementReader.new.finished tokens =
      accept (StatementReader.new.finished tokens).1 := Prod.ext rfl accepted
  obtain ⟨⟨result, t⟩, ended, rfl⟩ := Option.map_eq_some_iff.1 runs
  have ends : ∃ fuel, ((new .default).runScript fuel chainScript).Exits [] (.ok (.int 3)) t :=
    ⟨60, Reply.exits_of_done? ended⟩
  obtain ⟨script, imports⟩ := executesAll_of_accepted lexes read
  obtain ⟨r, n, performed, same, rfl⟩ := (script (new .default) t [] (.ok (.int 3)) rfl).1 ends
  obtain rfl : r = .ok (.int 3) := by
    cases r with
    | ok v => rw [Except.ok.inj (same : Except.ok (.int 3) = Except.ok v)]
    | error e => cases same
  have imported := (imports (new .default).setting Machine.new n [] "a.sbl" 1
    (.ok (.normal (.int 3)))).2 ⟨.ok (.int 3), performed, rfl⟩
  exact ⟨tokens, _, _, n, lexes, read, length, ends, rfl, performed, imported⟩

end Session

end Scriptlet
