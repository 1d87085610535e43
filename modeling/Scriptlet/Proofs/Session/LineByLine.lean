import Scriptlet.Proofs.Evaluation.Kept
import Scriptlet.Proofs.Evaluation.Scripts
import Scriptlet.Proofs.Session.Submissions
import Scriptlet.Proofs.Token.Chunks

/-!
# Scripts that are submitted line by line

A host can cut a script after ends of lines and submit the chunks one after another. The reader of
the session then reads the same tokens as the reader of the whole script, if no sign at the start of
a chunk depends on the chunk before, so it hands out the same trees in the same order. The script
keeps the value of each statement in use while it executes the next one, the session does not; as
long as no closing of a scope depends on that, both do the same.
-/

namespace Scriptlet.Session

open Scriptlet.StatementReader (accept feedAll)
open Scriptlet.Lexer (ChunkTokens Cut SignsAgree)
open Scriptlet.Evaluator (Performs keepsLast keepsNothing ClosesAlone performs_nil_iff
  performs_append_iff)

variable {config : Config} {s u : Session} {log : FileLog} {chunks : List String}
  {r : StatementReader}

/-- All of some chunks are submitted, one after another, and none of them fails. -/
inductive SubmitsAll : Session → FileLog → List String → Session → Prop where
  | nil {s : Session} : SubmitsAll s [] [] s
  | cons {s t u : Session} {fuel : Nat} {chunk : String} {chunks : List String}
      {l₁ l₂ : FileLog} : (s.submit fuel chunk).Exits l₁ false t → SubmitsAll t l₂ chunks u →
        SubmitsAll s (l₁ ++ l₂) (chunk :: chunks) u

theorem submitsAll_cons_iff {chunk : String} :
    SubmitsAll s log (chunk :: chunks) u ↔ ∃ l₁ l₂ t, log = l₁ ++ l₂ ∧
      (∃ fuel, (s.submit fuel chunk).Exits l₁ false t) ∧ SubmitsAll t l₂ chunks u := by
  constructor
  · intro h
    cases h with
    | cons first rest => exact ⟨_, _, _, rfl, ⟨_, first⟩, rest⟩
  · rintro ⟨l₁, l₂, t, rfl, ⟨fuel, first⟩, rest⟩
    exact .cons first rest

/-- The line after some chunks, the first of which starts on a line. -/
def lineAfter (line : Line) (chunks : List String) : Line :=
  chunks.foldl (fun line chunk => line + max 1 (lineCount chunk)) line

/-- Chunks that the reader of a session can read are submitted without an error exactly when the
statements that they complete are executed and none fails. -/
theorem submitsAll_iff {tss : List (List PlacedToken)} {v : Value}
    (chunked : ChunkTokens s.nextLine chunks tss) (calm : s.lastError = none)
    (taken : s.reader.ready = []) (read : feedAll s.reader tss.flatten = accept r) :
    SubmitsAll s log chunks u ↔ ∃ w n,
      Performs keepsNothing s.setting s.machine v log r.ready w n ∧
        u = { s with
          nextLine := lineAfter s.nextLine chunks, machine := n, reader := r.takeReady.2 } := by
  induction chunks generalizing s tss r v log with
  | nil =>
    cases chunked with
    | nil =>
      obtain rfl : s.reader = r := congrArg Prod.fst read
      simp only [taken, performs_nil_iff, StatementReader.takeReady_of_taken taken]
      constructor
      · intro h
        cases h with
        | nil => exact ⟨v, u.machine, ⟨rfl, rfl, rfl⟩, rfl⟩
      · rintro ⟨w, n, ⟨rfl, -, rfl⟩, rfl⟩
        exact .nil
  | cons chunk rest ih =>
    cases chunked with
    | @cons _ _ _ ts tss lexes later =>
      obtain ⟨r₁, r₂, fed, fed', rfl⟩ := StatementReader.exists_of_feedAll_append read
      have ready : (r₂.after r₁.ready).ready = r₁.ready ++ r₂.ready := rfl
      have same : (r₂.after r₁.ready).takeReady.2 = r₂.takeReady.2 := rfl
      -- the chunks after the first one, from where it leaves the session
      have next (m : Machine) (w : Value) {l : FileLog} :
          SubmitsAll { s.advanced chunk with
              machine := m, reader := r₁.takeReady.2, lastError := none } l rest u ↔
            ∃ w' n, Performs keepsNothing s.setting m w l r₂.ready w' n ∧
              u = { s with
                nextLine := lineAfter s.nextLine (chunk :: rest)
                machine := n
                reader := r₂.takeReady.2 } := by
        rw [← calm]
        exact ih later calm rfl fed'
      rw [submitsAll_cons_iff, ready, same]
      simp only [exits_submit_false_iff (v := v) lexes taken fed, performs_append_iff]
      constructor
      · rintro ⟨l₁, l₂, t, rfl, ⟨w, m, now, rfl⟩, submitted⟩
        obtain ⟨w', n, performed, rfl⟩ := (next m w).1 submitted
        exact ⟨w', n, ⟨l₁, l₂, w, m, rfl, now, performed⟩, rfl⟩
      · rintro ⟨w', n, ⟨l₁, l₂, w, m, rfl, now, performed⟩, rfl⟩
        exact ⟨l₁, l₂, _, rfl, ⟨w, m, now, rfl⟩, (next m w).2 ⟨w', n, performed, rfl⟩⟩

/-- A script that ends with a value, and its chunks, submitted to a new session. The reader hands out
the same trees in both cases: the script executes them one after another, then what only the end of
the input completes. The chunks are submitted without an error exactly when the same trees are
executed in the same order without one, though without the value before each of them; the session
then still holds what only the end of the input would complete. If no closing of a scope is decided
by such a value, there is no error, and the session is as the script was when it came to the end. -/
theorem submitsAll_of_runScript {source : String} {v : Value} (cut : Cut source chunks)
    (agree : SignsAgree chunks)
    (succeeds : ∃ fuel, ((new config).runScript fuel source).Exits log (.ok v) s) :
    ∃ tokens r ended l₁ l₂ w k,
      Lexer.tokenize source 1 = .ok tokens ∧ feedAll .new tokens = accept r ∧
      r.takeReady.2.flush = accept ended ∧ log = l₁ ++ l₂ ∧
      Performs keepsLast (new config).setting Machine.new .null l₁ r.ready w k ∧
      Performs keepsLast (new config).setting k w l₂ ended.ready v s.machine ∧
      (∀ log' u, SubmitsAll (new config) log' chunks u ↔ ∃ w' n,
        Performs keepsNothing (new config).setting Machine.new .null log' r.ready w' n ∧
        u = { new config with
          nextLine := lineAfter 1 chunks, machine := n, reader := r.takeReady.2 }) ∧
      ((∀ before S after l w m, r.ready = before ++ S :: after → l <+: l₁ →
          Performs keepsLast (new config).setting Machine.new .null l before w m →
            ClosesAlone (new config).setting m w S) →
        ∃ closings, SubmitsAll (new config) l₁ chunks { new config with
          nextLine := lineAfter 1 chunks
          machine := k.withClosings closings
          reader := r.takeReady.2 }) := by
  obtain ⟨fuel, ends⟩ := succeeds
  obtain ⟨result, flat, evaluated⟩ := Reply.exits_map_iff.1 ends
  obtain ⟨n, run, rfl⟩ := exits_evaluate_iff.1 evaluated
  obtain rfl : result = .ok (.ok v) := by
    rcases result with e | e | w
    · cases flat
    · cases flat
    · rw [Except.ok.inj (flat : Except.ok v = Except.ok w)]
  obtain ⟨tokens, lexes⟩ := Evaluator.exists_tokens_of_run run
  have finished := (Evaluator.exits_run_value_iff lexes).1 ⟨fuel, run⟩
  obtain ⟨r, read⟩ := Evaluator.exists_feedAll_of_finishes finished
  have whole : tokens = tokens ++ [] := (List.append_nil tokens).symm
  rw [whole] at finished
  obtain ⟨l₁, l₂, w, k, rfl, performed, rest⟩ :=
    (Evaluator.finishes_append_iff rfl read).1 finished
  obtain ⟨flushed, pending⟩ := Evaluator.finishes_nil_iff.1 rest
  obtain ⟨tss, chunked, rfl⟩ := Lexer.exists_chunkTokens cut agree lexes
  have submits (log' : FileLog) (u : Session) : SubmitsAll (new config) log' chunks u ↔ ∃ w' n,
      Performs keepsNothing (new config).setting Machine.new .null log' r.ready w' n ∧
      u = { new config with
          nextLine := lineAfter 1 chunks, machine := n, reader := r.takeReady.2 } :=
    submitsAll_iff chunked rfl rfl read
  refine ⟨tss.flatten, r, r.takeReady.2.flush.1, l₁, l₂, w, k, lexes, read, Prod.ext rfl flushed,
    rfl, performed, pending, submits, fun alone => ?_⟩
  obtain ⟨closings, without⟩ :=
    Evaluator.performs_alone rfl performed alone Machine.new.closings
  exact ⟨closings, (submits l₁ _).2 ⟨w, _, without, rfl⟩⟩

/-- A script of one statement on two lines. -/
def definitionLines : List String := ["var a =\n", "5;\n"]

/-- The theorem at a statement that is cut in the middle. -/
theorem submitsAll_of_runScript_definitionLines :
    ∃ v s, ∃ k : Machine, ∃ closings, (∃ fuel,
        ((new .default).runScript fuel (String.join definitionLines)).Exits [] (.ok v) s) ∧
      SubmitsAll (new .default) [] definitionLines { new .default with
        nextLine := 3
        machine := k.withClosings closings
        reader := { StatementReader.new with line := 2 } } := by
  have runs : (((new .default).runScript 60 (String.join definitionLines)).done?.map Prod.fst) =
      some (.ok (.int 5)) := by
    decide +kernel
  obtain ⟨⟨_, s⟩, ended, rfl⟩ := Option.map_eq_some_iff.1 runs
  have succeeds : ∃ fuel,
      ((new .default).runScript fuel (String.join definitionLines)).Exits [] (.ok (.int 5)) s :=
    ⟨60, Reply.exits_of_done? ended⟩
  have cut : Cut (String.join definitionLines) definitionLines := by
    refine ⟨rfl, fun chunk hc => ?_⟩
    obtain rfl : chunk = "var a =\n" := by simpa [definitionLines] using hc
    decide +kernel
  have agree : SignsAgree definitionLines := by
    intro before chunk after same starts
    have member : chunk ∈ definitionLines := by
      rw [same]
      simp
    have none : ∀ c ∈ definitionLines,
        ¬ Lexer.opensSigned (Lexer.pieces c.toList.length 1 false c.toList).1 = true := by
      decide +kernel
    exact absurd starts (none chunk member)
  obtain ⟨tokens, r, -, l₁, l₂, w, k, lexes, read, -, logs, -, -, -, alone⟩ :=
    submitsAll_of_runScript cut agree succeeds
  obtain ⟨rfl, rfl⟩ := List.append_eq_nil_iff.1 logs.symm
  have words : Lexer.tokenize (String.join definitionLines) 1 =
      .ok [⟨.keyword .varWord, 1⟩, ⟨.name "a", 1⟩, ⟨.symbol .assign, 1⟩, ⟨.int 5, 2⟩,
        ⟨.mark .semicolon, 2⟩] := by
    rfl
  obtain rfl := Except.ok.inj (words.symm.trans lexes)
  obtain rfl := congrArg Prod.fst read
  obtain ⟨closings, submitted⟩ := alone fun before S after l w m same inside performed => by
    obtain rfl : before = [] := by
      have length := congrArg List.length same
      have one : (feedAll .new [⟨.keyword .varWord, 1⟩, ⟨.name "a", 1⟩, ⟨.symbol .assign, 1⟩,
          ⟨.int 5, 2⟩, ⟨.mark .semicolon, 2⟩]).1.ready.length = 1 := rfl
      rw [one, List.length_append, List.length_cons] at length
      exact List.length_eq_zero_iff.1 (by omega)
    obtain ⟨-, rfl, -⟩ := performs_nil_iff.1 performed
    exact Evaluator.closesAlone_of_isScalar rfl
  exact ⟨.int 5, s, k, closings, succeeds, submitted⟩

/-- The session after all of some chunks, if none of them fails or asks for a file. -/
def submitEach (fuel : Nat) : Session → List String → Option Session
  | s, [] => some s
  | s, chunk :: chunks =>
    match s.submit fuel chunk with
    | .done false t => submitEach fuel t chunks
    | _ => none

theorem submitsAll_of_submitEach {fuel : Nat} (h : submitEach fuel s chunks = some u) :
    SubmitsAll s [] chunks u := by
  induction chunks generalizing s with
  | nil =>
    obtain rfl := Option.some.inj h
    exact .nil
  | cons chunk rest ih =>
    rw [submitEach] at h
    split at h
    · next t submitted =>
      have ends : (s.submit fuel chunk).Exits [] false t := by
        rw [submitted]
        exact .done
      exact .cons ends (ih h)
    · cases h

/-- A script in which a closing is decided by the value of the statement before: the list holds the
function that keeps the scope of the call. -/
def closureLines : List String :=
  ["var l = [null];\n",
    "func f() \x7b var x = 5; func h() \x7b \x7d class P \x7b func m() \x7b return x; \x7d \x7d " ++
      "l[0] = h; l = 0; return P().m; \x7d\n",
    "l;\n", "var g = f();\n", "var y = g();\n"]

/-- Without the condition on closings, the session can come to another end than the script. -/
theorem submitsAll_closureLines :
    (∃ v s, (new .default).runScript 200 (String.join closureLines) = .done (.ok v) s ∧
      s.resolve "y" = .int 5) ∧
    ∃ u, SubmitsAll (new .default) [] closureLines u ∧ u.resolve "y" = .null := by
  have runs : (((new .default).runScript 200 (String.join closureLines)).done?.map fun p =>
      (p.1.toOption.isSome, p.2.resolve "y")) = some (true, .int 5) := by
    decide +kernel
  have each : ((submitEach 60 (new .default) closureLines).map (·.resolve "y")) = some .null := by
    decide +kernel
  constructor
  · obtain ⟨⟨r, s⟩, ended, same⟩ := Option.map_eq_some_iff.1 runs
    obtain ⟨succeeds, resolved⟩ := Prod.ext_iff.1 same
    cases r with
    | ok v => exact ⟨v, s, Reply.eq_done_of_done? ended, resolved⟩
    | error e => cases succeeds
  · obtain ⟨u, submitted, same⟩ := Option.map_eq_some_iff.1 each
    exact ⟨u, submitsAll_of_submitEach submitted, same⟩

/-- A script that is submitted in two chunks with an error: the minus at the start of the second one
is read as a sign. -/
theorem submit_minusLine :
    Cut "var a = 5\n-1;" ["var a = 5\n", "-1;"] ∧
      (∃ s, (new .default).runScript 60 "var a = 5\n-1;" = .done (.ok (.int 4)) s) ∧
      ∃ s t, (new .default).submit 60 "var a = 5\n" = .done false s ∧
        s.submit 60 "-1;" = .done true t ∧
        t.lastError = some (.reading (.missingSeparator "-1" 2)) := by
  have runs : (((new .default).runScript 60 "var a = 5\n-1;").done?.map Prod.fst) =
      some (.ok (.int 4)) := by
    decide +kernel
  have fails : (((new .default).submit 60 "var a = 5\n").done?.bind fun p =>
      (p.2.submit 60 "-1;").done?.map fun q => ((p.1, q.1), q.2.lastError)) =
      some ((false, true), some (.reading (.missingSeparator "-1" 2))) := by
    decide +kernel
  refine ⟨⟨rfl, fun chunk hc => ?_⟩, ?_, ?_⟩
  · obtain rfl : chunk = "var a = 5\n" := by simpa using hc
    decide +kernel
  · obtain ⟨⟨_, s⟩, ended, rfl⟩ := Option.map_eq_some_iff.1 runs
    exact ⟨s, Reply.eq_done_of_done? ended⟩
  · obtain ⟨⟨_, s⟩, begun, fails⟩ := Option.bind_eq_some_iff.1 fails
    obtain ⟨⟨_, t⟩, ended, same⟩ := Option.map_eq_some_iff.1 fails
    simp only [Prod.mk.injEq] at same
    obtain ⟨⟨rfl, rfl⟩, reported⟩ := same
    exact ⟨s, t, Reply.eq_done_of_done? begun, Reply.eq_done_of_done? ended, reported⟩

end Scriptlet.Session
