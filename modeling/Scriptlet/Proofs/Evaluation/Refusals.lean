import Scriptlet.Proofs.Evaluation.Scripts
import Scriptlet.Proofs.Statement.Grammar
import Scriptlet.Session

/-!
# Syntax errors in the middle of a script

A script that stops at a token which its reader refuses has executed what the reader had completed
before that token. These are all statements that end before the token, but for a chain that the
token follows directly: the token itself would have shown that no `else` follows, and the reader
gives up the chain with it.
-/

namespace Scriptlet

namespace StatementReader

open Scriptlet.Grammar (Spells)

variable {r r₁ : StatementReader}

/-- The statement that a reader at the top holds back. -/
def heldStatement (r : StatementReader) : List Stmt :=
  (r.held.map fun c => Stmt.choice c.branches c.line).toList

theorem ready_release (top : r.frames = []) : r.release.ready = r.ready ++ r.heldStatement := by
  obtain ⟨phase, frames, held, ready, line⟩ := r
  obtain rfl : frames = [] := top
  cases held with
  | none => exact (List.append_nil ready).symm
  | some c => rfl

/-- What a new reader has made of whole statements: it has handed them out, or it holds back the
last one. -/
theorem exists_of_spells {ss : List Stmt} {ts : List PlacedToken} (spelled : Spells (.all ss) ts) :
    ∃ r, feedAll new ts = accept r ∧ r.phase = .between ∧ r.frames = [] ∧
      r.release = after ss { new with line := r.line } := by
  obtain ⟨r, ⟨l, fed⟩, between, released⟩ := spelled.fed new rfl
  have whole : r.release = { new with ready := ss } := released.trans (foldl_emit_top ss rfl)
  refine ⟨{ r with line := l }, fed, between, frames_of_release (r := r) (by rw [whole]; rfl), ?_⟩
  rw [release_line, whole]
  simp [after, new]

/-- Whole statements that more tokens follow have all been handed out, unless the last one goes on
with `else`; without more tokens the last one can be held back. -/
theorem ready_of_spells {ss : List Stmt} {ts rest : List PlacedToken}
    (spelled : Spells (.all ss) ts) (ends : ∀ u ∈ rest.head?, u.token ≠ .keyword .elseWord)
    (read : feedAll new (ts ++ rest) = accept r) :
    if rest = [] then ss = r.ready ++ r.heldStatement else ss <+: r.ready := by
  obtain ⟨r₁, fed, between, top, released⟩ := exists_of_spells spelled
  rw [feedAll_append, fed] at read
  cases rest with
  | nil =>
    obtain rfl : r₁ = r := congrArg Prod.fst read
    rw [if_pos rfl, ← ready_release top, released]
    exact (List.append_nil ss).symm
  | cons u us =>
    rw [if_neg (List.cons_ne_nil u us)]
    have started : feedAll r₁ (u :: us) =
        (andThen (startToken { new with line := u.line } u) (feedAll · us)).after ss := by
      rw [feedAll, feed_between between (ends u rfl), released]
      have first := startToken_after ss { new with line := u.line } u
      rw [← andThen_after ss _ _ fun r => feedAll_after ss r us, ← first]
      rfl
    have read : feedAll r₁ (u :: us) = accept r := read
    rw [started] at read
    have ready := congrArg (fun step : Step => step.1.ready) read
    exact ⟨_, ready⟩

end StatementReader

namespace Evaluator

open Scriptlet.StatementReader (accept feedAll)
open Scriptlet.Grammar (Spells)

/-- A script in which a token is refused. It stops with the error of that token exactly when the
statements that its reader has handed out before are executed in order and none of them fails, and
it has done nothing else then. All statements that end before the token are among them, but for a
chain held back that the token follows directly. -/
theorem run_refused {source : String} {pre post : List PlacedToken} {t : PlacedToken}
    {r : StatementReader} {e : SyntaxError} (lexes : Lexer.tokenize source 1 = .ok (pre ++ t :: post))
    (read : feedAll .new pre = accept r) (refused : (r.feed t).2 = some e) :
    (∀ setting m log n,
      (∃ fuel, (run fuel source).Exits setting m log (.ok (.error (.reading e))) n) ↔
        ∃ v k, Performs keepsLast setting m .null log r.ready v k ∧
          n = { k with current := k.global }) ∧
    ∀ ss first rest, pre = first ++ rest → Spells (.all ss) first →
      (∀ u ∈ rest.head?, u.token ≠ .keyword .elseWord) →
        if rest = [] then ss = r.ready ++ r.heldStatement else ss <+: r.ready := by
  constructor
  · intro setting m log n
    have again : (r.takeReady.2.feed t).2 = some e := by
      rw [← refused]
      conv => rhs; rw [← StatementReader.after_takeReady r, StatementReader.feed_after]
      rfl
    simp only [exits_run_reading_iff lexes, finishes_append_iff rfl read, finishes_refused_iff again]
    constructor
    · rintro ⟨k, ⟨l₁, l₂, v, j, rfl, performed, rfl, -, rfl⟩, home⟩
      rw [List.append_nil]
      exact ⟨v, k, performed, home⟩
    · rintro ⟨v, k, performed, home⟩
      exact ⟨k, ⟨log, [], v, k, (List.append_nil log).symm, performed, rfl, trivial, rfl⟩, home⟩
  · rintro ss first rest rfl spelled ends
    exact StatementReader.ready_of_spells spelled ends read

/-- A script whose last statement is a chain, which ends with its last branch. -/
def wholeChain : String := "var y = 0; if (true) \x7b y = 1; \x7d"

/-- The tokens of `wholeChain`. -/
def chainTokens : List PlacedToken :=
  [.keyword .varWord, .name "y", .symbol .assign, .int 0, .mark .semicolon, .keyword .ifWord,
    .mark .leftParen, .bool true, .mark .rightParen, .mark .leftBrace, .name "y", .symbol .assign,
    .int 1, .mark .semicolon, .mark .rightBrace].map (⟨·, 1⟩)

/-- The theorem at the token after the chain: the script stops after its first statement, and its
reader still holds the chain back. -/
theorem run_refused_after_chain :
    let source := wholeChain ++ ")"
    ∃ r, feedAll .new chainTokens = accept r ∧ r.ready.length = 1 ∧ r.heldStatement.length = 1 ∧
      ∀ setting m log n,
        (∃ fuel, (run fuel source).Exits setting m log
            (.ok (.error (.reading (.unexpectedToken ")" 1)))) n) ↔
          ∃ v k, Performs keepsLast setting m .null log r.ready v k ∧
            n = { k with current := k.global } := by
  intro source
  have lexes : Lexer.tokenize source 1 = .ok (chainTokens ++ ⟨.mark .rightParen, 1⟩ :: []) := by
    have tokens : (Lexer.tokenize source 1).toOption =
        some (chainTokens ++ ⟨.mark .rightParen, 1⟩ :: []) := by
      decide
    cases lexed : Lexer.tokenize source 1 with
    | ok ts =>
      rw [lexed] at tokens
      exact congrArg Except.ok (Option.some.inj tokens)
    | error e =>
      rw [lexed] at tokens
      cases tokens
  have read : feedAll .new chainTokens = accept (feedAll .new chainTokens).1 :=
    Prod.ext rfl (by decide)
  have refused : ((feedAll .new chainTokens).1.feed ⟨.mark .rightParen, 1⟩).2 =
      some (.unexpectedToken ")" 1) := by
    decide
  exact ⟨_, read, by decide, by decide, (run_refused lexes read refused).1⟩

/-- The chain is executed by the whole script, yet not by one that stops at a token directly after
it. -/
theorem run_wholeChain :
    (∃ v m, run 60 wholeChain ⟨#[], ".", []⟩ Machine.new = .value (.ok v) m ∧
      m.store.findValue? m.global "y" = some (.int 1)) ∧
    ∃ m, run 60 (wholeChain ++ ")") ⟨#[], ".", []⟩ Machine.new =
        .value (.error (.reading (.unexpectedToken ")" 1))) m ∧
      m.store.findValue? m.global "y" = some (.int 0) := by
  have whole : ((run 60 wholeChain ⟨#[], ".", []⟩ Machine.new).value?.map fun p =>
      (p.1, p.2.store.findValue? p.2.global "y")) = some (.ok (.int 1), some (.int 1)) := by
    rw [run, show wholeChain = .ofList _ from rfl, Lexer.tokenize_ofList]
    decide +kernel
  have stopped : ((run 60 (wholeChain ++ ")") ⟨#[], ".", []⟩ Machine.new).value?.map fun p =>
      (p.1, p.2.store.findValue? p.2.global "y")) =
        some (.error (.reading (.unexpectedToken ")" 1)), some (.int 0)) := by
    rw [run, show wholeChain ++ ")" = .ofList _ from String.ofList_append.symm,
      Lexer.tokenize_ofList]
    decide +kernel
  constructor
  · obtain ⟨⟨v, m⟩, ends, same⟩ := Option.map_eq_some_iff.1 whole
    obtain ⟨rfl, after⟩ := Prod.ext_iff.1 same
    exact ⟨_, m, Outcome.eq_value_of_value? ends, after⟩
  · obtain ⟨⟨v, m⟩, ends, same⟩ := Option.map_eq_some_iff.1 stopped
    obtain ⟨rfl, before⟩ := Prod.ext_iff.1 same
    exact ⟨m, Outcome.eq_value_of_value? ends, before⟩

end Evaluator

end Scriptlet
