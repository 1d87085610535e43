import Scriptlet.Proofs.Session.GlobalScope
import Scriptlet.Proofs.Session.Submissions
import Scriptlet.Proofs.Statement.Began
import Scriptlet.Proofs.Token.Scanning

/-!
# Statements that fail in a submission

A statement that fails while a piece of source is submitted fails by itself if it began in an
earlier piece, and ends the submission if it began in this one. The session decides that by the
line of the tree. Every tree but that of an expression has the line on which it began, and between
two calls of the host what is open began on a line before the next one. So the decision is right for
these. An expression has the line of the token at its root, which can be in this piece although the
first token was not.
-/

namespace Scriptlet

namespace StatementReader

/-- Whether what is open after some tokens was open before them: the reader was inside a statement
or held one back, and has not handed it out since. -/
def StillOpen (r : StatementReader) (tokens : List PlacedToken) : Prop :=
  r.isIdle = false ∧ (feedAll r tokens).1.ready = []

end StatementReader

namespace Session

open Scriptlet.StatementReader (accept feedAll StillOpen began_of_idle)
open Scriptlet.Evaluator (Executes exec)

variable {config : Config} {s u : Session} {fuel : Nat} {log : FileLog}

/-! ## Between two calls -/

/-- Whether the statements that a reader has completed have been taken, and what is open in it began
before a line. -/
structure Tidy (line : Line) (r : StatementReader) : Prop where
  taken : r.ready = []
  began : r.Began (· < line) (· < line)

theorem tidy_new (line : Line) : Tidy line .new := ⟨rfl, began_of_idle rfl⟩

theorem Tidy.mono {line later : Line} {r : StatementReader} (tidy : Tidy line r)
    (le : line ≤ later) : Tidy later r :=
  ⟨tidy.taken, tidy.began.imp (fun _ below => Nat.lt_of_lt_of_le below le)
    fun _ below => Nat.lt_of_lt_of_le below le⟩

/-- The lines of the tokens of a submission. -/
theorem line_of_lexes {source : String} {tokens : List PlacedToken}
    (lexes : Lexer.tokenize source s.nextLine = .ok tokens) {t : PlacedToken} (member : t ∈ tokens) :
    s.nextLine ≤ t.line ∧ t.line < (s.advanced source).nextLine := by
  obtain ⟨i, below, same⟩ := Lexer.line_of_mem_tokenize lexes member
  have inside : i < max 1 (lineCount source) := Nat.lt_of_lt_of_le below (Nat.le_max_right _ _)
  rw [same]
  exact ⟨Nat.le_add_right _ i, Nat.add_lt_add_left inside _⟩

theorem reports_eq (errors : List Error) (s : Session) :
    (errors.foldl report s).reader = s.reader ∧ (errors.foldl report s).nextLine = s.nextLine := by
  induction errors generalizing s with
  | nil => exact ⟨rfl, rfl⟩
  | cons e rest ih => exact ih (s.report e)

theorem tidy_conclude {submission : Submission}
    (tidy : submission.failure = none → Tidy s.nextLine submission.reader) :
    Tidy (s.conclude submission).2.nextLine (s.conclude submission).2.reader := by
  obtain ⟨reader, line⟩ := reports_eq submission.reported { s with reader := submission.reader }
  unfold conclude
  dsimp only
  split
  · exact tidy_new _
  · next none =>
    split
    · rw [line, reader]
      exact tidy none
    · rw [line, reader]
      exact tidy none

theorem tidy_of_submits {first line : Line} {m n : Machine} {setting : Setting}
    {r : StatementReader} {reported : List Error} {tokens : List PlacedToken}
    {submission : Submission} (tidy : Tidy line r) (on : ∀ t ∈ tokens, t.line < line)
    (h : Submits setting first m log r reported tokens submission n)
    (whole : submission.failure = none) : Tidy line submission.reader := by
  obtain ⟨r₁, reported, failure⟩ := submission
  obtain rfl : failure = none := whole
  obtain ⟨r₂, read, rfl⟩ := exists_feedAll_of_submits tidy.taken h
  exact ⟨rfl, (tidy.began.feedAll on read).takeReady⟩

theorem tidy_submit {source : String} {failed : Bool} (tidy : Tidy s.nextLine s.reader)
    (ends : (s.submit fuel source).Exits log failed u) : Tidy u.nextLine u.reader := by
  have later : s.nextLine ≤ (s.advanced source).nextLine := Nat.le_add_right _ _
  cases lexed : Lexer.tokenize source s.nextLine with
  | ok tokens =>
    obtain ⟨submission, n, submits, same⟩ := (exits_submit_iff lexed).1 ⟨fuel, ends⟩
    obtain rfl := congrArg Prod.snd same
    have on : ∀ t ∈ tokens, t.line < (s.advanced source).nextLine :=
      fun t ht => (line_of_lexes lexed ht).2
    exact tidy_conclude (tidy_of_submits (tidy.mono later) on submits)
  | error e =>
    obtain ⟨_, _, result, t, -, evaluated, concluded⟩ := Reply.exits_andThen_iff.1 ends
    obtain ⟨n, inside, rfl⟩ := exits_evaluate_iff.1 evaluated
    simp only [lexed] at inside
    obtain ⟨-, rfl, rfl⟩ := Eval.exits_pure_iff.1 inside
    obtain ⟨-, -, rfl⟩ := Reply.exits_done_iff.1 concluded
    exact tidy_new _

theorem Reachable.tidy (reachable : Reachable config s) : Tidy s.nextLine s.reader := by
  induction reachable with
  | new => exact tidy_new 1
  | enters _ enters tidy =>
    rcases enters.cases with ⟨source, failed, ends⟩ | ⟨m, -, rfl⟩
    · exact tidy_submit tidy ends
    · exact tidy
  | register d _ tidy => exact tidy
  | install m _ tidy =>
    exact install_of_register (P := fun s => Tidy s.nextLine s.reader) (fun _ _ tidy => tidy) m tidy
  | reset => exact tidy_new 1
  | takeOutput _ tidy => exact tidy

/-! ## A statement that fails -/

section

variable {source : String} {pre post : List PlacedToken} {t : PlacedToken}
  {r r' : StatementReader} {reported : List Error} {S : Stmt} {e : RuntimeError}
  {l₁ l₂ : FileLog} {m k : Machine}

/-- Where a statement that a token hands out began. -/
theorem began_of_handed (tidy : Tidy s.nextLine s.reader)
    (new : ∀ u ∈ pre ++ [t], s.nextLine ≤ u.line) {r₂ : StatementReader}
    (fed : feedAll s.reader pre = accept r₂) (read : r₂.takeReady.2.feed t = accept r')
    (ready : S ∈ r'.ready) :
    r'.ready = [S] ∧
      (StillOpen s.reader pre → S.Began (· < s.nextLine) fun _ => True) ∧
      (¬ StillOpen s.reader pre → S.Began (s.nextLine ≤ ·) (s.nextLine ≤ ·)) := by
  have token : s.nextLine ≤ t.line := new t (by simp)
  have before : ∀ u ∈ pre, s.nextLine ≤ u.line := fun u hu => new u (by simp [hu])
  have opened (still : r₂.isIdle = false ∧ r₂.Began (· < s.nextLine) fun _ => True) :
      r'.ready = [S] ∧ S.Began (· < s.nextLine) fun _ => True :=
    still.2.takeReady.handed (fun _ _ => trivial) trivial rfl read ready
  have fresh (began : r₂.Began (s.nextLine ≤ ·) (s.nextLine ≤ ·)) :
      r'.ready = [S] ∧ S.Began (s.nextLine ≤ ·) (s.nextLine ≤ ·) :=
    began.takeReady.handed (fun _ => id) token rfl read ready
  have handed : (feedAll s.reader pre).1 = r₂ := congrArg Prod.fst fed
  rw [StillOpen, handed]
  by_cases idle : s.reader.isIdle = true
  · have began := fresh ((began_of_idle idle).feedAll before fed)
    exact ⟨began.1, fun still => by simp [idle] at still, fun _ => began.2⟩
  · have busy : s.reader.isIdle = false := by simpa using idle
    have old : s.reader.Began (· < s.nextLine) fun _ => True :=
      tidy.began.imp (fun _ below => below) fun _ _ => trivial
    obtain ⟨still, later⟩ := old.feedAll_cases busy tidy.taken (fun _ _ => trivial)
      (fun u hu => ⟨trivial, before u hu⟩) fed
    by_cases none : r₂.ready = []
    · have began := opened (still none)
      exact ⟨began.1, fun _ => began.2, fun closed => absurd ⟨busy, none⟩ closed⟩
    · have began := fresh (later none)
      exact ⟨began.1, fun still => absurd still.2 none, fun _ => began.2⟩

theorem line_of_began {p q : Line → Prop} (began : S.Began p q) (other : ∀ x, S ≠ .expr x) :
    p S.line := by
  cases S with
  | expr x => exact absurd rfl (other x)
  | _ => exact began

theorem line_of_began_same {p : Line → Prop} (began : S.Began p p) : p S.line := by
  cases S <;> exact began

theorem conclude_of_failure {n : Machine} {reader : StatementReader} {e : Error} :
    { s with machine := n }.conclude ⟨reader, reported, some e⟩ =
      (true, { (reported ++ [e]).foldl report s with
        reader := .new, machine := { n with current := n.global } }) := by
  have same (errors : List Error) (s : Session) (reader reader' : StatementReader) (n : Machine) :
      { (errors.foldl report { s with machine := n, reader := reader }).report e with
          reader := reader' } =
        { (errors.foldl report s).report e with
          reader := reader', machine := { n with current := n.global } } := by
    induction errors generalizing s n with
    | nil => rfl
    | cons e' rest ih => exact ih (s.report e') { n with current := n.global }
  rw [List.foldl_append]
  exact congrArg (Prod.mk true) (same reported s reader .new n)

/-- A submission that has reported an error has failed when it ends. -/
theorem failed_of_reported {submission : Submission} {e : Error}
    (kept : reported ++ [e] <+: submission.reported) : (s.conclude submission).1 = true := by
  have some : ¬ submission.reported.isEmpty := by
    intro none
    rw [List.isEmpty_iff] at none
    rw [none, List.prefix_nil] at kept
    simp at kept
  unfold conclude
  dsimp only
  split
  · rfl
  · rw [if_neg some]

/-- A top-level statement that fails while the tokens of a submission are fed. What was still open
from earlier submissions, but for an expression, is on a line before this one, what began in it is
not. If the statement is on a line before, its error is reported and the tokens after it are fed
from there as if it had not been; the submission has failed when it ends. If not, nothing after the
statement is executed, and the reader is new again. -/
theorem submit_of_fails (reachable : Reachable config s)
    (lexes : Lexer.tokenize source s.nextLine = .ok (pre ++ t :: post))
    (before : Submits s.setting s.nextLine s.machine l₁ s.reader [] pre ⟨r, reported, none⟩ m)
    (read : r.feed t = accept r') (ready : S ∈ r'.ready)
    (fails : Executes s.setting m l₂ S (.error e) k) :
    (StillOpen s.reader pre → (∀ x, S ≠ .expr x) → S.line < s.nextLine) ∧
    (¬ StillOpen s.reader pre → s.nextLine ≤ S.line) ∧
    ∀ l₃ failed u, (∃ fuel, (s.submit fuel source).Exits (l₁ ++ (l₂ ++ l₃)) failed u) ↔
      failed = true ∧
      if S.line < s.nextLine then
        ∃ submission n,
          Submits s.setting s.nextLine { k with current := k.global } l₃ r'.takeReady.2
            (reported ++ [Error.running e]) post submission n ∧
          reported ++ [Error.running e] <+: submission.reported ∧
          u = ({ s.advanced source with machine := n }.conclude submission).2
      else
        l₃ = [] ∧ u = { (reported ++ [Error.running e]).foldl report (s.advanced source) with
          reader := .new, machine := { k with current := k.global } } := by
  have tidy := reachable.tidy
  obtain ⟨r₂, fed, rfl⟩ := exists_feedAll_of_submits tidy.taken before
  have new : ∀ u ∈ pre ++ [t], s.nextLine ≤ u.line := by
    intro u hu
    have whole : pre ++ t :: post = (pre ++ [t]) ++ post := by simp
    rw [whole] at lexes
    exact (line_of_lexes lexes (List.mem_append_left post hu)).1
  obtain ⟨one, opened, fresh⟩ := began_of_handed tidy new fed read ready
  refine ⟨fun still other => line_of_began (opened still) other,
    fun closed => line_of_began_same (fresh closed), fun l₃ failed u => ?_⟩
  simp only [exits_submit_iff lexes, submits_append_iff before, submits_cons_of_fails read one fails]
  by_cases old : S.line < s.nextLine
  · simp only [if_pos old]
    constructor
    · rintro ⟨submission, n, rest, same⟩
      have kept := rest.prefix_reported
      obtain ⟨rfl, rfl⟩ := Prod.ext_iff.1 same
      exact ⟨failed_of_reported kept, submission, n, rest, kept, rfl⟩
    · rintro ⟨rfl, submission, n, rest, kept, rfl⟩
      exact ⟨submission, n, rest, Prod.ext (failed_of_reported kept).symm rfl⟩
  · simp only [if_neg old]
    constructor
    · rintro ⟨submission, n, ⟨rfl, rfl, rfl⟩, same⟩
      rw [conclude_of_failure] at same
      obtain ⟨rfl, rfl⟩ := Prod.ext_iff.1 same
      exact ⟨rfl, rfl, rfl⟩
    · rintro ⟨rfl, rfl, rfl⟩
      exact ⟨_, _, ⟨rfl, rfl, rfl⟩, conclude_of_failure.symm⟩

end

/-- A session into which the beginning of a call was submitted. -/
def insideCall : Session :=
  { new .default with
    reader := ⟨.line .expr [⟨.mark .leftParen, 1⟩, ⟨.name "nosuch", 1⟩] 1 1, [], none, [], 1⟩
    nextLine := 2 }

theorem reachable_insideCall : Reachable .default insideCall := by
  have lexes : Lexer.tokenize "nosuch(" (new .default).nextLine =
      .ok [⟨.name "nosuch", 1⟩, ⟨.mark .leftParen, 1⟩] := by rfl
  obtain ⟨fuel, ends⟩ : ∃ fuel, ((new .default).submit fuel "nosuch(").Exits [] false insideCall :=
    (exits_submit_iff lexes).2 ⟨⟨insideCall.reader, [], none⟩, Machine.new, ⟨0, .value⟩, rfl⟩
  exact .enters .new (.submit ends)

/-- The theorem at a call that began on the line before: the definition after it is executed. -/
theorem submit_of_fails_insideCall :
    ∃ r' k, StillOpen insideCall.reader [⟨.mark .rightParen, 2⟩] ∧
      Executes insideCall.setting insideCall.machine [] (.expr (.call "nosuch" [] .call 1))
        (.error (.unknownFunction "nosuch" 1)) k ∧
      ∀ log failed u, (∃ fuel, (insideCall.submit fuel "); var y = 2;").Exits log failed u) ↔
        failed = true ∧ ∃ submission n,
          Submits insideCall.setting 2 { k with current := k.global } log r'
            [.running (.unknownFunction "nosuch" 1)]
            ([.keyword .varWord, .name "y", .symbol .assign, .int 2, .mark .semicolon].map (⟨·, 2⟩))
            submission n ∧
          [.running (.unknownFunction "nosuch" 1)] <+: submission.reported ∧
          u = ({ insideCall.advanced "); var y = 2;" with machine := n }.conclude submission).2 := by
  have lexes : Lexer.tokenize "); var y = 2;" insideCall.nextLine =
      .ok ([⟨.mark .rightParen, 2⟩] ++ ⟨.mark .semicolon, 2⟩ ::
        [.keyword .varWord, .name "y", .symbol .assign, .int 2, .mark .semicolon].map (⟨·, 2⟩)) := by
    rfl
  have fails : ((exec 60 (.expr (.call "nosuch" [] .call 1)) insideCall.setting
      Machine.new).error?.map Prod.fst) = some (.unknownFunction "nosuch" 1) := by
    decide +kernel
  obtain ⟨⟨e, k⟩, failed, rfl⟩ := Option.map_eq_some_iff.1 fails
  have executes : Executes insideCall.setting insideCall.machine []
      (.expr (.call "nosuch" [] .call 1)) (.error (.unknownFunction "nosuch" 1)) k := by
    refine ⟨60, ?_⟩
    show (exec 60 _ insideCall.setting Machine.new).Exits _ _ _
    rw [Outcome.eq_error_of_error? failed]
    exact .error
  have isolated := submit_of_fails reachable_insideCall lexes ⟨0, .value⟩ rfl
    List.mem_cons_self executes
  exact ⟨_, k, ⟨rfl, rfl⟩, executes, isolated.2.2⟩

/-- A statement that began before a submission and fails in it takes the submission down, since the
root of its tree is in the submission. -/
theorem submit_straddling :
    ∃ s u, (new .default).submit 60 "a" = .done false s ∧ s.isIdle = false ∧
      s.submit 60 "= nosuch(); var y = 2;" = .done true u ∧
      u.lastError = some (.running (.unknownFunction "nosuch" 2)) ∧ u.isIdle = true ∧
      u.machine.store.findValue? u.machine.global "y" = none := by
  have stops : (((new .default).submit 60 "a").done?.bind fun p =>
      (p.2.submit 60 "= nosuch(); var y = 2;").done?.map fun q =>
        ((p.1, p.2.isIdle, q.1), q.2.lastError, q.2.isIdle,
          q.2.machine.store.findValue? q.2.machine.global "y")) =
      some ((false, false, true), some (.running (.unknownFunction "nosuch" 2)), true, none) := by
    decide +kernel
  obtain ⟨⟨_, s⟩, begun, stops⟩ := Option.bind_eq_some_iff.1 stops
  obtain ⟨⟨_, u⟩, ended, same⟩ := Option.map_eq_some_iff.1 stops
  simp only [Prod.mk.injEq] at same
  obtain ⟨⟨rfl, busy, rfl⟩, failed, idle, gone⟩ := same
  exact ⟨s, u, Reply.eq_done_of_done? begun, busy, Reply.eq_done_of_done? ended, failed, idle, gone⟩

end Session

end Scriptlet
