import Scriptlet.Statement.Reader

/-!
# An idle reader

Of what a reader has been through, an idle reader whose statements have been taken keeps only the
line of its last token. Between two statements at the top nothing reads that line, and the next
token replaces it. So the reader answers every later call as a new one does.
-/

namespace Scriptlet.StatementReader

/-- A call that a host makes on a reader. -/
inductive Call where
  | feed (t : PlacedToken)
  | flush
  | takeReady

/-- What a host sees of a call: the error, the phase after it, whether the reader is idle then,
and the statements handed out. -/
structure Observation where
  failure : Option SyntaxError
  phase : Phase
  idle : Bool
  taken : List Stmt

/-- The reader after a call, the error of the call and the statements handed out. -/
def answer (r : StatementReader) : Call → StatementReader × Option SyntaxError × List Stmt
  | .feed t => ((r.feed t).1, (r.feed t).2, [])
  | .flush => (r.flush.1, r.flush.2, [])
  | .takeReady => (r.takeReady.2, none, r.takeReady.1)

/-- What a host sees of a run of calls, which goes on after an error. -/
def observe : StatementReader → List Call → List Observation
  | _, [] => []
  | r, c :: later =>
    let (next, failure, taken) := r.answer c
    ⟨failure, next.phase, next.isIdle, taken⟩ :: observe next later

/-- The readers differ in the line of the last token at most, and only where nothing reads it. -/
inductive Alike : StatementReader → StatementReader → Prop where
  | same (r : StatementReader) : Alike r r
  | between (held : Option Chain) (ready : List Stmt) (l l' : Line) :
      Alike ⟨.between, [], held, ready, l⟩ ⟨.between, [], held, ready, l'⟩

theorem Alike.phase {r u : StatementReader} (alike : Alike r u) : r.phase = u.phase := by
  cases alike <;> rfl

theorem Alike.isIdle {r u : StatementReader} (alike : Alike r u) : r.isIdle = u.isIdle := by
  cases alike <;> rfl

/-- The line of a token replaces the line that differs. -/
theorem Alike.feed {r u : StatementReader} (alike : Alike r u) (t : PlacedToken) :
    r.feed t = u.feed t := by
  cases alike <;> rfl

theorem Alike.flush {r u : StatementReader} (alike : Alike r u) :
    Alike r.flush.1 u.flush.1 ∧ r.flush.2 = u.flush.2 := by
  cases alike with
  | same r => exact ⟨.same _, rfl⟩
  | between held ready l l' =>
    refine ⟨?_, rfl⟩
    cases held with
    | none => exact .between none ready l l'
    | some c => exact .between none (ready ++ [.choice c.branches c.line]) l l'

theorem Alike.takeReady {r u : StatementReader} (alike : Alike r u) :
    Alike r.takeReady.2 u.takeReady.2 ∧ r.takeReady.1 = u.takeReady.1 := by
  cases alike with
  | same r => exact ⟨.same _, rfl⟩
  | between held ready l l' => exact ⟨.between held [] l l', rfl⟩

/-- Readers that are alike give the same answer to a call, and are alike after it. -/
theorem Alike.answer {r u : StatementReader} (alike : Alike r u) (c : Call) :
    Alike (r.answer c).1 (u.answer c).1 ∧ (r.answer c).2 = (u.answer c).2 := by
  cases c with
  | feed t =>
    have fed : r.feed t = u.feed t := alike.feed t
    simp only [StatementReader.answer, fed]
    exact ⟨.same _, trivial⟩
  | flush =>
    obtain ⟨next, failure⟩ := alike.flush
    exact ⟨next, Prod.ext failure rfl⟩
  | takeReady =>
    obtain ⟨next, taken⟩ := alike.takeReady
    exact ⟨next, Prod.ext rfl taken⟩

/-- A host that makes the same calls cannot tell readers that are alike apart. -/
theorem Alike.observe {r u : StatementReader} (alike : Alike r u) (calls : List Call) :
    r.observe calls = u.observe calls := by
  induction calls generalizing r u with
  | nil => rfl
  | cons c later ih =>
    obtain ⟨next, answer⟩ := alike.answer c
    obtain ⟨failure, taken⟩ := Prod.ext_iff.1 answer
    simp only [StatementReader.observe, failure, taken, next.phase, next.isIdle, ih next]

/-- An idle reader with no statement left to take is alike to a new one. -/
theorem alike_new {r : StatementReader} (idle : r.isIdle = true) (taken : r.ready = []) :
    Alike r new := by
  obtain ⟨phase, frames, held, ready, line⟩ := r
  obtain rfl : ready = [] := taken
  cases phase with
  | between =>
    cases frames with
    | nil =>
      cases held with
      | none => exact .between none [] line 0
      | some c => cases idle
    | cons f outer => cases idle
  | _ => cases idle

/-- An idle reader with no statement left to take answers every run of calls as a new reader
does. -/
theorem observe_eq_observe_new (r : StatementReader) (idle : r.isIdle = true)
    (taken : r.ready = []) (calls : List Call) : r.observe calls = new.observe calls :=
  (alike_new idle taken).observe calls

/-- A reader on line 3 that has read a class and handed it out. -/
def afterClass : StatementReader :=
  [.feed ⟨.keyword .classWord, 1⟩, .feed ⟨.name "C", 1⟩, .feed ⟨.mark .comma, 1⟩,
    .feed ⟨.name "B", 1⟩, .feed ⟨.mark .leftBrace, 2⟩, .feed ⟨.mark .rightBrace, 3⟩,
    .takeReady].foldl (fun r c => (r.answer c).1) new

theorem observe_afterClass :
    afterClass.isIdle = true ∧ afterClass.ready = [] ∧ afterClass.line = 3 ∧
      afterClass.observe [.flush, .feed ⟨.keyword .elseWord, 4⟩, .feed ⟨.mark .leftBrace, 4⟩,
          .flush, .takeReady] =
        new.observe [.flush, .feed ⟨.keyword .elseWord, 4⟩, .feed ⟨.mark .leftBrace, 4⟩,
          .flush, .takeReady] :=
  ⟨rfl, rfl, rfl, observe_eq_observe_new afterClass rfl rfl _⟩

end Scriptlet.StatementReader
