import Scriptlet.Proofs.Statement.Idle
import Scriptlet.Proofs.Statement.Lockstep

/-!
# Runs without faults

Whatever a host does with a new reader, the record of a `FlatReader` makes sense, if an error is
followed by a reset: the root is where it belongs, a bracket is open inside a header, and nothing is
taken from what is not there. A `StatementReader` gives the same answers (`exists_run_new`). So the
fields that an earlier construct has left behind are dead: an idle record answers as a new one does
(`run_idle`).
-/

namespace Scriptlet

namespace StatementReader

/-- The reader after a step, and what the host sees of it; an error is followed by a reset. -/
def settle : Step → StatementReader × FlatReader.Reply
  | (r, none) => (r, ⟨none, [], r.phase.state, r.isIdle⟩)
  | (_, some e) => (new, ⟨some e, [], new.phase.state, new.isIdle⟩)

/-- The reader after a call, and what the host sees of it. -/
def serve (r : StatementReader) : FlatReader.Call → StatementReader × FlatReader.Reply
  | .feed t => settle (r.feed t)
  | .flush => settle r.flush
  | .takeReady => (r.takeReady.2, ⟨none, r.takeReady.1, r.phase.state, r.isIdle⟩)
  | .reset => (new, ⟨none, [], new.phase.state, new.isIdle⟩)

/-- The reader after some calls, and what the host sees of them. -/
def serveAll : StatementReader → List FlatReader.Call → StatementReader × List FlatReader.Reply
  | r, [] => (r, [])
  | r, c :: later =>
    let (next, reply) := r.serve c
    let (last, replies) := serveAll next later
    (last, reply :: replies)

variable {r : StatementReader}

theorem isIdle_release (top : r.frames = []) (phase : r.phase = .between) :
    r.release.isIdle = true := by
  obtain ⟨p, frames, held, ready, line⟩ := r
  obtain rfl : frames = [] := top
  obtain rfl : p = .between := phase
  cases held <;> rfl

theorem isIdle_of_flush {u : StatementReader} (flushed : r.flush = accept u) :
    u.isIdle = true := by
  unfold flush at flushed
  split at flushed
  · next top phase =>
    cases flushed
    exact isIdle_release top phase
  · next kind buffer start top phase =>
    obtain ⟨v, completed, ended⟩ := exists_of_andThen flushed
    obtain rfl := eq_of_accept ended
    obtain ⟨between, inner⟩ := FlatReader.between_of_completeLine completed
    exact isIdle_release (inner top) between
  · next n start top phase =>
    cases flushed
    exact isIdle_release (by simp [emit, goto, top]) rfl
  · cases flushed

end StatementReader

namespace FlatReader

open StatementReader (phase_emit phase_hold phase_release)

variable {m : FlatReader} {r : StatementReader}

/-! ## The end of the input -/

theorem Matches.line_eq (alike : Matches m r) : m.line = r.line := by
  rw [alike.around.line, line_hold]

theorem follows_release (alike : Matches m r) (phase : r.phase = .between) :
    Follows m.closePending (StatementReader.accept r.release) := by
  have around := alike.between phase
  rw [closePending_of_around around, ← goto_of_phase ((phase_release r).trans phase)]
  refine follows_goto (p := .between) ?_ ?_ trivial
  · exact around_release around
  · exact alike.state.trans (congrArg Phase.state phase)

/-- The last line of the input and the chain held back are completed in both readers. -/
theorem follows_lastLine (alike : Matches m r) (top : r.frames = []) :
    Follows (m.lastLine >>= closePending) r.flush := by
  have ends : Follows (refuse (.unexpectedEnd m.line)) (r.refuse (.unexpectedEnd r.line)) := by
    rw [alike.line_eq]
    exact follows_refuse _
  have state := alike.state
  have shows := alike.phase
  have around := alike.around_of_busy
  unfold lastLine StatementReader.flush
  rw [top]
  generalize phase : r.phase = p at state shows around ⊢
  rw [state]
  cases p with
  | between => exact follows_release alike phase
  | line kind buffer depth start =>
    obtain ⟨defines, same, rfl, rfl⟩ := shows
    cases m.depth with
    | zero =>
      have completes := follows_completeLine (around nofun) state defines same m.line
      rw [alike.line_eq] at completes ⊢
      have follows := follows_bind completes fun _ _ read alike =>
        follows_release alike (between_of_completeLine read).1
      cases kind <;> exact follows
    | succ d => cases kind <;> exact ends
  | variableName name start =>
    obtain ⟨named, -, -, -, rfl⟩ := shows
    dsimp only [Phase.state]
    rw [named]
    cases name with
    | none => exact ends
    | some n =>
      have emitted : Follows
          (emit { m with state := .variableName, name := none } (.expr (.define n m.start)) >>=
            fun r => .ok { r with state := .between })
          (StatementReader.accept ((r.emit (.expr (.define n m.start))).goto .between)) := by
        refine follows_emitted ?_ _
        exact around nofun
      refine follows_bind (g := fun u => StatementReader.accept u.release) emitted
        fun _ u read alike => follows_release alike ?_
      exact congrArg (·.1.phase) read.symm
  | header kind => cases kind <;> exact ends
  | _ => exact ends

/-- The end of the input has the same result on readers that are alike. -/
theorem follows_flush (alike : Matches m r) : Follows m.flush r.flush := by
  have count : m.frames.length = r.frames.length + 1 := by
    rw [alike.around.frames, flatFrames_hold, length_flatFrames]
  rw [flush, count]
  cases inner : r.frames with
  | nil =>
    rw [if_neg (by simp)]
    exact follows_lastLine alike inner
  | cons f outer =>
    rw [if_pos (by simp), StatementReader.flush, inner, alike.line_eq]
    exact follows_refuse _

theorem Matches.isIdle_eq (alike : Matches m r) : m.isIdle = r.isIdle := by
  have state := alike.state
  have between := alike.between
  unfold isIdle StatementReader.isIdle
  generalize r.phase = p at state between ⊢
  rw [state]
  cases p with
  | between =>
    have frames := (between rfl).frames
    rw [flatFrames_hold] at frames
    rw [frames]
    cases inner : r.frames with
    | nil =>
      have same : r.innermostHeld = r.held := by rw [StatementReader.innermostHeld, inner]
      rw [same]
      cases r.held <;> rfl
    | cons f outer =>
      obtain ⟨g, others, shape⟩ := flatFrames_eq outer
      rw [flatFrames, shape]
      rfl
  | line kind | header kind => cases kind <;> rfl
  | _ => rfl

theorem matches_new : Matches new StatementReader.new :=
  ⟨⟨rfl, rfl, rfl, rfl, nofun⟩, nofun, rfl, trivial⟩

theorem Matches.ready_eq (alike : Matches m r) : m.ready = r.ready := by
  rw [alike.around.ready, ready_hold]

theorem Matches.takeReady (alike : Matches m r) : Matches m.takeReady.2 r.takeReady.2 := by
  obtain ⟨⟨frames, -, line, released⟩, free, state, phase⟩ := alike
  obtain ⟨p, inner, held, done, l⟩ := r
  cases inner with
  | nil => exact ⟨⟨frames, rfl, line, released⟩, free, state, by cases p <;> exact phase⟩
  | cons f outer => exact ⟨⟨frames, rfl, line, released⟩, free, state, by cases p <;> exact phase⟩

theorem flat_ne_root (kind : FrameKind) : kind.flat ≠ .root := by
  cases kind <;> nofun

theorem exists_root (pending : Option Chain) (frames : List Frame) :
    ∃ inner root, flatFrames pending frames = inner ++ [root] ∧ root.kind = .root ∧
      ∀ f ∈ inner, f.kind ≠ .root := by
  induction frames generalizing pending with
  | nil => exact ⟨[], _, rfl, rfl, by simp⟩
  | cons f outer ih =>
    obtain ⟨inner, root, whole, isRoot, others⟩ := ih f.kind.earlier
    refine ⟨_ :: inner, root, congrArg _ whole, isRoot, ?_⟩
    exact List.forall_mem_cons.2 ⟨flat_ne_root f.kind, others⟩

theorem Matches.valid (alike : Matches m r) : m.Valid := by
  have state := alike.state
  have shows := alike.phase
  constructor
  · rw [alike.around.frames]
    exact exists_root _ _
  · intro header opened unread
    rw [state] at header
    generalize r.phase = p at shows header
    cases p with
    | header kind stage start =>
      cases stage with
      | waiting =>
        obtain ⟨⟨closed, -⟩, -⟩ := shows
        rw [opened] at closed
        cases closed
      | inside depth buffer clauses =>
        obtain ⟨⟨-, -, same, positive, -⟩, -⟩ := shows
        omega
      | complete frame clauses =>
        obtain ⟨⟨read, -⟩, -⟩ := shows
        rw [unread] at read
        cases read
    | line kind => cases kind <;> simp [Phase.state, LineKind.state] at header
    | _ => simp [Phase.state] at header

/-! ## Runs -/

theorem exists_settle {result : Result} {s : StatementReader.Step} (follows : Follows result s) :
    ∃ m, settle result = .ok (m, (StatementReader.settle s).2) ∧
      Matches m (StatementReader.settle s).1 := by
  obtain ⟨r, _ | e⟩ := s
  · obtain ⟨m, rfl, alike⟩ := follows
    refine ⟨m, ?_, alike⟩
    rw [settle, alike.state, alike.isIdle_eq]
    rfl
  · obtain rfl : result = .error (.refused e) := follows
    exact ⟨new, rfl, matches_new⟩

/-- A call has the same answer on readers that are alike, and they are alike after it. -/
theorem exists_answer (alike : Matches m r) (c : Call) :
    ∃ m', m.answer c = .ok (m', (r.serve c).2) ∧ Matches m' (r.serve c).1 := by
  cases c with
  | feed t => exact exists_settle (follows_feed alike t)
  | flush => exact exists_settle (follows_flush alike)
  | takeReady =>
    refine ⟨m.takeReady.2, ?_, alike.takeReady⟩
    rw [answer, alike.state, alike.isIdle_eq, FlatReader.takeReady, alike.ready_eq]
    rfl
  | reset => exact ⟨new, rfl, matches_new⟩

/-- So have some calls, one after another. -/
theorem exists_run (alike : Matches m r) (calls : List Call) :
    ∃ m', m.run calls = .ok (m', (r.serveAll calls).2) ∧ Matches m' (r.serveAll calls).1 := by
  induction calls generalizing m r with
  | nil => exact ⟨m, rfl, alike⟩
  | cons c later ih =>
    obtain ⟨next, answered, alike⟩ := exists_answer alike c
    obtain ⟨last, ran, alike⟩ := ih alike
    refine ⟨last, ?_, alike⟩
    simp only [run, answered, ok_bind, ran]
    rfl

theorem Matches.positive {kind : HeaderKind} {depth : Int} {buffer : List PlacedToken}
    {clauses : List (List PlacedToken)} {start : Line} (alike : Matches m r)
    (phase : r.phase = .header kind (.inside depth buffer clauses) start) : 1 ≤ depth := by
  have shows := alike.phase
  rw [phase] at shows
  exact shows.1.2.2.2.1

theorem Matches.isIdle_of_flush {m' : FlatReader} (alike : Matches m r)
    (flushed : m.flush = .ok m') : m'.isIdle = true := by
  have follows := follows_flush alike
  rw [flushed] at follows
  cases ended : r.flush with
  | mk u failure =>
    rw [ended] at follows
    cases failure with
    | none =>
      obtain ⟨_, ⟨⟩, alike'⟩ := follows
      rw [alike'.isIdle_eq]
      exact StatementReader.isIdle_of_flush ended
    | some e => cases follows

/-- Whatever calls are made on a new reader, no fault occurs, the record makes sense, and whenever
the end of the input is accepted, the reader is idle after it. A host sees what it sees of the other
reader, in which a bracket is open inside a header, too. -/
theorem exists_run_new (calls : List Call) :
    ∃ m, new.run calls = .ok (m, (StatementReader.new.serveAll calls).2) ∧ m.Valid ∧
      (∀ m', m.flush = .ok m' → m'.isIdle = true) ∧
      ∀ kind depth buffer clauses start, (StatementReader.new.serveAll calls).1.phase =
        .header kind (.inside depth buffer clauses) start → 1 ≤ depth := by
  obtain ⟨m, ran, alike⟩ := exists_run matches_new calls
  exact ⟨m, ran, alike.valid, fun _ => alike.isIdle_of_flush, fun _ _ _ _ _ => alike.positive⟩

/-- A brace that is refused, a reset, and then a block and a definition without an end. -/
def refusedThenDefined : List Call :=
  [.feed ⟨.mark .rightBrace, 1⟩, .reset, .feed ⟨.mark .leftBrace, 1⟩, .feed ⟨.mark .rightBrace, 1⟩,
    .takeReady, .feed ⟨.keyword .varWord, 2⟩, .feed ⟨.name "x", 2⟩]

/-- The theorem at these calls, after which the end of the input is accepted. -/
theorem exists_run_refusedThenDefined : ∃ m m', new.run refusedThenDefined =
    .ok (m, (StatementReader.new.serveAll refusedThenDefined).2) ∧ m.isIdle = false ∧
      m.flush = .ok m' ∧ m'.isIdle = true := by
  obtain ⟨m, ran, -, idle, -⟩ := exists_run_new refusedThenDefined
  have reached : m = match new.run refusedThenDefined with
      | .ok (m, _) => m
      | .error _ => new := by
    rw [ran]
  obtain ⟨m', flushed⟩ : ∃ m', m.flush = .ok m' := by
    rw [reached]
    exact ⟨_, rfl⟩
  exact ⟨m, m', ran, by rw [reached]; rfl, flushed, idle m' flushed⟩

end FlatReader

/-! ## Idle records -/

namespace StatementReader.Alike

variable {r u : StatementReader}

theorem settle {x y : Step} (next : Alike x.1 y.1) (failure : x.2 = y.2) :
    Alike (StatementReader.settle x).1 (StatementReader.settle y).1 ∧
      (StatementReader.settle x).2 = (StatementReader.settle y).2 := by
  obtain ⟨r, e⟩ := x
  obtain ⟨u, e'⟩ := y
  obtain rfl : e = e' := failure
  cases e with
  | none =>
    have phase : r.phase = u.phase := next.phase
    have isIdle : r.isIdle = u.isIdle := next.isIdle
    exact ⟨next, by simp only [StatementReader.settle, phase, isIdle]⟩
  | some e => exact ⟨.same _, rfl⟩

theorem serve (alike : Alike r u) (c : FlatReader.Call) :
    Alike (r.serve c).1 (u.serve c).1 ∧ (r.serve c).2 = (u.serve c).2 := by
  cases c with
  | feed t =>
    simp only [StatementReader.serve, alike.feed t]
    exact ⟨.same _, trivial⟩
  | flush => exact settle alike.flush.1 alike.flush.2
  | takeReady =>
    obtain ⟨next, taken⟩ := alike.takeReady
    refine ⟨next, ?_⟩
    simp only [StatementReader.serve, alike.phase, alike.isIdle, taken]
  | reset => exact ⟨.same _, rfl⟩

/-- Readers that are alike serve some calls with the same replies. -/
theorem serveAll (alike : Alike r u) (calls : List FlatReader.Call) :
    (r.serveAll calls).2 = (u.serveAll calls).2 := by
  induction calls generalizing r u with
  | nil => rfl
  | cons c later ih =>
    obtain ⟨next, reply⟩ := alike.serve c
    simp only [StatementReader.serveAll, reply, ih next]

end StatementReader.Alike

namespace FlatReader

/-- Whatever calls have been made on a new reader: if it is idle after them and no statement is left
to take, it replies to every later run of calls as a new reader does, whatever the fields hold that
those calls have left behind. -/
theorem run_idle {calls : List Call} {m : FlatReader} {replies : List Reply}
    (ran : new.run calls = .ok (m, replies)) (idle : m.isIdle = true) (taken : m.ready = [])
    (later : List Call) :
    ∃ m' u' same, m.run later = .ok (m', same) ∧ new.run later = .ok (u', same) := by
  obtain ⟨reached, goes, alike⟩ := exists_run matches_new calls
  obtain ⟨rfl, -⟩ := Prod.mk.inj (Except.ok.inj (ran.symm.trans goes))
  have fresh := StatementReader.alike_new (alike.isIdle_eq.symm.trans idle)
    (alike.ready_eq.symm.trans taken)
  obtain ⟨m', ranOn, -⟩ := exists_run alike later
  obtain ⟨u', ranNew, -⟩ := exists_run matches_new later
  exact ⟨m', u', _, ranOn, by rw [ranNew, fresh.serveAll later]⟩

/-- A class that has been handed out leaves its line and the comma after its base behind. -/
example :
    (match new.run [.feed ⟨.keyword .classWord, 1⟩, .feed ⟨.name "C", 1⟩, .feed ⟨.mark .comma, 1⟩,
        .feed ⟨.name "B", 1⟩, .feed ⟨.mark .leftBrace, 2⟩, .feed ⟨.mark .rightBrace, 3⟩,
        .takeReady] with
      | .ok (m, _) => (m.isIdle, m.ready.length, m.start, m.line, m.needsComma)
      | .error _ => (false, 0, 0, 0, false)) = (true, 0, 1, 3, true) := by
  rfl

end FlatReader

end Scriptlet
