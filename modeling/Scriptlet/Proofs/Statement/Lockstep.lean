import Scriptlet.Proofs.Statement.Began
import Scriptlet.Proofs.Statement.FlatReader

/-!
# Two readers in lockstep

A `FlatReader` and a `StatementReader` that read the same tokens stay alike (`Matches`): the record
of the one makes sense and says what the phase of the other says. A token that one of them refuses
is refused by the other with the same error, and no fault occurs (`follows_feed`).
-/

namespace Scriptlet

/-! ## What is alike -/

/-- The kind of a frame, without the chain that it continues. -/
def FrameKind.flat : FrameKind → FlatKind
  | .block => .block
  | .function name parameters => .function name parameters
  | .classDef name bases => .classDef name bases
  | .branch test earlier => .branch test earlier.isSome
  | .loop init test iterate => .loop init test iterate
  | .foreach name source => .foreach name source

/-- The chain that a frame continues. -/
def FrameKind.earlier : FrameKind → Option Chain
  | .branch _ earlier => earlier
  | _ => none

/-- The chain that the frame of a header continues. -/
def HeaderKind.earlier : HeaderKind → Option Chain
  | .branch earlier => earlier
  | _ => none

/-- The chain that is continued by what is read in a phase. -/
def Phase.earlier : Phase → Option Chain
  | .afterElse chain _ => some chain
  | .header kind _ _ => kind.earlier
  | _ => none

/-- The state in a line. -/
def LineKind.state : LineKind → ReaderState
  | .expr | .initializer _ => .line
  | .ret => .returnLine

/-- The variable that a line defines. -/
def LineKind.defining : LineKind → Option String
  | .initializer name => some name
  | _ => none

/-- The state in a header. -/
def HeaderKind.state : HeaderKind → ReaderState
  | .branch _ => .branchHeader
  | .loop _ => .loopHeader
  | .foreach => .foreachHeader

/-- The state in a phase. -/
def Phase.state : Phase → ReaderState
  | .between => .between
  | .line kind _ _ _ => kind.state
  | .functionName _ _ => .functionName
  | .parameters _ _ _ _ _ => .parameters
  | .variableName _ _ => .variableName
  | .className _ => .className
  | .bases _ _ _ _ => .bases
  | .afterElse _ _ => .afterElse
  | .header kind _ _ => kind.state
  | .importPath _ => .importPath

/-- Open braces and the root, where a chain is pending in the innermost of them and each frame that
continues a chain leaves it in the frame around it. -/
def flatFrames (pending : Option Chain) : List Frame → List FlatFrame
  | [] => [⟨.root, [], pending, 0⟩]
  | f :: outer => ⟨f.kind.flat, f.statements, pending, f.line⟩ :: flatFrames f.kind.earlier outer

/-- Whether no chain is held back. -/
def StatementReader.Released (r : StatementReader) : Prop :=
  r.held = none ∧ ∀ f ∈ r.frames, f.held = none

namespace FlatReader

open StatementReader (phase_emit phase_hold phase_release innermostHeld_hold hold_hold hold_of_free)

/-- What a record says of the stage of a header. -/
def ShowsStage (m : FlatReader) (kind : HeaderKind) : HeaderStage → Prop
  | .waiting => m.opened = false ∧ m.header = none ∧ m.buffer = [] ∧ m.clauses = []
  | .inside depth buffer clauses =>
    m.opened = true ∧ m.header = none ∧ m.depth = depth ∧ 1 ≤ depth ∧ m.buffer = buffer.reverse ∧
      m.clauses = clauses
  | .complete frame _ => m.header = some frame.flat ∧ frame.earlier = kind.earlier

/-- What a record says of a phase, its state apart. -/
def ShowsPhase (m : FlatReader) : Phase → Prop
  | .between => True
  | .line kind buffer depth start =>
    m.defining = kind.defining ∧ m.buffer = buffer.reverse ∧ m.depth = depth ∧ m.start = start
  | .functionName name start =>
    m.name = name ∧ m.parameters = [] ∧ m.needsComma = false ∧ m.opened = false ∧ m.start = start
  | .parameters name names needsComma closed start =>
    m.name = some name ∧ m.parameters = names ∧ m.needsComma = needsComma ∧ m.opened = closed ∧
      m.start = start
  | .variableName name start =>
    m.name = name ∧ m.buffer = [] ∧ m.depth = 0 ∧ m.defining = none ∧ m.start = start
  | .className start => m.bases = [] ∧ m.start = start
  | .bases name names needsComma start =>
    m.name = some name ∧ m.bases = names ∧ m.needsComma = needsComma ∧ m.start = start
  | .afterElse _ start => m.start = start
  | .header kind stage start =>
    m.ShowsStage kind stage ∧ m.construct = (StatementReader.HeaderKind.word kind).text ∧
      m.start = start ∧ (kind.state = .branchHeader → m.continues = kind.earlier.isSome)
  | .importPath start => m.start = start

/-- What a record says of the frames around a construct, where nothing is held back and a chain
is pending in the innermost frame. -/
structure Around (frames : List FlatFrame) (ready : List Stmt) (line : Line) (r : StatementReader)
    (pending : Option Chain) : Prop where
  frames : frames = flatFrames pending r.frames
  ready : ready = r.ready
  line : line = r.line
  released : r.Released

/-- Whether two readers are alike. A chain is held back only between statements, in the innermost
frame. -/
structure Matches (m : FlatReader) (r : StatementReader) : Prop where
  around : Around m.frames m.ready m.line (r.hold none) (r.innermostHeld.or r.phase.earlier)
  free : r.phase ≠ .between → r.innermostHeld = none
  state : m.state = r.phase.state
  phase : m.ShowsPhase r.phase

/-- Whether a call has the same result on two readers: both refuse it with the same error, or both
go on and are alike. -/
def Follows (result : Result) : StatementReader.Step → Prop
  | (r, none) => ∃ m, result = .ok m ∧ Matches m r
  | (_, some e) => result = .error (.refused e)

variable {m : FlatReader} {r : StatementReader} {t : PlacedToken} {pending : Option Chain}
  {frames : List FlatFrame} {ready : List Stmt} {line start : Line}

/-! ## Frames -/

theorem flatFrames_eq (frames : List Frame) : ∃ (f : FlatFrame) (outer : List FlatFrame),
    ∀ pending, flatFrames pending frames = { f with pending := pending } :: outer := by
  cases frames with
  | nil => exact ⟨⟨.root, [], none, 0⟩, [], fun _ => rfl⟩
  | cons f outer => exact ⟨⟨f.kind.flat, f.statements, none, f.line⟩, _, fun _ => rfl⟩

theorem length_flatFrames (pending : Option Chain) (frames : List Frame) :
    (flatFrames pending frames).length = frames.length + 1 := by
  induction frames generalizing pending with
  | nil => rfl
  | cons f outer ih => simp [flatFrames, ih]

@[simp] theorem flatFrames_hold (chain : Option Chain) :
    flatFrames pending (r.hold chain).frames = flatFrames pending r.frames := by
  unfold StatementReader.hold
  split
  · next same => rw [same]
  · next same => rw [same]; rfl

@[simp] theorem ready_hold (chain : Option Chain) : (r.hold chain).ready = r.ready := by
  unfold StatementReader.hold
  split <;> rfl

@[simp] theorem line_hold (chain : Option Chain) : (r.hold chain).line = r.line := by
  unfold StatementReader.hold
  split <;> rfl

theorem innermostHeld_of_released (released : r.Released) : r.innermostHeld = none := by
  unfold StatementReader.innermostHeld
  split
  · exact released.1
  · next same => exact released.2 _ (by simp [same])

theorem hold_of_released (released : r.Released) : r.hold none = r :=
  hold_of_free (innermostHeld_of_released released)

theorem released_emit (released : r.Released) (s : Stmt) : (r.emit s).Released := by
  unfold StatementReader.emit
  split
  · exact released
  · next f outer same =>
    have all := released.2
    rw [same] at all
    exact ⟨released.1, by simpa using all⟩

/-- A statement goes to the same place in both readers. -/
theorem emit_eq (same : m.frames = flatFrames pending r.frames) (same' : m.ready = r.ready)
    (s : Stmt) : m.emit s = .ok { m with
      frames := flatFrames pending (r.emit s).frames, ready := (r.emit s).ready } := by
  rw [emit, StatementReader.emit, FlatReader.top, same, length_flatFrames]
  cases frames : r.frames with
  | nil =>
    rw [frames] at same
    simp only [← same, ← same']
    rfl
  | cons f outer =>
    rw [frames] at same
    simp only [setTop, same, ← same', List.length_cons]
    rfl

/-- A chain is released in both readers. -/
theorem closePending_eq (same : m.frames = flatFrames r.innermostHeld r.frames)
    (same' : m.ready = r.ready) : m.closePending = .ok { m with
      frames := flatFrames none r.release.frames, ready := r.release.ready } := by
  obtain ⟨f, outer, shape⟩ := flatFrames_eq r.frames
  have top : m.top = .ok { f with pending := r.innermostHeld } := by
    rw [FlatReader.top, same, shape]
  rw [closePending, top, StatementReader.release]
  simp only [bind, Except.bind]
  cases held : r.innermostHeld with
  | none =>
    rw [held] at same
    simp only [← same, ← same']
    rfl
  | some c =>
    have frames : (m.setTop { f with pending := none }).frames =
        flatFrames none (r.hold none).frames := by
      rw [flatFrames_hold, shape, setTop, same, shape]
      rfl
    have ready : (m.setTop { f with pending := none }).ready = (r.hold none).ready := by
      rw [ready_hold]
      exact same'
    exact emit_eq frames ready _

theorem closePending_of_around
    (around : Around m.frames m.ready m.line (r.hold none) r.innermostHeld) :
    m.closePending = .ok { m with
      frames := flatFrames none r.release.frames, ready := r.release.ready } :=
  closePending_eq (around.frames.trans (flatFrames_hold none))
    (around.ready.trans (ready_hold none))

theorem Around.emit (around : Around frames ready line r pending) (s : Stmt) :
    Around (flatFrames pending (r.emit s).frames) (r.emit s).ready line (r.emit s) pending where
  frames := rfl
  ready := rfl
  line := by
    rw [around.line, StatementReader.emit]
    cases r.frames <;> rfl
  released := released_emit around.released s

theorem around_release (around : Around frames ready line (r.hold none) r.innermostHeld) :
    Around (flatFrames none r.release.frames) r.release.ready line r.release none := by
  unfold StatementReader.release
  cases held : r.innermostHeld with
  | none =>
    obtain ⟨-, -, same, released⟩ := around
    rw [hold_of_free held] at same released
    exact ⟨rfl, rfl, same, released⟩
  | some c =>
    have free : Around (flatFrames none (r.hold none).frames) (r.hold none).ready line (r.hold none)
      none := ⟨rfl, rfl, around.line, around.released⟩
    exact free.emit _

theorem goto_of_phase {p : Phase} (phase : r.phase = p) : r.goto p = r := by
  subst phase
  rfl

/-- Where nothing is held back, the readers are alike in every phase that the record shows. -/
theorem matches_goto {p : Phase} (around : Around m.frames m.ready m.line r p.earlier)
    (state : m.state = p.state) (phase : m.ShowsPhase p) : Matches m (r.goto p) := by
  have held : (r.goto p).innermostHeld = none := innermostHeld_of_released around.released
  have same : (r.goto p).hold none = r.goto p := hold_of_released around.released
  refine ⟨?_, fun _ => held, state, phase⟩
  rw [held, same]
  exact ⟨around.frames, around.ready, around.line, around.released⟩

theorem follows_accept (alike : Matches m r) : Follows (.ok m) (StatementReader.accept r) :=
  ⟨m, rfl, alike⟩

theorem follows_goto {p : Phase} (around : Around m.frames m.ready m.line r p.earlier)
    (state : m.state = p.state) (phase : m.ShowsPhase p) :
    Follows (.ok m) (StatementReader.accept (r.goto p)) :=
  follows_accept (matches_goto around state phase)

theorem follows_bind {x : Result} {s : StatementReader.Step} {f : FlatReader → Result}
    {g : StatementReader → StatementReader.Step} (first : Follows x s)
    (next : ∀ m r, s = StatementReader.accept r → Matches m r → Follows (f m) (g r)) :
    Follows (x >>= f) (StatementReader.andThen s g) := by
  obtain ⟨r, _ | e⟩ := s
  · obtain ⟨m, rfl, alike⟩ := first
    exact next m r rfl alike
  · obtain rfl : x = .error (.refused e) := first
    rfl

theorem follows_openFrame (kind : FrameKind)
    (around : Around m.frames m.ready m.line r kind.earlier) (same : m.start = start) :
    Follows (.ok (m.openFrame kind.flat)) (StatementReader.accept (r.openFrame kind start)) := by
  subst same
  have released : (r.openFrame kind m.start).Released :=
    ⟨around.released.1, List.forall_mem_cons.2 ⟨rfl, around.released.2⟩⟩
  have inside : Around (m.openFrame kind.flat).frames m.ready m.line (r.openFrame kind m.start)
      none := by
    refine ⟨?_, around.ready, around.line, released⟩
    rw [openFrame, around.frames]
    rfl
  exact follows_goto (p := .between) inside rfl trivial

/-- After a statement the readers are between statements. -/
theorem follows_emit (around : Around m.frames m.ready m.line r none) (s : Stmt)
    (state : m.state = .between) :
    Follows (m.emit s) (StatementReader.accept ((r.emit s).goto .between)) := by
  rw [emit_eq around.frames around.ready]
  exact follows_goto (around.emit s) state trivial

theorem follows_emitted (around : Around m.frames m.ready m.line r none) (s : Stmt) :
    Follows (m.emit s >>= fun m => .ok { m with state := .between })
      (StatementReader.accept ((r.emit s).goto .between)) := by
  rw [emit_eq around.frames around.ready]
  exact follows_goto (around.emit s) rfl trivial

theorem release_hold (released : r.Released) (chain : Chain) :
    (r.hold (some chain)).release = r.emit (.choice chain.branches chain.line) := by
  rw [StatementReader.release, innermostHeld_hold, hold_hold, hold_of_released released]

/-- The chain of a branch goes on in the frame around it. -/
theorem follows_chain {f : FlatFrame} {outer : List FlatFrame}
    (around : Around m.frames m.ready m.line r pending)
    (shape : ∀ pending, flatFrames pending r.frames = { f with pending := pending } :: outer)
    (state : m.state = .between) (phase : r.phase = .between) (chain : Chain) (ends : Bool) :
    Follows (if ends then (m.setTop { f with pending := some chain }).closePending
        else .ok (m.setTop { f with pending := some chain }))
      (StatementReader.accept
        (if ends then r.emit (.choice chain.branches chain.line) else r.hold (some chain))) := by
  have held : (r.hold (some chain)).innermostHeld = some chain := innermostHeld_hold r _
  have frames : (m.setTop { f with pending := some chain }).frames =
      flatFrames (r.hold (some chain)).innermostHeld (r.hold (some chain)).frames := by
    rw [held, flatFrames_hold, shape, setTop, around.frames, shape]
    rfl
  have ready : (m.setTop { f with pending := some chain }).ready = (r.hold (some chain)).ready := by
    rw [ready_hold]
    exact around.ready
  cases ends with
  | true =>
    have free : Around (flatFrames none r.frames) m.ready m.line r none :=
      ⟨rfl, around.ready, around.line, around.released⟩
    have closed := closePending_eq frames ready
    rw [release_hold around.released] at closed
    rw [if_pos rfl, if_pos rfl, closed, ← goto_of_phase ((phase_emit _ _).trans phase)]
    exact follows_goto (p := .between) (free.emit _) state trivial
  | false =>
    rw [if_neg (by decide), if_neg (by decide)]
    refine follows_accept ⟨?_, ?_, ?_, ?_⟩
    · rw [hold_hold, hold_of_released around.released, phase_hold, phase, held]
      rw [held, flatFrames_hold] at frames
      exact ⟨frames, around.ready, around.line, around.released⟩
    · rw [phase_hold]
      exact fun other => absurd phase other
    · rw [phase_hold, phase]
      exact state
    · rw [phase_hold, phase]
      trivial

/-- What a closed brace has completed is the same in both readers. -/
theorem follows_closed {f : Frame} (around : Around m.frames m.ready m.line r f.kind.earlier)
    (state : m.state = .between) (phase : r.phase = .between) (held : Option Chain) :
    Follows (m.closed ⟨f.kind.flat, f.statements, held, f.line⟩)
      (StatementReader.accept (r.closed f)) := by
  obtain ⟨kind, statements, held', line⟩ := f
  have emits (s : Stmt) (same : kind.earlier = none) :
      Follows (m.emit s) (StatementReader.accept (r.emit s)) := by
    have free : Around m.frames m.ready m.line r none := by
      rw [← same]
      exact around
    have follows := follows_emit free s state
    rwa [goto_of_phase (by rw [phase_emit, phase])] at follows
  cases kind with
  | branch test earlier =>
    obtain ⟨parent, outer, shape⟩ := flatFrames_eq r.frames
    have top : m.top = .ok { parent with pending := earlier } := by
      rw [FlatReader.top, around.frames, shape]
      rfl
    have follows (chain : Chain) := follows_chain around shape state phase chain test.isNone
    simp only [closed, StatementReader.closed, FrameKind.flat, top]
    cases earlier with
    | none => exact follows _
    | some c => exact follows _
  | _ => exact emits _ rfl

theorem length_release : r.release.frames.length = r.frames.length := by
  unfold StatementReader.release StatementReader.emit StatementReader.hold
  cases r.innermostHeld with
  | none => rfl
  | some c => cases r.frames <;> rfl

/-- A brace is closed in both readers, or there is none. -/
theorem follows_closeFrame (around : Around m.frames m.ready m.line (r.hold none) r.innermostHeld)
    (line : Line) : Follows (m.closeFrame line) (r.closeFrame line) := by
  have count : m.frames.length = r.release.frames.length + 1 := by
    rw [around.frames, flatFrames_hold, length_flatFrames, length_release]
  have released := around_release around
  unfold StatementReader.closeFrame
  cases inner : r.release.frames with
  | nil =>
    rw [closeFrame, if_pos (by rw [count, inner]; rfl)]
    rfl
  | cons f outer =>
    have more : m.frames.length ≠ 1 := by simp [count, inner]
    have left : StatementReader.Released { r.release with phase := .between, frames := outer } := by
      refine ⟨released.released.1, fun g member => released.released.2 g ?_⟩
      rw [inner]
      exact List.mem_cons_of_mem f member
    have popped : Around (flatFrames f.kind.earlier outer) r.release.ready m.line
        { r.release with phase := .between, frames := outer } f.kind.earlier :=
      ⟨rfl, rfl, released.line, left⟩
    rw [closeFrame, if_neg more, closePending_of_around around]
    simp only [ok_bind, inner, flatFrames]
    exact follows_closed popped rfl rfl none

/-! ## Lines -/

theorem follows_refuse (e : SyntaxError) : Follows (refuse e) (r.refuse e) := rfl

/-- A line is completed in both readers. -/
theorem follows_completeLine {kind : LineKind} {buffer : List PlacedToken}
    (around : Around m.frames m.ready m.line r none) (state : m.state = kind.state)
    (defines : m.defining = kind.defining) (same : m.buffer = buffer.reverse) (line : Line) :
    Follows (m.completeLine line) (r.completeLine kind buffer m.start line) := by
  unfold completeLine StatementReader.completeLine
  rw [same]
  cases StatementReader.expr? buffer.reverse with
  | error e => rfl
  | ok value =>
    simp only [Except.mapError, ok_bind, state, defines]
    cases kind with
    | ret =>
      refine follows_emit ?_ _ rfl
      exact around
    | initializer name =>
      cases value with
      | none => rfl
      | some e =>
        refine follows_emit ?_ _ rfl
        exact around
    | expr =>
      cases value with
      | none => exact follows_goto (p := .between) around rfl trivial
      | some e =>
        refine follows_emit ?_ _ rfl
        exact around

/-- A line that is completed ends a statement. -/
theorem between_of_completeLine {kind : LineKind} {buffer : List PlacedToken} {u : StatementReader}
    (read : r.completeLine kind buffer start line = StatementReader.accept u) :
    u.phase = .between ∧ (r.frames = [] → u.frames = []) := by
  have top (s : Stmt) (top : r.frames = []) : (r.emit s).frames = [] := by
    rw [StatementReader.emit, top]
  unfold StatementReader.completeLine at read
  split at read
  all_goals cases read
  · exact ⟨rfl, top _⟩
  · exact ⟨rfl, top _⟩
  · exact ⟨rfl, top _⟩
  · exact ⟨rfl, id⟩

theorem Matches.between (alike : Matches m r) (phase : r.phase = .between) :
    Around m.frames m.ready m.line (r.hold none) r.innermostHeld := by
  have around := alike.around
  have none : Phase.between.earlier = none := rfl
  rwa [phase, none, Option.or_none] at around

/-- A token of a line is read in both readers. -/
theorem follows_lineToken {kind : LineKind} {buffer : List PlacedToken} {depth : Nat}
    (around : Around m.frames m.ready m.line r none) (state : m.state = kind.state)
    (phase : m.ShowsPhase (.line kind buffer depth start)) (t : PlacedToken) :
    Follows (m.lineToken t) (r.lineToken kind buffer depth start t) := by
  obtain ⟨defines, same, rfl, rfl⟩ := phase
  have collects (d : Nat) : Follows (.ok { m with depth := d, buffer := m.buffer ++ [t] })
      (StatementReader.accept (r.goto (.line kind (t :: buffer) d m.start))) := by
    refine follows_goto ?_ ?_ ?_
    · exact around
    · exact state
    · exact ⟨defines, by simp [same], rfl, rfl⟩
  have completes : Follows (m.completeLine t.line) (r.completeLine kind buffer m.start t.line) :=
    follows_completeLine around state defines same t.line
  obtain ⟨token, line⟩ := t
  unfold lineToken StatementReader.lineToken collect
  cases token with
  | mark k =>
    cases k with
    | leftParen | leftBracket | comma | dot => exact collects _
    | leftBrace => rfl
    | rightParen | rightBracket =>
      dsimp only
      split
      · rfl
      · exact collects _
    | semicolon =>
      dsimp only
      split
      · exact completes
      · rfl
    | rightBrace =>
      dsimp only
      split
      · refine follows_bind completes fun m u read alike => ?_
        exact follows_closeFrame (alike.between (between_of_completeLine read).1) line
      · rfl
  | _ => exact collects _

/-! ## Definitions -/

section

variable (around : Around m.frames m.ready m.line r none) (t : PlacedToken)

include around

theorem follows_functionNameToken {name : Option String} (state : m.state = .functionName)
    (phase : m.ShowsPhase (.functionName name start)) :
    Follows (m.functionNameToken t) (r.functionNameToken name start t) := by
  obtain ⟨named, parameters, comma, opened, begun⟩ := phase
  obtain ⟨token, line⟩ := t
  unfold functionNameToken StatementReader.functionNameToken
  rw [named]
  cases name with
  | none =>
    cases token with
    | name n =>
      refine follows_goto ?_ state ⟨rfl, parameters, comma, opened, begun⟩
      exact around
    | mark k => cases k <;> rfl
    | _ => rfl
  | some n =>
    cases token with
    | mark k =>
      cases k with
      | leftParen =>
        refine follows_goto ?_ rfl ⟨rfl, parameters, comma, opened, begun⟩
        exact around
      | _ => rfl
    | _ => rfl

theorem follows_parameterToken {name : String} {names : List String} {needsComma closed : Bool}
    (state : m.state = .parameters)
    (phase : m.ShowsPhase (.parameters name names needsComma closed start)) :
    Follows (m.parameterToken t) (r.parameterToken name names needsComma closed start t) := by
  obtain ⟨named, rfl, rfl, rfl, begun⟩ := phase
  obtain ⟨token, line⟩ := t
  unfold parameterToken StatementReader.parameterToken
  cases opened : m.opened with
  | true =>
    cases token with
    | mark k =>
      cases k with
      | leftBrace =>
        rw [named]
        exact follows_openFrame (.function name m.parameters) around begun
      | _ => rfl
    | _ => rfl
  | false =>
    rw [if_neg Bool.false_ne_true]
    cases token with
    | name n =>
      dsimp only
      split
      · rfl
      · refine follows_goto ?_ state ⟨named, rfl, rfl, rfl, begun⟩
        exact around
    | mark k =>
      cases k with
      | comma =>
        dsimp only
        split
        · refine follows_goto ?_ state ⟨named, rfl, rfl, rfl, begun⟩
          exact around
        · rfl
      | rightParen =>
        dsimp only
        split
        · refine follows_goto ?_ state ⟨named, rfl, rfl, rfl, begun⟩
          exact around
        · rfl
      | _ => rfl
    | _ => rfl

theorem follows_classNameToken (phase : m.ShowsPhase (.className start)) :
    Follows (m.classNameToken t) (r.classNameToken start t) := by
  obtain ⟨bases, begun⟩ := phase
  obtain ⟨token, line⟩ := t
  cases token with
  | name n =>
    refine follows_goto ?_ rfl ⟨rfl, bases, rfl, begun⟩
    exact around
  | _ => rfl

theorem follows_baseToken {name : String} {names : List String} {needsComma : Bool}
    (state : m.state = .bases) (phase : m.ShowsPhase (.bases name names needsComma start)) :
    Follows (m.baseToken t) (r.baseToken name names needsComma start t) := by
  obtain ⟨named, rfl, rfl, begun⟩ := phase
  obtain ⟨token, line⟩ := t
  unfold baseToken StatementReader.baseToken
  cases comma : m.needsComma with
  | true =>
    cases token with
    | mark k =>
      cases k with
      | comma =>
        refine follows_goto ?_ state ⟨named, rfl, rfl, begun⟩
        exact around
      | leftBrace =>
        rw [named]
        exact follows_openFrame (.classDef name m.bases) around begun
      | _ => rfl
    | _ => rfl
  | false =>
    cases token with
    | name n =>
      refine follows_goto ?_ state ⟨named, rfl, rfl, begun⟩
      exact around
    | mark k => cases k <;> rfl
    | _ => rfl

theorem follows_variableToken {name : Option String} (state : m.state = .variableName)
    (phase : m.ShowsPhase (.variableName name start)) :
    Follows (m.variableToken t) (r.variableToken name start t) := by
  obtain ⟨named, empty, depth, defines, begun⟩ := phase
  have operand (n : String) : Follows
      (lineToken
        { m with
          name := none
          state := .line
          buffer := m.buffer ++ [⟨.keyword .varWord, m.start⟩, ⟨.name n, m.start⟩] } t)
      (r.lineToken .expr [⟨.name n, start⟩, ⟨.keyword .varWord, start⟩] 0 start t) := by
    subst begun
    have pushed : m.buffer ++ [⟨.keyword .varWord, m.start⟩, ⟨.name n, m.start⟩] =
        List.reverse [⟨.name n, m.start⟩, ⟨.keyword .varWord, m.start⟩] := by
      rw [empty]
      rfl
    refine follows_lineToken ?_ ?_ ?_ t
    · exact around
    · rfl
    · exact ⟨defines, pushed, depth, rfl⟩
  obtain ⟨token, line⟩ := t
  unfold variableToken StatementReader.variableToken
  rw [named]
  cases name with
  | none =>
    cases token with
    | name n =>
      refine follows_goto ?_ state ⟨rfl, empty, depth, defines, begun⟩
      exact around
    | mark k => cases k <;> rfl
    | symbol s => cases s <;> rfl
    | _ => rfl
  | some n =>
    cases token with
    | mark k =>
      cases k with
      | semicolon =>
        subst begun
        refine follows_emitted ?_ _
        exact around
      | _ => exact operand n
    | symbol s =>
      cases s with
      | assign =>
        refine follows_goto ?_ rfl ⟨rfl, empty, depth, begun⟩
        exact around
      | _ => exact operand n
    | _ => exact operand n

theorem follows_importToken (phase : m.ShowsPhase (.importPath start)) :
    Follows (m.importToken t) (r.importToken start t) := by
  obtain rfl : m.start = start := phase
  obtain ⟨token, line⟩ := t
  cases token with
  | string path =>
    refine follows_emit ?_ _ rfl
    exact around
  | _ => rfl

end

/-! ## Headers -/

/-- Both readers make the same frame of a header. -/
theorem headerKind_eq {kind : HeaderKind} {clauses : List (List PlacedToken)}
    (state : m.state = kind.state) (same : m.clauses = clauses)
    (word : m.construct = (StatementReader.HeaderKind.word kind).text)
    (continues : kind.state = .branchHeader → m.continues = kind.earlier.isSome) (line : Line) :
    m.headerKind line = (StatementReader.headerFrame kind clauses line).map FrameKind.flat := by
  unfold headerKind StatementReader.headerFrame
  rw [state, word, same]
  cases kind with
  | branch earlier =>
    rw [continues rfl]
    rcases clauses with _ | ⟨test, _ | ⟨other, rest⟩⟩
    · rfl
    · dsimp only [HeaderKind.state]
      cases Expr.ofTokens test <;> rfl
    · rfl
  | loop word =>
    rcases clauses with _ | ⟨a, _ | ⟨b, _ | ⟨c, _ | ⟨d, rest⟩⟩⟩⟩
    · rfl
    · dsimp only [HeaderKind.state]
      cases StatementReader.expr? a <;> rfl
    · dsimp only [HeaderKind.state]
      cases StatementReader.expr? a with
      | error e => rfl
      | ok test => cases StatementReader.expr? b <;> rfl
    · dsimp only [HeaderKind.state]
      cases StatementReader.expr? a with
      | error e => rfl
      | ok init =>
        cases StatementReader.expr? b with
        | error e => rfl
        | ok test => cases StatementReader.expr? c <;> rfl
    · rfl
  | foreach =>
    rcases clauses with _ | ⟨names, _ | ⟨source, _ | ⟨other, rest⟩⟩⟩
    · rfl
    · rfl
    · dsimp only [HeaderKind.state]
      split
      · cases Expr.ofTokens source <;> rfl
      · cases Expr.ofTokens source <;> rfl
      · next t others bare declared =>
        cases Expr.ofTokens source <;> simp_all [Except.map] <;> rfl
      · rfl
    · rfl

theorem earlier_of_headerFrame {kind : HeaderKind} {clauses : List (List PlacedToken)}
    {frame : FrameKind} (made : StatementReader.headerFrame kind clauses line = .ok frame) :
    frame.earlier = kind.earlier := by
  unfold StatementReader.headerFrame at made
  split at made
  · obtain ⟨test, -, same⟩ := bind_eq_ok_iff.1 made
    cases same
    rfl
  · cases made
  · obtain ⟨test, -, same⟩ := bind_eq_ok_iff.1 made
    cases same
    rfl
  · obtain ⟨test, -, made⟩ := bind_eq_ok_iff.1 made
    obtain ⟨iterate, -, same⟩ := bind_eq_ok_iff.1 made
    cases same
    rfl
  · obtain ⟨init, -, made⟩ := bind_eq_ok_iff.1 made
    obtain ⟨test, -, made⟩ := bind_eq_ok_iff.1 made
    obtain ⟨iterate, -, same⟩ := bind_eq_ok_iff.1 made
    cases same
    rfl
  · cases made
  · next names source =>
    have named {name : Except SyntaxError String}
        (made : (do let n ← name; let e ← Expr.ofTokens source; pure (FrameKind.foreach n e)) =
          Except.ok frame) : frame.earlier = none := by
      obtain ⟨n, -, made⟩ := bind_eq_ok_iff.1 made
      obtain ⟨e, -, same⟩ := bind_eq_ok_iff.1 made
      cases same
      rfl
    split at made <;> exact named made
  · cases made

section

variable {kind : HeaderKind} (around : Around m.frames m.ready m.line r kind.earlier)
  (state : m.state = kind.state) (t : PlacedToken)

include around state

/-- A header is completed in both readers. -/
theorem follows_completeHeader {clauses : List (List PlacedToken)}
    (word : m.construct = (StatementReader.HeaderKind.word kind).text) (begun : m.start = start)
    (continues : kind.state = .branchHeader → m.continues = kind.earlier.isSome)
    (same : m.clauses = clauses) (line : Line) :
    Follows
      (do
        let made ← (m.headerKind line).mapError .refused
        return { m with header := some made })
      (r.completeHeader kind clauses start line) := by
  rw [headerKind_eq state same word continues]
  unfold StatementReader.completeHeader
  cases made : StatementReader.headerFrame kind clauses line with
  | error e => rfl
  | ok frame =>
    refine follows_goto ?_ ?_ ⟨⟨rfl, earlier_of_headerFrame made⟩, word, begun, continues⟩
    · exact around
    · exact state

theorem follows_clauseToken {depth : Int} {buffer : List PlacedToken}
    {clauses : List (List PlacedToken)}
    (phase : m.ShowsPhase (.header kind (.inside depth buffer clauses) start)) :
    Follows (m.clauseToken t) (r.clauseToken kind depth buffer clauses start t) := by
  obtain ⟨⟨opened, header, rfl, positive, same, rfl⟩, word, begun, continues⟩ := phase
  have collects (d : Nat) (i : Int) (counts : d = i) (positive : 1 ≤ i) :
      Follows (.ok { m with depth := d, buffer := m.buffer ++ [t] })
        (StatementReader.accept
          (r.goto (.header kind (.inside i (t :: buffer) m.clauses) start))) := by
    refine follows_goto ?_ state
      ⟨⟨opened, header, counts, positive, ?_, rfl⟩, word, begun, continues⟩
    · exact around
    · simp [same]
  have completes : Follows
      (do
        let r : FlatReader :=
          { m with depth := 0, buffer := [], clauses := m.clauses ++ [m.buffer] }
        let made ← (r.headerKind t.line).mapError .refused
        return { r with header := some made })
      (r.completeHeader kind (m.clauses ++ [buffer.reverse]) start t.line) := by
    refine follows_completeHeader ?_ ?_ ?_ ?_ ?_ ?_ t.line
    · exact around
    · exact state
    · exact word
    · exact begun
    · exact continues
    · rw [same]
  have one : ((1 : Nat) : Int) = 1 := rfl
  obtain ⟨token, line⟩ := t
  unfold clauseToken StatementReader.clauseToken
  cases token with
  | mark k =>
    cases k with
    | leftParen | leftBracket => exact collects _ _ (by simp) (by omega)
    | leftBrace | rightBrace => rfl
    | comma | dot => exact collects _ _ rfl positive
    | semicolon =>
      by_cases outer : m.depth = 1
      · dsimp only
        rw [if_pos outer, if_pos (by omega), ← same]
        refine follows_goto ?_ state ⟨⟨opened, header, ?_, Int.le_refl 1, rfl, rfl⟩, word, begun,
          continues⟩
        · exact around
        · exact congrArg Nat.cast outer
      · dsimp only
        rw [if_neg outer, if_neg (by omega)]
        rfl
    | rightParen =>
      dsimp only [closeBracket]
      match deep : m.depth with
      | 0 => omega
      | 1 =>
        rw [if_pos rfl, if_pos one]
        exact completes
      | d + 2 =>
        have deeper : ((d + 2 : Nat) : Int) ≠ 1 := by omega
        rw [if_neg deeper]
        exact collects _ _ (by omega) (by omega)
    | rightBracket =>
      dsimp only [closeBracket]
      match deep : m.depth with
      | 0 => omega
      | 1 =>
        rw [if_neg (by decide), if_pos one]
        rfl
      | d + 2 =>
        have deeper : ((d + 2 : Nat) : Int) ≠ 1 := by omega
        rw [if_neg deeper]
        exact collects _ _ (by omega) (by omega)
  | _ => exact collects _ _ rfl positive

theorem follows_headerToken {stage : HeaderStage}
    (phase : m.ShowsPhase (.header kind stage start)) :
    Follows (m.headerToken t) (r.headerToken kind stage start t) := by
  cases stage with
  | waiting =>
    obtain ⟨⟨opened, header, buffer, clauses⟩, word, begun, continues⟩ := phase
    obtain ⟨token, line⟩ := t
    unfold headerToken StatementReader.headerToken
    rw [header, opened]
    cases token with
    | mark k =>
      cases k with
      | leftParen =>
        refine follows_goto ?_ state ⟨⟨rfl, rfl, rfl, Int.le_refl 1, buffer, clauses⟩, word, begun,
          continues⟩
        exact around
      | _ => rfl
    | _ => rfl
  | inside depth buffer clauses =>
    have clause := follows_clauseToken around state t phase
    obtain ⟨⟨opened, header, -⟩, -⟩ := phase
    rw [headerToken, header, opened]
    exact clause
  | complete frame clauses =>
    obtain ⟨⟨header, earlier⟩, word, begun, continues⟩ := phase
    obtain ⟨token, line⟩ := t
    unfold headerToken StatementReader.headerToken
    rw [header]
    cases token with
    | mark k =>
      cases k with
      | leftBrace =>
        rw [← earlier] at around
        refine follows_openFrame frame ?_ begun
        exact around
      | _ => rfl
    | _ => rfl

end

theorem follows_elseToken {chain : Chain} (around : Around m.frames m.ready m.line r (some chain))
    (phase : m.ShowsPhase (.afterElse chain start)) (t : PlacedToken) :
    Follows (m.elseToken t) (r.elseToken chain start t) := by
  obtain rfl : m.start = start := phase
  obtain ⟨token, line⟩ := t
  cases token with
  | keyword word =>
    cases word with
    | ifWord =>
      refine follows_goto ?_ rfl ⟨⟨rfl, rfl, rfl, rfl⟩, rfl, rfl, fun _ => rfl⟩
      exact around
    | _ => rfl
  | mark k =>
    cases k with
    | leftBrace => exact follows_openFrame (.branch none (some chain)) around rfl
    | _ => rfl
  | _ => rfl

/-! ## Between statements -/

theorem follows_startToken (around : Around m.frames m.ready m.line r none)
    (state : m.state = .between) (phase : r.phase = .between) (t : PlacedToken) :
    Follows (m.startToken t) (r.startToken t) := by
  have line : Follows ((m.begun .line t.line).lineToken t) (r.lineToken .expr [] 0 t.line t) := by
    refine follows_lineToken ?_ rfl ⟨rfl, rfl, rfl, rfl⟩ t
    exact around
  have begins {p : Phase} {m' : FlatReader} (frames : m'.frames = m.frames)
      (ready : m'.ready = m.ready) (line : m'.line = m.line) (free : p.earlier = none)
      (state : m'.state = p.state) (shows : m'.ShowsPhase p) :
      Follows (.ok m') (StatementReader.accept (r.goto p)) := by
    refine follows_goto ?_ state shows
    rw [frames, ready, line, free]
    exact around
  obtain ⟨token, l⟩ := t
  cases token with
  | mark k =>
    cases k with
    | semicolon =>
      have stays := follows_goto (p := .between) around state trivial
      rwa [goto_of_phase phase] at stays
    | leftBrace =>
      refine follows_openFrame .block ?_ rfl
      exact around
    | rightBrace =>
      refine follows_closeFrame ?_ l
      rw [hold_of_released around.released, innermostHeld_of_released around.released]
      exact around
    | _ => exact line
  | keyword word =>
    cases word with
    | funcWord => exact begins rfl rfl rfl rfl rfl ⟨rfl, rfl, rfl, rfl, rfl⟩
    | varWord => exact begins rfl rfl rfl rfl rfl ⟨rfl, rfl, rfl, rfl, rfl⟩
    | classWord => exact begins rfl rfl rfl rfl rfl ⟨rfl, rfl⟩
    | returnWord => exact begins rfl rfl rfl rfl rfl ⟨rfl, rfl, rfl, rfl⟩
    | importWord => exact begins rfl rfl rfl rfl rfl rfl
    | ifWord => exact begins rfl rfl rfl rfl rfl ⟨⟨rfl, rfl, rfl, rfl⟩, rfl, rfl, fun _ => rfl⟩
    | forWord | whileWord | foreachWord =>
      exact begins rfl rfl rfl rfl rfl ⟨⟨rfl, rfl, rfl, rfl⟩, rfl, rfl, nofun⟩
    | _ => exact line
  | _ => exact line

theorem follows_beginToken (around : Around m.frames m.ready m.line (r.hold none) r.innermostHeld)
    (state : m.state = .between) (phase : r.phase = .between) (t : PlacedToken) :
    Follows (m.beginToken t) (r.beginToken t) := by
  unfold beginToken
  by_cases isElse : t.token = .keyword .elseWord
  · obtain ⟨f, outer, shape⟩ := flatFrames_eq r.frames
    have top : m.top = .ok { f with pending := r.innermostHeld } := by
      rw [FlatReader.top, around.frames, flatFrames_hold, shape]
    rw [if_pos isElse, top, ok_bind, StatementReader.beginToken, isElse]
    cases held : r.innermostHeld with
    | none => rfl
    | some chain =>
      rw [held] at around
      refine follows_goto ?_ rfl rfl
      exact around
  · have same : StatementReader.beginToken r t = r.release.startToken t := by
      unfold StatementReader.beginToken
      split
      · next token _ => exact absurd token isElse
      · next token _ => exact absurd token isElse
      · rfl
    rw [if_neg isElse, closePending_of_around around, ok_bind, same]
    refine follows_startToken ?_ ?_ ((phase_release r).trans phase) t
    · exact around_release around
    · exact state

/-! ## Tokens -/

theorem Matches.around_of_busy (alike : Matches m r) (busy : r.phase ≠ .between) :
    Around m.frames m.ready m.line r r.phase.earlier := by
  obtain ⟨around, free, -, -⟩ := alike
  have held := free busy
  rw [held, Option.none_or] at around
  rwa [hold_of_free held] at around

theorem Matches.on (alike : Matches m r) (l : Line) :
    Matches { m with line := l } { r with line := l } := by
  obtain ⟨⟨frames, ready, -, released⟩, free, state, phase⟩ := alike
  obtain ⟨p, inner, held, done, line⟩ := r
  cases inner with
  | nil => exact ⟨⟨frames, ready, rfl, released⟩, free, state, by cases p <;> exact phase⟩
  | cons f outer => exact ⟨⟨frames, ready, rfl, released⟩, free, state, by cases p <;> exact phase⟩

/-- A token has the same result on readers that are alike. -/
theorem follows_feed (alike : Matches m r) (t : PlacedToken) : Follows (m.feed t) (r.feed t) := by
  have alike := alike.on t.line
  unfold feed StatementReader.feed
  generalize { m with line := t.line } = m at alike
  generalize { r with line := t.line } = r at alike
  dsimp only
  have state := alike.state
  have shows := alike.phase
  have around := alike.around_of_busy
  have between := alike.between
  generalize phase : r.phase = p at state shows around between ⊢
  rw [state]
  cases p with
  | between => exact follows_beginToken (between rfl) state phase t
  | line kind =>
    have follows := follows_lineToken (around nofun) state shows t
    cases kind <;> exact follows
  | functionName => exact follows_functionNameToken (around nofun) t state shows
  | parameters => exact follows_parameterToken (around nofun) t state shows
  | variableName => exact follows_variableToken (around nofun) t state shows
  | className => exact follows_classNameToken (around nofun) t shows
  | bases => exact follows_baseToken (around nofun) t state shows
  | afterElse => exact follows_elseToken (around nofun) shows t
  | header kind =>
    have follows := follows_headerToken (around nofun) state t shows
    cases kind <;> exact follows
  | importPath => exact follows_importToken (around nofun) t shows

end FlatReader

end Scriptlet
