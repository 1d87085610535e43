import Scriptlet.Proofs.Expr.Lines
import Scriptlet.Proofs.Statement.Braces
import Scriptlet.Proofs.Statement.Ready

/-!
# Where a statement began

A reader that is not idle is inside one statement at the top, or holds one back. A token makes it go
on with that statement or hands the statement out; in the second case what is open afterwards began
with this token. The line of a statement is the line of its first token, but for an expression,
which has the line of the token that the root of its tree is made of.
-/

namespace Scriptlet

/-- The line on which a statement with this header began. -/
def HeaderKind.start (l : Line) : HeaderKind → Line
  | .branch (some c) => c.line
  | _ => l

/-- The line on which a statement with this brace began. -/
def FrameKind.start (l : Line) : FrameKind → Line
  | .branch _ (some c) => c.line
  | _ => l

/-- Whether `p` holds of the line on which the statement of a phase began, and `q` of the lines of
the tokens in its line. A line with an expression has at least one. -/
def Phase.Began (p q : Line → Prop) : Phase → Prop
  | .between => True
  | .line kind buffer _ start =>
    p start ∧ (∀ t ∈ buffer, q t.line) ∧ (kind = .expr → buffer ≠ [])
  | .functionName _ start | .parameters _ _ _ _ start | .variableName _ start | .className start
  | .bases _ _ _ start | .importPath start => p start
  | .afterElse chain _ => p chain.line
  | .header _ (.complete frame _) start => p (frame.start start)
  | .header kind _ start => p (kind.start start)

/-- Whether `p` holds of the line of a statement, or `q` if the statement is an expression. -/
def Stmt.Began (p q : Line → Prop) : Stmt → Prop
  | .expr e => q e.line
  | s => p s.line

theorem Phase.Began.imp {p q p' q' : Line → Prop} (le : ∀ l, p l → p' l) (le' : ∀ l, q l → q' l)
    {phase : Phase} (began : phase.Began p q) : phase.Began p' q' := by
  cases phase with
  | between => trivial
  | line kind buffer depth start =>
    obtain ⟨line, tokens, filled⟩ := began
    exact ⟨le start line, fun t ht => le' t.line (tokens t ht), filled⟩
  | header kind stage start => cases stage <;> exact le _ began
  | _ => exact le _ began

namespace StatementReader

/-- Whether `p` holds of the line on which the statement at the top began, and `q` of the lines of
the tokens in its line. -/
structure Began (p q : Line → Prop) (r : StatementReader) : Prop where
  frames : ∀ f ∈ r.frames.getLast?, p (f.kind.start f.line)
  phase : r.frames = [] → r.phase.Began p q
  held : ∀ c ∈ r.held, p c.line
  free : r.frames ≠ [] ∨ r.phase ≠ .between → r.held = none

variable {p q : Line → Prop} {r r' : StatementReader}

theorem Began.imp {p' q' : Line → Prop} (began : Began p q r) (le : ∀ l, p l → p' l)
    (le' : ∀ l, q l → q' l) : Began p' q' r where
  frames f last := le _ (began.frames f last)
  phase top := (began.phase top).imp le le'
  held c held := le _ (began.held c held)
  free := began.free

/-! ## At the top -/

theorem began_of_idle (idle : r.isIdle = true) : Began p q r := by
  obtain ⟨phase, frames, held, ready, line⟩ := r
  cases phase with
  | between =>
    cases frames with
    | nil =>
      cases held with
      | none => exact ⟨by simp, fun _ => trivial, by simp, fun _ => rfl⟩
      | some c => cases idle
    | cons f outer => cases idle
  | _ => cases idle

/-- Where a token takes a reader: it goes on with the statement that is open, or hands it out. In
the second case the token is the first one of what is open then. -/
inductive Goes (p q : Line → Prop) (t : PlacedToken) (r : StatementReader) :
    StatementReader → Prop where
  | on {r' : StatementReader} : r'.ready = r.ready → r'.isIdle = false → Began p q r' →
      Goes p q t r r'
  | ends {r' : StatementReader} {s : Stmt} : r'.ready = r.ready ++ [s] → s.Began p q →
      (∀ {p' q' : Line → Prop}, p' t.line → q' t.line → Began p' q' r') → Goes p q t r r'

theorem headerFrame_start {kind : HeaderKind} {clauses : List (List PlacedToken)} {line : Line}
    {frame : FrameKind} (made : headerFrame kind clauses line = .ok frame) (start : Line) :
    frame.start start = kind.start start := by
  simp only [headerFrame] at made
  split at made
  · obtain ⟨test, -, same⟩ := bind_eq_ok_iff.1 made
    obtain rfl := Except.ok.inj same
    rename_i earlier _
    cases earlier <;> rfl
  · cases made
  · obtain ⟨test, -, same⟩ := bind_eq_ok_iff.1 made
    obtain rfl := Except.ok.inj same
    rfl
  · obtain ⟨test, -, made⟩ := bind_eq_ok_iff.1 made
    obtain ⟨iterate, -, same⟩ := bind_eq_ok_iff.1 made
    obtain rfl := Except.ok.inj same
    rfl
  · obtain ⟨init, -, made⟩ := bind_eq_ok_iff.1 made
    obtain ⟨test, -, made⟩ := bind_eq_ok_iff.1 made
    obtain ⟨iterate, -, same⟩ := bind_eq_ok_iff.1 made
    obtain rfl := Except.ok.inj same
    rfl
  · cases made
  · split at made
    all_goals
      obtain ⟨name, -, made⟩ := bind_eq_ok_iff.1 made
      obtain ⟨source, -, same⟩ := bind_eq_ok_iff.1 made
      obtain rfl := Except.ok.inj same
      rfl
  · cases made

section

variable {t : PlacedToken} (top : r.frames = []) (free : r.held = none)

include top free

theorem began_goto {phase : Phase} (began : phase.Began p q) : Began p q (r.goto phase) where
  frames f last := by
    have none : (r.goto phase).frames = [] := top
    rw [none] at last
    cases last
  phase _ := began
  held c held := by
    have none : (r.goto phase).held = none := free
    rw [none] at held
    cases held
  free _ := free

theorem began_openFrame {kind : FrameKind} {start : Line} (began : p (kind.start start)) :
    Began p q (r.openFrame kind start) where
  frames f last := by
    have only : (r.openFrame kind start).frames = [⟨kind, [], none, start⟩] := by
      rw [openFrame, top]
    rw [only] at last
    cases last
    exact began
  phase none := by cases none
  held c held := by
    have none : (r.openFrame kind start).held = none := free
    rw [none] at held
    cases held
  free _ := free

theorem goes_goto {phase : Phase} (fed : accept (r.goto phase) = accept r')
    (goesOn : phase ≠ .between) (began : phase.Began p q) : Goes p q t r r' := by
  obtain rfl := eq_of_accept fed
  refine .on rfl ?_ (began_goto top free began)
  cases phase with
  | between => exact absurd rfl goesOn
  | _ => rfl

theorem goes_openFrame {kind : FrameKind} {start : Line}
    (fed : accept (r.openFrame kind start) = accept r') (began : p (kind.start start)) :
    Goes p q t r r' := by
  obtain rfl := eq_of_accept fed
  have busy : (r.openFrame kind start).isIdle = false := by simp only [openFrame, isIdle]
  exact .on rfl busy (began_openFrame top free began)

theorem goes_emit {s : Stmt} (fed : accept ((r.emit s).goto .between) = accept r')
    (began : s.Began p q) : Goes p q t r r' := by
  obtain rfl := eq_of_accept fed
  have emitted : r.emit s = { r with ready := r.ready ++ [s] } := by
    simp only [emit, top]
  rw [emitted]
  refine .ends rfl began fun _ _ => began_of_idle ?_
  simp only [goto, isIdle, top, free]

theorem closeFrame_top {l : Line} : r.closeFrame l = accept r' → False := by
  have held : r.innermostHeld = none := by simp only [innermostHeld, top, free]
  intro closes
  simp only [closeFrame, release_of_free held, top] at closes
  cases closes

theorem goes_completeLine {kind : LineKind} {buffer : List PlacedToken} {start line : Line}
    (began : p start) (tokens : ∀ u ∈ buffer, q u.line) (filled : kind = .expr → buffer ≠ [])
    (fed : r.completeLine kind buffer start line = accept r') : Goes p q t r r' := by
  have lines {e : Expr} (built : expr? buffer.reverse = .ok (some e)) : q e.line := by
    unfold expr? at built
    split at built
    · cases built
    · obtain ⟨e', made, same⟩ := map_eq_ok_iff.1 built
      obtain rfl := Option.some.inj same
      exact Expr.line_of_ofTokens made fun u hu => tokens u (List.mem_reverse.1 hu)
  unfold completeLine at fed
  split at fed
  · cases fed
  · exact goes_emit top free fed began
  · exact goes_emit top free fed began
  · cases fed
  · next e built => exact goes_emit top free fed (lines built)
  · next built =>
    unfold expr? at built
    split at built
    · next none => exact absurd (List.reverse_eq_nil_iff.1 none) (filled rfl)
    · obtain ⟨e', -, same⟩ := map_eq_ok_iff.1 built
      cases same

theorem top_completeLine (kind : LineKind) (buffer : List PlacedToken) (start line : Line) :
    (r.completeLine kind buffer start line).1.frames = [] ∧
      (r.completeLine kind buffer start line).1.held = none := by
  unfold completeLine
  split <;> simp [refuse, accept, goto, emit, top, free]

theorem goes_lineToken {kind : LineKind} {buffer : List PlacedToken} {depth : Nat} {start : Line}
    (began : p start) (tokens : ∀ u ∈ buffer, q u.line) (filled : kind = .expr → buffer ≠ [])
    (token : q t.line) (fed : r.lineToken kind buffer depth start t = accept r') : Goes p q t r r' := by
  have more : ∀ u ∈ t :: buffer, q u.line := by
    intro u hu
    rcases List.mem_cons.1 hu with rfl | hu
    · exact token
    · exact tokens u hu
  have collects (depth : Nat) (fed : accept (r.goto (.line kind (t :: buffer) depth start)) =
      accept r') : Goes p q t r r' :=
    goes_goto top free fed (by simp) ⟨began, more, by simp⟩
  simp only [lineToken] at fed
  split at fed
  · exact collects _ fed
  · exact collects _ fed
  · split at fed
    · cases fed
    · exact collects _ fed
  · split at fed
    · cases fed
    · exact collects _ fed
  · split at fed
    · exact goes_completeLine top free began tokens filled fed
    · cases fed
  · split at fed
    · -- no brace is open at the top
      obtain ⟨top', free'⟩ := top_completeLine top free kind buffer start t.line
      generalize r.completeLine kind buffer start t.line = s at fed top' free'
      obtain ⟨r₁, _ | e⟩ := s
      · exact (closeFrame_top top' free' fed).elim
      · cases fed
    · cases fed
  · cases fed
  · exact collects _ fed

theorem goes_clauseToken {kind : HeaderKind} {depth : Int} {buffer : List PlacedToken}
    {clauses : List (List PlacedToken)} {start : Line} (began : p (kind.start start))
    (fed : r.clauseToken kind depth buffer clauses start t = accept r') : Goes p q t r r' := by
  have inside {depth : Int} {buffer : List PlacedToken} {clauses : List (List PlacedToken)}
      (fed : accept (r.goto (.header kind (.inside depth buffer clauses) start)) = accept r') :
      Goes p q t r r' :=
    goes_goto top free fed (by simp) began
  simp only [clauseToken, completeHeader] at fed
  split at fed
  · exact inside fed
  · exact inside fed
  · split at fed
    · split at fed
      · next frame made =>
        have began : p (frame.start start) := by
          rw [headerFrame_start made start]
          exact began
        exact goes_goto top free fed (by simp) began
      · cases fed
    · exact inside fed
  · split at fed
    · cases fed
    · exact inside fed
  · split at fed
    · exact inside fed
    · cases fed
  · cases fed
  · cases fed
  · exact inside fed

theorem goes_functionNameToken {name : Option String} {start : Line} (began : p start)
    (fed : r.functionNameToken name start t = accept r') : Goes p q t r r' := by
  unfold functionNameToken at fed
  split at fed
  · exact goes_goto top free fed (by simp) began
  · exact goes_goto top free fed (by simp) began
  · cases fed

theorem goes_parameterToken {name : String} {names : List String} {needsComma closed : Bool}
    {start : Line} (began : p start)
    (fed : r.parameterToken name names needsComma closed start t = accept r') :
    Goes p q t r r' := by
  unfold parameterToken at fed
  repeat' split at fed
  all_goals first
    | exact goes_openFrame top free fed began
    | exact goes_goto top free fed (by simp) began
    | cases fed

theorem goes_variableToken {name : Option String} {start : Line} (began : p start)
    (weaker : ∀ l, p l → q l) (token : q t.line)
    (fed : r.variableToken name start t = accept r') : Goes p q t r r' := by
  unfold variableToken at fed
  split at fed
  · exact goes_goto top free fed (by simp) began
  · cases fed
  · exact goes_emit top free fed (weaker start began)
  · exact goes_goto top free fed (by simp) ⟨began, by simp, by simp⟩
  · refine goes_lineToken top free began ?_ (by simp) token fed
    intro u hu
    simp only [List.mem_cons, List.not_mem_nil, or_false] at hu
    rcases hu with rfl | rfl
    · exact weaker start began
    · exact weaker start began

theorem goes_classNameToken {start : Line} (began : p start)
    (fed : r.classNameToken start t = accept r') : Goes p q t r r' := by
  unfold classNameToken at fed
  split at fed
  · exact goes_goto top free fed (by simp) began
  · cases fed

theorem goes_baseToken {name : String} {names : List String} {needsComma : Bool} {start : Line}
    (began : p start) (fed : r.baseToken name names needsComma start t = accept r') :
    Goes p q t r r' := by
  unfold baseToken at fed
  split at fed
  · exact goes_goto top free fed (by simp) began
  · exact goes_openFrame top free fed began
  · exact goes_goto top free fed (by simp) began
  · cases fed

theorem goes_elseToken {chain : Chain} {start : Line} (began : p chain.line)
    (fed : r.elseToken chain start t = accept r') : Goes p q t r r' := by
  unfold elseToken at fed
  split at fed
  · exact goes_goto top free fed (by simp) began
  · exact goes_openFrame top free fed began
  · cases fed

theorem goes_headerToken {kind : HeaderKind} {stage : HeaderStage} {start : Line}
    (began : (Phase.header kind stage start).Began p q)
    (fed : r.headerToken kind stage start t = accept r') : Goes p q t r r' := by
  unfold headerToken at fed
  split at fed
  · exact goes_goto top free fed (by simp) began
  · cases fed
  · exact goes_clauseToken top free began fed
  · exact goes_openFrame top free fed began
  · cases fed

theorem goes_importToken {start : Line} (began : p start)
    (fed : r.importToken start t = accept r') : Goes p q t r r' := by
  unfold importToken at fed
  split at fed
  · exact goes_emit top free fed began
  · cases fed

/-- The first token of a statement, with nothing held back. -/
theorem began_startToken (token : p t.line) (token' : q t.line) (between : r.phase = .between)
    (fed : r.startToken t = accept r') : r'.ready = r.ready ∧ Began p q r' := by
  have phase {phase : Phase} (fed : accept (r.goto phase) = accept r') (began : phase.Began p q) :
      r'.ready = r.ready ∧ Began p q r' := by
    obtain rfl := eq_of_accept fed
    exact ⟨rfl, began_goto top free began⟩
  unfold startToken at fed
  split at fed
  · obtain rfl := eq_of_accept fed
    exact ⟨rfl, began_of_idle (by simp only [isIdle, between, top, free])⟩
  · obtain rfl := eq_of_accept fed
    exact ⟨rfl, began_openFrame top free token⟩
  · exact (closeFrame_top top free fed).elim
  · exact phase fed token
  · exact phase fed token
  · exact phase fed token
  · exact phase fed ⟨token, by simp, by simp⟩
  · exact phase fed token
  · exact phase fed token
  · exact phase fed token
  · exact phase fed token
  · exact phase fed token
  · next semicolon leftBrace rightBrace _ _ _ _ _ _ _ _ _ =>
    have collects {depth : Nat}
        (fed : accept (r.goto (.line .expr [t] depth t.line)) = accept r') :=
      phase fed ⟨token, by simpa using token', by simp⟩
    simp only [lineToken] at fed
    split at fed
    · exact collects fed
    · exact collects fed
    · cases fed
    · cases fed
    · exact absurd ‹_› semicolon
    · exact absurd ‹_› rightBrace
    · cases fed
    · exact collects fed

end

/-! ## Every token -/

variable {t : PlacedToken}

/-- The outermost brace is closed. -/
theorem goes_closed {f : Frame} {ready : List Stmt} {l : Line} (began : p (f.kind.start f.line)) :
    Goes p q t ⟨.between, [], none, ready, l⟩ (closed ⟨.between, [], none, ready, l⟩ f) := by
  have top : StatementReader.frames ⟨.between, [], none, ready, l⟩ = [] := rfl
  have emits {s : Stmt} (began : s.Began p q) :
      Goes p q t ⟨.between, [], none, ready, l⟩ (emit ⟨.between, [], none, ready, l⟩ s) :=
    goes_emit top rfl rfl began
  have holds {c : Chain} (began : p c.line) :
      Goes p q t ⟨.between, [], none, ready, l⟩ (hold ⟨.between, [], none, ready, l⟩ (some c)) := by
    refine .on rfl rfl ⟨by simp [hold], fun _ => trivial, ?_, by simp [hold]⟩
    rintro _ ⟨⟩
    exact began
  obtain ⟨kind, statements, held, line⟩ := f
  cases kind with
  | branch test earlier =>
    cases test with
    | none => cases earlier <;> exact emits began
    | some e => cases earlier <;> exact holds began
  | _ => exact emits began

theorem goes_inside (began : Began p q r) (inside : r.frames ≠ []) (fed : r.feed t = accept r') :
    Goes p q t r r' := by
  have free := began.free (.inl inside)
  obtain ⟨inner, last, whole⟩ : ∃ inner last, r.frames = inner ++ [last] :=
    ⟨_, _, (List.dropLast_concat_getLast inside).symm⟩
  have token : p (last.kind.start last.line) := began.frames last (by simp [whole])
  have outermost : Inside last.kind last.line [] [] r := ⟨inner, last.statements, last.held, whole⟩
  cases steps_feed outermost fed with
  | stays ready held inside' =>
    obtain ⟨f, outer, frames⟩ := List.exists_cons_of_ne_nil inside'.nonempty
    have busy : r'.isIdle = false := by
      cases phase : r'.phase <;> simp only [isIdle, phase, frames]
    refine .on ready busy ⟨?_, fun none => absurd none inside'.nonempty, ?_, ?_⟩
    · obtain ⟨inner', ss, held', whole'⟩ := inside'
      intro g last'
      rw [whole', List.getLast?_concat] at last'
      obtain rfl := Option.some.inj last'
      exact token
    · rw [held]
      exact began.held
    · rw [held]
      exact fun _ => free
  | @closes ss held l =>
    rw [free]
    have closed : Goes p q t ⟨.between, [], none, r.ready, l⟩
        (closed ⟨.between, [], none, r.ready, l⟩ ⟨last.kind, [] ++ ss, held, last.line⟩) :=
      goes_closed token
    cases closed with
    | on ready busy began => exact .on ready busy began
    | ends ready began next => exact .ends ready began next

/-- A chain that is held back at the top goes on, or is complete. -/
theorem goes_held {c : Chain} {ready : List Stmt} {l : Line} (began : p c.line)
    (fed : feed ⟨.between, [], some c, ready, l⟩ t = accept r') :
    Goes p q t ⟨.between, [], some c, ready, l⟩ r' := by
  by_cases other : t.token = .keyword .elseWord
  · simp only [feed, beginToken, other, innermostHeld, hold] at fed
    obtain rfl := eq_of_accept fed
    exact .on rfl rfl (began_goto (r := ⟨.between, [], none, ready, t.line⟩) rfl rfl began)
  · rw [feed_between rfl other] at fed
    have fed : startToken ⟨.between, [], none, ready ++ [.choice c.branches c.line], t.line⟩ t =
        accept r' := fed
    have first (p' q' : Line → Prop) (token : p' t.line) (token' : q' t.line) :=
      began_startToken rfl rfl token token' rfl fed
    refine .ends (first (fun _ => True) (fun _ => True) trivial trivial).1 began ?_
    exact fun token token' => (first _ _ token token').2

theorem goes_top (began : Began p q r) (top : r.frames = []) (busy : r.phase ≠ .between)
    (weaker : ∀ l, p l → q l) (token : q t.line) (fed : r.feed t = accept r') :
    Goes p q t r r' := by
  have free : r.held = none := began.free (.inr busy)
  have phase := began.phase top
  have same (h : Goes p q t { r with line := t.line } r') : Goes p q t r r' := by
    cases h with
    | on ready busy began => exact .on ready busy began
    | ends ready began next => exact .ends ready began next
  refine same ?_
  have top : StatementReader.frames { r with line := t.line } = [] := top
  have free : StatementReader.held { r with line := t.line } = none := free
  have phase : (StatementReader.phase { r with line := t.line }).Began p q := phase
  have busy : StatementReader.phase { r with line := t.line } ≠ .between := busy
  unfold feed at fed
  generalize { r with line := t.line } = r at fed top free phase busy
  dsimp only at fed
  split at fed
  · next between => exact absurd between busy
  · next kind buffer depth start same =>
    rw [same] at phase
    exact goes_lineToken top free phase.1 phase.2.1 phase.2.2 token fed
  · next name start same =>
    rw [same] at phase
    exact goes_functionNameToken top free phase fed
  · next name names needsComma closed start same =>
    rw [same] at phase
    exact goes_parameterToken top free phase fed
  · next name start same =>
    rw [same] at phase
    exact goes_variableToken top free phase weaker token fed
  · next start same =>
    rw [same] at phase
    exact goes_classNameToken top free phase fed
  · next name names needsComma start same =>
    rw [same] at phase
    exact goes_baseToken top free phase fed
  · next chain start same =>
    rw [same] at phase
    exact goes_elseToken top free phase fed
  · next kind stage start same =>
    rw [same] at phase
    exact goes_headerToken top free phase fed
  · next start same =>
    rw [same] at phase
    exact goes_importToken top free phase fed

/-- A token after the first one of a statement. -/
theorem goes_feed (began : Began p q r) (busy : r.isIdle = false) (weaker : ∀ l, p l → q l)
    (token : q t.line) (fed : r.feed t = accept r') : Goes p q t r r' := by
  by_cases top : r.frames = []
  · by_cases between : r.phase = .between
    · obtain ⟨phase, frames, held, ready, line⟩ := r
      obtain rfl : phase = .between := between
      obtain rfl : frames = [] := top
      cases held with
      | none => cases busy
      | some c => exact goes_held (began.held c rfl) fed
    · exact goes_top began top between weaker token fed
  · exact goes_inside began top fed

/-- The first token of a statement, or one that stands for itself. -/
theorem began_feed (idle : r.isIdle = true) (token : p t.line) (token' : q t.line)
    (fed : r.feed t = accept r') : r'.ready = r.ready ∧ Began p q r' := by
  obtain ⟨phase, frames, held, ready, line⟩ := r
  cases phase with
  | between =>
    cases frames with
    | nil =>
      cases held with
      | none =>
        by_cases other : t.token = .keyword .elseWord
        · simp only [feed, beginToken, other, innermostHeld] at fed
          cases fed
        · rw [feed_between rfl other] at fed
          exact began_startToken (r := ⟨.between, [], none, ready, t.line⟩) rfl rfl token token' rfl
            fed
      | some c => cases idle
    | cons f outer => cases idle
  | _ => cases idle

/-- A token that hands out a statement is not the first one of a statement. -/
theorem busy_of_handed {S : Stmt} (taken : r.ready = []) (fed : r.feed t = accept r')
    (ready : S ∈ r'.ready) : r.isIdle = false := by
  cases idle : r.isIdle with
  | false => rfl
  | true =>
    have same := (began_feed (p := fun _ => True) (q := fun _ => True) idle trivial trivial fed).1
    rw [same, taken] at ready
    cases ready

/-- A token hands out one statement at most, the one that was open. -/
theorem Began.handed {S : Stmt} (began : Began p q r) (weaker : ∀ l, p l → q l) (token : q t.line)
    (taken : r.ready = []) (fed : r.feed t = accept r') (ready : S ∈ r'.ready) :
    r'.ready = [S] ∧ S.Began p q := by
  have busy := busy_of_handed taken fed ready
  cases goes_feed began busy weaker token fed with
  | on same _ _ =>
    rw [same, taken] at ready
    cases ready
  | ends handed began _ =>
    rw [handed, taken, List.nil_append, List.mem_singleton] at ready
    rw [handed, taken, ready]
    exact ⟨rfl, began⟩

/-! ## A run of tokens -/

section

variable {ts : List PlacedToken}

theorem Began.takeReady (began : Began p q r) : Began p q r.takeReady.2 :=
  ⟨began.frames, began.phase, began.held, began.free⟩

theorem Began.after (began : Began p q r) (ss : List Stmt) : Began p q (r.after ss) :=
  ⟨began.frames, began.phase, began.held, began.free⟩

theorem Began.feed (began : Began p p r) (token : p t.line) (fed : r.feed t = accept r') :
    Began p p r' := by
  by_cases idle : r.isIdle = true
  · exact (began_feed idle token token fed).2
  · cases goes_feed began (Bool.eq_false_iff.2 idle) (fun _ => id) token fed with
    | on _ _ began => exact began
    | ends _ _ next => exact next token token

theorem Began.feedAll (began : Began p p r) (tokens : ∀ t ∈ ts, p t.line)
    (fed : feedAll r ts = accept r') : Began p p r' := by
  induction ts generalizing r r' with
  | nil =>
    obtain rfl := eq_of_accept fed
    exact began
  | cons t ts ih =>
    obtain ⟨r₂, r₃, first, later, rfl⟩ := exists_of_feedAll_cons fed
    have step : Began p p r₂ := began.feed (tokens t List.mem_cons_self) first
    have rest := ih step.takeReady (fun u hu => tokens u (List.mem_cons_of_mem t hu)) later
    exact rest.after r₂.ready

/-- What is open after a run of tokens was open before the run if nothing has been handed out since.
Otherwise it began in the run. -/
theorem Began.feedAll_cases {p' : Line → Prop} (began : Began p q r) (busy : r.isIdle = false)
    (taken : r.ready = []) (weaker : ∀ l, p l → q l) (tokens : ∀ t ∈ ts, q t.line ∧ p' t.line)
    (fed : StatementReader.feedAll r ts = accept r') :
    (r'.ready = [] → r'.isIdle = false ∧ Began p q r') ∧ (r'.ready ≠ [] → Began p' p' r') := by
  induction ts generalizing r r' with
  | nil =>
    obtain rfl := eq_of_accept fed
    exact ⟨fun _ => ⟨busy, began⟩, fun some => absurd taken some⟩
  | cons t ts ih =>
    obtain ⟨token, token'⟩ := tokens t List.mem_cons_self
    have more := fun u hu => tokens u (List.mem_cons_of_mem t hu)
    obtain ⟨r₂, r₃, first, later, rfl⟩ := exists_of_feedAll_cons fed
    have ready : (r₃.after r₂.ready).ready = r₂.ready ++ r₃.ready := rfl
    rw [ready]
    cases goes_feed began busy weaker token first with
    | on same busy began =>
      rw [taken] at same
      rw [same, List.nil_append]
      obtain ⟨opened, fresh⟩ := ih began.takeReady busy rfl more later
      exact ⟨fun none => ⟨(opened none).1, (opened none).2.after _⟩, fun some => (fresh some).after _⟩
    | ends handed _ next =>
      have began : Began p' p' r₂.takeReady.2 := (next token' token').takeReady
      have rest : Began p' p' r₃ := began.feedAll (fun u hu => (more u hu).2) later
      exact ⟨fun none => by simp [handed] at none, fun _ => rest.after _⟩

end

end StatementReader

end Scriptlet
