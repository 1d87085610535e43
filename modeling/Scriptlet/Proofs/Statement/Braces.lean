import Scriptlet.Proofs.Statement.ReadingBack

/-!
# Inside a brace

What stands around an open brace does not change while something is read inside it: the frames
around it, the chain that is held back at the top and the statements that are complete there. It
changes when the brace is closed, and then only by what the brace has completed.
-/

namespace Scriptlet.StatementReader

variable {r r' : StatementReader} {kind : FrameKind} {start : Line} {before : List Stmt}
  {outer : List Frame}

theorem eq_of_accept (h : accept r = accept r') : r = r' := congrArg Prod.fst h

theorem exists_of_andThen {s : Step} {next : StatementReader → Step}
    (h : andThen s next = accept r') : ∃ r₁, s = accept r₁ ∧ next r₁ = accept r' := by
  obtain ⟨r₁, _ | e⟩ := s
  · exact ⟨r₁, rfl, h⟩
  · cases h

/-- Whether a brace is open inside some frames: what it is to complete, the line on which it began,
and the statements with which it begins. -/
def Inside (kind : FrameKind) (start : Line) (before : List Stmt) (outer : List Frame)
    (r : StatementReader) : Prop :=
  ∃ inner ss held, r.frames = inner ++ ⟨kind, before ++ ss, held, start⟩ :: outer

theorem Inside.nonempty (inside : Inside kind start before outer r) : r.frames ≠ [] := by
  obtain ⟨inner, ss, held, frames⟩ := inside
  rw [frames]
  exact List.append_ne_nil_of_right_ne_nil inner (List.cons_ne_nil _ outer)

/-- A change inside the open braces. -/
structure Keeps (r r' : StatementReader) : Prop where
  ready : r'.ready = r.ready
  held : r'.held = r.held
  inside : ∀ {kind start before outer}, Inside kind start before outer r →
    Inside kind start before outer r'

theorem Keeps.refl (r : StatementReader) : Keeps r r := ⟨rfl, rfl, id⟩

theorem Keeps.trans {r'' : StatementReader} (first : Keeps r r') (second : Keeps r' r'') :
    Keeps r r'' :=
  ⟨second.ready.trans first.ready, second.held.trans first.held,
    fun inside => second.inside (first.inside inside)⟩

theorem Keeps.nonempty (h : Keeps r r') (inside : r.frames ≠ []) : r'.frames ≠ [] := by
  obtain ⟨f, outer, frames⟩ := List.exists_cons_of_ne_nil inside
  have opened : Inside f.kind f.line [] outer r := ⟨[], f.statements, f.held, frames⟩
  exact (h.inside opened).nonempty

theorem keeps_line (r : StatementReader) (l : Line) : Keeps r { r with line := l } :=
  ⟨rfl, rfl, id⟩

theorem keeps_goto (r : StatementReader) (phase : Phase) : Keeps r (r.goto phase) :=
  ⟨rfl, rfl, id⟩

/-- A change of the chain of the innermost frame, or more statements in it. -/
theorem inside_innermost {f f' : Frame} {rest : List Frame} {more : List Stmt}
    (frames : r.frames = f :: rest) (frames' : r'.frames = f' :: rest) (same : f'.kind = f.kind)
    (line : f'.line = f.line) (grown : f'.statements = f.statements ++ more)
    (inside : Inside kind start before outer r) : Inside kind start before outer r' := by
  obtain ⟨inner, ss, held, whole⟩ := inside
  rw [frames] at whole
  cases inner with
  | nil =>
    obtain ⟨rfl, rfl⟩ := List.cons.inj whole
    obtain ⟨kind', ss', held', line'⟩ := f'
    obtain rfl : kind' = kind := same
    obtain rfl : line' = start := line
    obtain rfl : ss' = before ++ ss ++ more := grown
    refine ⟨[], ss ++ more, held', ?_⟩
    rw [frames', List.append_assoc]
    rfl
  | cons g inner =>
    obtain ⟨-, rfl⟩ := List.cons.inj whole
    exact ⟨f' :: inner, ss, held, frames'⟩

theorem keeps_emit (inside : r.frames ≠ []) (s : Stmt) : Keeps r (r.emit s) := by
  obtain ⟨f, outer, frames⟩ := List.exists_cons_of_ne_nil inside
  have emitted : r.emit s =
      { r with frames := { f with statements := f.statements ++ [s] } :: outer } := by
    simp only [emit, frames]
  rw [emitted]
  exact ⟨rfl, rfl, inside_innermost frames rfl rfl rfl rfl⟩

theorem keeps_hold (inside : r.frames ≠ []) (c : Option Chain) : Keeps r (r.hold c) := by
  obtain ⟨f, outer, frames⟩ := List.exists_cons_of_ne_nil inside
  have held : r.hold c = { r with frames := { f with held := c } :: outer } := by
    simp only [hold, frames]
  rw [held]
  exact ⟨rfl, rfl, inside_innermost frames rfl rfl rfl (List.append_nil _).symm⟩

theorem keeps_release (inside : r.frames ≠ []) : Keeps r r.release := by
  unfold release
  split
  · exact .refl r
  · have held := keeps_hold inside none
    exact held.trans (keeps_emit (held.nonempty inside) _)

theorem keeps_openFrame (r : StatementReader) (kind : FrameKind) (start : Line) :
    Keeps r (r.openFrame kind start) := by
  refine ⟨rfl, rfl, ?_⟩
  rintro kind' start' before outer ⟨inner, ss, held, frames⟩
  refine ⟨⟨kind, [], none, start⟩ :: inner, ss, held, ?_⟩
  rw [openFrame, frames]
  rfl

theorem keeps_closed (inside : r.frames ≠ []) (f : Frame) : Keeps r (r.closed f) := by
  obtain ⟨kind, statements, held, line⟩ := f
  cases kind with
  | branch test earlier =>
    cases test with
    | none => exact keeps_emit inside _
    | some e => exact keeps_hold inside _
  | _ => exact keeps_emit inside _

/-- A step inside a brace: it stays inside, or closes the brace. -/
inductive Steps (kind : FrameKind) (start : Line) (before : List Stmt) (outer : List Frame)
    (r : StatementReader) : StatementReader → Prop where
  | stays {r' : StatementReader} : r'.ready = r.ready → r'.held = r.held →
      Inside kind start before outer r' → Steps kind start before outer r r'
  | closes {ss : List Stmt} {held : Option Chain} {l : Line} :
      Steps kind start before outer r
        (closed ⟨.between, outer, r.held, r.ready, l⟩ ⟨kind, before ++ ss, held, start⟩)

theorem Steps.of_keeps {r₁ : StatementReader} (first : Keeps r r₁)
    (second : Steps kind start before outer r₁ r') : Steps kind start before outer r r' := by
  cases second with
  | stays ready held inside => exact .stays (ready.trans first.ready) (held.trans first.held) inside
  | closes =>
    rw [first.held, first.ready]
    exact .closes

section

variable (inside : Inside kind start before outer r)

include inside

theorem Keeps.steps {s : Step} (keeps : Keeps r s.1) (fed : s = accept r') :
    Steps kind start before outer r r' := by
  rw [fed] at keeps
  exact .stays keeps.ready keeps.held (keeps.inside inside)

theorem steps_closeFrame (l : Line) (fed : r.closeFrame l = accept r') :
    Steps kind start before outer r r' := by
  have released := keeps_release inside.nonempty
  refine .of_keeps released ?_
  obtain ⟨inner, ss, held, whole⟩ := released.inside inside
  unfold closeFrame at fed
  rw [whole] at fed
  cases inner with
  | nil =>
    obtain rfl := eq_of_accept fed
    exact .closes
  | cons g inner =>
    obtain rfl := eq_of_accept fed
    have around : inner ++ ⟨kind, before ++ ss, held, start⟩ :: outer ≠ [] :=
      List.append_ne_nil_of_right_ne_nil inner (List.cons_ne_nil _ outer)
    have popped : Inside kind start before outer { r.release with
        phase := .between, frames := inner ++ ⟨kind, before ++ ss, held, start⟩ :: outer } :=
      ⟨inner, ss, held, rfl⟩
    have keeps := keeps_closed (r := { r.release with
        phase := .between, frames := inner ++ ⟨kind, before ++ ss, held, start⟩ :: outer }) around g
    exact .stays keeps.ready keeps.held (keeps.inside popped)

theorem keeps_completeLine (kind : LineKind) (buffer : List PlacedToken) (start line : Line) :
    Keeps r (r.completeLine kind buffer start line).1 := by
  unfold completeLine
  split
  · exact keeps_goto r _
  · exact (keeps_emit inside.nonempty _).trans (keeps_goto _ _)
  · exact (keeps_emit inside.nonempty _).trans (keeps_goto _ _)
  · exact keeps_goto r _
  · exact (keeps_emit inside.nonempty _).trans (keeps_goto _ _)
  · exact keeps_goto r _

theorem steps_lineToken {lineKind : LineKind} {buffer : List PlacedToken} {depth : Nat}
    {began : Line} {t : PlacedToken}
    (fed : r.lineToken lineKind buffer depth began t = accept r') :
    Steps kind start before outer r r' := by
  have completed := keeps_completeLine inside lineKind buffer began t.line
  have stays (phase : Phase) : Keeps r (r.goto phase) := keeps_goto r phase
  simp only [lineToken] at fed
  split at fed
  · exact Keeps.steps inside (stays _) fed
  · exact Keeps.steps inside (stays _) fed
  · split at fed <;> exact Keeps.steps inside (stays _) fed
  · split at fed <;> exact Keeps.steps inside (stays _) fed
  · split at fed
    · exact completed.steps inside fed
    · exact Keeps.steps inside (stays _) fed
  · split at fed
    · -- the line ends before the brace closes
      obtain ⟨r₁, ended, fed⟩ := exists_of_andThen fed
      rw [ended] at completed
      exact .of_keeps completed (steps_closeFrame (completed.inside inside) t.line fed)
    · exact Keeps.steps inside (stays _) fed
  · exact Keeps.steps inside (stays _) fed
  · exact Keeps.steps inside (stays _) fed

theorem steps_clauseToken (header : HeaderKind) {depth : Int} {buffer : List PlacedToken}
    {clauses : List (List PlacedToken)} {began : Line} {t : PlacedToken}
    (fed : r.clauseToken header depth buffer clauses began t = accept r') :
    Steps kind start before outer r r' := by
  have stays (phase : Phase) : Keeps r (r.goto phase) := keeps_goto r phase
  simp only [clauseToken, completeHeader] at fed
  repeat' split at fed
  all_goals exact Keeps.steps inside (stays _) fed

theorem steps_startToken {t : PlacedToken} (fed : r.startToken t = accept r') :
    Steps kind start before outer r r' := by
  unfold startToken at fed
  split at fed
  · exact Keeps.steps inside (.refl r) fed
  · exact Keeps.steps inside (keeps_openFrame r _ _) fed
  · exact steps_closeFrame inside t.line fed
  · exact Keeps.steps inside (keeps_goto r _) fed
  · exact Keeps.steps inside (keeps_goto r _) fed
  · exact Keeps.steps inside (keeps_goto r _) fed
  · exact Keeps.steps inside (keeps_goto r _) fed
  · exact Keeps.steps inside (keeps_goto r _) fed
  · exact Keeps.steps inside (keeps_goto r _) fed
  · exact Keeps.steps inside (keeps_goto r _) fed
  · exact Keeps.steps inside (keeps_goto r _) fed
  · exact Keeps.steps inside (keeps_goto r _) fed
  · exact steps_lineToken inside fed

theorem steps_beginToken {t : PlacedToken} (fed : r.beginToken t = accept r') :
    Steps kind start before outer r r' := by
  have released := keeps_release inside.nonempty
  unfold beginToken at fed
  split at fed
  · exact Keeps.steps inside ((keeps_hold inside.nonempty none).trans (keeps_goto _ _)) fed
  · exact Keeps.steps inside (.refl r) fed
  · exact .of_keeps released (steps_startToken (released.inside inside) fed)

/-- A token inside a brace. -/
theorem steps_feed {t : PlacedToken} (fed : r.feed t = accept r') :
    Steps kind start before outer r r' := by
  refine .of_keeps (keeps_line r t.line) ?_
  have inside : Inside kind start before outer { r with line := t.line } := inside
  unfold feed at fed
  generalize { r with line := t.line } = r at fed inside
  dsimp only at fed
  split at fed
  · exact steps_beginToken inside fed
  · exact steps_lineToken inside fed
  · unfold functionNameToken at fed
    split at fed
    · exact Keeps.steps inside (keeps_goto r _) fed
    · exact Keeps.steps inside (keeps_goto r _) fed
    · exact Keeps.steps inside (.refl r) fed
  · unfold parameterToken at fed
    repeat' split at fed
    all_goals first
      | exact Keeps.steps inside (keeps_openFrame r _ _) fed
      | exact Keeps.steps inside (keeps_goto r _) fed
  · unfold variableToken at fed
    split at fed
    · exact Keeps.steps inside (keeps_goto r _) fed
    · exact Keeps.steps inside (.refl r) fed
    · exact Keeps.steps inside ((keeps_emit inside.nonempty _).trans (keeps_goto _ _)) fed
    · exact Keeps.steps inside (keeps_goto r _) fed
    · exact steps_lineToken inside fed
  · unfold classNameToken at fed
    split at fed
    · exact Keeps.steps inside (keeps_goto r _) fed
    · exact Keeps.steps inside (.refl r) fed
  · unfold baseToken at fed
    split at fed
    · exact Keeps.steps inside (keeps_goto r _) fed
    · exact Keeps.steps inside (keeps_openFrame r _ _) fed
    · exact Keeps.steps inside (keeps_goto r _) fed
    · exact Keeps.steps inside (.refl r) fed
  · unfold elseToken at fed
    split at fed
    · exact Keeps.steps inside (keeps_goto r _) fed
    · exact Keeps.steps inside (keeps_openFrame r _ _) fed
    · exact Keeps.steps inside (.refl r) fed
  · unfold headerToken at fed
    split at fed
    · exact Keeps.steps inside (keeps_goto r _) fed
    · exact Keeps.steps inside (.refl r) fed
    · exact steps_clauseToken inside _ fed
    · exact Keeps.steps inside (keeps_openFrame r _ _) fed
    · exact Keeps.steps inside (keeps_goto r _) fed
  · unfold importToken at fed
    split at fed
    · exact Keeps.steps inside ((keeps_emit inside.nonempty _).trans (keeps_goto _ _)) fed
    · exact Keeps.steps inside (.refl r) fed

end

/-- A run inside a brace: the brace is still open, or the last token of a first part closed it. -/
inductive Runs (kind : FrameKind) (start : Line) (before : List Stmt) (outer : List Frame)
    (r : StatementReader) : List PlacedToken → StatementReader → Prop where
  | inside {us : List PlacedToken} {r' : StatementReader} : r'.ready = r.ready → r'.held = r.held →
      Inside kind start before outer r' → Runs kind start before outer r us r'
  | closed {us vs : List PlacedToken} {r' : StatementReader} {ss : List Stmt} {held : Option Chain}
      {l : Line} :
      feedAll r us = accept
        (closed ⟨.between, outer, r.held, r.ready, l⟩ ⟨kind, before ++ ss, held, start⟩) →
        Runs kind start before outer r (us ++ vs) r'

theorem runs_of_feedAll {us : List PlacedToken} (inside : Inside kind start before outer r)
    (fed : feedAll r us = accept r') : Runs kind start before outer r us r' := by
  induction us generalizing r with
  | nil =>
    obtain rfl := eq_of_accept fed
    exact .inside rfl rfl inside
  | cons t us ih =>
    obtain ⟨r₁, first, rest⟩ := exists_of_andThen fed
    cases steps_feed inside first with
    | stays ready held inside =>
      cases ih inside rest with
      | inside ready' held' inside' =>
        exact .inside (ready'.trans ready) (held'.trans held) inside'
      | @closed us vs _ ss held' l closes =>
        have whole : feedAll r (t :: us) = accept
            (closed ⟨.between, outer, r.held, r.ready, l⟩ ⟨kind, before ++ ss, held', start⟩) := by
          rw [feedAll, first, ← held, ← ready]
          exact closes
        exact .closed whole
    | @closes ss held l =>
      have whole : feedAll r [t] = accept
          (closed ⟨.between, outer, r.held, r.ready, l⟩ ⟨kind, before ++ ss, held, start⟩) := by
        rw [feedAll, first]
        rfl
      exact .closed whole

end Scriptlet.StatementReader
