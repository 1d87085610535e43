import Scriptlet.Proofs.Statement.ReadingBack

/-!
# What a reader has handed out

A reader never looks at the statements that it has completed at the top. So it reads the same with
or without the statements before, and whoever feeds it may take them after every token or after
the last one.
-/

namespace Scriptlet.StatementReader

/-- The reader with more statements before those that it has completed. -/
def after (ss : List Stmt) (r : StatementReader) : StatementReader :=
  { r with ready := ss ++ r.ready }

/-- A step of a reader with more statements before those that it has completed. -/
def Step.after (ss : List Stmt) (s : Step) : Step := (s.1.after ss, s.2)

section

variable (ss : List Stmt) (r : StatementReader) (s : Stmt) (p : Phase) (c : Option Chain)

@[simp] theorem after_goto : (r.after ss).goto p = (r.goto p).after ss := rfl

@[simp] theorem accept_after : accept (r.after ss) = (accept r).after ss := rfl

@[simp] theorem refuse_after (e : SyntaxError) : (r.after ss).refuse e = (r.refuse e).after ss := rfl

@[simp] theorem refuseToken_after (t : PlacedToken) :
    (r.after ss).refuseToken t = (r.refuseToken t).after ss := rfl

@[simp] theorem emit_after : (r.after ss).emit s = (r.emit s).after ss := by
  obtain ⟨phase, frames, held, ready, line⟩ := r
  cases frames with
  | nil => simp [emit, after]
  | cons f outer => rfl

@[simp] theorem hold_after : (r.after ss).hold c = (r.hold c).after ss := by
  simp only [hold, after]
  cases r.frames <;> rfl

@[simp] theorem innermostHeld_after : (r.after ss).innermostHeld = r.innermostHeld := rfl

@[simp] theorem release_after : (r.after ss).release = r.release.after ss := by
  simp only [release, innermostHeld_after]
  cases r.innermostHeld <;> simp

@[simp] theorem openFrame_after (kind : FrameKind) (start : Line) :
    (r.after ss).openFrame kind start = (r.openFrame kind start).after ss := rfl

@[simp] theorem closed_after (f : Frame) : (r.after ss).closed f = (r.closed f).after ss := by
  obtain ⟨kind, statements, held, line⟩ := f
  cases kind with
  | branch test earlier => cases test <;> simp [closed]
  | _ => simp [closed]

@[simp] theorem closeFrame_after (line : Line) :
    (r.after ss).closeFrame line = (r.closeFrame line).after ss := by
  have closes (outer : List Frame) (f : Frame) :
      closed { (r.after ss).release with phase := .between, frames := outer } f =
        (closed { r.release with phase := .between, frames := outer } f).after ss := by
    rw [release_after]
    exact closed_after ss { r.release with phase := .between, frames := outer } f
  have frames : (r.after ss).release.frames = r.release.frames := by
    rw [release_after]
    rfl
  simp only [closeFrame, frames]
  cases r.release.frames with
  | nil => rfl
  | cons f outer =>
    dsimp only
    rw [closes, accept_after]

theorem andThen_after (s : Step) (next : StatementReader → Step)
    (later : ∀ r : StatementReader, next (r.after ss) = (next r).after ss) :
    andThen (s.after ss) next = (andThen s next).after ss := by
  obtain ⟨r, _ | e⟩ := s
  · exact later r
  · rfl

@[simp] theorem completeLine_after (kind : LineKind) (buffer : List PlacedToken)
    (start line : Line) :
    (r.after ss).completeLine kind buffer start line =
      (r.completeLine kind buffer start line).after ss := by
  simp only [completeLine]
  split <;> simp

@[simp] theorem lineToken_after (kind : LineKind) (buffer : List PlacedToken) (depth : Nat)
    (start : Line) (t : PlacedToken) :
    (r.after ss).lineToken kind buffer depth start t =
      (r.lineToken kind buffer depth start t).after ss := by
  have closes := andThen_after ss (r.completeLine kind buffer start t.line)
    (closeFrame · t.line) fun r => closeFrame_after ss r t.line
  simp only [lineToken, completeLine_after, closes]
  repeat' split
  all_goals simp

@[simp] theorem clauseToken_after (kind : HeaderKind) (depth : Int) (buffer : List PlacedToken)
    (clauses : List (List PlacedToken)) (start : Line) (t : PlacedToken) :
    (r.after ss).clauseToken kind depth buffer clauses start t =
      (r.clauseToken kind depth buffer clauses start t).after ss := by
  simp only [clauseToken, completeHeader]
  repeat' split
  all_goals simp

@[simp] theorem startToken_after (t : PlacedToken) :
    (r.after ss).startToken t = (r.startToken t).after ss := by
  simp only [startToken]
  split <;> simp

@[simp] theorem beginToken_after (t : PlacedToken) :
    (r.after ss).beginToken t = (r.beginToken t).after ss := by
  simp only [beginToken, innermostHeld_after]
  split <;> simp

end

/-- What a token does to a reader does not depend on the statements that it has completed. -/
theorem feed_after (ss : List Stmt) (r : StatementReader) (t : PlacedToken) :
    (r.after ss).feed t = (r.feed t).after ss := by
  have placed : { r.after ss with line := t.line } =
      StatementReader.after ss { r with line := t.line } := rfl
  unfold feed
  rw [placed]
  generalize { r with line := t.line } = r
  have phase : (r.after ss).phase = r.phase := rfl
  simp only [phase]
  split
  · exact beginToken_after ss _ t
  · exact lineToken_after ss _ _ _ _ _ t
  · unfold functionNameToken
    split <;> simp
  · unfold parameterToken
    repeat' split
    all_goals simp
  · unfold variableToken
    split <;> simp
  · unfold classNameToken
    split <;> simp
  · unfold baseToken
    split <;> simp
  · unfold elseToken
    split <;> simp
  · unfold headerToken
    split <;> simp
  · unfold importToken
    split <;> simp

theorem feedAll_after (ss : List Stmt) (r : StatementReader) (ts : List PlacedToken) :
    feedAll (r.after ss) ts = (feedAll r ts).after ss := by
  induction ts generalizing r with
  | nil => rfl
  | cons t ts ih =>
    rw [feedAll, feedAll, feed_after]
    exact andThen_after ss (r.feed t) (feedAll · ts) ih

theorem takeReady_of_taken {r : StatementReader} (taken : r.ready = []) : r.takeReady.2 = r := by
  obtain ⟨phase, frames, held, ready, line⟩ := r
  obtain rfl : ready = [] := taken
  rfl

theorem after_takeReady (r : StatementReader) : r.takeReady.2.after r.ready = r := by
  obtain ⟨phase, frames, held, ready, line⟩ := r
  simp [takeReady, after]

/-- The tokens after the first one are read in the same way when the statements that the first one
has completed are taken before. -/
theorem feedAll_cons_of_accept {r r₁ : StatementReader} {t : PlacedToken} {ts : List PlacedToken}
    (fed : r.feed t = accept r₁) :
    feedAll r (t :: ts) = (feedAll r₁.takeReady.2 ts).after r₁.ready := by
  rw [← feedAll_after, after_takeReady, feedAll, fed]
  rfl

theorem exists_of_feedAll_cons {r r₁ : StatementReader} {t : PlacedToken} {ts : List PlacedToken}
    (read : feedAll r (t :: ts) = accept r₁) :
    ∃ r₂ r₃, r.feed t = accept r₂ ∧ feedAll r₂.takeReady.2 ts = accept r₃ ∧
      r₁ = r₃.after r₂.ready := by
  obtain ⟨r₂, failure, fed⟩ : ∃ r₂ failure, r.feed t = (r₂, failure) := ⟨_, _, rfl⟩
  cases failure with
  | some e =>
    rw [feedAll, fed] at read
    cases read
  | none =>
    rw [feedAll_cons_of_accept fed] at read
    have accepted : (feedAll r₂.takeReady.2 ts).2 = none := congrArg Prod.snd read
    exact ⟨r₂, (feedAll r₂.takeReady.2 ts).1, fed, Prod.ext rfl accepted,
      (congrArg Prod.fst read).symm⟩

theorem feedAll_append (r : StatementReader) (ts us : List PlacedToken) :
    feedAll r (ts ++ us) = andThen (feedAll r ts) (feedAll · us) := by
  induction ts generalizing r with
  | nil => rfl
  | cons t ts ih =>
    rw [List.cons_append, feedAll, feedAll]
    cases r.feed t with
    | mk r₂ failure =>
      cases failure with
      | none => exact ih r₂
      | some e => rfl

theorem feedAll_append_of_accept {r r₁ : StatementReader} {ts us : List PlacedToken}
    (read : feedAll r ts = accept r₁) : feedAll r (ts ++ us) = feedAll r₁ us := by
  rw [feedAll_append, read]
  rfl

/-- The second of two runs is read in the same way when what the first one has completed is taken
before. -/
theorem exists_of_feedAll_append {r r₁ : StatementReader} {ts us : List PlacedToken}
    (read : feedAll r (ts ++ us) = accept r₁) :
    ∃ r₂ r₃, feedAll r ts = accept r₂ ∧ feedAll r₂.takeReady.2 us = accept r₃ ∧
      r₁ = r₃.after r₂.ready := by
  obtain ⟨r₂, failure, fed⟩ : ∃ r₂ failure, feedAll r ts = (r₂, failure) := ⟨_, _, rfl⟩
  rw [feedAll_append, fed] at read
  cases failure with
  | some e => cases read
  | none =>
    have later : (feedAll r₂.takeReady.2 us).after r₂.ready = accept r₁ := by
      rw [← feedAll_after, after_takeReady]
      exact read
    have accepted : (feedAll r₂.takeReady.2 us).2 = none := congrArg Prod.snd later
    exact ⟨r₂, (feedAll r₂.takeReady.2 us).1, fed, Prod.ext rfl accepted,
      (congrArg Prod.fst later).symm⟩

end Scriptlet.StatementReader
