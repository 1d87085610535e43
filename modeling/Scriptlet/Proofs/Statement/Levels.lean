import Scriptlet.Proofs.Statement.Braces
import Scriptlet.Proofs.Statement.Grammar

/-!
# The levels of a reader

A reader has one level at the top and one in each open brace. `Levels` says which tokens belong to
which level: the statements of a level are what its tokens spell, the chain that it holds back is
what its last tokens spell, and around an open brace nothing is held back. Tokens that are levels
are read as these levels (`Levels.fed`).
-/

namespace Scriptlet.StatementReader

variable {r r' : StatementReader}

/-- The statements of the innermost level. -/
def innermost (r : StatementReader) : List Stmt :=
  match r.frames with
  | [] => r.ready
  | f :: _ => f.statements

@[simp] theorem innermost_emit (s : Stmt) : (r.emit s).innermost = r.innermost ++ [s] := by
  simp only [emit, innermost]
  cases r.frames <;> rfl

@[simp] theorem innermost_hold (c : Option Chain) : (r.hold c).innermost = r.innermost := by
  simp only [hold, innermost]
  cases r.frames <;> rfl

/-- A reader that is another one with one more open brace. -/
structure Within (f : Frame) (outer r : StatementReader) : Prop where
  frames : r.frames = f :: outer.frames
  held : r.held = outer.held
  ready : r.ready = outer.ready

theorem Within.innermost {f : Frame} {outer : StatementReader} (h : Within f outer r) :
    r.innermost = f.statements := by
  rw [StatementReader.innermost, h.frames]

theorem Within.innermostHeld {f : Frame} {outer : StatementReader} (h : Within f outer r) :
    r.innermostHeld = f.held := by
  rw [StatementReader.innermostHeld, h.frames]

theorem Within.emit {f : Frame} {outer : StatementReader} (h : Within f outer r) (s : Stmt) :
    Within { f with statements := f.statements ++ [s] } outer (r.emit s) := by
  simp only [StatementReader.emit, h.frames]
  exact ⟨rfl, h.held, h.ready⟩

theorem Within.hold {f : Frame} {outer : StatementReader} (h : Within f outer r)
    (c : Option Chain) : Within { f with held := c } outer (r.hold c) := by
  simp only [StatementReader.hold, h.frames]
  exact ⟨rfl, h.held, h.ready⟩

/-- A change in the innermost level. -/
structure SameAround (r r' : StatementReader) : Prop where
  top : r.frames = [] → r'.frames = []
  within : ∀ {f outer}, Within f outer r →
    ∃ f', Within f' outer r' ∧ f'.kind = f.kind ∧ f'.line = f.line

theorem SameAround.refl (r : StatementReader) : SameAround r r :=
  ⟨id, fun within => ⟨_, within, rfl, rfl⟩⟩

theorem SameAround.trans {r'' : StatementReader} (first : SameAround r r')
    (second : SameAround r' r'') : SameAround r r'' := by
  refine ⟨fun top => second.top (first.top top), fun within => ?_⟩
  obtain ⟨f', within', kind', line'⟩ := first.within within
  obtain ⟨f'', within'', kind'', line''⟩ := second.within within'
  exact ⟨f'', within'', kind''.trans kind', line''.trans line'⟩

theorem sameAround_goto (r : StatementReader) (p : Phase) : SameAround r (r.goto p) :=
  ⟨id, fun within => ⟨_, ⟨within.frames, within.held, within.ready⟩, rfl, rfl⟩⟩

theorem sameAround_emit (r : StatementReader) (s : Stmt) : SameAround r (r.emit s) := by
  refine ⟨fun top => ?_, fun within => ⟨_, within.emit s, rfl, rfl⟩⟩
  simp only [emit, top]

theorem sameAround_hold (r : StatementReader) (c : Option Chain) : SameAround r (r.hold c) := by
  refine ⟨fun top => ?_, fun within => ⟨_, within.hold c, rfl, rfl⟩⟩
  simp only [hold, top]

end Scriptlet.StatementReader

namespace Scriptlet.Grammar

open Scriptlet.StatementReader

variable {r r' : StatementReader} {ts us vs : List PlacedToken}

/-! ## Levels -/

/-- The statements of a level and the chain that it holds back, with its tokens. -/
inductive Level : List Stmt → Option Chain → List PlacedToken → Prop where
  | free {ss : List Stmt} {ts : List PlacedToken} : Spells (.all ss) ts → Level ss none ts
  | held {ss : List Stmt} {c : Chain} {ts us : List PlacedToken} :
      Spells (.all ss) ts → Spells (.branches c.branches c.line) us → Level ss (some c) (ts ++ us)

theorem Level.all {ss : List Stmt} (h : Level ss none ts) : Spells (.all ss) ts := by
  cases h with
  | free all => exact all

/-- What stands before the statements in a brace, up to the brace; the branches before belong to
it. -/
inductive Begins : FrameKind → Line → List PlacedToken → Prop where
  | construct {kind : FrameKind} {l : Line} {ts : List PlacedToken} :
      Opens kind l ts → Begins kind l ts
  | first {test : Expr} {l : Line} {ts : List PlacedToken} :
      Header (.branch none) (.branch (some test) none) ts →
        Begins (.branch (some test) none) l (⟨.keyword .ifWord, l⟩ :: ts)
  | later {c : Chain} {test : Expr} {l l' : Line} {us ts : List PlacedToken} :
      Spells (.branches c.branches c.line) us →
        Header (.branch (some c)) (.branch (some test) (some c)) ts →
          Begins (.branch (some test) (some c)) l
            (us ++ ⟨.keyword .elseWord, l'⟩ :: ⟨.keyword .ifWord, l⟩ :: ts)
  | otherwise {c : Chain} {l l' : Line} {us : List PlacedToken} :
      Spells (.branches c.branches c.line) us →
        Begins (.branch none (some c)) l
          (us ++ [⟨.keyword .elseWord, l⟩, ⟨.mark .leftBrace, l'⟩])

/-- The tokens of all levels of a reader. -/
inductive Levels : StatementReader → List PlacedToken → Prop where
  | top {r : StatementReader} {ts : List PlacedToken} :
      r.frames = [] → Level r.ready r.held ts → Levels r ts
  | within {r outer : StatementReader} {f : Frame} {us head vs : List PlacedToken} :
      Within f outer r → Levels outer us → outer.innermostHeld = none →
        Begins f.kind f.line head → Level f.statements f.held vs → Levels r (us ++ (head ++ vs))

theorem Levels.congr (h : Levels r ts) (frames : r'.frames = r.frames) (held : r'.held = r.held)
    (ready : r'.ready = r.ready) : Levels r' ts := by
  cases h with
  | top top level => exact .top (frames.trans top) (by rwa [held, ready])
  | within within around free begins level =>
    exact .within ⟨frames.trans within.frames, held.trans within.held, ready.trans within.ready⟩
      around free begins level

theorem levels_goto (h : Levels r ts) (p : Phase) : Levels (r.goto p) ts := h.congr rfl rfl rfl

/-- The innermost level is the last one, and may be changed by itself. -/
theorem Levels.split (h : Levels r ts) :
    ∃ us vs, ts = us ++ vs ∧ Level r.innermost r.innermostHeld vs ∧
      ∀ {r'}, SameAround r r' → ∀ {vs'}, Level r'.innermost r'.innermostHeld vs' →
        Levels r' (us ++ vs') := by
  cases h with
  | top top level =>
    refine ⟨[], ts, rfl, ?_, fun same _ level' => ?_⟩
    · rwa [innermost, innermostHeld, top]
    · have top' := same.top top
      rw [innermost, innermostHeld, top'] at level'
      exact .top top' level'
  | @within _ outer f us head vs within around free begins level =>
    refine ⟨us ++ head, vs, (List.append_assoc ..).symm, ?_, fun same vs' level' => ?_⟩
    · rwa [within.innermost, within.innermostHeld]
    · obtain ⟨f', within', kind, line⟩ := same.within within
      rw [within'.innermost, within'.innermostHeld] at level'
      rw [List.append_assoc]
      exact .within within' around free (by rwa [kind, line]) level'

theorem Levels.release (h : Levels r ts) : Levels r.release ts := by
  cases held : r.innermostHeld with
  | none => rwa [release_of_free held]
  | some c =>
    obtain ⟨us, vs, rfl, level, change⟩ := h.split
    rw [held] at level
    cases level with
    | held all branches =>
      rw [StatementReader.release, held]
      refine change ((sameAround_hold r none).trans (sameAround_emit _ _)) ?_
      rw [innermost_emit, innermost_hold, innermostHeld_emit, innermostHeld_hold]
      exact .free (.next all (.choice branches))

section

variable (h : Levels r ts) (free : r.innermostHeld = none)

include h free

theorem Levels.emit {s : Stmt} (one : Spells (.one s) us) : Levels (r.emit s) (ts ++ us) := by
  obtain ⟨us, vs, rfl, level, change⟩ := h.split
  rw [free] at level
  rw [List.append_assoc]
  refine change (sameAround_emit r s) ?_
  rw [innermost_emit, innermostHeld_emit, free]
  exact .free (.next level.all one)

theorem Levels.semicolon (l : Line) : Levels r (ts ++ [⟨.mark .semicolon, l⟩]) := by
  obtain ⟨us, vs, rfl, level, change⟩ := h.split
  rw [free] at level
  rw [List.append_assoc]
  refine change (.refl r) ?_
  rw [free]
  exact .free (.semicolon level.all)

theorem Levels.hold {c : Chain} (branches : Spells (.branches c.branches c.line) us) :
    Levels (r.hold (some c)) (ts ++ us) := by
  obtain ⟨us, vs, rfl, level, change⟩ := h.split
  rw [free] at level
  rw [List.append_assoc]
  refine change (sameAround_hold r (some c)) ?_
  rw [innermost_hold, innermostHeld_hold]
  exact .held level.all branches

theorem Levels.openFrame {kind : FrameKind} {l : Line} {head : List PlacedToken}
    (begins : Begins kind l head) : Levels (r.openFrame kind l) (ts ++ head) := by
  have within : Within ⟨kind, [], none, l⟩ r (r.openFrame kind l) := ⟨rfl, rfl, rfl⟩
  have whole := Levels.within within h free begins (.free .nil)
  rwa [List.append_nil] at whole

/-- A brace that is closed. -/
theorem Levels.closed {f : Frame} {l : Line} {head : List PlacedToken} (complete : f.held = none)
    (begins : Begins f.kind f.line head) (inside : Spells (.inside f.statements) us) :
    Levels (r.closed f) (ts ++ (head ++ (us ++ [⟨.mark .rightBrace, l⟩]))) := by
  obtain ⟨kind, statements, held, line⟩ := f
  obtain rfl : held = none := complete
  cases begins with
  | construct opens =>
    rw [opens.closed]
    exact h.emit free (.braced opens inside)
  | first header => exact h.hold free (.first header inside)
  | later before header =>
    rw [List.append_assoc]
    exact h.hold free (.later before header inside)
  | otherwise before =>
    rw [List.append_assoc]
    exact h.emit free (.otherwise before inside)

end

/-- The chain that is held back is what the last tokens spell. -/
theorem Levels.unhold {c : Chain} (h : Levels r ts) (held : r.innermostHeld = some c) :
    ∃ us vs, ts = us ++ vs ∧ Levels (r.hold none) us ∧ Spells (.branches c.branches c.line) vs := by
  obtain ⟨us, vs, rfl, level, change⟩ := h.split
  rw [held] at level
  cases level with
  | @held _ ws bs all branches =>
    refine ⟨us ++ ws, bs, (List.append_assoc ..).symm, ?_, branches⟩
    refine change (sameAround_hold r none) ?_
    rw [innermost_hold, innermostHeld_hold]
    exact .free all

/-- A closing brace after the statements in it, the last of which may be a line without its end. -/
theorem levels_closeFrame {l : Line} {ws : List PlacedToken} {ended : StatementReader}
    (h : Levels r ts) (free : r.innermostHeld = none)
    (inside : ∀ {us}, Spells (.all r.innermost) us → Spells (.inside ended.innermost) (us ++ ws))
    (same : SameAround r ended) (complete : ended.innermostHeld = none)
    (fed : ended.closeFrame l = accept r') :
    r'.phase = .between ∧ Levels r' (ts ++ (ws ++ [⟨.mark .rightBrace, l⟩])) := by
  unfold StatementReader.closeFrame at fed
  rw [release_of_free complete] at fed
  cases h with
  | top top level =>
    rw [same.top top] at fed
    cases fed
  | @within _ outer f us head vs within around freeAround begins level =>
    obtain ⟨f', within', kind, line⟩ := same.within within
    rw [within.innermostHeld] at free
    rw [within.innermost, within'.innermost] at inside
    rw [free] at level
    rw [within'.innermostHeld] at complete
    rw [within'.frames] at fed
    obtain rfl := eq_of_accept fed
    have around' : Levels { ended with phase := .between, frames := outer.frames } us :=
      around.congr rfl within'.held within'.ready
    have free' : StatementReader.innermostHeld
        { ended with phase := .between, frames := outer.frames } = none := by
      simpa only [StatementReader.innermostHeld, within'.held] using freeAround
    have closed := around'.closed (l := l) free' complete (by rwa [kind, line]) (inside level.all)
    exact ⟨phase_closed _ _, by simpa only [List.append_assoc] using closed⟩

/-! ## The tokens of levels are read -/

theorem Begins.fed {kind : FrameKind} {l : Line} (h : Begins kind l ts)
    (between : r.phase = .between) : Feeds r ts (r.release.openFrame kind l) := by
  cases h with
  | construct opens => exact opens.fed between
  | first header => exact feeds_first header l between
  | later before header => exact feeds_later before.fed header l _ between
  | otherwise before => exact feeds_otherwise before.fed l _ between

/-- The tokens of levels, the innermost of which holds nothing back, lead to these levels. -/
theorem Levels.fed (h : Levels r ts) (free : r.innermostHeld = none) :
    ∃ r₀ l, Feeds .new ts r₀ ∧ r₀.phase = .between ∧
      r₀.release = { r with phase := .between, line := l } := by
  induction h with
  | @top r ts top level =>
    obtain ⟨phase, frames, held, ready, line⟩ := r
    obtain rfl : frames = [] := top
    obtain rfl : held = none := free
    obtain ⟨r₀, fed, between, released⟩ := level.all.fed .new rfl
    refine ⟨r₀, 0, fed, between, ?_⟩
    rw [released, release_of_free rfl, foldl_emit_top ready rfl]
    rfl
  | @within r outer f us head vs within _ freeAround begins level ih =>
    obtain ⟨r₀, l, fed, between, released⟩ := ih freeAround
    rw [within.innermostHeld] at free
    rw [free] at level
    have opened := begins.fed between
    rw [released] at opened
    obtain ⟨r₁, fed', between', released'⟩ := level.all.fed
      ({ outer with phase := .between, line := l }.openFrame f.kind f.line) rfl
    refine ⟨r₁, l, fed.append (opened.append fed'), between', ?_⟩
    rw [released', foldl_emit_openFrame]
    obtain ⟨phase, frames, held, ready, line⟩ := r
    obtain ⟨kind, statements, held', start⟩ := f
    obtain rfl : held' = none := free
    obtain ⟨rfl, rfl, rfl⟩ := within
    rfl

end Scriptlet.Grammar
