import Scriptlet.Proofs.Statement.Parsed
import Scriptlet.Proofs.Statement.Ready

/-!
# Where an `else` belongs

An `else` between statements is read exactly when the last token has closed a branch with a test in
the innermost open brace, and then belongs to the chain of this branch and to no other. Whatever
follows, the chain comes out once: with the branch that the `else` begins, or, if another token
follows, as a statement of its own before the statements after it.
-/

namespace Scriptlet.StatementReader

open Scriptlet.Grammar (Spells Levels parsed_of_feedAll)

variable {r r' r₀ : StatementReader} {c : Chain} {ts : List PlacedToken}

/-- Whether the last token of a run has closed a branch with a test. The run ends with the branches
of a chain, and before the first one its reader was between statements. -/
def EndsBranch (c : Chain) (r₀ : StatementReader) (ts : List PlacedToken) : Prop :=
  ∃ us vs l, ts = us ++ (vs ++ [⟨.mark .rightBrace, l⟩]) ∧ feedAll .new us = accept r₀ ∧
    r₀.phase = .between ∧
      Spells (.branches c.branches c.line) (vs ++ [⟨.mark .rightBrace, l⟩])

theorem exists_last_of_branches {bs : List Branch} {l : Line} (h : Spells (.branches bs l) ts) :
    ∃ vs k, ts = vs ++ [⟨.mark .rightBrace, k⟩] := by
  generalize same : Grammar.Form.branches bs l = form at h
  cases h with
  | @first test l l' ss head ts _ _ =>
    exact ⟨⟨.keyword .ifWord, l⟩ :: (head ++ ts), l', by simp⟩
  | @later c test l l₁ l₂ ss us head ts _ _ _ =>
    exact ⟨us ++ ⟨.keyword .elseWord, l₁⟩ :: ⟨.keyword .ifWord, l⟩ :: (head ++ ts), l₂, by simp⟩
  | _ => cases same

/-- The tokens of a reader between statements are those of its levels. -/
theorem levels_of_feedAll (fed : feedAll .new ts = accept r) (between : r.phase = .between) :
    Levels r ts := by
  cases parsed_of_feedAll fed with
  | between _ levels => exact levels
  | within _ _ started =>
    rw [between] at started
    cases started

/-- A chain that is held back ends with the last token. -/
theorem exists_endsBranch (fed : feedAll .new ts = accept r) (between : r.phase = .between)
    (held : r.innermostHeld = some c) : ∃ r₀, EndsBranch c r₀ ts := by
  obtain ⟨us, vs, rfl, before, branches⟩ := (levels_of_feedAll fed between).unhold held
  obtain ⟨r₀, -, ⟨l, read⟩, between₀, -⟩ := before.fed (innermostHeld_hold r none)
  obtain ⟨vs, k, rfl⟩ := exists_last_of_branches branches
  exact ⟨{ r₀ with line := l }, us, vs, k, rfl, read, between₀, branches⟩

/-- The chain that ends with the last token is held back where it began. -/
theorem EndsBranch.held (ends : EndsBranch c r₀ ts) (fed : feedAll .new ts = accept r) :
    ∃ l, r = { r₀.release.hold (some c) with line := l } := by
  obtain ⟨us, vs, k, rfl, read, between, branches⟩ := ends
  obtain ⟨l, later⟩ := branches.fed r₀ between
  rw [feedAll_append, read] at fed
  exact ⟨l, eq_of_accept (fed.symm.trans later)⟩

theorem EndsBranch.innermostHeld (ends : EndsBranch c r₀ ts) (fed : feedAll .new ts = accept r) :
    r.innermostHeld = some c := by
  obtain ⟨l, rfl⟩ := ends.held fed
  exact innermostHeld_hold r₀.release (some c)

/-! ## The branch after an `else` -/

/-- The reader with one more branch of a chain. A branch without a test is the last one. -/
def join (r : StatementReader) (c : Chain) (b : Branch) : StatementReader :=
  if b.test.isNone then r.emit (.choice (c.branches ++ [b]) c.line)
  else r.hold (some { c with branches := c.branches ++ [b] })

/-- Whether what comes next is the rest of an `else` after a chain, up to the opening brace. -/
inductive Carries (c : Chain) : Phase → Prop where
  | afterElse {l : Line} : Carries c (.afterElse c l)
  | header {stage : HeaderStage} {l : Line} :
      (∀ frame cs, stage = .complete frame cs → ∃ test, frame = .branch test (some c)) →
        Carries c (.header (.branch (some c)) stage l)

/-- Whether the branch that an `else` after a chain begins is open, and what is around it is as it
was without the chain. -/
structure Opened (c : Chain) (r : StatementReader) (test : Option Expr) (start : Line)
    (r₁ : StatementReader) : Prop where
  inside : Inside (.branch test (some c)) start [] (r.hold none).frames r₁
  held : r₁.held = (r.hold none).held
  ready : r₁.ready = (r.hold none).ready

/-- What has become of a chain since an `else`: the branch that it begins is not open yet, or is
open, or has been closed and appended to the chain. Nothing else changes around it before that. -/
inductive Continues (c : Chain) (r : StatementReader) :
    List PlacedToken → StatementReader → Prop where
  | waiting {us : List PlacedToken} {p : Phase} {l : Line} :
      Carries c p → Continues c r us { (r.hold none).goto p with line := l }
  | opened {us : List PlacedToken} {r' : StatementReader} {test : Option Expr} {start : Line} :
      Opened c r test start r' → Continues c r us r'
  | joined {us vs ws : List PlacedToken} {r' : StatementReader} {test : Option Expr}
      {ss : List Stmt} {start l l' : Line} :
      feedAll r us =
        accept { (r.hold none).openFrame (.branch test (some c)) start with line := l } →
        feedAll r (us ++ vs) =
          accept { (r.hold none).join c (.mk test ss start) with line := l' } →
          Continues c r (us ++ (vs ++ ws)) r'

/-- A token between the parentheses after `else if`. -/
theorem carries_clauseToken {depth : Int} {buffer : List PlacedToken}
    {cs : List (List PlacedToken)} {start : Line} {t : PlacedToken}
    (fed : r.clauseToken (.branch (some c)) depth buffer cs start t = accept r') :
    ∃ p, Carries c p ∧ r' = r.goto p := by
  have inside {depth : Int} {buffer : List PlacedToken} {cs : List (List PlacedToken)}
      (fed : accept (r.goto (.header (.branch (some c)) (.inside depth buffer cs) start)) =
        accept r') : ∃ p, Carries c p ∧ r' = r.goto p :=
    ⟨_, .header (by simp), (eq_of_accept fed).symm⟩
  simp only [clauseToken] at fed
  split at fed
  · exact inside fed
  · exact inside fed
  · split at fed
    · unfold completeHeader at fed
      split at fed
      · next frame made =>
        refine ⟨_, .header ?_, (eq_of_accept fed).symm⟩
        rintro _ _ ⟨⟩
        obtain ⟨test, rfl⟩ := (Grammar.heads_of_ok made).frame_eq
        exact ⟨_, rfl⟩
      · cases fed
    · exact inside fed
  · split at fed
    · cases fed
    · exact inside fed
  · split at fed
    · exact inside fed
    · cases fed
  · cases fed
  · cases fed
  · exact inside fed

/-- A token between an `else` and the opening brace after it. -/
theorem Carries.feed {t : PlacedToken} (carries : Carries c r.phase) (fed : r.feed t = accept r') :
    ∃ p, (Carries c p ∧ r' = { r.goto p with line := t.line }) ∨
      ∃ test start, r' = { r.openFrame (.branch test (some c)) start with line := t.line } := by
  obtain ⟨phase, frames, held, ready, line⟩ := r
  cases carries with
  | afterElse =>
    simp only [StatementReader.feed, elseToken] at fed
    split at fed
    · exact ⟨_, .inl ⟨.header (by simp), (eq_of_accept fed).symm⟩⟩
    · exact ⟨.between, .inr ⟨_, _, (eq_of_accept fed).symm⟩⟩
    · cases fed
  | header carried =>
    simp only [StatementReader.feed, headerToken] at fed
    split at fed
    · exact ⟨_, .inl ⟨.header (by simp), (eq_of_accept fed).symm⟩⟩
    · cases fed
    · obtain ⟨p, carries, rfl⟩ := carries_clauseToken fed
      exact ⟨p, .inl ⟨carries, rfl⟩⟩
    · obtain ⟨test, rfl⟩ := carried _ _ rfl
      exact ⟨.between, .inr ⟨test, _, (eq_of_accept fed).symm⟩⟩
    · cases fed

/-- A branch that is closed is appended to its chain. -/
theorem closed_branch (between : r.phase = .between) (c : Chain) (test : Option Expr)
    (ss : List Stmt) (held : Option Chain) (start l : Line) :
    closed ⟨.between, r.frames, r.held, r.ready, l⟩ ⟨.branch test (some c), ss, held, start⟩ =
      { r.join c (.mk test ss start) with line := l } := by
  obtain ⟨phase, frames, held', ready, line⟩ := r
  obtain rfl : phase = .between := between
  cases test <;> cases frames <;> rfl

/-- An open branch stays open, or is closed and appended to its chain. -/
theorem Opened.feed {test : Option Expr} {start : Line} {r₁ r₂ : StatementReader} {t : PlacedToken}
    (opened : Opened c r test start r₁) (between : r.phase = .between)
    (fed : r₁.feed t = accept r₂) :
    Opened c r test start r₂ ∨
      ∃ ss l, r₂ = { (r.hold none).join c (.mk test ss start) with line := l } := by
  have between' : (r.hold none).phase = .between := by rw [phase_hold, between]
  cases steps_feed opened.inside fed with
  | stays ready held inside =>
    exact .inl ⟨inside, held.trans opened.held, ready.trans opened.ready⟩
  | @closes ss held l =>
    refine .inr ⟨ss, l, ?_⟩
    rw [opened.held, opened.ready]
    exact closed_branch between' c test ss held start l

theorem continues_of_carries {us vs : List PlacedToken} {p : Phase} {l : Line}
    (between : r.phase = .between) (carries : Carries c p)
    (read : feedAll r us = accept { (r.hold none).goto p with line := l })
    (fed : feedAll { (r.hold none).goto p with line := l } vs = accept r') :
    Continues c r (us ++ vs) r' := by
  induction vs generalizing us p l with
  | nil =>
    obtain rfl := eq_of_accept fed
    exact .waiting carries
  | cons t vs ih =>
    obtain ⟨r₂, first, rest⟩ := exists_of_andThen fed
    have read' : feedAll r (us ++ [t]) = accept r₂ := by
      rw [feedAll_append_of_accept read, feedAll, first]
      rfl
    rw [List.append_cons]
    obtain ⟨p', ⟨carries', rfl⟩ | ⟨test, start, rfl⟩⟩ := Carries.feed carries first
    · exact ih carries' read' rest
    · have opened : Inside (.branch test (some c)) start [] (r.hold none).frames
          { (r.hold none).openFrame (.branch test (some c)) start with line := t.line } :=
        ⟨[], [], none, rfl⟩
      cases runs_of_feedAll opened rest with
      | inside ready held inside => exact .opened ⟨inside, held, ready⟩
      | @closed vs ws _ ss held l' closes =>
        have between' : (r.hold none).phase = .between := by rw [phase_hold, between]
        have whole : feedAll r (us ++ [t] ++ vs) =
            accept { (r.hold none).join c (.mk test ss start) with line := l' } := by
          rw [feedAll_append_of_accept read', ← closed_branch between' c test ss held start l']
          exact closes
        exact .joined read' whole

/-! ## A chain that is complete -/

/-- A statement of the innermost level, where it stays while the level goes on. -/
inductive Follows (s : Stmt) (r : StatementReader) (us : List PlacedToken) (r' : StatementReader) :
    Prop where
  | top {ss : List Stmt} : r.frames = [] → r'.ready = r.ready ++ s :: ss → Follows s r us r'
  | brace {f : Frame} {outer : List Frame} : r.frames = f :: outer →
      Runs f.kind f.line (f.statements ++ [s]) outer (r.emit s) us r' → Follows s r us r'

theorem follows_of_feedAll {s : Stmt} {us : List PlacedToken}
    (fed : feedAll (r.emit s) us = accept r') : Follows s r us r' := by
  cases frames : r.frames with
  | nil =>
    have emitted : r.emit s = (r.takeReady.2).after (r.ready ++ [s]) := by
      simp only [emit, frames, takeReady, after, List.append_nil]
    rw [emitted, feedAll_after] at fed
    have later : r' = (feedAll r.takeReady.2 us).1.after (r.ready ++ [s]) :=
      (congrArg Prod.fst fed).symm
    have grown : r'.ready = r.ready ++ s :: (feedAll r.takeReady.2 us).1.ready := by
      rw [later]
      exact List.append_assoc ..
    exact .top frames grown
  | cons f outer =>
    refine .brace frames (runs_of_feedAll ⟨[], [], f.held, ?_⟩ fed)
    simp only [emit, frames, List.append_nil, List.nil_append]

/-! ## Every `else` between statements -/

/-- What an `else` does after a run that ends between statements, and what becomes of the chain that
the run ends with. -/
structure PlacesElse (ts : List PlacedToken) (r : StatementReader) : Prop where
  /-- The statements of each level, each complete chain among them, are what its tokens spell. -/
  levels : Levels r ts
  reads : ∀ l, (∃ r', r.feed ⟨.keyword .elseWord, l⟩ = accept r') ↔ ∃ c r₀, EndsBranch c r₀ ts
  unique : ∀ {c c' r₀ r₀'}, EndsBranch c r₀ ts → EndsBranch c' r₀' ts → c = c'
  refuses : (¬ ∃ c r₀, EndsBranch c r₀ ts) → ∀ l,
    r.feed ⟨.keyword .elseWord, l⟩ = refuse { r with line := l } (.danglingElse l)
  /-- The chain is held back in the brace in which it began. -/
  holds : ∀ {c r₀}, EndsBranch c r₀ ts → ∃ l, r = { r₀.release.hold (some c) with line := l }
  continues : ∀ {c r₀ l us r'}, EndsBranch c r₀ ts →
    feedAll r (⟨.keyword .elseWord, l⟩ :: us) = accept r' →
      Continues c r (⟨.keyword .elseWord, l⟩ :: us) r'
  /-- The token that closes the branch appends it to the chain. -/
  closes : ∀ {c test start r₁ r₂ t}, Opened c r test start r₁ → r₁.feed t = accept r₂ →
    Opened c r test start r₂ ∨
      ∃ ss l, r₂ = { (r.hold none).join c (.mk test ss start) with line := l }
  /-- A token other than `else` completes the chain before it is read. -/
  releases : ∀ {c r₀ t}, EndsBranch c r₀ ts → t.token ≠ .keyword .elseWord →
    r.feed t = ((r.hold none).emit (.choice c.branches c.line)).feed t
  /-- So does the end of the input. -/
  flushes : ∀ {c r₀}, EndsBranch c r₀ ts → r.frames = [] →
    r.flush = accept ((r.hold none).emit (.choice c.branches c.line))
  /-- The chain then stays in its brace, before the statements that are read later. -/
  follows : ∀ {c : Chain} {us r'},
    feedAll ((r.hold none).emit (.choice c.branches c.line)) us = accept r' →
      Follows (.choice c.branches c.line) (r.hold none) us r'

theorem feed_else_of_free (between : r.phase = .between) (free : r.innermostHeld = none) (l : Line) :
    r.feed ⟨.keyword .elseWord, l⟩ = refuse { r with line := l } (.danglingElse l) := by
  obtain ⟨phase, frames, held, ready, line⟩ := r
  obtain rfl : phase = .between := between
  have free : innermostHeld ⟨.between, frames, held, ready, l⟩ = none := free
  simp only [feed, beginToken, free]

/-- A chain that is held back becomes a statement. -/
theorem release_of_held (held : r.innermostHeld = some c) :
    r.release = (r.hold none).emit (.choice c.branches c.line) := by
  simp only [release, held]

/-- Wherever a reader is between statements, an `else` belongs to the chain of the branch that the
last token has closed, or to none. -/
theorem placesElse (fed : feedAll .new ts = accept r) (between : r.phase = .between) :
    PlacesElse ts r where
  levels := levels_of_feedAll fed between
  reads l := by
    constructor
    · rintro ⟨r', read⟩
      cases held : r.innermostHeld with
      | none =>
        rw [feed_else_of_free between held] at read
        cases read
      | some c => exact ⟨c, exists_endsBranch fed between held⟩
    · rintro ⟨c, r₀, ends⟩
      exact ⟨_, feed_else_of_held between (ends.innermostHeld fed) l⟩
  unique ends ends' :=
    Option.some.inj ((ends.innermostHeld fed).symm.trans (ends'.innermostHeld fed))
  refuses none l := by
    cases held : r.innermostHeld with
    | none => exact feed_else_of_free between held l
    | some c => exact absurd ⟨c, exists_endsBranch fed between held⟩ none
  holds ends := ends.held fed
  continues := by
    intro c r₀ l us r' ends later
    obtain ⟨r₁, first, rest⟩ := exists_of_andThen later
    have read : feedAll r [⟨.keyword .elseWord, l⟩] = accept r₁ := by
      rw [feedAll, first]
      rfl
    rw [feed_else_of_held between (ends.innermostHeld fed)] at first
    obtain rfl := eq_of_accept first
    exact continues_of_carries between .afterElse read rest
  closes opened read := opened.feed between read
  releases := by
    intro c r₀ t ends other
    have held := ends.innermostHeld fed
    have free : r.release.innermostHeld = none := innermostHeld_release r
    have between' : r.release.phase = .between := by rw [phase_release, between]
    rw [← release_of_held held, feed_between between other, feed_between between' other,
      release_of_free free]
  flushes := by
    intro c r₀ ends top
    rw [← release_of_held (ends.innermostHeld fed)]
    simp only [flush, top, between]
  follows later := follows_of_feedAll later

/-- The theorem at `{ if (a) { if (b) { } }`, where an `else` belongs to the outer chain. -/
theorem placesElse_nested :
    let ts : List PlacedToken :=
      ([.mark .leftBrace, .keyword .ifWord, .mark .leftParen, .name "a", .mark .rightParen,
        .mark .leftBrace, .keyword .ifWord, .mark .leftParen, .name "b", .mark .rightParen,
        .mark .leftBrace, .mark .rightBrace, .mark .rightBrace] : List Token).map (⟨·, 1⟩)
    let r := (feedAll .new ts).1
    feedAll .new ts = accept r ∧ r.phase = .between ∧ PlacesElse ts r ∧
      ∃ r', r.feed ⟨.keyword .elseWord, 2⟩ = accept r' := by
  intro ts r
  have fed : feedAll .new ts = accept r := Prod.ext rfl rfl
  have between : r.phase = .between := rfl
  exact ⟨fed, between, placesElse fed between, _, rfl⟩

end Scriptlet.StatementReader
