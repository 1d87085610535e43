import Scriptlet.Proofs.Expr.Rendering
import Scriptlet.Statement.Reader

/-!
# Writing statements

`Stmt.tokens` writes a statement so that a reader gives it back, up to lines and the binding
strengths of calls (`Stmt.bare`). A reader only ever makes statements that can be written
(`Stmt.Regular`), whatever it is fed and whether or not it has refused tokens before.
-/

namespace Scriptlet

open Scriptlet.Expr (Collapsed separated commas parens)

/-! ## Statements without lines -/

mutual

/-- A statement without its lines and binding strengths. -/
def Stmt.bare : Stmt → Stmt
  | .expr e => .expr e.bare
  | .define name initializer _ => .define name initializer.bare 0
  | .function name parameters body _ => .function name parameters (Stmt.bareAll body) 0
  | .classDef name bases body _ => .classDef name bases (Stmt.bareAll body) 0
  | .block body _ => .block (Stmt.bareAll body) 0
  | .ret value _ => .ret (value.map Expr.bare) 0
  | .loop init test iterate body _ =>
    .loop (init.map Expr.bare) (test.map Expr.bare) (iterate.map Expr.bare) (Stmt.bareAll body) 0
  | .foreach name source body _ => .foreach name source.bare (Stmt.bareAll body) 0
  | .choice branches _ => .choice (Branch.bareAll branches) 0
  | .importFile path _ => .importFile path 0

/-- Statements without their lines and binding strengths. -/
def Stmt.bareAll : List Stmt → List Stmt
  | [] => []
  | s :: ss => s.bare :: Stmt.bareAll ss

/-- A branch without its lines and binding strengths. -/
def Branch.bare : Branch → Branch
  | .mk test body _ => .mk (test.map Expr.bare) (Stmt.bareAll body) 0

/-- Branches without their lines and binding strengths. -/
def Branch.bareAll : List Branch → List Branch
  | [] => []
  | b :: bs => b.bare :: Branch.bareAll bs

end

example : (Stmt.block [.ret (some (.named "x" 2)) 2] 1).bare =
    .block [.ret (some (.named "x" 0)) 0] 0 := by cbv

/-! ## The tokens of a statement -/

/-- The tokens of an expression that may be missing. -/
def Expr.optionalTokens : Option Expr → List Token
  | none => []
  | some e => e.tokens

/-- Statements in braces. -/
def braces (w : List Token) : List Token := .mark .leftBrace :: (w ++ [.mark .rightBrace])

/-- The names of the bases of a class, each after a comma. -/
def baseTokens : List String → List Token
  | [] => []
  | base :: bases => .mark .comma :: .name base :: baseTokens bases

mutual

/-- The tokens that a statement is written with. -/
def Stmt.tokens : Stmt → List Token
  | .expr e => e.tokens ++ [.mark .semicolon]
  | .define name initializer _ =>
    .keyword .varWord :: .name name :: .symbol .assign :: (initializer.tokens ++ [.mark .semicolon])
  | .function name parameters body _ =>
    .keyword .funcWord :: .name name ::
      (parens (commas (parameters.map fun p => [.name p])) ++ braces (Stmt.tokensAll body))
  | .classDef name bases body _ =>
    .keyword .classWord :: .name name :: (baseTokens bases ++ braces (Stmt.tokensAll body))
  | .block body _ => braces (Stmt.tokensAll body)
  | .ret value _ => .keyword .returnWord :: (Expr.optionalTokens value ++ [.mark .semicolon])
  | .loop init test iterate body _ =>
    .keyword .forWord ::
      (parens (Expr.optionalTokens init ++ .mark .semicolon :: (Expr.optionalTokens test ++
        .mark .semicolon :: Expr.optionalTokens iterate)) ++ braces (Stmt.tokensAll body))
  | .foreach name source body _ =>
    .keyword .foreachWord ::
      (parens (.name name :: .mark .semicolon :: source.tokens) ++ braces (Stmt.tokensAll body))
  | .choice branches _ => separated (.keyword .elseWord) (Branch.tokensAll branches)
  | .importFile path _ => [.keyword .importWord, .string path, .mark .semicolon]

/-- The tokens of statements, one after another. -/
def Stmt.tokensAll : List Stmt → List Token
  | [] => []
  | s :: ss => s.tokens ++ Stmt.tokensAll ss

/-- The tokens of a branch without the `else` before it. -/
def Branch.tokens : Branch → List Token
  | .mk (some test) body _ => .keyword .ifWord :: (parens test.tokens ++ braces (Stmt.tokensAll body))
  | .mk none body _ => braces (Stmt.tokensAll body)

/-- The tokens of each branch. -/
def Branch.tokensAll : List Branch → List (List Token)
  | [] => []
  | b :: bs => b.tokens :: Branch.tokensAll bs

end

/-! ## What a reader makes -/

/-- Branches of a whole chain: it starts with a test, and only the last branch can have none. -/
def Chained (branches : List Branch) : Prop :=
  ∃ first rest, branches = first :: rest ∧ first.test.isSome = true ∧
    ∀ b ∈ branches.dropLast, b.test.isSome = true

/-- The statements that a reader can make. -/
inductive Stmt.Regular : Stmt → Prop
  | expr {e : Expr} : Collapsed e → Regular (.expr e)
  | define {n : String} {e : Expr} {l : Line} : Collapsed e → Regular (.define n e l)
  | function {n : String} {ps : List String} {body : List Stmt} {l : Line} :
      (∀ s ∈ body, Regular s) → Regular (.function n ps body l)
  | classDef {n : String} {bases : List String} {body : List Stmt} {l : Line} :
      (∀ s ∈ body, Regular s) → Regular (.classDef n bases body l)
  | block {body : List Stmt} {l : Line} : (∀ s ∈ body, Regular s) → Regular (.block body l)
  | ret {value : Option Expr} {l : Line} : (∀ e ∈ value, Collapsed e) → Regular (.ret value l)
  | loop {init test iterate : Option Expr} {body : List Stmt} {l : Line} :
      (∀ e ∈ init, Collapsed e) → (∀ e ∈ test, Collapsed e) → (∀ e ∈ iterate, Collapsed e) →
        (∀ s ∈ body, Regular s) → Regular (.loop init test iterate body l)
  | foreach {n : String} {source : Expr} {body : List Stmt} {l : Line} :
      Collapsed source → (∀ s ∈ body, Regular s) → Regular (.foreach n source body l)
  | choice {branches : List Branch} {l : Line} :
      Chained branches → (∀ b ∈ branches, ∀ e ∈ b.test, Collapsed e) →
        (∀ b ∈ branches, ∀ s ∈ b.body, Regular s) → Regular (.choice branches l)
  | importFile {path : String} {l : Line} : Regular (.importFile path l)

/-- The branches that a reader can make. -/
structure Branch.Regular (b : Branch) : Prop where
  test : ∀ e ∈ b.test, Collapsed e
  body : ∀ s ∈ b.body, s.Regular

/-- The chains that can go on: each branch has a test. -/
structure Chain.Regular (c : Chain) : Prop where
  nonempty : c.branches ≠ []
  tested : ∀ b ∈ c.branches, b.test.isSome = true
  branches : ∀ b ∈ c.branches, b.Regular

theorem Chain.Regular.choice {c : Chain} (h : c.Regular) : (Stmt.choice c.branches c.line).Regular := by
  obtain ⟨first, rest, same⟩ := List.exists_cons_of_ne_nil h.nonempty
  refine .choice ⟨first, rest, same, h.tested first (by simp [same]), ?_⟩ (fun b hb => (h.branches b hb).test)
    fun b hb => (h.branches b hb).body
  intro b hb
  exact h.tested b (List.dropLast_subset _ hb)

theorem Chain.Regular.append {c : Chain} (h : c.Regular) {b : Branch} (hb : b.Regular) :
    (Stmt.choice (c.branches ++ [b]) c.line).Regular ∧
      (b.test.isSome = true → Chain.Regular { c with branches := c.branches ++ [b] }) := by
  have all : ∀ d ∈ c.branches ++ [b], d.Regular := by
    intro d hd
    rcases List.mem_append.1 hd with hd | hd
    · exact h.branches d hd
    · rw [List.mem_singleton.1 hd]
      exact hb
  obtain ⟨first, rest, same⟩ := List.exists_cons_of_ne_nil h.nonempty
  constructor
  · refine .choice ⟨first, rest ++ [b], by rw [same]; rfl, h.tested first (by simp [same]), ?_⟩
      (fun d hd => (all d hd).test) fun d hd => (all d hd).body
    intro d hd
    rw [List.dropLast_concat] at hd
    exact h.tested d hd
  · intro tested
    refine ⟨by simp, ?_, all⟩
    intro d hd
    rcases List.mem_append.1 hd with hd | hd
    · exact h.tested d hd
    · rw [List.mem_singleton.1 hd]
      exact tested

/-- What a closing brace can complete to a regular statement. -/
def FrameKind.Regular : FrameKind → Prop
  | .branch test earlier =>
    (∀ e ∈ test, Collapsed e) ∧ (∀ c ∈ earlier, c.Regular) ∧ (test = none → earlier ≠ none)
  | .loop init test iterate =>
    (∀ e ∈ init, Collapsed e) ∧ (∀ e ∈ test, Collapsed e) ∧ ∀ e ∈ iterate, Collapsed e
  | .foreach _ source => Collapsed source
  | _ => True

structure Frame.Regular (f : Frame) : Prop where
  kind : f.kind.Regular
  statements : ∀ s ∈ f.statements, s.Regular
  held : ∀ c ∈ f.held, c.Regular

def HeaderKind.Regular : HeaderKind → Prop
  | .branch earlier => ∀ c ∈ earlier, c.Regular
  | _ => True

def HeaderStage.Regular : HeaderStage → Prop
  | .complete frame _ => frame.Regular
  | _ => True

def Phase.Regular : Phase → Prop
  | .afterElse chain _ => chain.Regular
  | .header kind stage _ => kind.Regular ∧ stage.Regular
  | _ => True

namespace StatementReader

/-- Everything that a reader has made, and everything that it holds, is regular. -/
structure Regular (r : StatementReader) : Prop where
  phase : r.phase.Regular
  frames : ∀ f ∈ r.frames, f.Regular
  held : ∀ c ∈ r.held, c.Regular
  ready : ∀ s ∈ r.ready, s.Regular

theorem regular_new : new.Regular :=
  ⟨trivial, by simp [new], by simp [new], by simp [new]⟩

variable {r : StatementReader}

theorem Regular.goto (h : r.Regular) {p : Phase} (hp : p.Regular) : (r.goto p).Regular :=
  ⟨hp, h.frames, h.held, h.ready⟩

theorem Regular.emit (h : r.Regular) {s : Stmt} (hs : s.Regular) : (r.emit s).Regular := by
  have appended {ss : List Stmt} (hss : ∀ u ∈ ss, u.Regular) : ∀ u ∈ ss ++ [s], u.Regular := by
    intro u hu
    rcases List.mem_append.1 hu with hu | hu
    · exact hss u hu
    · rw [List.mem_singleton.1 hu]
      exact hs
  unfold StatementReader.emit
  split
  · exact ⟨h.phase, h.frames, h.held, appended h.ready⟩
  · next f outer same =>
    have frames := h.frames
    rw [same] at frames
    refine ⟨h.phase, ?_, h.held, h.ready⟩
    intro g hg
    rcases List.mem_cons.1 hg with rfl | hg
    · have inner := frames f List.mem_cons_self
      exact ⟨inner.kind, appended inner.statements, inner.held⟩
    · exact frames g (List.mem_cons_of_mem _ hg)

theorem Regular.hold (h : r.Regular) {chain : Option Chain} (hc : ∀ c ∈ chain, c.Regular) :
    (r.hold chain).Regular := by
  unfold StatementReader.hold
  split
  · exact ⟨h.phase, h.frames, hc, h.ready⟩
  · next f outer same =>
    have frames := h.frames
    rw [same] at frames
    refine ⟨h.phase, ?_, h.held, h.ready⟩
    intro g hg
    rcases List.mem_cons.1 hg with rfl | hg
    · have inner := frames f List.mem_cons_self
      exact ⟨inner.kind, inner.statements, hc⟩
    · exact frames g (List.mem_cons_of_mem _ hg)

theorem Regular.innermostHeld (h : r.Regular) : ∀ c ∈ r.innermostHeld, c.Regular := by
  unfold StatementReader.innermostHeld
  split
  · exact h.held
  · next f outer same => exact (h.frames f (by simp [same])).held

theorem Regular.release (h : r.Regular) : r.release.Regular := by
  unfold StatementReader.release
  split
  · exact h
  · next c same =>
    have chain : c.Regular := h.innermostHeld c same
    exact (h.hold (by simp)).emit chain.choice

theorem Regular.openFrame (h : r.Regular) (kind : FrameKind) (hk : kind.Regular) (start : Line) :
    (r.openFrame kind start).Regular := by
  refine ⟨trivial, ?_, h.held, h.ready⟩
  intro f hf
  rcases List.mem_cons.1 hf with rfl | hf
  · exact ⟨hk, by simp, by simp⟩
  · exact h.frames f hf

theorem Regular.closed (h : r.Regular) {f : Frame} (hf : f.Regular) : (r.closed f).Regular := by
  obtain ⟨kind, statements, held, line⟩ := f
  cases kind with
  | block => exact h.emit (.block hf.statements)
  | function name parameters => exact h.emit (.function hf.statements)
  | classDef name bases => exact h.emit (.classDef hf.statements)
  | loop init test iterate =>
    obtain ⟨hinit, htest, hiterate⟩ := hf.kind
    exact h.emit (.loop hinit htest hiterate hf.statements)
  | foreach name source => exact h.emit (.foreach hf.kind hf.statements)
  | branch test earlier =>
    obtain ⟨htest, hearlier, starts⟩ := hf.kind
    have branch : (Branch.mk test statements line).Regular := ⟨htest, hf.statements⟩
    cases test with
    | none =>
      obtain ⟨c, rfl⟩ := Option.ne_none_iff_exists'.1 (starts rfl)
      exact h.emit ((hearlier c rfl).append branch).1
    | some e =>
      refine h.hold ?_
      rintro c ⟨⟩
      cases earlier with
      | none =>
        refine ⟨by simp, ?_, ?_⟩
        · intro b hb
          rw [List.mem_singleton.1 hb]
          rfl
        · intro b hb
          rw [List.mem_singleton.1 hb]
          exact branch
      | some c => exact ((hearlier c rfl).append branch).2 rfl

theorem Regular.closeFrame (h : r.Regular) (line : Line) : (r.closeFrame line).1.Regular := by
  unfold StatementReader.closeFrame
  split
  · exact h
  · next f outer same =>
    have frames := h.release.frames
    rw [same] at frames
    have left : StatementReader.Regular { r.release with phase := .between, frames := outer } :=
      ⟨trivial, fun g hg => frames g (List.mem_cons_of_mem _ hg), h.release.held, h.release.ready⟩
    exact left.closed (frames f List.mem_cons_self)

/-! ## What reading makes is regular -/

theorem collapsed_of_ofTokens {ts : List PlacedToken} {e : Expr} (h : Expr.ofTokens ts = .ok e) :
    Collapsed e :=
  Expr.collapsed_of_reads (Expr.ofTokens_eq_ok_iff.1 h)

theorem collapsed_of_expr? {ts : List PlacedToken} {value : Option Expr}
    (h : expr? ts = .ok value) : ∀ e ∈ value, Collapsed e := by
  rintro e rfl
  unfold expr? at h
  split at h
  · simp at h
  · cases built : Expr.ofTokens ts with
    | error _ => simp [built, Except.map] at h
    | ok d =>
      obtain rfl : d = e := by simpa [built, Except.map] using h
      exact collapsed_of_ofTokens built

theorem Regular.andThen {s : Step} {next : StatementReader → Step} (h : s.1.Regular)
    (later : ∀ {r : StatementReader}, r.Regular → (next r).1.Regular) :
    (andThen s next).1.Regular := by
  obtain ⟨r, _ | e⟩ := s
  · exact later h
  · exact h

theorem Regular.completeLine (h : r.Regular) (kind : LineKind) (buffer : List PlacedToken)
    (start line : Line) : (r.completeLine kind buffer start line).1.Regular := by
  unfold StatementReader.completeLine
  split
  · exact h.goto trivial
  · next value built => exact (h.emit (.ret (collapsed_of_expr? built))).goto trivial
  · next e name built => exact (h.emit (.define (collapsed_of_expr? built e rfl))).goto trivial
  · exact h.goto trivial
  · next e built => exact (h.emit (.expr (collapsed_of_expr? built e rfl))).goto trivial
  · exact h.goto trivial

theorem Regular.lineToken (h : r.Regular) (kind : LineKind) (buffer : List PlacedToken)
    (depth : Nat) (start : Line) (t : PlacedToken) :
    (r.lineToken kind buffer depth start t).1.Regular := by
  have stay : ∀ {p : Phase}, p.Regular → (r.goto p).Regular := h.goto
  have complete := h.completeLine kind buffer start t.line
  simp only [StatementReader.lineToken]
  split
  · exact stay trivial
  · exact stay trivial
  · split <;> exact stay trivial
  · split <;> exact stay trivial
  · split
    · exact complete
    · exact stay trivial
  · split
    · exact Regular.andThen complete fun closes => closes.closeFrame t.line
    · exact stay trivial
  · exact stay trivial
  · exact stay trivial

theorem Regular.headerFrame {kind : HeaderKind} (hk : kind.Regular)
    {clauses : List (List PlacedToken)} {line : Line} {frame : FrameKind}
    (h : headerFrame kind clauses line = .ok frame) : frame.Regular := by
  simp only [StatementReader.headerFrame] at h
  split at h
  · next earlier test =>
    obtain ⟨e, built, same⟩ := bind_eq_ok_iff.1 h
    obtain rfl := Except.ok.inj same
    exact ⟨by rintro _ ⟨⟩; exact collapsed_of_ofTokens built, hk, by simp⟩
  · cases h
  · obtain ⟨test, built, same⟩ := bind_eq_ok_iff.1 h
    obtain rfl := Except.ok.inj same
    exact ⟨by simp, collapsed_of_expr? built, by simp⟩
  · obtain ⟨test, built, h⟩ := bind_eq_ok_iff.1 h
    obtain ⟨iterate, built', same⟩ := bind_eq_ok_iff.1 h
    obtain rfl := Except.ok.inj same
    exact ⟨by simp, collapsed_of_expr? built, collapsed_of_expr? built'⟩
  · obtain ⟨init, built, h⟩ := bind_eq_ok_iff.1 h
    obtain ⟨test, built', h⟩ := bind_eq_ok_iff.1 h
    obtain ⟨iterate, built'', same⟩ := bind_eq_ok_iff.1 h
    obtain rfl := Except.ok.inj same
    exact ⟨collapsed_of_expr? built, collapsed_of_expr? built', collapsed_of_expr? built''⟩
  · cases h
  · next names source =>
    have named {name : Except SyntaxError String}
        (h : (do let n ← name; let e ← Expr.ofTokens source; pure (FrameKind.foreach n e)) =
          Except.ok frame) : frame.Regular := by
      obtain ⟨n, -, h⟩ := bind_eq_ok_iff.1 h
      obtain ⟨e, built, same⟩ := bind_eq_ok_iff.1 h
      obtain rfl := Except.ok.inj same
      exact collapsed_of_ofTokens built
    split at h <;> exact named h
  · cases h

theorem Regular.completeHeader (h : r.Regular) {kind : HeaderKind} (hk : kind.Regular)
    (clauses : List (List PlacedToken)) (start line : Line) :
    (r.completeHeader kind clauses start line).1.Regular := by
  unfold StatementReader.completeHeader
  split
  · next frame made => exact h.goto ⟨hk, headerFrame hk made⟩
  · exact h.goto ⟨hk, trivial⟩

theorem Regular.clauseToken (h : r.Regular) {kind : HeaderKind} (hk : kind.Regular) (depth : Int)
    (buffer : List PlacedToken) (clauses : List (List PlacedToken)) (start : Line)
    (t : PlacedToken) : (r.clauseToken kind depth buffer clauses start t).1.Regular := by
  have inside {depth : Int} {buffer : List PlacedToken} {clauses : List (List PlacedToken)} :
      (r.goto (.header kind (.inside depth buffer clauses) start)).Regular :=
    h.goto ⟨hk, trivial⟩
  simp only [StatementReader.clauseToken]
  split
  · exact inside
  · exact inside
  · split
    · exact h.completeHeader hk _ _ _
    · exact inside
  · split <;> exact inside
  · split
    · exact inside
    · exact h
  · exact h
  · exact h
  · exact inside

theorem Regular.headerToken (h : r.Regular) {kind : HeaderKind} (hk : kind.Regular)
    {stage : HeaderStage} (hs : stage.Regular) (start : Line) (t : PlacedToken) :
    (r.headerToken kind stage start t).1.Regular := by
  unfold StatementReader.headerToken
  split
  · exact h.goto ⟨hk, trivial⟩
  · exact h
  · exact h.clauseToken hk _ _ _ _ _
  · exact h.openFrame _ hs start
  · exact h.goto ⟨hk, trivial⟩

theorem Regular.elseToken (h : r.Regular) {chain : Chain} (hc : chain.Regular) (start : Line)
    (t : PlacedToken) : (r.elseToken chain start t).1.Regular := by
  have earlier : ∀ c ∈ some chain, c.Regular := by
    rintro c ⟨⟩
    exact hc
  unfold StatementReader.elseToken
  split
  · exact h.goto ⟨earlier, trivial⟩
  · exact h.openFrame (.branch none (some chain)) ⟨by simp, earlier, by simp⟩ start
  · exact h

theorem Regular.startToken (h : r.Regular) (t : PlacedToken) : (r.startToken t).1.Regular := by
  unfold StatementReader.startToken
  split
  · exact h
  · exact h.openFrame .block trivial t.line
  · exact h.closeFrame t.line
  · exact h.goto trivial
  · exact h.goto trivial
  · exact h.goto trivial
  · exact h.goto trivial
  · exact h.goto trivial
  · exact h.goto ⟨by simp [HeaderKind.Regular], trivial⟩
  · exact h.goto ⟨trivial, trivial⟩
  · exact h.goto ⟨trivial, trivial⟩
  · exact h.goto ⟨trivial, trivial⟩
  · exact h.lineToken _ _ _ _ _

theorem Regular.beginToken (h : r.Regular) (t : PlacedToken) : (r.beginToken t).1.Regular := by
  unfold StatementReader.beginToken
  split
  · next chain _ held => exact (h.hold (by simp)).goto (h.innermostHeld chain held)
  · exact h
  · exact h.release.startToken t

/-- Every token leaves a reader regular, whether it is refused or not. -/
theorem Regular.feed (h : r.Regular) (t : PlacedToken) : (r.feed t).1.Regular := by
  have placed : StatementReader.Regular { r with line := t.line } :=
    ⟨h.phase, h.frames, h.held, h.ready⟩
  have phase := h.phase
  unfold StatementReader.feed
  dsimp only
  split
  · exact placed.beginToken t
  · exact placed.lineToken _ _ _ _ _
  · unfold functionNameToken
    split
    · exact placed.goto trivial
    · exact placed.goto trivial
    · exact placed
  · unfold parameterToken
    split
    · exact placed.openFrame (.function _ _) trivial _
    · exact placed
    · split
      · exact placed
      · exact placed.goto trivial
    · split
      · exact placed.goto trivial
      · exact placed
    · split
      · exact placed.goto trivial
      · exact placed
    · exact placed
  · unfold variableToken
    split
    · exact placed.goto trivial
    · exact placed
    · exact (placed.emit (.expr .define)).goto trivial
    · exact placed.goto trivial
    · exact placed.lineToken _ _ _ _ _
  · unfold classNameToken
    split
    · exact placed.goto trivial
    · exact placed
  · unfold baseToken
    split
    · exact placed.goto trivial
    · exact placed.openFrame (.classDef _ _) trivial _
    · exact placed.goto trivial
    · exact placed
  · next chain start same =>
    rw [same] at phase
    exact placed.elseToken phase _ _
  · next kind stage start same =>
    rw [same] at phase
    exact placed.headerToken phase.1 phase.2 _ _
  · unfold importToken
    split
    · exact (placed.emit .importFile).goto trivial
    · exact placed

theorem Regular.flush (h : r.Regular) : r.flush.1.Regular := by
  unfold StatementReader.flush
  split
  · exact h.release
  · exact Regular.andThen (h.completeLine _ _ _ _) fun complete => complete.release
  · exact ((h.emit (.expr .define)).goto (p := .between) trivial).release
  · exact h

/-- The readers that come of using a new one in any way: tokens that it refuses, ends of input
in between and taken statements included. -/
inductive Used : StatementReader → Prop
  | new : Used new
  | feed {r : StatementReader} (t : PlacedToken) : Used r → Used (r.feed t).1
  | flush {r : StatementReader} : Used r → Used r.flush.1
  | takeReady {r : StatementReader} : Used r → Used r.takeReady.2

theorem Used.regular (h : Used r) : r.Regular := by
  induction h with
  | new => exact regular_new
  | feed t _ ih => exact ih.feed t
  | flush _ ih => exact ih.flush
  | takeReady _ ih => exact ⟨ih.phase, ih.frames, ih.held, by simp [StatementReader.takeReady]⟩

end StatementReader

end Scriptlet
