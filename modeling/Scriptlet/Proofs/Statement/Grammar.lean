import Scriptlet.Proofs.Statement.ReadingBack

/-!
# Which tokens are statements

`Spells` says which runs of tokens are statements and which trees they make, with their lines. It
neither keeps a state nor looks ahead: a line ends with its semicolon, anything in braces with the
closing brace, an import with its path, and a chain with its last branch. A reader that is fed such
a run makes these statements of it (`Spells.fed`).
-/

namespace Scriptlet

/-- The statement of a construct with its statements. -/
def FrameKind.completed (l : Line) (body : List Stmt) : FrameKind → Stmt
  | .block => .block body l
  | .function name parameters => .function name parameters body l
  | .classDef name bases => .classDef name bases body l
  | .loop init test iterate => .loop init test iterate body l
  | .foreach name source => .foreach name source body l
  | .branch test none => .choice [.mk test body l] l
  | .branch test (some c) => .choice (c.branches ++ [.mk test body l]) c.line

namespace Grammar

open Scriptlet.Bracket (Nested)
open Scriptlet.Expr (Reads parens commas)
open Scriptlet.StatementReader

/-! ## Lines and headers -/

/-- An expression that may be missing. -/
inductive ReadsOption : Option Expr → List PlacedToken → Prop where
  | none : ReadsOption none []
  | some {e : Expr} {ts : List PlacedToken} : Reads (.expr e) ts → ReadsOption (some e) ts

/-- The lines of tokens, without the semicolon at their end. -/
inductive Unended : Stmt → List PlacedToken → Prop where
  | expr {e : Expr} {t : PlacedToken} {ts : List PlacedToken} :
      t.token ≠ .keyword .varWord → Reads (.expr e) (t :: ts) → Unended (.expr e) (t :: ts)
  /-- A new variable that an expression starts with has the line of its first word. -/
  | declared {n : String} {e : Expr} {l l' : Line} {ts : List PlacedToken} :
      (∀ t ∈ ts.head?, t.token ≠ .symbol .assign) →
        Reads (.expr e) (⟨.keyword .varWord, l⟩ :: ⟨.name n, l⟩ :: ts) →
          Unended (.expr e) (⟨.keyword .varWord, l⟩ :: ⟨.name n, l'⟩ :: ts)
  | define {n : String} {e : Expr} {l l₁ l₂ : Line} {ts : List PlacedToken} :
      Reads (.expr e) ts → Unended (.define n e l)
        (⟨.keyword .varWord, l⟩ :: ⟨.name n, l₁⟩ :: ⟨.symbol .assign, l₂⟩ :: ts)
  | ret {value : Option Expr} {l : Line} {ts : List PlacedToken} :
      ReadsOption value ts → Unended (.ret value l) (⟨.keyword .returnWord, l⟩ :: ts)

/-- Runs with a semicolon between each two. -/
inductive Clauses : List (List PlacedToken) → List PlacedToken → Prop where
  | last {ts : List PlacedToken} : Clauses [ts] ts
  | more {l : Line} {ts rest : List PlacedToken} {cs : List (List PlacedToken)} :
      Clauses cs rest → Clauses (ts :: cs) (ts ++ ⟨.mark .semicolon, l⟩ :: rest)

/-- What the clauses of a header make of the construct. -/
inductive Heads : HeaderKind → List (List PlacedToken) → FrameKind → Prop where
  | branch {earlier : Option Chain} {test : Expr} {ts : List PlacedToken} :
      Reads (.expr test) ts → Heads (.branch earlier) [ts] (.branch (some test) earlier)
  | test {w : Keyword} {test : Option Expr} {ts : List PlacedToken} :
      ReadsOption test ts → Heads (.loop w) [ts] (.loop none test none)
  | iterate {w : Keyword} {test iterate : Option Expr} {ts us : List PlacedToken} :
      ReadsOption test ts → ReadsOption iterate us →
        Heads (.loop w) [ts, us] (.loop none test iterate)
  | init {w : Keyword} {init test iterate : Option Expr} {ts us vs : List PlacedToken} :
      ReadsOption init ts → ReadsOption test us → ReadsOption iterate vs →
        Heads (.loop w) [ts, us, vs] (.loop init test iterate)
  | foreach {n : String} {l : Line} {source : Expr} {ts : List PlacedToken} :
      Reads (.expr source) ts → Heads .foreach [[⟨.name n, l⟩], ts] (.foreach n source)
  | foreachVar {n : String} {l l' : Line} {source : Expr} {ts : List PlacedToken} :
      Reads (.expr source) ts →
        Heads .foreach [[⟨.keyword .varWord, l⟩, ⟨.name n, l'⟩], ts] (.foreach n source)

/-- A header after its first word, up to the opening brace. -/
inductive Header (kind : HeaderKind) (frame : FrameKind) : List PlacedToken → Prop where
  | mk {l l₁ l₂ : Line} {cs : List (List PlacedToken)} {ts : List PlacedToken} :
      Heads kind cs frame → Clauses cs ts → Header kind frame
        (⟨.mark .leftParen, l⟩ :: (ts ++ [⟨.mark .rightParen, l₁⟩, ⟨.mark .leftBrace, l₂⟩]))

/-- What stands before the statements of a construct, up to the opening brace. -/
inductive Opens : FrameKind → Line → List PlacedToken → Prop where
  | block {l : Line} : Opens .block l [⟨.mark .leftBrace, l⟩]
  | function {n : String} {ps : List String} {l : Line} {ts : List PlacedToken} :
      word ts = .name n :: (parens (commas (ps.map fun p => [.name p])) ++ [.mark .leftBrace]) →
        Opens (.function n ps) l (⟨.keyword .funcWord, l⟩ :: ts)
  | classDef {n : String} {bases : List String} {l : Line} {ts : List PlacedToken} :
      word ts = .name n :: (baseTokens bases ++ [.mark .leftBrace]) →
        Opens (.classDef n bases) l (⟨.keyword .classWord, l⟩ :: ts)
  | loop {w : Keyword} {frame : FrameKind} {l : Line} {ts : List PlacedToken} :
      w = .forWord ∨ w = .whileWord → Header (.loop w) frame ts →
        Opens frame l (⟨.keyword w, l⟩ :: ts)
  | foreach {frame : FrameKind} {l : Line} {ts : List PlacedToken} :
      Header .foreach frame ts → Opens frame l (⟨.keyword .foreachWord, l⟩ :: ts)

/-! ## Statements -/

/-- What a run of tokens can be. -/
inductive Form where
  | one (s : Stmt)
  | all (ss : List Stmt)
  /-- The statements before a closing brace, the last of which may be a line without its end. -/
  | inside (ss : List Stmt)
  /-- The branches of a chain, each with a test. -/
  | branches (bs : List Branch) (l : Line)

/-- The runs of tokens that are statements. -/
inductive Spells : Form → List PlacedToken → Prop where
  | line {s : Stmt} {l : Line} {ts : List PlacedToken} :
      Unended s ts → Spells (.one s) (ts ++ [⟨.mark .semicolon, l⟩])
  | importFile {path : String} {l l' : Line} :
      Spells (.one (.importFile path l)) [⟨.keyword .importWord, l⟩, ⟨.string path, l'⟩]
  | braced {frame : FrameKind} {l l' : Line} {ss : List Stmt}
      {head ts : List PlacedToken} :
      Opens frame l head → Spells (.inside ss) ts →
        Spells (.one (frame.completed l ss)) (head ++ (ts ++ [⟨.mark .rightBrace, l'⟩]))
  | first {test : Expr} {l l' : Line} {ss : List Stmt} {head ts : List PlacedToken} :
      Header (.branch none) (.branch (some test) none) head → Spells (.inside ss) ts →
        Spells (.branches [.mk (some test) ss l] l)
          (⟨.keyword .ifWord, l⟩ :: (head ++ (ts ++ [⟨.mark .rightBrace, l'⟩])))
  | later {c : Chain} {test : Expr} {l l₁ l₂ : Line} {ss : List Stmt}
      {us head ts : List PlacedToken} :
      Spells (.branches c.branches c.line) us →
        Header (.branch (some c)) (.branch (some test) (some c)) head → Spells (.inside ss) ts →
          Spells (.branches (c.branches ++ [.mk (some test) ss l]) c.line)
            (us ++ ⟨.keyword .elseWord, l₁⟩ :: ⟨.keyword .ifWord, l⟩ ::
              (head ++ (ts ++ [⟨.mark .rightBrace, l₂⟩])))
  | choice {bs : List Branch} {l : Line} {ts : List PlacedToken} :
      Spells (.branches bs l) ts → Spells (.one (.choice bs l)) ts
  | otherwise {c : Chain} {l l₁ l₂ : Line} {ss : List Stmt} {us ts : List PlacedToken} :
      Spells (.branches c.branches c.line) us → Spells (.inside ss) ts →
        Spells (.one (.choice (c.branches ++ [.mk none ss l]) c.line))
          (us ++ ⟨.keyword .elseWord, l⟩ :: ⟨.mark .leftBrace, l₁⟩ ::
            (ts ++ [⟨.mark .rightBrace, l₂⟩]))
  | nil : Spells (.all []) []
  | semicolon {ss : List Stmt} {l : Line} {ts : List PlacedToken} :
      Spells (.all ss) ts → Spells (.all ss) (ts ++ [⟨.mark .semicolon, l⟩])
  | next {s : Stmt} {ss : List Stmt} {ts us : List PlacedToken} :
      Spells (.all ss) ts → Spells (.one s) us → Spells (.all (ss ++ [s])) (ts ++ us)
  | closed {ss : List Stmt} {ts : List PlacedToken} : Spells (.all ss) ts → Spells (.inside ss) ts
  | unended {s : Stmt} {ss : List Stmt} {ts us : List PlacedToken} :
      Spells (.all ss) ts → Unended s us → Spells (.inside (ss ++ [s])) (ts ++ us)

/-! ## Lines that are fed -/

theorem ReadsOption.built {value : Option Expr} {ts : List PlacedToken} (h : ReadsOption value ts) :
    expr? ts = .ok value ∧ Nested ts ∧ ∀ t ∈ ts, staysInLine t.token = true := by
  cases h with
  | none => exact ⟨rfl, .nil, by simp⟩
  | some h =>
    refine ⟨?_, h.solid.nested, staysInLine_of_reads h⟩
    rw [expr?, if_neg h.nonempty, Expr.ofTokens_eq_ok_iff.2 h]
    rfl

theorem readsOption_of_ok {value : Option Expr} {ts : List PlacedToken}
    (built : expr? ts = .ok value) : ReadsOption value ts := by
  unfold expr? at built
  split at built
  · next none =>
    obtain rfl := none
    cases built
    exact .none
  · cases read : Expr.ofTokens ts with
    | error e =>
      rw [read] at built
      cases built
    | ok e =>
      rw [read] at built
      cases built
      exact .some (Expr.ofTokens_eq_ok_iff.1 read)

/-- A reader whose line becomes a statement when it ends, also at the end of the input. -/
structure Pending (r : StatementReader) (s : Stmt) (r₁ : StatementReader) : Prop where
  semicolon : ∀ l, r₁.feed ⟨.mark .semicolon, l⟩ =
    accept { (r.emit s).goto .between with line := l }
  brace : ∀ l, r₁.feed ⟨.mark .rightBrace, l⟩ =
    closeFrame { (r.emit s).goto .between with line := l } l
  flush : r.frames = [] → ∀ l, StatementReader.flush { r₁ with line := l } =
    accept (release { (r.emit s).goto .between with line := l })

variable {r : StatementReader}

theorem pending_line {s : Stmt} {kind : LineKind} {ts : List PlacedToken} {start : Line}
    (complete : ∀ (q : StatementReader) (l : Line),
      q.completeLine kind ts.reverse start l = accept ((q.emit s).goto .between)) :
    Pending r s (r.goto (.line kind ts.reverse 0 start)) := by
  have emitted (l : Line) : (emit { r.goto (.line kind ts.reverse 0 start) with line := l } s).goto
      .between = { (r.emit s).goto .between with line := l } := by
    simp only [emit, goto]
    cases r.frames <;> rfl
  constructor
  · intro l
    rw [← emitted, ← complete _ l]
    rfl
  · intro l
    have closes := congrArg (andThen · (closeFrame · l))
      (complete { r.goto (.line kind ts.reverse 0 start) with line := l } l)
    rw [emitted] at closes
    exact closes
  · intro top l
    have ends := congrArg (andThen · fun r => accept r.release)
      (complete { r.goto (.line kind ts.reverse 0 start) with line := l } l)
    rw [emitted] at ends
    refine Eq.trans ?_ ends
    simp only [StatementReader.flush, goto, top]

theorem completeLine_expr {e : Expr} {ts : List PlacedToken} (h : Reads (.expr e) ts)
    (q : StatementReader) (kind : LineKind) (start l : Line) :
    q.completeLine kind ts.reverse start l =
      accept ((q.emit (lineStatement kind e start)).goto .between) := by
  have built := (ReadsOption.some h).built.1
  simp only [completeLine, List.reverse_reverse, built]
  cases kind <;> rfl

theorem completeLine_ret {value : Option Expr} {ts : List PlacedToken} (h : ReadsOption value ts)
    (q : StatementReader) (start l : Line) :
    q.completeLine .ret ts.reverse start l = accept ((q.emit (.ret value start)).goto .between) := by
  simp only [completeLine, List.reverse_reverse, h.built.1]

theorem startsLine_of_reads {e : Expr} {t : PlacedToken} {ts : List PlacedToken}
    (other : t.token ≠ .keyword .varWord) (h : Reads (.expr e) (t :: ts)) :
    startsLine t.token = true := by
  generalize whole : t :: ts = us at h
  cases h with
  | expr first _ =>
    cases first with
    | @literal u l c e rest value _ =>
      obtain rfl : t = ⟨u, l⟩ := (List.cons.inj whole).1
      cases u with
      | keyword w => cases w <;> first | rfl | cases value
      | int _ | float _ | string _ | bool _ => rfl
      | _ => cases value
    | define _ => exact absurd (congrArg PlacedToken.token (List.cons.inj whole).1) other
    | leading _ _ | named _ _ | call _ _ | group _ _ | list _ _ =>
      rw [(List.cons.inj whole).1]
      rfl

/-- A name after `var` goes on as a line, unless a first value follows. -/
theorem feed_declared (n : String) (l : Line) {t : PlacedToken} (other : t.token ≠ .symbol .assign)
    (stays : staysInLine t.token = true) :
    (r.goto (.variableName (some n) l)).feed t =
      (r.goto (.line .expr [⟨.name n, l⟩, ⟨.keyword .varWord, l⟩] 0 l)).feed t := by
  have line : (r.goto (.variableName (some n) l)).feed t =
      lineToken { r.goto (.variableName (some n) l) with line := t.line } .expr
        [⟨.name n, l⟩, ⟨.keyword .varWord, l⟩] 0 l t := by
    simp only [feed, goto, variableToken]
    split
    · next none _ => cases none
    · next none _ => cases none
    · next isEnd =>
      rw [isEnd] at stays
      cases stays
    · next isAssign => exact absurd isAssign other
    · next same _ _ =>
      cases same
      rfl
  have placed (p : Phase) : lineToken { r.goto p with line := t.line } .expr
      [⟨.name n, l⟩, ⟨.keyword .varWord, l⟩] 0 l t = lineToken { r with line := t.line } .expr
        [⟨.name n, l⟩, ⟨.keyword .varWord, l⟩] 0 l t :=
    lineToken_goto (r := { r with line := t.line }) p .expr _ 0 l t
  rw [line, placed]
  exact (placed (.line .expr [⟨.name n, l⟩, ⟨.keyword .varWord, l⟩] 0 l)).symm

/-- A name after `var` can end the line. -/
theorem pending_variable {n : String} {l : Line} {e : Expr}
    (h : Reads (.expr e) [⟨.keyword .varWord, l⟩, ⟨.name n, l⟩]) :
    Pending r (.expr e) (r.goto (.variableName (some n) l)) := by
  have built : Expr.ofTokens [⟨.keyword .varWord, l⟩, ⟨.name n, l⟩] = .ok (.define n l) :=
    Expr.ofTokens_eq_ok_iff.2 (.expr (.define .plain) .done)
  obtain rfl : .define n l = e := Except.ok.inj (built.symm.trans (Expr.ofTokens_eq_ok_iff.2 h))
  constructor
  · intro l'
    simp only [feed, goto, variableToken, emit]
    cases r.frames <;> rfl
  · intro l'
    have closes := congrArg (andThen · (closeFrame · l'))
      (completeLine_expr h { r.goto (.variableName (some n) l) with line := l' } .expr l l')
    have emitted : (emit { r.goto (.variableName (some n) l) with line := l' }
        (.expr (.define n l))).goto .between =
          { (r.emit (.expr (.define n l))).goto .between with line := l' } := by
      simp only [emit, goto]
      cases r.frames <;> rfl
    rw [lineStatement, emitted] at closes
    exact closes
  · intro top l'
    simp only [StatementReader.flush, goto, emit, top]

/-- A line up to its end. -/
theorem Unended.fed {s : Stmt} {ts : List PlacedToken} (h : Unended s ts)
    (between : r.phase = .between) : ∃ r₁, Feeds r ts r₁ ∧ Pending r.release s r₁ := by
  have collects (kind : LineKind) (start : Line) {ts : List PlacedToken} (nested : Nested ts)
      (stays : ∀ t ∈ ts, staysInLine t.token = true) :
      Feeds (r.release.goto (.line kind [] 0 start)) ts
        (r.release.goto (.line kind ts.reverse 0 start)) := by
    have collected := (collects_line r.release kind start).feeds nested stays 0 []
    rwa [List.append_nil] at collected
  cases h with
  | @expr e t ts other h =>
    have starts := startsLine_of_reads other h
    refine ⟨_, ?_, pending_line fun q l => completeLine_expr h q .expr t.line l⟩
    exact .startLine between starts (collects .expr t.line h.solid.nested (staysInLine_of_reads h))
  | @declared n e l l' ts other h =>
    have names {r₁ : StatementReader}
        (rest : Feeds (r.release.goto (.variableName (some n) l)) ts r₁) :
        Feeds r (⟨.keyword .varWord, l⟩ :: ⟨.name n, l'⟩ :: ts) r₁ :=
      .start (r.release.goto (.variableName none l)) between (by simp) rfl
        (.via (.variableName (some n) l) rfl rest)
    cases ts with
    | nil => exact ⟨_, names (.nil _), pending_variable h⟩
    | cons t us =>
      have stays := staysInLine_of_reads h
      have nested : Nested (t :: us) := (h.solid.nested.tail rfl).tail rfl
      have collected := (collects_line r.release .expr l).feeds nested
        (fun u hu => stays u (by simp [hu])) 0 [⟨.name n, l⟩, ⟨.keyword .varWord, l⟩]
      have buffer : (t :: us).reverse ++ [⟨.name n, l⟩, ⟨.keyword .varWord, l⟩] =
          (⟨.keyword .varWord, l⟩ :: ⟨.name n, l⟩ :: t :: us).reverse := by simp
      rw [buffer] at collected
      refine ⟨_, names ?_, pending_line fun q l' => completeLine_expr h q .expr l l'⟩
      obtain ⟨last, later⟩ := collected
      refine ⟨last, ?_⟩
      rw [feedAll, feed_declared n l (other t rfl) (stays t (by simp))]
      exact later
  | @define n e l l₁ l₂ ts h =>
    refine ⟨_, ?_, pending_line fun q l' => completeLine_expr h q (.initializer n) l l'⟩
    refine .start (r.release.goto (.variableName none l)) between (by simp) rfl ?_
    refine .via (.variableName (some n) l) rfl ?_
    exact .via (.line (.initializer n) [] 0 l) rfl
      (collects _ l h.solid.nested (staysInLine_of_reads h))
  | @ret value l ts h =>
    obtain ⟨-, nested, stays⟩ := h.built
    refine ⟨_, ?_, pending_line fun q l' => completeLine_ret h q l l'⟩
    exact .start (r.release.goto (.line .ret [] 0 l)) between (by simp) rfl
      (collects .ret l nested stays)

/-! ## Headers and braces that are fed -/

theorem Heads.built {kind : HeaderKind} {cs : List (List PlacedToken)} {frame : FrameKind}
    (h : Heads kind cs frame) (line : Line) : headerFrame kind cs line = .ok frame := by
  cases h with
  | branch test => simp only [headerFrame, Expr.ofTokens_eq_ok_iff.2 test]; rfl
  | test test => simp only [headerFrame, test.built.1]; rfl
  | iterate test iterate => simp only [headerFrame, test.built.1, iterate.built.1]; rfl
  | init init test iterate =>
    simp only [headerFrame, init.built.1, test.built.1, iterate.built.1]
    rfl
  | foreach source => simp only [headerFrame, Expr.ofTokens_eq_ok_iff.2 source]; rfl
  | foreachVar source => simp only [headerFrame, Expr.ofTokens_eq_ok_iff.2 source]; rfl

theorem heads_of_ok {kind : HeaderKind} {cs : List (List PlacedToken)} {frame : FrameKind} {l : Line}
    (made : headerFrame kind cs l = .ok frame) : Heads kind cs frame := by
  simp only [headerFrame] at made
  split at made
  · obtain ⟨test, read, same⟩ := bind_eq_ok_iff.1 made
    obtain rfl := Except.ok.inj same
    exact .branch (Expr.ofTokens_eq_ok_iff.1 read)
  · cases made
  · obtain ⟨test, built, same⟩ := bind_eq_ok_iff.1 made
    obtain rfl := Except.ok.inj same
    exact .test (readsOption_of_ok built)
  · obtain ⟨test, built, made⟩ := bind_eq_ok_iff.1 made
    obtain ⟨iterate, built', same⟩ := bind_eq_ok_iff.1 made
    obtain rfl := Except.ok.inj same
    exact .iterate (readsOption_of_ok built) (readsOption_of_ok built')
  · obtain ⟨init, built, made⟩ := bind_eq_ok_iff.1 made
    obtain ⟨test, built', made⟩ := bind_eq_ok_iff.1 made
    obtain ⟨iterate, built'', same⟩ := bind_eq_ok_iff.1 made
    obtain rfl := Except.ok.inj same
    exact .init (readsOption_of_ok built) (readsOption_of_ok built') (readsOption_of_ok built'')
  · cases made
  · next names source =>
    have named {name : Except SyntaxError String}
        (made : (do let n ← name; let e ← Expr.ofTokens source; pure (FrameKind.foreach n e)) =
          Except.ok frame) :
        ∃ n e, name = .ok n ∧ Reads (.expr e) source ∧ .foreach n e = frame := by
      obtain ⟨n, same, made⟩ := bind_eq_ok_iff.1 made
      obtain ⟨e, read, made⟩ := bind_eq_ok_iff.1 made
      exact ⟨n, e, same, Expr.ofTokens_eq_ok_iff.1 read, Except.ok.inj made⟩
    split at made
    · obtain ⟨_, e, ⟨⟩, reads, rfl⟩ := named made
      exact .foreach reads
    · obtain ⟨_, e, ⟨⟩, reads, rfl⟩ := named made
      exact .foreachVar reads
    · obtain ⟨_, _, ⟨⟩, _⟩ := named made
    · obtain ⟨_, _, ⟨⟩, _⟩ := named made
  · cases made

theorem Heads.frame_eq {earlier : Option Chain} {cs : List (List PlacedToken)} {frame : FrameKind}
    (h : Heads (.branch earlier) cs frame) : ∃ test, frame = .branch (some test) earlier := by
  cases h with
  | branch _ => exact ⟨_, rfl⟩

theorem Heads.nested {kind : HeaderKind} {cs : List (List PlacedToken)} {frame : FrameKind}
    (h : Heads kind cs frame) :
    ∀ c ∈ cs, Nested c ∧ ∀ t ∈ c, staysInLine t.token = true := by
  have reads {e : Expr} {ts : List PlacedToken} (h : Reads (.expr e) ts) :
      Nested ts ∧ ∀ t ∈ ts, staysInLine t.token = true :=
    ⟨h.solid.nested, staysInLine_of_reads h⟩
  have name {n : String} {l : Line} : Nested [⟨.name n, l⟩] := .other rfl rfl .nil
  cases h with
  | branch test => simpa using reads test
  | test test => simpa using test.built.2
  | iterate test iterate => simpa using ⟨test.built.2, iterate.built.2⟩
  | init init test iterate => simpa using ⟨init.built.2, test.built.2, iterate.built.2⟩
  | foreach source => simpa [staysInLine, name] using reads source
  | foreachVar source =>
    have names {n : String} {l l' : Line} : Nested [⟨.keyword .varWord, l⟩, ⟨.name n, l'⟩] :=
      .other rfl rfl name
    simpa [staysInLine, names] using reads source

theorem Clauses.fed {kind : HeaderKind} {frame : FrameKind} {cs : List (List PlacedToken)}
    {ts : List PlacedToken} (h : Clauses cs ts)
    (nested : ∀ c ∈ cs, Nested c ∧ ∀ t ∈ c, staysInLine t.token = true) (start l : Line)
    (before : List (List PlacedToken))
    (made : ∀ line, headerFrame kind (before ++ cs) line = .ok frame) :
    Feeds (r.goto (.header kind (.inside 1 [] before) start)) (ts ++ [⟨.mark .rightParen, l⟩])
      (r.goto (.header kind (.complete frame (before ++ cs)) start)) := by
  induction h generalizing before with
  | last =>
    obtain ⟨inside, stays⟩ := nested _ List.mem_cons_self
    exact feeds_last_clause r kind before start l inside stays made
  | @more l' ts rest cs clauses ih =>
    obtain ⟨inside, stays⟩ := nested _ List.mem_cons_self
    have first := feeds_clause r kind before start l' inside stays
    have shifted : before ++ ts :: cs = before ++ [ts] ++ cs := by simp
    rw [shifted] at made ⊢
    have later := ih (fun c hc => nested c (List.mem_cons_of_mem _ hc)) (before ++ [ts]) made
    have joined : ts ++ ⟨.mark .semicolon, l'⟩ :: rest ++ [⟨.mark .rightParen, l⟩] =
        ts ++ [⟨.mark .semicolon, l'⟩] ++ (rest ++ [⟨.mark .rightParen, l⟩]) := by simp
    rw [joined]
    exact first.append later

theorem Header.fed {kind : HeaderKind} {frame : FrameKind} {ts : List PlacedToken}
    (h : Header kind frame ts) (start : Line) :
    Feeds (r.goto (.header kind .waiting start)) ts (r.openFrame frame start) := by
  cases h with
  | @mk l l₁ l₂ cs ts heads clauses =>
    have inside := clauses.fed (r := r) heads.nested start l₁ [] heads.built
    have joined : ts ++ [⟨.mark .rightParen, l₁⟩, ⟨.mark .leftBrace, l₂⟩] =
        ts ++ [⟨.mark .rightParen, l₁⟩] ++ [⟨.mark .leftBrace, l₂⟩] := by simp
    rw [joined]
    exact .via (.header kind (.inside 1 [] []) start) rfl (inside.append (.single (l := l₂) rfl))

theorem Opens.fed {frame : FrameKind} {start : Line} {ts : List PlacedToken}
    (h : Opens frame start ts) (between : r.phase = .between) :
    Feeds r ts (r.release.openFrame frame start) := by
  cases h with
  | block => exact .start _ between (by simp) rfl (.nil _)
  | @function n ps l ts written =>
    obtain ⟨l₁, ts, rfl, rest⟩ := word_eq_cons written
    obtain ⟨us, vs, rfl, hus, hvs⟩ := word_eq_append rest
    obtain ⟨l₂, us, rfl, names⟩ := word_eq_cons hus
    obtain ⟨l₃, none, rfl, hnone⟩ := word_eq_cons hvs
    obtain rfl := List.map_eq_nil_iff.1 hnone
    obtain ⟨needsComma, fed⟩ := feeds_parameters r.release n start [] (fun _ => rfl) names
    refine .start (r.release.goto (.functionName none start)) between (by simp) rfl ?_
    refine .via (.functionName (some n) start) rfl ?_
    refine .via (.parameters n [] false false start) rfl ?_
    exact fed.append (.single (l := l₃) rfl)
  | @classDef n bases l ts written =>
    obtain ⟨l₁, ts, rfl, rest⟩ := word_eq_cons written
    obtain ⟨us, vs, rfl, hus, hvs⟩ := word_eq_append rest
    obtain ⟨l₃, none, rfl, hnone⟩ := word_eq_cons hvs
    obtain rfl := List.map_eq_nil_iff.1 hnone
    refine .start (r.release.goto (.className start)) between (by simp) rfl ?_
    refine .via (.bases n [] true start) rfl ?_
    exact (feeds_bases r.release n start [] hus).append (.single (l := l₃) rfl)
  | @loop w frame l ts word header =>
    refine .start (r.release.goto (.header (.loop w) .waiting start)) between ?_ ?_ (header.fed start)
    · rcases word with rfl | rfl <;> simp
    · rcases word with rfl | rfl <;> rfl
  | foreach header =>
    exact .start (r.release.goto (.header .foreach .waiting start)) between (by simp) rfl
      (header.fed start)

/-- What a construct other than a chain becomes at its end. -/
theorem Opens.closed {frame : FrameKind} {start : Line} {ts : List PlacedToken}
    (h : Opens frame start ts) (body : List Stmt) :
    r.closed ⟨frame, body, none, start⟩ = r.emit (frame.completed start body) := by
  cases h with
  | block | function _ | classDef _ => rfl
  | loop _ header =>
    cases header with
    | mk heads _ => cases heads <;> rfl
  | foreach header =>
    cases header with
    | mk heads _ => cases heads <;> rfl

/-! ## Statements that are fed -/

/-- What a run of tokens does to a reader between statements, for each form of the run. -/
def Form.Fed (ts : List PlacedToken) : Form → Prop
  | .one s => ∀ r : StatementReader, r.phase = .between →
    ∃ r', Feeds r ts r' ∧ r'.phase = .between ∧ r'.release = r.release.emit s
  | .all ss => ∀ r : StatementReader, r.phase = .between →
    ∃ r', Feeds r ts r' ∧ r'.phase = .between ∧ r'.release = ss.foldl emit r.release
  | .inside ss => ∀ (r : StatementReader) (frame : FrameKind) (start l : Line),
    Feeds (r.openFrame frame start) (ts ++ [⟨.mark .rightBrace, l⟩])
      ((r.goto .between).closed ⟨frame, ss, none, start⟩)
  | .branches bs l => ∀ r : StatementReader, r.phase = .between →
    Feeds r ts (r.release.hold (some ⟨bs, l⟩))

/-- A statement that is added when its last token is read. -/
theorem fed_of_emitted {s : Stmt} {ts : List PlacedToken} (between : r.phase = .between)
    (fed : Feeds r ts (r.release.emit s)) :
    ∃ r', Feeds r ts r' ∧ r'.phase = .between ∧ r'.release = r.release.emit s := by
  refine ⟨_, fed, ?_, release_of_free (by simp)⟩
  rw [phase_emit, phase_release, between]

theorem fed_line {s : Stmt} {l : Line} {ts : List PlacedToken} (h : Unended s ts) :
    (Form.one s).Fed (ts ++ [⟨.mark .semicolon, l⟩]) := by
  intro r between
  obtain ⟨r₁, fed, pending⟩ := h.fed between
  have ended : (r.release.emit s).goto .between = r.release.emit s :=
    goto_between (by rw [phase_emit, phase_release, between])
  refine fed_of_emitted between (fed.append (.single (l := l) ?_))
  rw [pending.semicolon, ended]

theorem fed_importFile {path : String} {l l' : Line} :
    (Form.one (.importFile path l)).Fed [⟨.keyword .importWord, l⟩, ⟨.string path, l'⟩] := by
  intro r between
  have ended : (r.release.emit (.importFile path l)).goto .between =
      r.release.emit (.importFile path l) :=
    goto_between (by rw [phase_emit, phase_release, between])
  refine fed_of_emitted between ?_
  refine .start (r.release.goto (.importPath l)) between (by simp) rfl (.single (l := l') ?_)
  rw [← ended]
  simp only [feed, goto, importToken, emit]
  cases r.release.frames <;> rfl

theorem fed_braced {frame : FrameKind} {l l' : Line} {ss : List Stmt} {head ts : List PlacedToken}
    (opens : Opens frame l head) (inside : (Form.inside ss).Fed ts) :
    (Form.one (frame.completed l ss)).Fed (head ++ (ts ++ [⟨.mark .rightBrace, l'⟩])) := by
  intro r between
  have fed := (opens.fed between).append (inside r.release frame l l')
  have phase : r.release.phase = .between := by rw [phase_release, between]
  rw [goto_between phase, opens.closed] at fed
  exact fed_of_emitted between fed

/-- The head of a first branch. -/
theorem feeds_first {test : Expr} {head : List PlacedToken}
    (header : Header (.branch none) (.branch (some test) none) head) (l : Line)
    (between : r.phase = .between) :
    Feeds r (⟨.keyword .ifWord, l⟩ :: head)
      (r.release.openFrame (.branch (some test) none) l) :=
  .start (r.release.goto (.header (.branch none) .waiting l)) between (by simp) rfl (header.fed l)

/-- The branches of a chain and the head of a later branch. -/
theorem feeds_later {c : Chain} {test : Expr} {us head : List PlacedToken}
    (before : (Form.branches c.branches c.line).Fed us)
    (header : Header (.branch (some c)) (.branch (some test) (some c)) head) (l l' : Line)
    (between : r.phase = .between) :
    Feeds r (us ++ ⟨.keyword .elseWord, l'⟩ :: ⟨.keyword .ifWord, l⟩ :: head)
      (r.release.openFrame (.branch (some test) (some c)) l) := by
  have phase : r.release.phase = .between := by rw [phase_release, between]
  refine (before r between).append (.cons (feed_else phase (innermostHeld_release r)) ?_)
  exact .via (.header (.branch (some c)) .waiting l) rfl (header.fed l)

/-- The branches of a chain and the head of a plain `else`. -/
theorem feeds_otherwise {c : Chain} {us : List PlacedToken}
    (before : (Form.branches c.branches c.line).Fed us) (l l' : Line)
    (between : r.phase = .between) :
    Feeds r (us ++ [⟨.keyword .elseWord, l⟩, ⟨.mark .leftBrace, l'⟩])
      (r.release.openFrame (.branch none (some c)) l) := by
  have phase : r.release.phase = .between := by rw [phase_release, between]
  refine (before r between).append (.cons (feed_else phase (innermostHeld_release r)) ?_)
  exact .single (l := l') rfl

theorem fed_first {test : Expr} {l l' : Line} {ss : List Stmt} {head ts : List PlacedToken}
    (header : Header (.branch none) (.branch (some test) none) head)
    (inside : (Form.inside ss).Fed ts) :
    (Form.branches [.mk (some test) ss l] l).Fed
      (⟨.keyword .ifWord, l⟩ :: (head ++ (ts ++ [⟨.mark .rightBrace, l'⟩]))) := by
  intro r between
  have phase : r.release.phase = .between := by rw [phase_release, between]
  have fed := (feeds_first header l between).append
    (inside r.release (.branch (some test) none) l l')
  rwa [goto_between phase] at fed

theorem fed_later {c : Chain} {test : Expr} {l l₁ l₂ : Line} {ss : List Stmt}
    {us head ts : List PlacedToken} (before : (Form.branches c.branches c.line).Fed us)
    (header : Header (.branch (some c)) (.branch (some test) (some c)) head)
    (inside : (Form.inside ss).Fed ts) :
    (Form.branches (c.branches ++ [.mk (some test) ss l]) c.line).Fed
      (us ++ ⟨.keyword .elseWord, l₁⟩ :: ⟨.keyword .ifWord, l⟩ ::
        (head ++ (ts ++ [⟨.mark .rightBrace, l₂⟩]))) := by
  intro r between
  have phase : r.release.phase = .between := by rw [phase_release, between]
  have fed := (feeds_later before header l l₁ between).append
    (inside r.release (.branch (some test) (some c)) l l₂)
  rw [goto_between phase, List.append_assoc] at fed
  exact fed

theorem fed_otherwise {c : Chain} {l l₁ l₂ : Line} {ss : List Stmt} {us ts : List PlacedToken}
    (before : (Form.branches c.branches c.line).Fed us) (inside : (Form.inside ss).Fed ts) :
    (Form.one (.choice (c.branches ++ [.mk none ss l]) c.line)).Fed
      (us ++ ⟨.keyword .elseWord, l⟩ :: ⟨.mark .leftBrace, l₁⟩ ::
        (ts ++ [⟨.mark .rightBrace, l₂⟩])) := by
  intro r between
  have phase : r.release.phase = .between := by rw [phase_release, between]
  have fed := (feeds_otherwise before l l₁ between).append
    (inside r.release (.branch none (some c)) l l₂)
  rw [goto_between phase, List.append_assoc] at fed
  exact fed_of_emitted between fed

/-- A chain that is held back becomes a statement when it is released. -/
theorem fed_choice {bs : List Branch} {l : Line} {ts : List PlacedToken}
    (branches : (Form.branches bs l).Fed ts) : (Form.one (.choice bs l)).Fed ts := by
  intro r between
  refine ⟨_, branches r between, by rw [phase_hold, phase_release, between], ?_⟩
  rw [release, innermostHeld_hold]
  simp only [hold_hold, hold_of_free (innermostHeld_release r)]

theorem fed_semicolon {ss : List Stmt} {l : Line} {ts : List PlacedToken}
    (all : (Form.all ss).Fed ts) : (Form.all ss).Fed (ts ++ [⟨.mark .semicolon, l⟩]) := by
  intro r between
  obtain ⟨r', fed, between', released⟩ := all r between
  refine ⟨r'.release, fed.append (.single (l := l) ?_), by rw [phase_release, between'], ?_⟩
  · rw [feed_between between' (by simp)]
    rfl
  · rw [release_of_free (innermostHeld_release r'), released]

theorem fed_next {s : Stmt} {ss : List Stmt} {ts us : List PlacedToken}
    (all : (Form.all ss).Fed ts) (one : (Form.one s).Fed us) :
    (Form.all (ss ++ [s])).Fed (ts ++ us) := by
  intro r between
  obtain ⟨r₁, fed, between₁, released⟩ := all r between
  obtain ⟨r', fed', between', released'⟩ := one r₁ between₁
  refine ⟨r', fed.append fed', between', ?_⟩
  rw [released', released, List.foldl_append]
  rfl

/-- The statements of a frame that is open. -/
theorem foldl_emit_openFrame (frame : FrameKind) (start : Line) (ss : List Stmt) :
    ss.foldl emit (r.openFrame frame start).release =
      { r.openFrame frame start with frames := ⟨frame, ss, none, start⟩ :: r.frames } := by
  rw [release_of_free rfl]
  exact foldl_emit_frame r.frames frame start [] ss rfl

theorem fed_closed {ss : List Stmt} {ts : List PlacedToken} (all : (Form.all ss).Fed ts) :
    (Form.inside ss).Fed ts := by
  intro r frame start l
  obtain ⟨r', fed, between, released⟩ := all (r.openFrame frame start) rfl
  rw [foldl_emit_openFrame] at released
  refine fed.append (.single (l := l) ?_)
  rw [feed_between between (by simp), released, ← closed_line]
  rfl

theorem fed_unended {s : Stmt} {ss : List Stmt} {ts us : List PlacedToken}
    (all : (Form.all ss).Fed ts) (line : Unended s us) : (Form.inside (ss ++ [s])).Fed (ts ++ us) := by
  intro r frame start l
  obtain ⟨r', fed, between, released⟩ := all (r.openFrame frame start) rfl
  obtain ⟨r₁, fed', pending⟩ := line.fed between
  have emitted : r'.release.emit s =
      { r.openFrame frame start with frames := ⟨frame, ss ++ [s], none, start⟩ :: r.frames } := by
    rw [released, ← foldl_emit_openFrame, List.foldl_append]
    rfl
  rw [List.append_assoc]
  refine fed.append (fed'.append (.single (l := l) ?_))
  rw [pending.brace, emitted, ← closed_line]
  rfl

theorem Spells.fed {form : Form} {ts : List PlacedToken} (h : Spells form ts) : form.Fed ts := by
  induction h with
  | line h => exact fed_line h
  | importFile => exact fed_importFile
  | braced opens _ inside => exact fed_braced opens inside
  | first header _ inside => exact fed_first header inside
  | later _ header _ before inside => exact fed_later before header inside
  | choice _ branches => exact fed_choice branches
  | otherwise _ _ before inside => exact fed_otherwise before inside
  | nil => exact fun r between => ⟨r, .nil r, between, rfl⟩
  | semicolon _ all => exact fed_semicolon all
  | next _ _ all one => exact fed_next all one
  | closed _ all => exact fed_closed all
  | unended _ line all => exact fed_unended all line

end Grammar

end Scriptlet
