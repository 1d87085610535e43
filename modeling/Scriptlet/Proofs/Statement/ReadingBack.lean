import Scriptlet.Proofs.Statement.Rendering

/-!
# Statements read back

A reader that is fed the tokens of a regular statement between statements completes what it
held back before and adds the statement, up to lines. It ends between statements again; what it
may hold back then is the statement itself, a chain that could still go on.
-/

namespace Scriptlet.StatementReader

open Scriptlet.Bracket (Nested)
open Scriptlet.Expr (Collapsed Reads parens commas separated optionalTokens)
open Scriptlet.Grammar (word word_eq_cons word_eq_append word_eq_enclosed)

/-- The reader after a run of tokens, or after the first one that it refuses. -/
def feedAll : StatementReader → List PlacedToken → Step
  | r, [] => accept r
  | r, t :: rest => andThen (r.feed t) (feedAll · rest)

/-- A run of tokens that takes one reader to another, up to the line of the last token. -/
def Feeds (r : StatementReader) (ts : List PlacedToken) (r' : StatementReader) : Prop :=
  ∃ l, feedAll r ts = accept { r' with line := l }

theorem Feeds.nil (r : StatementReader) : Feeds r [] r := ⟨r.line, rfl⟩

theorem Feeds.cons {r r₁ r' : StatementReader} {t : PlacedToken} {ts : List PlacedToken} {l : Line}
    (first : r.feed t = accept { r₁ with line := l }) (rest : Feeds r₁ ts r') :
    Feeds r (t :: ts) r' := by
  obtain ⟨l', later⟩ := rest
  cases ts with
  | nil =>
    have same : r₁ = { r' with line := l' } := congrArg Prod.fst later
    refine ⟨l, ?_⟩
    rw [feedAll, first, same]
    rfl
  | cons u us =>
    refine ⟨l', ?_⟩
    rw [feedAll, first]
    exact later

theorem Feeds.append {r r₁ r' : StatementReader} {ts us : List PlacedToken} (first : Feeds r ts r₁)
    (rest : Feeds r₁ us r') : Feeds r (ts ++ us) r' := by
  induction ts generalizing r with
  | nil =>
    obtain ⟨l, same⟩ := first
    have same : r = { r₁ with line := l } := congrArg Prod.fst same
    cases us with
    | nil =>
      obtain ⟨l', later⟩ := rest
      have later : r₁ = { r' with line := l' } := congrArg Prod.fst later
      refine ⟨l, ?_⟩
      rw [same, later]
      rfl
    | cons u us =>
      rw [same]
      exact rest
  | cons t ts ih =>
    obtain ⟨l, fed⟩ := first
    cases read : r.feed t with
    | mk r₂ failure =>
      rw [feedAll, read] at fed
      cases failure with
      | some e => cases fed
      | none => exact Feeds.cons (l := r₂.line) read (ih ⟨l, fed⟩)

/-- A single token. -/
theorem Feeds.single {r r' : StatementReader} {t : PlacedToken} {l : Line}
    (fed : r.feed t = accept { r' with line := l }) : Feeds r [t] r' := .cons fed (.nil r')

/-- A token that takes a reader to another phase. -/
theorem Feeds.via {r r' : StatementReader} {p : Phase} (q : Phase) {t : PlacedToken}
    {ts : List PlacedToken} (first : (r.goto p).feed t = accept { r.goto q with line := t.line })
    (rest : Feeds (r.goto q) ts r') : Feeds (r.goto p) (t :: ts) r' := .cons first rest

/-! ## Chains held back -/

section

variable (r : StatementReader) (s : Stmt) (p q : Phase) (l : Line) (c : Option Chain)

@[simp] theorem goto_goto : (r.goto p).goto q = r.goto q := rfl

@[simp] theorem emit_goto : (r.goto p).emit s = (r.emit s).goto p := by
  simp only [emit, goto]
  cases r.frames <;> rfl

@[simp] theorem phase_emit : (r.emit s).phase = r.phase := by
  simp only [emit]
  cases r.frames <;> rfl

@[simp] theorem phase_hold : (r.hold c).phase = r.phase := by
  simp only [hold]
  cases r.frames <;> rfl

@[simp] theorem phase_release : r.release.phase = r.phase := by
  simp only [release]
  cases r.innermostHeld <;> simp

@[simp] theorem phase_closed (f : Frame) : (r.closed f).phase = r.phase := by
  obtain ⟨kind, statements, held, line⟩ := f
  cases kind with
  | branch test earlier => cases test <;> simp [closed]
  | _ => simp [closed]

@[simp] theorem innermostHeld_emit : (r.emit s).innermostHeld = r.innermostHeld := by
  simp only [emit, innermostHeld]
  cases r.frames <;> rfl

@[simp] theorem innermostHeld_hold : (r.hold c).innermostHeld = c := by
  simp only [hold, innermostHeld]
  cases r.frames <;> rfl

@[simp] theorem innermostHeld_release : r.release.innermostHeld = none := by
  cases held : r.innermostHeld <;> simp [release, held]

@[simp] theorem hold_hold (c' : Option Chain) : (r.hold c).hold c' = r.hold c' := by
  simp only [hold]
  cases r.frames <;> rfl

theorem release_line : release { r with line := l } = { r.release with line := l } := by
  have held : innermostHeld { r with line := l } = r.innermostHeld := rfl
  simp only [release, held, emit, hold]
  cases r.innermostHeld <;> cases r.frames <;> rfl

end

variable {r : StatementReader}

theorem release_of_free (free : r.innermostHeld = none) : r.release = r := by
  simp only [release, free]

theorem hold_of_free (free : r.innermostHeld = none) : r.hold none = r := by
  obtain ⟨phase, frames, held, ready, line⟩ := r
  cases frames with
  | nil =>
    obtain rfl : held = none := free
    rfl
  | cons f outer =>
    obtain ⟨kind, statements, held, line⟩ := f
    obtain rfl : held = none := free
    rfl

/-- A token other than `else` completes the chain that was held back. -/
theorem feed_between {t : PlacedToken} (between : r.phase = .between)
    (other : t.token ≠ .keyword .elseWord) :
    r.feed t = startToken { r.release with line := t.line } t := by
  have begins : r.feed t = beginToken { r with line := t.line } t := by
    simp only [feed, between]
  rw [begins, ← release_line, beginToken]
  split
  · next isElse _ => exact absurd isElse other
  · next isElse _ => exact absurd isElse other
  · rfl

/-! ## Runs inside a line and inside a clause -/

/-- Whether a token neither ends a line nor opens a frame. -/
def staysInLine : Token → Bool
  | .mark .semicolon | .mark .leftBrace | .mark .rightBrace => false
  | _ => true

/-- Expressions stay in a line. -/
theorem staysInLine_of_reads {p : Expr.Phrase} {ts : List PlacedToken} (h : Reads p ts) :
    ∀ t ∈ ts, staysInLine t.token = true := by
  have literal {t : Token} {c : Constant} (value : Expr.literal? t = some c) :
      staysInLine t = true := by
    cases t with
    | mark m => cases value
    | _ => rfl
  induction h with
  | literal value _ ih => simpa [literal value] using ih
  | expr _ _ ih ih' | operator _ _ _ ih ih' | call _ _ ih ih' | group _ _ ih ih' | list _ _ ih ih'
  | apply _ _ ih ih' | index _ _ ih ih' | memberCall _ _ ih ih' | more _ _ ih ih' =>
    intro t ht
    simp only [List.mem_append, List.mem_cons] at ht
    grind [staysInLine]
  | leading _ _ ih | define _ ih | named _ _ ih | member _ _ ih | step _ _ ih =>
    intro t ht
    simp only [List.mem_cons] at ht
    grind [staysInLine]
  | done | plain | none => simp
  | some _ ih | last _ ih => exact ih

/-- A reader that collects tokens and counts open brackets, with the tokens collected so far, the
last one first. -/
structure Collects (collecting : Nat → List PlacedToken → StatementReader) : Prop where
  opening : ∀ {depth buffer t b}, t.token.opens? = some b →
    (collecting depth buffer).feed t =
      accept { collecting (depth + 1) (t :: buffer) with line := t.line }
  closing : ∀ {depth buffer t b}, t.token.closes? = some b →
    (collecting (depth + 1) buffer).feed t =
      accept { collecting depth (t :: buffer) with line := t.line }
  other : ∀ {depth buffer t}, t.token.opens? = none → t.token.closes? = none →
    staysInLine t.token = true →
      (collecting depth buffer).feed t = accept { collecting depth (t :: buffer) with line := t.line }

/-- A nested run is collected, whatever the depth. -/
theorem Collects.feeds {collecting : Nat → List PlacedToken → StatementReader}
    (h : Collects collecting) {ts : List PlacedToken} (nested : Nested ts)
    (stays : ∀ t ∈ ts, staysInLine t.token = true) (depth : Nat) (buffer : List PlacedToken) :
    Feeds (collecting depth buffer) ts (collecting depth (ts.reverse ++ buffer)) := by
  induction nested generalizing depth buffer with
  | nil => exact .nil _
  | @other t rest opens closes _ ih =>
    have later := ih (fun u hu => stays u (List.mem_cons_of_mem _ hu)) depth (t :: buffer)
    rw [List.reverse_cons, List.append_assoc, List.singleton_append]
    exact .cons (h.other opens closes (stays t List.mem_cons_self)) later
  | @bracket o c b inside rest opens _ closes _ ihInside ihRest =>
    have inner := ihInside (fun u hu => stays u (by simp [hu])) (depth + 1) (o :: buffer)
    have later := ihRest (fun u hu => stays u (by simp [hu])) depth
      (c :: (inside.reverse ++ o :: buffer))
    have collected : (o :: (inside ++ c :: rest)).reverse ++ buffer =
        rest.reverse ++ c :: (inside.reverse ++ o :: buffer) := by simp
    rw [collected]
    exact .cons (h.opening opens) (inner.append (.cons (h.closing closes) later))

theorem opens?_cases {t : Token} {b : Bracket} (h : t.opens? = some b) :
    t = .mark .leftParen ∨ t = .mark .leftBracket := by
  unfold Token.opens? at h
  split at h
  · exact .inl rfl
  · exact .inr rfl
  · cases h

theorem closes?_cases {t : Token} {b : Bracket} (h : t.closes? = some b) :
    t = .mark .rightParen ∨ t = .mark .rightBracket := by
  unfold Token.closes? at h
  split at h
  · exact .inl rfl
  · exact .inr rfl
  · cases h

theorem collects_line (r : StatementReader) (kind : LineKind) (start : Line) :
    Collects fun depth buffer => r.goto (.line kind buffer depth start) := by
  constructor
  · rintro depth buffer ⟨token, l⟩ b opens
    rcases opens?_cases opens with rfl | rfl <;> rfl
  · rintro depth buffer ⟨token, l⟩ b closes
    rcases closes?_cases closes with rfl | rfl <;> rfl
  · rintro depth buffer ⟨token, l⟩ opens closes stays
    cases token with
    | mark m =>
      cases m with
      | comma | dot => rfl
      | leftParen | leftBracket => cases opens
      | rightParen | rightBracket => cases closes
      | leftBrace | rightBrace | semicolon => cases stays
    | _ => rfl

theorem collects_clause (r : StatementReader) (kind : HeaderKind) (clauses : List (List PlacedToken))
    (start : Line) :
    Collects fun depth buffer =>
      r.goto (.header kind (.inside ((depth : Int) + 1) buffer clauses) start) := by
  have deeper (depth : Nat) : ((depth + 1 : Nat) : Int) + 1 ≠ 1 := by omega
  have back (depth : Nat) : ((depth + 1 : Nat) : Int) + 1 - 1 = (depth : Int) + 1 := by omega
  constructor
  · rintro depth buffer ⟨token, l⟩ b opens
    rcases opens?_cases opens with rfl | rfl <;> rfl
  · rintro depth buffer ⟨token, l⟩ b closes
    rcases closes?_cases closes with rfl | rfl
    · simp only [feed, goto, headerToken, clauseToken, deeper, if_false, back]
    · simp only [feed, goto, headerToken, clauseToken, deeper, if_false, back]
  · rintro depth buffer ⟨token, l⟩ opens closes stays
    cases token with
    | mark m =>
      cases m with
      | comma | dot => rfl
      | leftParen | leftBracket => cases opens
      | rightParen | rightBracket => cases closes
      | leftBrace | rightBrace | semicolon => cases stays
    | _ => rfl

/-! ## Expressions in a line and in a clause -/

/-- A run with the tokens of an expression, and what is built of it. -/
structure Rebuilds (ts : List PlacedToken) (e e' : Expr) : Prop where
  built : Expr.ofTokens ts = .ok e'
  same : e'.bare = e.bare
  nested : Nested ts
  stays : ∀ t ∈ ts, staysInLine t.token = true
  nonempty : ts ≠ []

theorem exists_rebuilds {e : Expr} (collapsed : Collapsed e) {ts : List PlacedToken}
    (hts : word ts = e.tokens) : ∃ e', Rebuilds ts e e' := by
  obtain ⟨e', read, same⟩ := collapsed.readsBack ts hts
  exact ⟨e', Expr.ofTokens_eq_ok_iff.2 read, same, read.solid.nested, staysInLine_of_reads read,
    read.nonempty⟩

theorem expr?_of_rebuilds {ts : List PlacedToken} {e e' : Expr} (h : Rebuilds ts e e') :
    expr? ts = .ok (some e') := by
  rw [expr?, if_neg h.nonempty, h.built]
  rfl

/-- A run with the tokens of an expression that may be missing, and what is built of it. -/
structure RebuildsOption (ts : List PlacedToken) (value value' : Option Expr) : Prop where
  built : expr? ts = .ok value'
  same : value'.map Expr.bare = value.map Expr.bare
  nested : Nested ts
  stays : ∀ t ∈ ts, staysInLine t.token = true

theorem exists_rebuildsOption {value : Option Expr} (collapsed : ∀ e ∈ value, Collapsed e)
    {ts : List PlacedToken} (hts : word ts = optionalTokens value) :
    ∃ value', RebuildsOption ts value value' := by
  cases value with
  | none =>
    obtain rfl := List.map_eq_nil_iff.1 hts
    exact ⟨none, rfl, rfl, .nil, by simp⟩
  | some e =>
    obtain ⟨e', h⟩ := exists_rebuilds (collapsed e rfl) hts
    exact ⟨some e', expr?_of_rebuilds h, by simp [h.same], h.nested, h.stays⟩

/-- The statement that a line with an expression becomes. -/
def lineStatement : LineKind → Expr → Line → Stmt
  | .expr, e, _ => .expr e
  | .initializer name, e, start => .define name e start
  | .ret, e, start => .ret (some e) start

theorem feeds_line {ts : List PlacedToken} (nested : Nested ts)
    (stays : ∀ t ∈ ts, staysInLine t.token = true) {r r' : StatementReader} {kind : LineKind}
    {start l : Line} (complete : ∀ r₁ : StatementReader, r₁ = { r with line := l } →
      (r₁.goto (.line kind ts.reverse 0 start)).completeLine kind ts.reverse start l =
        accept { r' with line := l }) :
    Feeds (r.goto (.line kind [] 0 start)) (ts ++ [⟨.mark .semicolon, l⟩]) r' := by
  have collected := (collects_line r kind start).feeds nested stays 0 []
  rw [List.append_nil] at collected
  exact collected.append (.single (complete _ rfl))

theorem feeds_line_expr {ts : List PlacedToken} {e e' : Expr} (h : Rebuilds ts e e')
    (r : StatementReader) (kind : LineKind) (start l : Line) :
    Feeds (r.goto (.line kind [] 0 start)) (ts ++ [⟨.mark .semicolon, l⟩])
      ((r.emit (lineStatement kind e' start)).goto .between) := by
  refine feeds_line h.nested h.stays ?_
  rintro _ rfl
  simp only [completeLine, List.reverse_reverse, expr?_of_rebuilds h, emit, goto]
  cases kind <;> cases r.frames <;> rfl

theorem feeds_line_ret {ts : List PlacedToken} {value value' : Option Expr}
    (h : RebuildsOption ts value value') (r : StatementReader) (start l : Line) :
    Feeds (r.goto (.line .ret [] 0 start)) (ts ++ [⟨.mark .semicolon, l⟩])
      ((r.emit (.ret value' start)).goto .between) := by
  refine feeds_line h.nested h.stays ?_
  rintro _ rfl
  simp only [completeLine, List.reverse_reverse, h.built, emit, goto]
  cases r.frames <;> rfl

/-! ## Headers -/

variable (r) in
/-- A clause that another one follows. -/
theorem feeds_clause (kind : HeaderKind) (clauses : List (List PlacedToken)) (start l : Line)
    {ts : List PlacedToken} (nested : Nested ts) (stays : ∀ t ∈ ts, staysInLine t.token = true) :
    Feeds (r.goto (.header kind (.inside 1 [] clauses) start)) (ts ++ [⟨.mark .semicolon, l⟩])
      (r.goto (.header kind (.inside 1 [] (clauses ++ [ts])) start)) := by
  have collected := (collects_clause r kind clauses start).feeds nested stays 0 []
  rw [List.append_nil] at collected
  refine collected.append (.single (l := l) ?_)
  simp only [feed, goto, headerToken, clauseToken, List.reverse_reverse, accept]
  rfl

variable (r) in
/-- The last clause of a header. -/
theorem feeds_last_clause (kind : HeaderKind) (clauses : List (List PlacedToken)) (start l : Line)
    {ts : List PlacedToken} (nested : Nested ts) (stays : ∀ t ∈ ts, staysInLine t.token = true)
    {frame : FrameKind} (made : ∀ line, headerFrame kind (clauses ++ [ts]) line = .ok frame) :
    Feeds (r.goto (.header kind (.inside 1 [] clauses) start)) (ts ++ [⟨.mark .rightParen, l⟩])
      (r.goto (.header kind (.complete frame (clauses ++ [ts])) start)) := by
  have collected := (collects_clause r kind clauses start).feeds nested stays 0 []
  rw [List.append_nil] at collected
  refine collected.append (.single (l := l) ?_)
  simp only [feed, goto, headerToken, clauseToken, completeHeader, List.reverse_reverse, accept, made]
  rfl

/-! ## Names -/

variable (r) in
/-- The names of parameters; the next one is due when there is one before or none follows. -/
theorem feeds_parameters (name : String) (start : Line) (names : List String)
    {params : List String} (due : params = [] → names = []) {ts : List PlacedToken}
    (hts : word ts = commas (params.map fun p => [.name p]) ++ [.mark .rightParen]) :
    ∃ needsComma, Feeds (r.goto (.parameters name names false false start)) ts
      (r.goto (.parameters name (names ++ params) needsComma true start)) := by
  induction params generalizing names ts with
  | nil =>
    obtain rfl := due rfl
    obtain ⟨l, rest, rfl, hnone⟩ := word_eq_cons hts
    obtain rfl := List.map_eq_nil_iff.1 hnone
    exact ⟨false, .single (l := l) rfl⟩
  | cons p params ih =>
    cases params with
    | nil =>
      obtain ⟨l, rest, rfl, hrest⟩ := word_eq_cons hts
      obtain ⟨l', none, rfl, hnone⟩ := word_eq_cons hrest
      obtain rfl := List.map_eq_nil_iff.1 hnone
      refine ⟨true, .via (.parameters name (names ++ [p]) true false start) rfl ?_⟩
      refine .single (l := l') ?_
      simp only [feed, goto, parameterToken, true_or, if_true]
    | cons q params =>
      obtain ⟨l, rest, rfl, hrest⟩ := word_eq_cons hts
      obtain ⟨l', later, rfl, hlater⟩ := word_eq_cons hrest
      obtain ⟨needsComma, fed⟩ := ih (names ++ [p]) (by simp) hlater
      rw [List.append_assoc, List.singleton_append] at fed
      refine ⟨needsComma, .via (.parameters name (names ++ [p]) true false start) rfl ?_⟩
      exact .via _ rfl fed

variable (r) in
theorem feeds_bases (name : String) (start : Line) (names : List String) {bases : List String}
    {ts : List PlacedToken} (hts : word ts = baseTokens bases) :
    Feeds (r.goto (.bases name names true start)) ts
      (r.goto (.bases name (names ++ bases) true start)) := by
  induction bases generalizing names ts with
  | nil =>
    obtain rfl := List.map_eq_nil_iff.1 hts
    rw [List.append_nil]
    exact .nil _
  | cons base bases ih =>
    obtain ⟨l, rest, rfl, hrest⟩ := word_eq_cons hts
    obtain ⟨l', later, rfl, hlater⟩ := word_eq_cons hrest
    have fed := ih (names ++ [base]) hlater
    rw [List.append_assoc, List.singleton_append] at fed
    exact .via (.bases name names false start) rfl (.via _ rfl fed)

/-! ## Statements and bodies -/

/-- A statement is read back from its tokens, wherever a statement can start. -/
def ReadsBack (s : Stmt) : Prop :=
  ∀ (r : StatementReader) (ts : List PlacedToken), r.phase = .between → word ts = s.tokens →
    ∃ r' s', Feeds r ts r' ∧ r'.phase = .between ∧ r'.release = r.release.emit s' ∧
      s'.bare = s.bare

/-- Statements are read back one after another. -/
theorem exists_statements {ss : List Stmt} (back : ∀ s ∈ ss, ReadsBack s) {ts : List PlacedToken}
    (between : r.phase = .between) (hts : word ts = Stmt.tokensAll ss) :
    ∃ r' ss', Feeds r ts r' ∧ r'.phase = .between ∧ r'.release = ss'.foldl emit r.release ∧
      Stmt.bareAll ss' = Stmt.bareAll ss := by
  induction ss generalizing r ts with
  | nil =>
    obtain rfl := List.map_eq_nil_iff.1 hts
    exact ⟨r, [], .nil r, between, rfl, rfl⟩
  | cons s ss ih =>
    obtain ⟨us, vs, rfl, hus, hvs⟩ := word_eq_append (show word ts = s.tokens ++ _ from hts)
    obtain ⟨r₁, s', fed, between₁, released, same⟩ := back s List.mem_cons_self r us between hus
    obtain ⟨r', ss', fed', between', released', sames⟩ :=
      ih (fun u hu => back u (List.mem_cons_of_mem _ hu)) between₁ hvs
    refine ⟨r', s' :: ss', fed.append fed', between', ?_, ?_⟩
    · rw [released', released]
      rfl
    · rw [Stmt.bareAll, Stmt.bareAll, same, sames]

theorem foldl_emit_frame (outer : List Frame) (kind : FrameKind) (start : Line) (ss us : List Stmt)
    (framed : r.frames = ⟨kind, ss, none, start⟩ :: outer) :
    us.foldl emit r = { r with frames := ⟨kind, ss ++ us, none, start⟩ :: outer } := by
  induction us generalizing r ss with
  | nil =>
    rw [List.append_nil, ← framed]
    rfl
  | cons u us ih =>
    have emitted : r.emit u = { r with frames := ⟨kind, ss ++ [u], none, start⟩ :: outer } := by
      simp only [emit, framed]
    rw [List.foldl_cons, ih (ss ++ [u]) (by rw [emitted]), emitted, List.append_assoc]
    rfl

theorem closed_line (f : Frame) (l : Line) :
    closed { r with line := l } f = { r.closed f with line := l } := by
  have emitted (s : Stmt) : emit { r with line := l } s = { r.emit s with line := l } := by
    simp only [emit]
    cases r.frames <;> rfl
  have held (c : Option Chain) : hold { r with line := l } c = { r.hold c with line := l } := by
    simp only [hold]
    cases r.frames <;> rfl
  obtain ⟨kind, statements, chain, line⟩ := f
  cases kind with
  | branch test earlier =>
    cases test with
    | none => exact emitted _
    | some e => exact held _
  | _ => exact emitted _

/-- The statements of a body up to the closing brace. -/
theorem exists_body {body : List Stmt} (back : ∀ s ∈ body, ReadsBack s) {ts : List PlacedToken}
    (hts : word ts = Stmt.tokensAll body ++ [.mark .rightBrace]) (r : StatementReader)
    (kind : FrameKind) (start : Line) :
    ∃ body', Stmt.bareAll body' = Stmt.bareAll body ∧
      Feeds (r.openFrame kind start) ts ((r.goto .between).closed ⟨kind, body', none, start⟩) := by
  obtain ⟨us, vs, rfl, hus, hvs⟩ := word_eq_append hts
  obtain ⟨l, none, rfl, hnone⟩ := word_eq_cons hvs
  obtain rfl := List.map_eq_nil_iff.1 hnone
  obtain ⟨r', body', fed, between, released, same⟩ :=
    exists_statements back (r := r.openFrame kind start) rfl hus
  have inside : r'.release = { r.openFrame kind start with
      frames := ⟨kind, body', Option.none, start⟩ :: r.frames } := by
    have free : (r.openFrame kind start).innermostHeld = Option.none := rfl
    rw [released, release_of_free free]
    exact foldl_emit_frame r.frames kind start [] body' rfl
  refine ⟨body', same, fed.append (.single (l := l) ?_)⟩
  rw [feed_between between (by simp), inside, ← closed_line]
  rfl

/-! ## Each kind of statement -/

/-- The first token of a statement. -/
theorem Feeds.start {r r' : StatementReader} (r₁ : StatementReader) {t : PlacedToken}
    {ts : List PlacedToken} (between : r.phase = .between) (other : t.token ≠ .keyword .elseWord)
    (first : startToken { r.release with line := t.line } t = accept { r₁ with line := t.line })
    (rest : Feeds r₁ ts r') : Feeds r (t :: ts) r' :=
  .cons ((feed_between between other).trans first) rest

/-- A statement that is added when its last token is read. -/
theorem readsBack_of_emitted {s : Stmt} (s' : Stmt) {ts : List PlacedToken}
    (between : r.phase = .between) (fed : Feeds r ts ((r.release.emit s').goto .between)) (same : s'.bare = s.bare) :
    ∃ r' s', Feeds r ts r' ∧ r'.phase = .between ∧ r'.release = r.release.emit s' ∧
      s'.bare = s.bare := by
  have stays : (r.release.emit s').goto .between = r.release.emit s' := by
    have phase : (r.release.emit s').phase = .between := by rw [phase_emit, phase_release, between]
    rw [← phase]
    rfl
  rw [stays] at fed
  refine ⟨r.release.emit s', s', fed, ?_, release_of_free (by simp), same⟩
  rw [phase_emit, phase_release, between]

theorem readsBack_block {body : List Stmt} {l : Line} (back : ∀ s ∈ body, ReadsBack s) :
    ReadsBack (.block body l) := by
  intro r ts between hts
  obtain ⟨l₁, rest, rfl, hrest⟩ := word_eq_cons hts
  obtain ⟨body', same, fed⟩ := exists_body back hrest r.release .block l₁
  refine readsBack_of_emitted (.block body' l₁) between ?_ (by rw [Stmt.bare, Stmt.bare, same])
  rw [← emit_goto]
  exact .start (r.release.openFrame .block l₁) between (by simp) rfl fed

theorem readsBack_function {name : String} {params : List String} {body : List Stmt} {l : Line}
    (back : ∀ s ∈ body, ReadsBack s) : ReadsBack (.function name params body l) := by
  intro r ts between hts
  obtain ⟨l₁, ts, rfl, h₁⟩ := word_eq_cons hts
  obtain ⟨l₂, ts, rfl, h₂⟩ := word_eq_cons h₁
  obtain ⟨us, vs, rfl, hus, hvs⟩ := word_eq_append h₂
  obtain ⟨l₃, us, rfl, hnames⟩ := word_eq_cons hus
  obtain ⟨l₄, vs, rfl, hbody⟩ := word_eq_cons hvs
  obtain ⟨needsComma, names⟩ := feeds_parameters r.release name l₁ [] (fun _ => rfl) hnames
  obtain ⟨body', same, fed⟩ := exists_body back hbody r.release (.function name params) l₁
  refine readsBack_of_emitted (.function name params body' l₁) between ?_
    (by rw [Stmt.bare, Stmt.bare, same])
  rw [← emit_goto]
  refine .start (r.release.goto (.functionName none l₁)) between (by simp) rfl ?_
  refine .via (.functionName (some name) l₁) rfl ?_
  refine .via (.parameters name [] false false l₁) rfl ?_
  refine names.append ?_
  exact Feeds.cons (l := l₄) rfl fed

theorem readsBack_classDef {name : String} {bases : List String} {body : List Stmt} {l : Line}
    (back : ∀ s ∈ body, ReadsBack s) : ReadsBack (.classDef name bases body l) := by
  intro r ts between hts
  obtain ⟨l₁, ts, rfl, h₁⟩ := word_eq_cons hts
  obtain ⟨l₂, ts, rfl, h₂⟩ := word_eq_cons h₁
  obtain ⟨us, vs, rfl, hus, hvs⟩ := word_eq_append h₂
  obtain ⟨l₃, vs, rfl, hbody⟩ := word_eq_cons hvs
  have names := feeds_bases r.release name l₁ [] hus
  obtain ⟨body', same, fed⟩ := exists_body back hbody r.release (.classDef name bases) l₁
  refine readsBack_of_emitted (.classDef name bases body' l₁) between ?_
    (by rw [Stmt.bare, Stmt.bare, same])
  rw [← emit_goto]
  refine .start (r.release.goto (.className l₁)) between (by simp) rfl ?_
  refine .via (.bases name [] true l₁) rfl ?_
  refine names.append ?_
  exact Feeds.cons (l := l₃) rfl fed

theorem readsBack_importFile {path : String} {l : Line} : ReadsBack (.importFile path l) := by
  intro r ts between hts
  obtain ⟨l₁, ts, rfl, h₁⟩ := word_eq_cons hts
  obtain ⟨l₂, ts, rfl, h₂⟩ := word_eq_cons h₁
  obtain ⟨l₃, ts, rfl, h₃⟩ := word_eq_cons h₂
  obtain rfl := List.map_eq_nil_iff.1 h₃
  refine readsBack_of_emitted (.importFile path l₁) between ?_ rfl
  have free : ((r.release.emit (.importFile path l₁)).goto .between).innermostHeld = none := by
    rw [← emit_goto, innermostHeld_emit]
    exact innermostHeld_release r
  refine .start (r.release.goto (.importPath l₁)) between (by simp) rfl ?_
  have last : Feeds ((r.release.emit (.importFile path l₁)).goto .between)
      [⟨.mark .semicolon, l₃⟩] ((r.release.emit (.importFile path l₁)).goto .between) := by
    refine .single (l := l₃) ?_
    rw [feed_between rfl (by simp), release_of_free free]
    rfl
  refine .cons (l := l₂) ?_ last
  simp only [feed, goto, importToken, emit]
  cases r.release.frames <;> rfl

theorem readsBack_define {name : String} {e : Expr} {l : Line} (collapsed : Collapsed e) :
    ReadsBack (.define name e l) := by
  intro r ts between hts
  obtain ⟨l₁, ts, rfl, h₁⟩ := word_eq_cons hts
  obtain ⟨l₂, ts, rfl, h₂⟩ := word_eq_cons h₁
  obtain ⟨l₃, ts, rfl, h₃⟩ := word_eq_cons h₂
  obtain ⟨us, vs, rfl, hus, hvs⟩ := word_eq_append h₃
  obtain ⟨l₄, vs, rfl, hnone⟩ := word_eq_cons hvs
  obtain rfl := List.map_eq_nil_iff.1 hnone
  obtain ⟨e', h⟩ := exists_rebuilds collapsed hus
  refine readsBack_of_emitted (.define name e' l₁) between ?_ (by rw [Stmt.bare, Stmt.bare, h.same])
  refine .start (r.release.goto (.variableName none l₁)) between (by simp) rfl ?_
  refine .via (.variableName (some name) l₁) rfl ?_
  refine .via (.line (.initializer name) [] 0 l₁) rfl ?_
  exact feeds_line_expr h r.release (.initializer name) l₁ l₄

theorem readsBack_ret {value : Option Expr} {l : Line} (collapsed : ∀ e ∈ value, Collapsed e) :
    ReadsBack (.ret value l) := by
  intro r ts between hts
  obtain ⟨l₁, ts, rfl, h₁⟩ := word_eq_cons hts
  obtain ⟨us, vs, rfl, hus, hvs⟩ := word_eq_append h₁
  obtain ⟨l₂, vs, rfl, hnone⟩ := word_eq_cons hvs
  obtain rfl := List.map_eq_nil_iff.1 hnone
  obtain ⟨value', h⟩ := exists_rebuildsOption collapsed hus
  refine readsBack_of_emitted (.ret value' l₁) between ?_ (by rw [Stmt.bare, Stmt.bare, h.same])
  refine .start (r.release.goto (.line .ret [] 0 l₁)) between (by simp) rfl ?_
  exact feeds_line_ret h r.release l₁ l₂

theorem readsBack_loop {init test iterate : Option Expr} {body : List Stmt} {l : Line}
    (hinit : ∀ e ∈ init, Collapsed e) (htest : ∀ e ∈ test, Collapsed e)
    (hiterate : ∀ e ∈ iterate, Collapsed e) (back : ∀ s ∈ body, ReadsBack s) :
    ReadsBack (.loop init test iterate body l) := by
  intro r ts between hts
  obtain ⟨l₁, ts, rfl, h₁⟩ := word_eq_cons hts
  obtain ⟨us, vs, rfl, hus, hvs⟩ := word_eq_append h₁
  obtain ⟨l₂, inside, l₃, rfl, hinside⟩ := word_eq_enclosed hus
  obtain ⟨inits, rest, rfl, hinits, hrest⟩ := word_eq_append hinside
  obtain ⟨l₄, rest, rfl, hclauses⟩ := word_eq_cons hrest
  obtain ⟨tests, rest, rfl, htests, hlast⟩ := word_eq_append hclauses
  obtain ⟨l₅, iterates, rfl, hiterates⟩ := word_eq_cons hlast
  obtain ⟨l₆, vs, rfl, hbody⟩ := word_eq_cons hvs
  obtain ⟨init', first⟩ := exists_rebuildsOption hinit hinits
  obtain ⟨test', second⟩ := exists_rebuildsOption htest htests
  obtain ⟨iterate', third⟩ := exists_rebuildsOption hiterate hiterates
  obtain ⟨body', same, fed⟩ :=
    exists_body back hbody r.release (.loop init' test' iterate') l₁
  refine readsBack_of_emitted (.loop init' test' iterate' body' l₁) between ?_
    (by rw [Stmt.bare, Stmt.bare, same, first.same, second.same, third.same])
  have made (line : Line) : headerFrame (.loop .forWord) [inits, tests, iterates] line =
      .ok (.loop init' test' iterate') := by
    simp only [headerFrame, first.built, second.built, third.built, ok_bind]
    rfl
  have clauses := ((feeds_clause r.release (.loop .forWord) [] l₁ l₄ first.nested first.stays).append
    (feeds_clause r.release (.loop .forWord) [inits] l₁ l₅ second.nested second.stays)).append
    (feeds_last_clause r.release (.loop .forWord) [inits, tests] l₁ l₃ third.nested third.stays made)
  have joined : inits ++ ⟨.mark .semicolon, l₄⟩ :: (tests ++ ⟨.mark .semicolon, l₅⟩ :: iterates) ++
      [⟨.mark .rightParen, l₃⟩] = inits ++ [⟨.mark .semicolon, l₄⟩] ++
        (tests ++ [⟨.mark .semicolon, l₅⟩]) ++ (iterates ++ [⟨.mark .rightParen, l₃⟩]) := by simp
  rw [← emit_goto, joined]
  refine .start (r.release.goto (.header (.loop .forWord) .waiting l₁)) between (by simp) rfl ?_
  refine .via (.header (.loop .forWord) (.inside 1 [] []) l₁) rfl (clauses.append ?_)
  exact Feeds.cons (l := l₆) rfl fed

theorem readsBack_foreach {name : String} {source : Expr} {body : List Stmt} {l : Line}
    (collapsed : Collapsed source) (back : ∀ s ∈ body, ReadsBack s) :
    ReadsBack (.foreach name source body l) := by
  intro r ts between hts
  obtain ⟨l₁, ts, rfl, h₁⟩ := word_eq_cons hts
  obtain ⟨us, vs, rfl, hus, hvs⟩ := word_eq_append h₁
  obtain ⟨l₂, inside, l₃, rfl, hinside⟩ := word_eq_enclosed hus
  obtain ⟨l₄, rest, rfl, hrest⟩ := word_eq_cons hinside
  obtain ⟨l₅, run, rfl, hrun⟩ := word_eq_cons hrest
  obtain ⟨l₆, vs, rfl, hbody⟩ := word_eq_cons hvs
  obtain ⟨source', h⟩ := exists_rebuilds collapsed hrun
  obtain ⟨body', same, fed⟩ := exists_body back hbody r.release (.foreach name source') l₁
  refine readsBack_of_emitted (.foreach name source' body' l₁) between ?_
    (by rw [Stmt.bare, Stmt.bare, same, h.same])
  have made (line : Line) : headerFrame .foreach [[⟨.name name, l₄⟩], run] line =
      .ok (.foreach name source') := by
    simp only [headerFrame, h.built, ok_bind]
    rfl
  have nested : Nested [⟨.name name, l₄⟩] := .other rfl rfl .nil
  have clauses := (feeds_clause r.release .foreach [] l₁ l₅ nested (by simp [staysInLine])).append
    (feeds_last_clause r.release .foreach [[⟨.name name, l₄⟩]] l₁ l₃ h.nested h.stays made)
  rw [← emit_goto]
  refine .start (r.release.goto (.header .foreach .waiting l₁)) between (by simp) rfl ?_
  refine .via (.header .foreach (.inside 1 [] []) l₁) rfl ?_
  refine clauses.append ?_
  exact Feeds.cons (l := l₆) rfl fed

/-! ## Chains -/

theorem separated_cons (t : Token) (w : List Token) (ws : List (List Token)) :
    separated t (w :: ws) = w ++ ws.flatMap fun v => t :: v := by
  induction ws generalizing w with
  | nil => simp [separated]
  | cons v ws ih => rw [separated, ih, List.flatMap_cons, List.cons_append]

/-- The test and the body of a branch. -/
theorem exists_tested {e : Expr} {body : List Stmt} (collapsed : Collapsed e)
    (back : ∀ s ∈ body, ReadsBack s) {ts : List PlacedToken}
    (hts : word ts = parens e.tokens ++ braces (Stmt.tokensAll body)) (r : StatementReader)
    (earlier : Option Chain) (start : Line) :
    ∃ e' body', e'.bare = e.bare ∧ Stmt.bareAll body' = Stmt.bareAll body ∧
      Feeds (r.goto (.header (.branch earlier) .waiting start)) ts
        ((r.goto .between).closed ⟨.branch (some e') earlier, body', none, start⟩) := by
  obtain ⟨us, vs, rfl, hus, hvs⟩ := word_eq_append hts
  obtain ⟨l₂, run, l₃, rfl, hrun⟩ := word_eq_enclosed hus
  obtain ⟨l₄, vs, rfl, hbody⟩ := word_eq_cons hvs
  obtain ⟨e', h⟩ := exists_rebuilds collapsed hrun
  obtain ⟨body', same, fed⟩ := exists_body back hbody r (.branch (some e') earlier) start
  have made (line : Line) : headerFrame (.branch earlier) [run] line =
      .ok (.branch (some e') earlier) := by
    simp only [headerFrame, h.built, ok_bind]
    rfl
  refine ⟨e', body', h.same, same, ?_⟩
  refine .via (.header (.branch earlier) (.inside 1 [] []) start) rfl ?_
  refine (feeds_last_clause r (.branch earlier) [] start l₃ h.nested h.stays made).append ?_
  exact Feeds.cons (l := l₄) rfl fed

theorem goto_between (between : r.phase = .between) : r.goto .between = r := by
  rw [← between]
  rfl

/-- An `else` takes up the chain that was held back. -/
theorem feed_else_of_held {c : Chain} (between : r.phase = .between)
    (held : r.innermostHeld = some c) (l : Line) : r.feed ⟨.keyword .elseWord, l⟩ =
      accept { (r.hold none).goto (.afterElse c l) with line := l } := by
  obtain ⟨phase, frames, held', ready, line⟩ := r
  obtain rfl : phase = .between := between
  cases frames with
  | nil =>
    obtain rfl : held' = some c := held
    rfl
  | cons f outer =>
    obtain ⟨kind, statements, held', start⟩ := f
    obtain rfl : held' = some c := held
    rfl

theorem feed_else {c : Chain} {l : Line} (between : r.phase = .between)
    (free : r.innermostHeld = none) :
    (r.hold (some c)).feed ⟨.keyword .elseWord, l⟩ =
      accept { r.goto (.afterElse c l) with line := l } := by
  have between' : (r.hold (some c)).phase = .between := by rw [phase_hold, between]
  rw [feed_else_of_held between' (innermostHeld_hold r (some c)), hold_hold, hold_of_free free]

/-- The branches after the first one. -/
theorem exists_later_branches {branches : List Branch}
    (tested : ∀ b ∈ branches.dropLast, b.test.isSome = true)
    (collapsed : ∀ b ∈ branches, ∀ e ∈ b.test, Collapsed e)
    (back : ∀ b ∈ branches, ∀ s ∈ b.body, ReadsBack s) (between : r.phase = .between)
    (free : r.innermostHeld = none) {c : Chain} {ts : List PlacedToken}
    (hts : word ts = (Branch.tokensAll branches).flatMap fun w => .keyword .elseWord :: w) :
    ∃ r' later, Feeds (r.hold (some c)) ts r' ∧ r'.phase = .between ∧
      r'.release = r.emit (.choice (c.branches ++ later) c.line) ∧
      Branch.bareAll later = Branch.bareAll branches := by
  induction branches generalizing c ts with
  | nil =>
    obtain rfl := List.map_eq_nil_iff.1 hts
    refine ⟨r.hold (some c), [], .nil _, by rw [phase_hold, between], ?_, rfl⟩
    have held : (r.hold (some c)).innermostHeld = some c := innermostHeld_hold r (some c)
    rw [List.append_nil, release, held]
    simp only [hold_hold, hold_of_free free]
  | cons b branches ih =>
    obtain ⟨test, body, line⟩ := b
    obtain ⟨l, ts, rfl, h₁⟩ := word_eq_cons hts
    obtain ⟨us, vs, rfl, hus, hvs⟩ := word_eq_append h₁
    have backBody : ∀ s ∈ body, ReadsBack s := back _ List.mem_cons_self
    cases test with
    | some e =>
      obtain ⟨l', us, rfl, hbranch⟩ := word_eq_cons hus
      obtain ⟨e', body', sameTest, same, fed⟩ := exists_tested
        (collapsed _ List.mem_cons_self e rfl) backBody hbranch r (some c) l'
      rw [goto_between between] at fed
      have tested' : ∀ b ∈ branches.dropLast, b.test.isSome = true := by
        intro b hb
        cases branches with
        | nil => exact absurd hb (by simp)
        | cons next rest => exact tested b (List.mem_cons_of_mem _ hb)
      obtain ⟨r', later, fed', between', released, sames⟩ := ih tested'
        (fun b hb => collapsed b (List.mem_cons_of_mem _ hb))
        (fun b hb => back b (List.mem_cons_of_mem _ hb))
        (c := { c with branches := c.branches ++ [.mk (some e') body' l'] }) hvs
      refine ⟨r', .mk (some e') body' l' :: later, ?_, between', ?_, ?_⟩
      · refine .cons (feed_else between free) ?_
        refine .via (.header (.branch (some c)) .waiting l') rfl (fed.append fed')
      · rw [released, List.append_assoc]
        rfl
      · simp only [Branch.bareAll, sames, Branch.bare, same, Option.map_some, sameTest]
    | none =>
      obtain ⟨l', us, rfl, hbody⟩ := word_eq_cons hus
      cases branches with
      | cons next rest => exact absurd (tested _ List.mem_cons_self) (by simp [Branch.test])
      | nil =>
        obtain rfl := List.map_eq_nil_iff.1 hvs
        obtain ⟨body', same, fed⟩ := exists_body backBody hbody r (.branch none (some c)) l
        rw [goto_between between] at fed
        refine ⟨r.emit (.choice (c.branches ++ [.mk none body' l]) c.line), [.mk none body' l], ?_,
          by rw [phase_emit, between], release_of_free (by rw [innermostHeld_emit, free]), ?_⟩
        · rw [List.append_nil]
          refine .cons (feed_else between free) ?_
          exact Feeds.cons (l := l') rfl fed
        · simp only [Branch.bareAll, Branch.bare, same]

theorem readsBack_choice {branches : List Branch} {l : Line} (chained : Chained branches)
    (collapsed : ∀ b ∈ branches, ∀ e ∈ b.test, Collapsed e)
    (back : ∀ b ∈ branches, ∀ s ∈ b.body, ReadsBack s) : ReadsBack (.choice branches l) := by
  intro r ts between hts
  obtain ⟨⟨test, body, line⟩, rest, rfl, starts, tested⟩ := chained
  obtain ⟨e, rfl⟩ := Option.isSome_iff_exists.1 starts
  have written : (Stmt.choice (.mk (some e) body line :: rest) l).tokens =
      Branch.tokens (.mk (some e) body line) ++
        (Branch.tokensAll rest).flatMap fun w => .keyword .elseWord :: w := by
    rw [Stmt.tokens, Branch.tokensAll, separated_cons]
  obtain ⟨us, vs, rfl, hus, hvs⟩ := word_eq_append (hts.trans written)
  obtain ⟨l₁, us, rfl, hbranch⟩ := word_eq_cons hus
  have phase : r.release.phase = .between := by rw [phase_release, between]
  have backBody : ∀ s ∈ body, ReadsBack s := back _ List.mem_cons_self
  obtain ⟨e', body', sameTest, same, fed⟩ := exists_tested
    (collapsed _ List.mem_cons_self e rfl) backBody hbranch r.release none l₁
  rw [goto_between phase] at fed
  have tested' : ∀ b ∈ rest.dropLast, b.test.isSome = true := by
    intro b hb
    cases rest with
    | nil => exact absurd hb (by simp)
    | cons next rest => exact tested b (List.mem_cons_of_mem _ hb)
  obtain ⟨r', later, fed', between', released, sames⟩ := exists_later_branches tested'
    (fun b hb => collapsed b (List.mem_cons_of_mem _ hb))
    (fun b hb => back b (List.mem_cons_of_mem _ hb)) phase (innermostHeld_release r)
    (c := ⟨[.mk (some e') body' l₁], l₁⟩) hvs
  refine ⟨r', .choice (.mk (some e') body' l₁ :: later) l₁, ?_, between', released, ?_⟩
  · refine .start (r.release.goto (.header (.branch none) .waiting l₁)) between (by simp) rfl ?_
    exact fed.append fed'
  · simp only [Stmt.bare, Branch.bareAll, sames, Branch.bare, same, Option.map_some, sameTest]

/-! ## Expressions as statements -/

/-- Whether a line with an expression can start with a token. -/
def startsLine : Token → Bool
  | .int _ | .float _ | .string _ | .bool _ | .keyword .nullWord | .name _ | .symbol _
  | .mark .leftParen | .mark .leftBracket => true
  | _ => false

theorem startsLine_callTokens (f : String) (form : Expr.CallForm) (ws : List (List Token)) :
    ∃ t w, Expr.callTokens f form ws = t :: w ∧ startsLine t = true := by
  unfold Expr.callTokens
  split <;> exact ⟨_, _, rfl, rfl⟩

theorem exists_first {e : Expr} (other : ∀ n l, e ≠ .define n l) :
    ∃ t w, e.tokens = t :: w ∧ startsLine t = true := by
  cases e with
  | constant c l => cases c <;> exact ⟨_, _, rfl, rfl⟩
  | named n l => exact ⟨_, _, rfl, rfl⟩
  | define n l => exact absurd rfl (other n l)
  | call f es p l => exact startsLine_callTokens f _ _
  | list es l => exact ⟨_, _, rfl, rfl⟩

theorem ne_else_of_startsLine {t : Token} (h : startsLine t = true) : t ≠ .keyword .elseWord := by
  rintro rfl
  cases h

theorem startToken_of_startsLine {t : Token} {l : Line} (h : startsLine t = true) :
    r.startToken ⟨t, l⟩ = r.lineToken .expr [] 0 l ⟨t, l⟩ := by
  cases t with
  | keyword w => cases w <;> first | rfl | cases h
  | mark m => cases m <;> first | rfl | cases h
  | _ => rfl

theorem lineToken_goto (p : Phase) (kind : LineKind) (buffer : List PlacedToken) (depth : Nat)
    (start : Line) (t : PlacedToken) :
    (r.goto p).lineToken kind buffer depth start t = r.lineToken kind buffer depth start t := by
  have complete : (r.goto p).completeLine kind buffer start t.line =
      r.completeLine kind buffer start t.line := by
    simp only [completeLine, emit_goto, goto_goto]
  simp only [lineToken, complete, goto_goto]

/-- An expression that starts a statement is a line from its first token on. -/
theorem Feeds.startLine {r r' : StatementReader} {t : Token} {l : Line} {ts : List PlacedToken}
    (between : r.phase = .between) (starts : startsLine t = true)
    (fed : Feeds (r.release.goto (.line .expr [] 0 l)) (⟨t, l⟩ :: ts) r') :
    Feeds r (⟨t, l⟩ :: ts) r' := by
  have line : (r.release.goto (.line .expr [] 0 l)).feed ⟨t, l⟩ =
      lineToken { r.release.goto (.line .expr [] 0 l) with line := l } .expr [] 0 l ⟨t, l⟩ := rfl
  have same : r.feed ⟨t, l⟩ = (r.release.goto (.line .expr [] 0 l)).feed ⟨t, l⟩ := by
    rw [feed_between between (ne_else_of_startsLine starts), startToken_of_startsLine starts, line]
    exact (lineToken_goto (.line .expr [] 0 l) .expr [] 0 l ⟨t, l⟩).symm
  obtain ⟨l', later⟩ := fed
  refine ⟨l', ?_⟩
  rw [feedAll, same]
  exact later

theorem readsBack_expr {e : Expr} (collapsed : Collapsed e) : ReadsBack (.expr e) := by
  intro r ts between hts
  obtain ⟨us, vs, rfl, hus, hvs⟩ := word_eq_append hts
  obtain ⟨l₁, vs, rfl, hnone⟩ := word_eq_cons hvs
  obtain rfl := List.map_eq_nil_iff.1 hnone
  by_cases other : ∀ n l, e ≠ .define n l
  · obtain ⟨t, w, written, starts⟩ := exists_first other
    obtain ⟨l₂, rest, rfl, -⟩ := word_eq_cons (hus.trans written)
    obtain ⟨e', h⟩ := exists_rebuilds collapsed hus
    have fed := feeds_line_expr h r.release .expr l₂ l₁
    exact readsBack_of_emitted (.expr e') between (.startLine between starts fed)
      (by rw [Stmt.bare, Stmt.bare, h.same])
  · -- a definition without a first value has a phase of its own
    obtain ⟨n, l, rfl⟩ : ∃ n l, e = .define n l := by simpa using other
    obtain ⟨l₂, us, rfl, hname⟩ := word_eq_cons hus
    obtain ⟨l₃, us, rfl, hnone⟩ := word_eq_cons hname
    obtain rfl := List.map_eq_nil_iff.1 hnone
    refine readsBack_of_emitted (.expr (.define n l₂)) between ?_ rfl
    refine .start (r.release.goto (.variableName none l₂)) between (by simp) rfl ?_
    refine .via (.variableName (some n) l₂) rfl (.single (l := l₁) ?_)
    simp only [feed, goto, variableToken, emit]
    cases r.release.frames <;> rfl

/-- A regular statement is read back. -/
theorem readsBack_of_regular {s : Stmt} (h : s.Regular) : ReadsBack s := by
  induction h with
  | expr collapsed => exact readsBack_expr collapsed
  | define collapsed => exact readsBack_define collapsed
  | function _ back => exact readsBack_function back
  | classDef _ back => exact readsBack_classDef back
  | block _ back => exact readsBack_block back
  | ret collapsed => exact readsBack_ret collapsed
  | loop init test iterate _ back => exact readsBack_loop init test iterate back
  | foreach collapsed _ back => exact readsBack_foreach collapsed back
  | choice chained collapsed _ back => exact readsBack_choice chained collapsed back
  | importFile => exact readsBack_importFile

/-! ## Programs -/

theorem foldl_emit_top (ss : List Stmt) (top : r.frames = []) :
    ss.foldl emit r = { r with ready := r.ready ++ ss } := by
  induction ss generalizing r with
  | nil => rw [List.foldl_nil, List.append_nil]
  | cons s ss ih =>
    have emitted : r.emit s = { r with ready := r.ready ++ [s] } := by
      simp only [emit, top]
    have later := ih (r := { r with ready := r.ready ++ [s] }) top
    rw [List.append_assoc, List.singleton_append] at later
    rw [List.foldl_cons, emitted, later]

theorem frames_of_release (top : r.release.frames = []) : r.frames = [] := by
  obtain ⟨phase, frames, held, ready, line⟩ := r
  cases frames with
  | nil => rfl
  | cons f outer =>
    obtain ⟨kind, statements, held, line⟩ := f
    cases held <;> cases top

/-- Whatever statements a reader has made, their tokens, one after another and on any lines, are
read without an error by a new reader. It is idle at the end and has made the same statements in
the same order, up to lines and the binding strengths of calls. -/
theorem feedAll_tokensAll (used : Used r) {ts : List PlacedToken}
    (written : ts.map (·.token) = Stmt.tokensAll r.ready) :
    ∃ r₁ r₂, feedAll new ts = accept r₁ ∧ r₁.flush = accept r₂ ∧ r₂.isIdle = true ∧
      Stmt.bareAll r₂.ready = Stmt.bareAll r.ready := by
  have back : ∀ s ∈ r.ready, ReadsBack s := fun s hs => readsBack_of_regular (used.regular.ready s hs)
  obtain ⟨r', ss, ⟨l, fed⟩, between, released, same⟩ := exists_statements back (r := new) rfl written
  have whole : r'.release = { new with ready := ss } := released.trans (foldl_emit_top ss rfl)
  have top : r'.frames = [] := frames_of_release (by rw [whole]; rfl)
  refine ⟨{ r' with line := l }, { new with ready := ss, line := l }, fed, ?_, rfl, same⟩
  have flushed : flush { r' with line := l } = accept (release { r' with line := l }) := by
    simp only [flush, top, between]
  rw [flushed, release_line, whole]

theorem Used.foldl_feed (used : Used r) (ts : List PlacedToken) :
    Used (ts.foldl (fun r t => (r.feed t).1) r) := by
  induction ts generalizing r with
  | nil => exact used
  | cons t ts ih => exact ih (used.feed t)

/-- The theorem at `if (a) { -b; } else if (c) { } if (d) { var x = [1]; }`, two chains next to each
other. -/
theorem feedAll_tokensAll_chains :
    let source : List Token :=
      [.keyword .ifWord, .mark .leftParen, .name "a", .mark .rightParen, .mark .leftBrace,
        .symbol .minus, .name "b", .mark .semicolon, .mark .rightBrace, .keyword .elseWord,
        .keyword .ifWord, .mark .leftParen, .name "c", .mark .rightParen, .mark .leftBrace,
        .mark .rightBrace, .keyword .ifWord, .mark .leftParen, .name "d", .mark .rightParen,
        .mark .leftBrace, .keyword .varWord, .name "x", .symbol .assign, .mark .leftBracket,
        .int 1, .mark .rightBracket, .mark .semicolon, .mark .rightBrace]
    let r := ((source.map (⟨·, 1⟩)).foldl (fun r t => (r.feed t).1) new).flush.1
    let ts := (Stmt.tokensAll r.ready).map (PlacedToken.mk · 2)
    Used r ∧ ts.map (·.token) = Stmt.tokensAll r.ready ∧ r.ready.length = 2 ∧
      ∃ r₁ r₂, feedAll new ts = accept r₁ ∧ r₁.flush = accept r₂ ∧ r₂.isIdle = true ∧
        Stmt.bareAll r₂.ready = Stmt.bareAll r.ready := by
  intro source r ts
  have used : Used r := (Used.new.foldl_feed (source.map (⟨·, 1⟩))).flush
  have written : ts.map (·.token) = Stmt.tokensAll r.ready := by
    rw [List.map_map]
    exact List.map_id _
  exact ⟨used, written, by decide, feedAll_tokensAll used written⟩

end Scriptlet.StatementReader
