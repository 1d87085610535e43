import Scriptlet.Proofs.Expr.ErrorLines
import Scriptlet.Proofs.Expr.Lines
import Scriptlet.Proofs.Statement.Grammar

/-!
# The lines of statements and of refused tokens

A reader makes statements of the lines of the tokens that it is fed, and refuses a token on one of
these lines. The only other line that an error can name is line zero, for an expression without
tokens.
-/

namespace Scriptlet.Survey

variable (S : Survey)

/-! ## What has been read -/

/-- Whether the lines in a statement are those of tokens. -/
abbrev Takes (s : Stmt) : Prop := s.EachLine S.line False

/-- Whether the lines in an expression, if there is one, are those of tokens. -/
abbrev TakesOption (value : Option Expr) : Prop := ∀ e ∈ value, e.EachLine S.line

structure TakesBranch (b : Branch) : Prop where
  test : S.TakesOption b.test
  body : ∀ s ∈ b.body, S.Takes s

structure TakesChain (c : Chain) : Prop where
  branches : ∀ b ∈ c.branches, S.TakesBranch b
  line : S.line c.line

def TakesKind : FrameKind → Prop
  | .branch test earlier => S.TakesOption test ∧ ∀ c ∈ earlier, S.TakesChain c
  | .loop init test iterate => S.TakesOption init ∧ S.TakesOption test ∧ S.TakesOption iterate
  | .foreach _ source => source.EachLine S.line
  | .block | .function _ _ | .classDef _ _ => True

structure TakesFrame (f : Frame) : Prop where
  kind : S.TakesKind f.kind
  statements : ∀ s ∈ f.statements, S.Takes s
  held : ∀ c ∈ f.held, S.TakesChain c
  line : S.line f.line

def TakesHeader : HeaderKind → Prop
  | .branch earlier => ∀ c ∈ earlier, S.TakesChain c
  | .loop _ | .foreach => True

/-- Whether the lines in all that a reader has made, and the line it is on, are those of tokens. -/
structure Holds (r : StatementReader) : Prop where
  frames : ∀ f ∈ r.frames, S.TakesFrame f
  held : ∀ c ∈ r.held, S.TakesChain c
  ready : ∀ s ∈ r.ready, S.Takes s
  line : S.line r.line

/-- What is known of a header before some tokens are read. -/
def Awaits (rest : List PlacedToken) : HeaderStage → Prop
  | .waiting => S.Covers false rest
  | .inside _ buffer clauses =>
    S.Covers false (buffer.reverse ++ rest) ∧ (∀ c ∈ clauses, S.Covers false c) ∧
      (buffer = [] → ∀ t ∈ rest.head?, t.token.closes?.isSome = true → S.hollow)
  | .complete frame _ => S.TakesKind frame

/-- What is known of a phase before some tokens are read. -/
def Expects (rest : List PlacedToken) : Phase → Prop
  | .between => S.Covers false rest
  | .line _ buffer _ start => S.Covers false (buffer.reverse ++ rest) ∧ S.line start
  | .variableName name start => S.Covers name.isSome rest ∧ S.line start
  | .functionName _ start | .parameters _ _ _ _ start | .className start | .bases _ _ _ start =>
    S.line start
  | .importPath _ => False
  | .afterElse chain start => S.Covers false rest ∧ S.TakesChain chain ∧ S.line start
  | .header kind stage start => S.TakesHeader kind ∧ S.Awaits rest stage ∧ S.line start

/-- What is known of a reader before it reads some tokens. -/
structure Reads (rest : List PlacedToken) (r : StatementReader) : Prop extends S.Holds r where
  phase : S.Expects rest r.phase

/-- What is known after a step: the reader may go on, or the error names a line. -/
structure Steps (rest : List PlacedToken) (s : StatementReader.Step) : Prop where
  accepted : s.2 = none → S.Reads rest s.1
  refused : ∀ e ∈ s.2, S.Names e

variable {S} {r : StatementReader} {t : PlacedToken} {rest : List PlacedToken} {start line : Line}
  {after : Bool}

/-! ## Changes of a reader -/

theorem takesOption_none : S.TakesOption none := by
  intro e never
  cases never

theorem TakesChain.choice {c : Chain} (takes : S.TakesChain c) :
    S.Takes (.choice c.branches c.line) :=
  .choice (fun b member => (takes.branches b member).test)
    (fun b member => (takes.branches b member).body) takes.line

theorem TakesChain.append {c : Chain} (takes : S.TakesChain c) {b : Branch}
    (branch : S.TakesBranch b) : S.TakesChain { c with branches := c.branches ++ [b] } := by
  refine ⟨fun d member => ?_, takes.line⟩
  rcases List.mem_append.1 member with member | member
  · exact takes.branches d member
  · rw [List.mem_singleton.1 member]
    exact branch

namespace Holds

theorem goto (holds : S.Holds r) (p : Phase) : S.Holds (r.goto p) :=
  ⟨holds.frames, holds.held, holds.ready, holds.line⟩

theorem emit (holds : S.Holds r) {s : Stmt} (takes : S.Takes s) : S.Holds (r.emit s) := by
  have appended {ss : List Stmt} (all : ∀ u ∈ ss, S.Takes u) : ∀ u ∈ ss ++ [s], S.Takes u := by
    intro u member
    rcases List.mem_append.1 member with member | member
    · exact all u member
    · rw [List.mem_singleton.1 member]
      exact takes
  unfold StatementReader.emit
  split
  · exact ⟨holds.frames, holds.held, appended holds.ready, holds.line⟩
  · next f outer same =>
    have frames := holds.frames
    rw [same] at frames
    refine ⟨fun g member => ?_, holds.held, holds.ready, holds.line⟩
    rcases List.mem_cons.1 member with rfl | member
    · have inner := frames f List.mem_cons_self
      exact ⟨inner.kind, appended inner.statements, inner.held, inner.line⟩
    · exact frames g (List.mem_cons_of_mem _ member)

theorem hold (holds : S.Holds r) {chain : Option Chain} (takes : ∀ c ∈ chain, S.TakesChain c) :
    S.Holds (r.hold chain) := by
  unfold StatementReader.hold
  split
  · exact ⟨holds.frames, takes, holds.ready, holds.line⟩
  · next f outer same =>
    have frames := holds.frames
    rw [same] at frames
    refine ⟨fun g member => ?_, holds.held, holds.ready, holds.line⟩
    rcases List.mem_cons.1 member with rfl | member
    · have inner := frames f List.mem_cons_self
      exact ⟨inner.kind, inner.statements, takes, inner.line⟩
    · exact frames g (List.mem_cons_of_mem _ member)

theorem innermostHeld (holds : S.Holds r) : ∀ c ∈ r.innermostHeld, S.TakesChain c := by
  unfold StatementReader.innermostHeld
  split
  · exact holds.held
  · next f outer same => exact (holds.frames f (by simp [same])).held

theorem release (holds : S.Holds r) : S.Holds r.release := by
  unfold StatementReader.release
  split
  · exact holds
  · next c same =>
    exact (holds.hold (by simp)).emit (holds.innermostHeld c same).choice

theorem closed (holds : S.Holds r) {f : Frame} (takes : S.TakesFrame f) :
    S.Holds (r.closed f) := by
  obtain ⟨kind, statements, held, line⟩ := f
  cases kind with
  | block => exact holds.emit (.block takes.statements takes.line)
  | function name parameters => exact holds.emit (.function takes.statements takes.line)
  | classDef name bases => exact holds.emit (.classDef takes.statements takes.line)
  | loop init test iterate =>
    obtain ⟨starts, tests, iterates⟩ := takes.kind
    exact holds.emit (.loop starts tests iterates takes.statements takes.line)
  | foreach name source => exact holds.emit (.foreach takes.kind takes.statements takes.line)
  | branch test earlier =>
    obtain ⟨tests, before⟩ := takes.kind
    have branch : S.TakesBranch (.mk test statements line) := ⟨tests, takes.statements⟩
    have ends {c : Chain} (chain : S.TakesChain c) : S.Holds
        (if test.isNone then r.emit (.choice c.branches c.line) else r.hold (some c)) := by
      split
      · exact holds.emit chain.choice
      · refine holds.hold fun d same => ?_
        cases same
        exact chain
    cases earlier with
    | none =>
      refine ends ⟨fun b member => ?_, takes.line⟩
      rw [List.mem_singleton.1 member]
      exact branch
    | some c => exact ends ((before c rfl).append branch)

end Holds

/-! ## Steps of a reader -/

open StatementReader

theorem steps_accept (reads : S.Reads rest r) : S.Steps rest (accept r) := by
  refine ⟨fun _ => reads, fun e never => ?_⟩
  cases never

theorem steps_refuse {e : SyntaxError} (names : S.Names e) : S.Steps rest (r.refuse e) := by
  refine ⟨fun never => ?_, fun f same => ?_⟩
  · cases never
  · cases same
    exact names

/-- A token that is refused where it stands. -/
theorem steps_refuseToken (here : S.line t.line) : S.Steps rest (r.refuseToken t) :=
  steps_refuse (.inl here)

theorem Steps.andThen {s : Step} {next : StatementReader → Step} (first : S.Steps rest s)
    (later : ∀ {r}, S.Reads rest r → S.Steps rest (next r)) :
    S.Steps rest (StatementReader.andThen s next) := by
  obtain ⟨r, _ | e⟩ := s
  · exact later (first.accepted rfl)
  · exact steps_refuse (first.refused e rfl)

namespace Holds

/-- A step into another phase. -/
theorem goes (holds : S.Holds r) {p : Phase} (expects : S.Expects rest p) :
    S.Steps rest (accept (r.goto p)) :=
  steps_accept ⟨holds.goto p, expects⟩

theorem openFrame (holds : S.Holds r) (covers : S.Covers false rest) {kind : FrameKind}
    (takes : S.TakesKind kind) (here : S.line start) :
    S.Steps rest (accept (r.openFrame kind start)) := by
  refine steps_accept ⟨⟨fun f member => ?_, holds.held, holds.ready, holds.line⟩, covers⟩
  rcases List.mem_cons.1 member with rfl | member
  · exact ⟨takes, by simp, by simp, here⟩
  · exact holds.frames f member

theorem closeFrame (holds : S.Holds r) (covers : S.Covers false rest) (here : S.line line) :
    S.Steps rest (r.closeFrame line) := by
  unfold StatementReader.closeFrame
  split
  · exact steps_refuse (.inl here)
  · next f outer same =>
    have released := holds.release
    have frames := released.frames
    rw [same] at frames
    have left : S.Holds { r.release with phase := .between, frames := outer } :=
      ⟨fun g member => frames g (List.mem_cons_of_mem _ member), released.held, released.ready,
        released.line⟩
    refine steps_accept ⟨left.closed (frames f List.mem_cons_self), ?_⟩
    rw [phase_closed]
    exact covers

end Holds

/-! ## Lines of tokens -/

theorem refuses_expr? {ts : List PlacedToken} (covers : S.Covers false ts) : S.Refuses (expr? ts) := by
  unfold expr?
  split
  · exact refuses_ok _
  · next some =>
    intro e fails
    cases built : Expr.ofTokens ts with
    | error f =>
      rw [built] at fails
      cases fails
      exact refuses_ofTokens covers (fun empty => absurd empty some) _ built
    | ok e => simp [built, Except.map] at fails

theorem takes_ofTokens {ts : List PlacedToken} (covers : S.Covers after ts) {e : Expr}
    (built : Expr.ofTokens ts = .ok e) : e.EachLine S.line :=
  Expr.eachLine_of_ofTokens built covers.line

theorem takes_expr? {ts : List PlacedToken} (covers : S.Covers after ts) {value : Option Expr}
    (made : expr? ts = .ok value) : S.TakesOption value := by
  rintro e rfl
  cases Grammar.readsOption_of_ok made with
  | some read => exact takes_ofTokens covers (Expr.ofTokens_eq_ok_iff.2 read)

/-- A token that ends a line, put before the tokens that are read later. -/
theorem Covers.collected {buffer : List PlacedToken}
    (covers : S.Covers after (buffer.reverse ++ t :: rest)) :
    S.Covers after ((t :: buffer).reverse ++ rest) := by
  rw [List.reverse_cons, List.append_assoc]
  exact covers

namespace Holds

theorem completeLine (holds : S.Holds r) (kind : LineKind) {buffer : List PlacedToken}
    (covers : S.Covers false buffer.reverse) (later : S.Covers false rest) (began : S.line start)
    (here : S.line line) : S.Steps rest (r.completeLine kind buffer start line) := by
  unfold StatementReader.completeLine
  split
  · next e built => exact steps_refuse (refuses_expr? covers e built)
  · next value built => exact (holds.emit (.ret (takes_expr? covers built) began)).goes later
  · next e name built =>
    exact (holds.emit (.define (takes_expr? covers built e rfl) began)).goes later
  · exact steps_refuse (.inl here)
  · next e built => exact (holds.emit (.expr (takes_expr? covers built e rfl))).goes later
  · exact holds.goes later

theorem lineToken (holds : S.Holds r) (kind : LineKind) (buffer : List PlacedToken)
    (covers : S.Covers false (buffer.reverse ++ t :: rest)) (depth : Nat) (began : S.line start) :
    S.Steps rest (r.lineToken kind buffer depth start t) := by
  have here := covers.right.head
  have refused {r : StatementReader} : S.Steps rest (r.refuseToken t) := steps_refuseToken here
  have collect {depth : Nat} :
      S.Steps rest (accept (r.goto (.line kind (t :: buffer) depth start))) :=
    holds.goes ⟨covers.collected, began⟩
  have complete (later : S.Covers false rest) :
      S.Steps rest (r.completeLine kind buffer start t.line) :=
    holds.completeLine kind covers.left later began here
  simp only [StatementReader.lineToken]
  split
  · exact collect
  · exact collect
  · split
    · exact refused
    · exact collect
  · split
    · exact refused
    · exact collect
  · next semicolon =>
    split
    · exact complete (covers.right.next (by rw [semicolon]; rfl))
    · exact refused
  · next brace =>
    split
    · have later : S.Covers false rest := covers.right.next (by rw [brace]; rfl)
      exact (complete later).andThen fun reads => reads.toHolds.closeFrame later here
    · exact refused
  · exact refused
  · exact collect

end Holds

/-! ## Headers -/

/-- Only the last clause of a header can be reported to be missing without a line. -/
theorem refuses_headerFrame (kind : HeaderKind) {clauses : List (List PlacedToken)}
    (covers : ∀ c ∈ clauses, S.Covers false c) (last : ∀ c ∈ clauses.getLast?, c = [] → S.hollow)
    (here : S.line line) : S.Refuses (headerFrame kind clauses line) := by
  have option {c : List PlacedToken} (member : c ∈ clauses) : S.Refuses (expr? c) :=
    refuses_expr? (covers c member)
  simp only [StatementReader.headerFrame]
  split
  · next earlier test =>
    have tests := refuses_ofTokens (covers test (by simp)) (last test rfl)
    exact tests.bind fun _ _ => refuses_ok _
  · exact refuses_here here
  · exact (option (by simp)).bind fun _ _ => refuses_ok _
  · refine (option (by simp)).bind fun _ _ => ?_
    exact (option (by simp)).bind fun _ _ => refuses_ok _
  · refine (option (by simp)).bind fun _ _ => (option (by simp)).bind fun _ _ => ?_
    exact (option (by simp)).bind fun _ _ => refuses_ok _
  · exact refuses_here here
  · next names source =>
    have sources := refuses_ofTokens (covers source (by simp)) (last source rfl)
    have named {name : Except SyntaxError String} (names : S.Refuses name) : S.Refuses (do
        let n ← name
        let e ← Expr.ofTokens source
        pure (FrameKind.foreach n e)) :=
      names.bind fun _ _ => sources.bind fun _ _ => refuses_ok _
    split
    · exact named (refuses_ok _)
    · exact named (refuses_ok _)
    · exact named (refuses_here (covers _ List.mem_cons_self).head)
    · exact named (refuses_here here)
  · exact refuses_here here

theorem takes_headerFrame {kind : HeaderKind} (header : S.TakesHeader kind)
    {clauses : List (List PlacedToken)} (covers : ∀ c ∈ clauses, S.Covers false c) {frame : FrameKind}
    (made : headerFrame kind clauses line = .ok frame) : S.TakesKind frame := by
  have takes {c : List PlacedToken} {e : Expr} (read : Expr.Reads (.expr e) c)
      (member : c ∈ clauses) : e.EachLine S.line :=
    takes_ofTokens (covers c member) (Expr.ofTokens_eq_ok_iff.2 read)
  have option {c : List PlacedToken} {value : Option Expr} (reads : Grammar.ReadsOption value c)
      (member : c ∈ clauses) : S.TakesOption value := takes_expr? (covers c member) reads.built.1
  cases Grammar.heads_of_ok made with
  | branch test => exact ⟨by rintro _ ⟨⟩; exact takes test (by simp), header⟩
  | test test => exact ⟨takesOption_none, option test (by simp), takesOption_none⟩
  | iterate test iterate =>
    exact ⟨takesOption_none, option test (by simp), option iterate (by simp)⟩
  | init init test iterate =>
    exact ⟨option init (by simp), option test (by simp), option iterate (by simp)⟩
  | foreach source => exact takes source (by simp)
  | foreachVar source => exact takes source (by simp)

namespace Holds

theorem completeHeader (holds : S.Holds r) {kind : HeaderKind} (header : S.TakesHeader kind)
    {clauses : List (List PlacedToken)} (covers : ∀ c ∈ clauses, S.Covers false c)
    (last : ∀ c ∈ clauses.getLast?, c = [] → S.hollow) (began : S.line start)
    (here : S.line line) : S.Steps rest (r.completeHeader kind clauses start line) := by
  unfold StatementReader.completeHeader
  split
  · next frame made => exact holds.goes ⟨header, takes_headerFrame header covers made, began⟩
  · next e made => exact steps_refuse (refuses_headerFrame kind covers last here e made)

theorem clauseToken (holds : S.Holds r) {kind : HeaderKind} (header : S.TakesHeader kind)
    (depth : Int) {buffer : List PlacedToken} {clauses : List (List PlacedToken)}
    (stage : S.Awaits (t :: rest) (.inside depth buffer clauses)) (began : S.line start) :
    S.Steps rest (r.clauseToken kind depth buffer clauses start t) := by
  obtain ⟨covers, before, empty⟩ := stage
  have here := covers.right.head
  have refused {r : StatementReader} : S.Steps rest (r.refuseToken t) := steps_refuseToken here
  have collect {depth : Int} : S.Steps rest
      (accept (r.goto (.header kind (.inside depth (t :: buffer) clauses) start))) :=
    holds.goes ⟨header, ⟨covers.collected, before, fun never => absurd never (List.cons_ne_nil _ _)⟩,
      began⟩
  have ended : ∀ c ∈ clauses ++ [buffer.reverse], S.Covers false c := by
    intro c member
    rcases List.mem_append.1 member with member | member
    · exact before c member
    · rw [List.mem_singleton.1 member]
      exact covers.left
  simp only [StatementReader.clauseToken]
  split
  · exact collect
  · exact collect
  · next closes =>
    split
    · refine holds.completeHeader header ended (fun c last none => ?_) began here
      obtain rfl : buffer.reverse = c := by simpa using last
      exact empty (List.reverse_eq_nil_iff.1 none) t rfl (by rw [closes]; rfl)
    · exact collect
  · split
    · exact refused
    · exact collect
  · next semicolon =>
    split
    · have after := covers.right.next (b := false) (by rw [semicolon]; rfl)
      refine holds.goes ⟨header, ⟨after, ended, fun _ u next closes => ?_⟩, began⟩
      obtain ⟨later, rfl⟩ := List.head?_eq_some_iff.1 next
      exact covers.right.hollow_of_adjacent (by rw [semicolon]; rfl) closes
    · exact refused
  · exact refused
  · exact refused
  · exact collect

theorem headerToken (holds : S.Holds r) {kind : HeaderKind} (header : S.TakesHeader kind)
    {stage : HeaderStage} (awaits : S.Awaits (t :: rest) stage)
    (covers : S.Covers after (t :: rest)) (began : S.line start) : S.Steps rest (r.headerToken kind stage start t) := by
  have refused {r : StatementReader} : S.Steps rest (r.refuseToken t) :=
    steps_refuseToken covers.head
  unfold StatementReader.headerToken
  split
  · next opens =>
    have within : S.Covers false rest := covers.next (by rw [opens]; rfl)
    refine holds.goes ⟨header, ⟨within, by simp, fun _ u next closes => ?_⟩, began⟩
    obtain ⟨later, rfl⟩ := List.head?_eq_some_iff.1 next
    exact Covers.hollow_of_adjacent awaits (by rw [opens]; rfl) closes
  · exact refused
  · exact holds.clauseToken header _ awaits began
  · next brace => exact holds.openFrame (covers.next (by rw [brace]; rfl)) awaits began
  · exact refused

/-! ## The other phases -/

theorem functionNameToken (holds : S.Holds r) (name : Option String) (here : S.line t.line)
    (began : S.line start) : S.Steps rest (r.functionNameToken name start t) := by
  unfold StatementReader.functionNameToken
  split
  · exact holds.goes began
  · exact holds.goes began
  · exact steps_refuseToken here

theorem parameterToken (holds : S.Holds r) (name : String) (names : List String)
    (needsComma closed : Bool) (covers : S.Covers after (t :: rest)) (began : S.line start) :
    S.Steps rest (r.parameterToken name names needsComma closed start t) := by
  have refused : S.Steps rest (r.refuseToken t) := steps_refuseToken covers.head
  unfold StatementReader.parameterToken
  split
  · next brace => exact holds.openFrame (covers.next (by rw [brace]; rfl)) trivial began
  · exact refused
  · split
    · exact refused
    · exact holds.goes began
  · split
    · exact holds.goes began
    · exact refused
  · split
    · exact holds.goes began
    · exact refused
  · exact refused

theorem variableToken (holds : S.Holds r) {name : Option String}
    (covers : S.Covers name.isSome (t :: rest)) (began : S.line start) :
    S.Steps rest (r.variableToken name start t) := by
  unfold StatementReader.variableToken
  split
  · next isName => exact holds.goes ⟨covers.next (by rw [isName]; rfl), began⟩
  · exact steps_refuseToken covers.head
  · next semicolon =>
    exact (holds.emit (.expr (.define began))).goes (covers.next (by rw [semicolon]; rfl))
  · next assign => exact holds.goes ⟨covers.next (by rw [assign]; rfl), began⟩
  · next n _ _ =>
    have named : S.Covers false (⟨.name n, start⟩ :: t :: rest) :=
      covers.before began rfl (by simp) rfl
    have defined : S.Covers false (⟨.keyword .varWord, start⟩ :: ⟨.name n, start⟩ :: t :: rest) :=
      named.before began rfl (by simp) rfl
    exact holds.lineToken .expr [_, _] defined 0 began

theorem classNameToken (holds : S.Holds r) (here : S.line t.line) (began : S.line start) :
    S.Steps rest (r.classNameToken start t) := by
  unfold StatementReader.classNameToken
  split
  · exact holds.goes began
  · exact steps_refuseToken here

theorem baseToken (holds : S.Holds r) (name : String) (names : List String) (needsComma : Bool)
    (covers : S.Covers after (t :: rest)) (began : S.line start) :
    S.Steps rest (r.baseToken name names needsComma start t) := by
  unfold StatementReader.baseToken
  split
  · exact holds.goes began
  · next brace => exact holds.openFrame (covers.next (by rw [brace]; rfl)) trivial began
  · exact holds.goes began
  · exact steps_refuseToken covers.head

theorem elseToken (holds : S.Holds r) {chain : Chain} (takes : S.TakesChain chain)
    (covers : S.Covers false (t :: rest)) (began : S.line start) :
    S.Steps rest (r.elseToken chain start t) := by
  have earlier : ∀ c ∈ some chain, S.TakesChain c := by
    rintro c ⟨⟩
    exact takes
  unfold StatementReader.elseToken
  split
  · next word => exact holds.goes ⟨earlier, covers.next (by rw [word]; rfl), covers.head⟩
  · next brace =>
    have takes : S.TakesKind (.branch none (some chain)) := ⟨takesOption_none, earlier⟩
    exact holds.openFrame (covers.next (by rw [brace]; rfl)) takes began
  · exact steps_refuse (.inl covers.head)

theorem startToken (holds : S.Holds r) (between : r.phase = .between)
    (covers : S.Covers false (t :: rest)) : S.Steps rest (r.startToken t) := by
  have here := covers.head
  have header {kind : HeaderKind} (takes : S.TakesHeader kind)
      (ends : t.token.endsOperand false = false) :
      S.Steps rest (accept (r.goto (.header kind .waiting t.line))) :=
    holds.goes ⟨takes, covers.next ends, here⟩
  unfold StatementReader.startToken
  split
  · next semicolon =>
    refine steps_accept ⟨holds, ?_⟩
    rw [between]
    exact covers.next (by rw [semicolon]; rfl)
  · next brace => exact holds.openFrame (covers.next (by rw [brace]; rfl)) trivial here
  · next brace => exact holds.closeFrame (covers.next (by rw [brace]; rfl)) here
  · exact holds.goes here
  · next word => exact holds.goes ⟨covers.next (by rw [word]; rfl), here⟩
  · exact holds.goes here
  · next word => exact holds.goes ⟨covers.next (by rw [word]; rfl), here⟩
  · next word => exact absurd word (covers.noImport t List.mem_cons_self)
  · next word =>
    refine header (fun c never => ?_) (by rw [word]; rfl)
    cases never
  · next word => exact header trivial (by rw [word]; rfl)
  · next word => exact header trivial (by rw [word]; rfl)
  · next word => exact header trivial (by rw [word]; rfl)
  · exact holds.lineToken .expr [] covers 0 here

theorem beginToken (holds : S.Holds r) (between : r.phase = .between)
    (covers : S.Covers false (t :: rest)) : S.Steps rest (r.beginToken t) := by
  unfold StatementReader.beginToken
  split
  · next chain word held =>
    have later : S.Covers false rest := covers.next (by rw [word]; rfl)
    exact (holds.hold (by simp)).goes ⟨later, holds.innermostHeld chain held, covers.head⟩
  · exact steps_refuse (.inl covers.head)
  · exact holds.release.startToken (by rw [phase_release, between]) covers

end Holds

namespace Reads

/-- A token is read, or refused on the line of a token. -/
theorem feed (reads : S.Reads (t :: rest) { r with line := t.line })
    (covers : S.Covers after (t :: rest)) : S.Steps rest (r.feed t) := by
  obtain ⟨holds, phase⟩ := reads
  have here := covers.head
  unfold StatementReader.feed
  dsimp only at phase ⊢
  split
  · next same =>
    rw [same] at phase
    exact holds.beginToken same phase
  · next same =>
    rw [same] at phase
    exact holds.lineToken _ _ phase.1 _ phase.2
  · next same =>
    rw [same] at phase
    exact holds.functionNameToken _ here phase
  · next same =>
    rw [same] at phase
    exact holds.parameterToken _ _ _ _ covers phase
  · next same =>
    rw [same] at phase
    exact holds.variableToken phase.1 phase.2
  · next same =>
    rw [same] at phase
    exact holds.classNameToken here phase
  · next same =>
    rw [same] at phase
    exact holds.baseToken _ _ _ covers phase
  · next same =>
    rw [same] at phase
    exact holds.elseToken phase.2.1 phase.1 phase.2.2
  · next same =>
    rw [same] at phase
    exact holds.headerToken phase.1 phase.2.1 covers phase.2.2
  · next same =>
    rw [same] at phase
    exact phase.elim

theorem flush (reads : S.Reads [] r) : S.Steps [] r.flush := by
  obtain ⟨holds, phase⟩ := reads
  unfold StatementReader.flush
  split
  · next same => exact steps_accept ⟨holds.release, by rw [phase_release, same]; exact covers_nil⟩
  · next same =>
    rw [same, Expects, List.append_nil] at phase
    refine (holds.completeLine _ phase.1 covers_nil phase.2 holds.line).andThen fun reads => ?_
    exact steps_accept ⟨reads.toHolds.release, by rw [phase_release]; exact reads.phase⟩
  · next n _ _ same =>
    rw [same] at phase
    have takes : S.Takes (.expr (.define n _)) := .expr (.define phase.2)
    have defines := (holds.emit takes).goto .between
    exact steps_accept ⟨defines.release, by rw [phase_release]; exact covers_nil⟩
  · exact steps_refuse (.inl holds.line)

theorem takeReady (reads : S.Reads rest r) : S.Reads rest r.takeReady.2 := by
  refine ⟨⟨reads.frames, reads.held, fun s never => ?_, reads.line⟩, reads.phase⟩
  cases never

end Reads

/-- Whether every statement that is read is made of the lines of tokens, and what is refused is
refused on one of these lines. -/
def Yields (r : StatementReader) (ts : List PlacedToken) : Prop :=
  (∀ s ∈ (r.readAll ts).1, S.Takes s) ∧ ∀ e ∈ (r.readAll ts).2, S.Names e

theorem yields_cons (reads : S.Reads (t :: rest) { r with line := t.line })
    (covers : S.Covers after (t :: rest)) (later : ∀ {r'}, S.Reads rest r' → S.Yields r' rest) :
    S.Yields r (t :: rest) := by
  have steps := reads.feed covers
  unfold Yields
  rw [StatementReader.readAll]
  split
  · next r' fed =>
    rw [fed] at steps
    have read := steps.accepted rfl
    have yields := later read.takeReady
    refine ⟨fun s member => ?_, yields.2⟩
    rcases List.mem_append.1 member with member | member
    · exact read.ready s member
    · exact yields.1 s member
  · next fed =>
    rw [fed] at steps
    exact ⟨by simp, steps.refused⟩

theorem Reads.yields {ts : List PlacedToken} (reads : S.Reads ts r) (covers : S.Covers after ts) :
    S.Yields r ts := by
  induction ts generalizing r after with
  | nil =>
    have steps := reads.flush
    unfold Yields
    rw [StatementReader.readAll]
    split
    · next r' flushed =>
      rw [flushed] at steps
      exact ⟨(steps.accepted rfl).ready, by simp⟩
    · next flushed =>
      rw [flushed] at steps
      exact ⟨by simp, steps.refused⟩
  | cons t rest ih =>
    have placed : S.Reads (t :: rest) { r with line := t.line } :=
      ⟨⟨reads.frames, reads.held, reads.ready, covers.head⟩, reads.phase⟩
    exact yields_cons placed covers fun later => ih later covers.tail

/-- A whole script is made of the lines of its tokens, and is refused on one of these lines. -/
theorem yields_new {ts : List PlacedToken} (covers : S.Covers false ts) : S.Yields .new ts := by
  cases ts with
  | nil =>
    have nothing : StatementReader.new.readAll [] = ([], none) := rfl
    simp [Yields, nothing]
  | cons t rest =>
    have placed : S.Reads (t :: rest) { StatementReader.new with line := t.line } := by
      refine ⟨⟨fun f never => ?_, fun c never => ?_, fun s never => ?_, covers.head⟩, covers⟩ <;>
        cases never
    exact yields_cons placed covers fun later => later.yields covers.tail

end Scriptlet.Survey
