import Scriptlet.Proofs.Statement.Levels

/-!
# What a reader has read

Every token that a reader has accepted stands in one of its levels or in the construct that is
partly read. `Started` says of such a construct which tokens it is, phase by phase, and `Parsed`
puts it after the levels. `Parsed` holds of every reader (`parsed_of_feedAll`). So a script is read
to its end when and only when the grammar spells it, and then as the statements that are spelled
(`flush_iff_spells`).
-/

namespace Scriptlet.Grammar

open Scriptlet.StatementReader
open Scriptlet.Expr (Reads parens commas)

variable {r r' : StatementReader} {ts us vs : List PlacedToken}

/-! ## Constructs that are partly read -/

/-- The tokens of a line before its end, and those of them that are collected. -/
inductive LineRead : LineKind → List PlacedToken → Line → List PlacedToken → Prop where
  | expr {t : PlacedToken} {ts : List PlacedToken} :
      t.token ≠ .keyword .varWord → LineRead .expr (t :: ts) t.line (t :: ts)
  | declared {n : String} {l l' : Line} {t : PlacedToken} {ts : List PlacedToken} :
      t.token ≠ .symbol .assign →
        LineRead .expr (⟨.keyword .varWord, l⟩ :: ⟨.name n, l⟩ :: t :: ts) l
          (⟨.keyword .varWord, l⟩ :: ⟨.name n, l'⟩ :: t :: ts)
  | initializer {n : String} {l l₁ l₂ : Line} {ts : List PlacedToken} :
      LineRead (.initializer n) ts l
        (⟨.keyword .varWord, l⟩ :: ⟨.name n, l₁⟩ :: ⟨.symbol .assign, l₂⟩ :: ts)
  | ret {l : Line} {ts : List PlacedToken} : LineRead .ret ts l (⟨.keyword .returnWord, l⟩ :: ts)

/-- The tokens of a parameter list after the opening parenthesis. -/
inductive Listed (names : List String) : Bool → Bool → List Token → Prop where
  | start : names = [] → Listed names false false []
  | name : names ≠ [] → Listed names true false (commas (names.map fun p => [.name p]))
  | comma : names ≠ [] →
      Listed names false false (commas (names.map fun p => [.name p]) ++ [.mark .comma])
  | closed {needsComma : Bool} :
      Listed names needsComma true (commas (names.map fun p => [.name p]) ++ [.mark .rightParen])

/-- The tokens of the base classes. -/
inductive BasesListed (names : List String) : Bool → List Token → Prop where
  | name : BasesListed names true (baseTokens names)
  | comma : BasesListed names false (baseTokens names ++ [.mark .comma])

/-- What stands before the parenthesis of a header. -/
inductive HeaderBegins : HeaderKind → Line → List PlacedToken → Prop where
  | first {l : Line} : HeaderBegins (.branch none) l [⟨.keyword .ifWord, l⟩]
  | later {c : Chain} {l l' : Line} {us : List PlacedToken} :
      Spells (.branches c.branches c.line) us →
        HeaderBegins (.branch (some c)) l (us ++ [⟨.keyword .elseWord, l'⟩, ⟨.keyword .ifWord, l⟩])
  | loop {w : Keyword} {l : Line} :
      w = .forWord ∨ w = .whileWord → HeaderBegins (.loop w) l [⟨.keyword w, l⟩]
  | foreach {l : Line} : HeaderBegins .foreach l [⟨.keyword .foreachWord, l⟩]

/-- The tokens of a header from the parenthesis on. -/
inductive HeaderRead (kind : HeaderKind) : HeaderStage → List PlacedToken → Prop where
  | waiting : HeaderRead kind .waiting []
  | inside {depth : Int} {buffer : List PlacedToken} {cs : List (List PlacedToken)} {l : Line}
      {ts : List PlacedToken} :
      Clauses (cs ++ [buffer.reverse]) ts →
        HeaderRead kind (.inside depth buffer cs) (⟨.mark .leftParen, l⟩ :: ts)
  | complete {frame : FrameKind} {cs : List (List PlacedToken)} {l l' : Line}
      {ts : List PlacedToken} :
      Heads kind cs frame → Clauses cs ts →
        HeaderRead kind (.complete frame cs)
          (⟨.mark .leftParen, l⟩ :: (ts ++ [⟨.mark .rightParen, l'⟩]))

/-- The tokens of a construct that is partly read. -/
inductive Started : Phase → List PlacedToken → Prop where
  | line {kind : LineKind} {buffer ts : List PlacedToken} {depth : Nat} {start : Line} :
      LineRead kind buffer.reverse start ts → Started (.line kind buffer depth start) ts
  | function {l : Line} : Started (.functionName none l) [⟨.keyword .funcWord, l⟩]
  | functionName {n : String} {l l' : Line} :
      Started (.functionName (some n) l) [⟨.keyword .funcWord, l⟩, ⟨.name n, l'⟩]
  | parameters {n : String} {names : List String} {needsComma closed : Bool} {l : Line}
      {ts : List PlacedToken} {w : List Token} :
      word ts = .name n :: .mark .leftParen :: w → Listed names needsComma closed w →
        Started (.parameters n names needsComma closed l) (⟨.keyword .funcWord, l⟩ :: ts)
  | define {l : Line} : Started (.variableName none l) [⟨.keyword .varWord, l⟩]
  | variableName {n : String} {l l' : Line} :
      Started (.variableName (some n) l) [⟨.keyword .varWord, l⟩, ⟨.name n, l'⟩]
  | classDef {l : Line} : Started (.className l) [⟨.keyword .classWord, l⟩]
  | bases {n : String} {names : List String} {needsComma : Bool} {l : Line}
      {ts : List PlacedToken} {w : List Token} :
      word ts = .name n :: w → BasesListed names needsComma w →
        Started (.bases n names needsComma l) (⟨.keyword .classWord, l⟩ :: ts)
  | afterElse {c : Chain} {l : Line} {us : List PlacedToken} :
      Spells (.branches c.branches c.line) us →
        Started (.afterElse c l) (us ++ [⟨.keyword .elseWord, l⟩])
  | header {kind : HeaderKind} {stage : HeaderStage} {l : Line} {us vs : List PlacedToken} :
      HeaderBegins kind l us → HeaderRead kind stage vs → Started (.header kind stage l) (us ++ vs)
  | importPath {l : Line} : Started (.importPath l) [⟨.keyword .importWord, l⟩]

/-- A reader and the tokens that it has read. -/
inductive Parsed (r : StatementReader) : List PlacedToken → Prop where
  | between {ts : List PlacedToken} : r.phase = .between → Levels r ts → Parsed r ts
  | within {us vs : List PlacedToken} :
      Levels r us → r.innermostHeld = none → Started r.phase vs → Parsed r (us ++ vs)

/-! ## Lines -/

theorem LineRead.more {kind : LineKind} {start : Line} (h : LineRead kind us start vs)
    (t : PlacedToken) : LineRead kind (us ++ [t]) start (vs ++ [t]) := by
  cases h with
  | expr other => exact .expr other
  | declared other => exact .declared other
  | initializer => exact .initializer
  | ret => exact .ret

/-- What the end of a line makes of its tokens. -/
theorem LineRead.ended {kind : LineKind} {buffer : List PlacedToken} {start l : Line}
    (h : LineRead kind buffer.reverse start vs)
    (fed : r.completeLine kind buffer start l = accept r') :
    ∃ s, Unended s vs ∧ r' = (r.emit s).goto .between := by
  generalize collected : buffer.reverse = us at h
  unfold completeLine at fed
  rw [collected] at fed
  split at fed
  · cases fed
  · next built =>
    cases h with
    | ret => exact ⟨_, .ret (readsOption_of_ok built), (eq_of_accept fed).symm⟩
  · next built =>
    cases h with
    | initializer =>
      cases readsOption_of_ok built with
      | some read => exact ⟨_, .define read, (eq_of_accept fed).symm⟩
  · cases fed
  · next built =>
    cases readsOption_of_ok built with
    | some read =>
      cases h with
      | expr other => exact ⟨_, .expr other read, (eq_of_accept fed).symm⟩
      | declared other =>
        refine ⟨_, .declared ?_ read, (eq_of_accept fed).symm⟩
        rintro _ ⟨⟩
        exact other
  · next built =>
    cases readsOption_of_ok built with
    | none => cases h

/-! ## Lists and headers -/

theorem commas_names_concat {names : List String} (some : names ≠ []) (n : String) :
    commas ((names ++ [n]).map fun p => [Token.name p]) =
      commas (names.map fun p => [.name p]) ++ [.mark .comma, .name n] := by
  cases names with
  | nil => exact absurd rfl some
  | cons first names => simp [commas, separated_cons]

/-- A name of a parameter. -/
theorem Listed.next {names : List String} {w : List Token} (h : Listed names false false w)
    (n : String) : Listed (names ++ [n]) true false (w ++ [.name n]) := by
  cases h with
  | start none =>
    subst none
    exact .name (List.cons_ne_nil _ _)
  | comma some =>
    have whole : Listed (names ++ [n]) true false (commas ((names ++ [n]).map fun p => [.name p])) :=
      .name (by simp)
    rw [commas_names_concat some] at whole
    simpa using whole

/-- The end of a parameter list. -/
theorem Listed.close {names : List String} {needsComma : Bool} {w : List Token}
    (h : Listed names needsComma false w) (ends : needsComma = true ∨ names = []) :
    Listed names needsComma true (w ++ [.mark .rightParen]) := by
  cases h with
  | start none =>
    subst none
    exact .closed
  | name _ => exact .closed
  | comma some => exact absurd (ends.resolve_left Bool.false_ne_true) some

theorem baseTokens_concat (names : List String) (n : String) :
    baseTokens (names ++ [n]) = baseTokens names ++ [.mark .comma, .name n] := by
  induction names with
  | nil => rfl
  | cons first names ih => rw [List.cons_append, baseTokens, ih, baseTokens]; rfl

theorem Clauses.more_last {cs : List (List PlacedToken)} {us : List PlacedToken}
    (h : Clauses (cs ++ [us]) ts) (t : PlacedToken) : Clauses (cs ++ [us ++ [t]]) (ts ++ [t]) := by
  induction cs generalizing ts with
  | nil =>
    cases h with
    | last => exact .last
    | more h => cases h
  | cons c cs ih =>
    generalize whole : c :: cs ++ [us] = ds at h
    cases h with
    | last => simp at whole
    | more h =>
      obtain ⟨rfl, rfl⟩ := List.cons.inj whole
      rw [List.append_assoc]
      exact .more (ih h)

theorem Clauses.next {cs : List (List PlacedToken)} (h : Clauses cs ts) (l : Line) :
    Clauses (cs ++ [[]]) (ts ++ [⟨.mark .semicolon, l⟩]) := by
  induction h with
  | last => exact .more .last
  | more _ ih =>
    rw [List.append_assoc]
    exact .more ih

theorem Header.frame_eq {earlier : Option Chain} {frame : FrameKind}
    (h : Header (.branch earlier) frame ts) : ∃ test, frame = .branch (some test) earlier := by
  cases h with
  | mk heads _ => exact heads.frame_eq

theorem HeaderBegins.begins {kind : HeaderKind} {frame : FrameKind} {l : Line}
    (h : HeaderBegins kind l us) (header : Header kind frame vs) : Begins frame l (us ++ vs) := by
  cases h with
  | first =>
    obtain ⟨test, rfl⟩ := header.frame_eq
    exact .first header
  | later branches =>
    obtain ⟨test, rfl⟩ := header.frame_eq
    rw [List.append_assoc]
    exact .later branches header
  | loop word => exact .construct (.loop word header)
  | foreach => exact .construct (.foreach header)

/-! ## Every token -/

section

variable (levels : Levels r us) (free : r.innermostHeld = none) {t : PlacedToken}

include levels free

theorem parsed_goto {p : Phase} (started : Started p vs) : Parsed (r.goto p) (us ++ vs) :=
  .within (levels_goto levels p) free started

/-- A token of a line, when it is collected or ends the line. -/
theorem parsed_lineToken {kind : LineKind} {buffer : List PlacedToken} {depth : Nat} {start : Line}
    (collects : staysInLine t.token = true →
      LineRead kind (t :: buffer).reverse start (vs ++ [t]))
    (ends : staysInLine t.token = false → ∀ {r'}, r.completeLine kind buffer start t.line = accept r' →
      ∃ s, Unended s vs ∧ r' = (r.emit s).goto .between)
    (fed : r.lineToken kind buffer depth start t = accept r') : Parsed r' (us ++ (vs ++ [t])) := by
  obtain ⟨token, l⟩ := t
  have collected (stays : staysInLine token = true) (depth : Nat) :
      Parsed (r.goto (.line kind (⟨token, l⟩ :: buffer) depth start)) (us ++ (vs ++ [⟨token, l⟩])) :=
    parsed_goto levels free (.line (collects stays))
  simp only [lineToken] at fed
  split at fed
  · obtain rfl := eq_of_accept fed
    exact collected rfl _
  · obtain rfl := eq_of_accept fed
    exact collected rfl _
  · split at fed
    · cases fed
    · obtain rfl := eq_of_accept fed
      exact collected rfl _
  · split at fed
    · cases fed
    · obtain rfl := eq_of_accept fed
      exact collected rfl _
  · split at fed
    · obtain ⟨s, line, rfl⟩ := ends rfl fed
      exact .between rfl (levels_goto (levels.emit free (.line line)) _)
    · cases fed
  · split at fed
    · obtain ⟨r₁, completed, fed⟩ := exists_of_andThen fed
      obtain ⟨s, line, rfl⟩ := ends rfl completed
      have inside {ws : List PlacedToken} (all : Spells (.all r.innermost) ws) :
          Spells (.inside ((r.emit s).goto .between).innermost) (ws ++ vs) := by
        have grown : ((r.emit s).goto .between).innermost = r.innermost ++ [s] := innermost_emit s
        rw [grown]
        exact .unended all line
      have same := (sameAround_emit r s).trans (sameAround_goto (r.emit s) .between)
      obtain ⟨between, closed⟩ := levels_closeFrame levels free inside same
        ((innermostHeld_emit r s).trans free) fed
      exact .between between closed
    · cases fed
  · cases fed
  · obtain rfl := eq_of_accept fed
    refine collected ?_ _
    unfold staysInLine
    split <;> simp_all

theorem parsed_functionName {name : Option String} {start : Line}
    (started : Started (.functionName name start) vs)
    (fed : r.functionNameToken name start t = accept r') : Parsed r' (us ++ (vs ++ [t])) := by
  obtain ⟨token, l⟩ := t
  unfold functionNameToken at fed
  split at fed
  · next isName =>
    obtain rfl : token = _ := isName
    obtain rfl := eq_of_accept fed
    cases started with
    | function => exact parsed_goto levels free .functionName
  · next isOpening =>
    obtain rfl : token = _ := isOpening
    obtain rfl := eq_of_accept fed
    cases started with
    | functionName => exact parsed_goto levels free (.parameters rfl (.start rfl))
  · cases fed

theorem parsed_parameter {name : String} {names : List String} {needsComma closed : Bool}
    {start : Line} (started : Started (.parameters name names needsComma closed start) vs)
    (fed : r.parameterToken name names needsComma closed start t = accept r') :
    Parsed r' (us ++ (vs ++ [t])) := by
  obtain ⟨token, l⟩ := t
  cases started with
  | @parameters _ _ _ _ _ ts w written listed =>
    have grown (u : Token) : word (ts ++ [⟨u, l⟩]) = .name name :: .mark .leftParen :: (w ++ [u]) := by
      rw [word_append, written]
      rfl
    unfold parameterToken at fed
    split at fed
    · next isBrace =>
      obtain rfl : token = _ := isBrace
      obtain rfl := eq_of_accept fed
      cases listed with
      | closed =>
        refine .between rfl (levels.openFrame free (.construct (.function ?_)))
        refine (grown _).trans ?_
        simp [parens]
    · cases fed
    · next isName =>
      obtain rfl : token = _ := isName
      split at fed
      · cases fed
      · next due =>
        obtain rfl := eq_of_accept fed
        obtain rfl : needsComma = false := by simpa using due
        exact parsed_goto levels free (.parameters (grown _) (listed.next _))
    · next isComma =>
      obtain rfl : token = _ := isComma
      split at fed
      · next due =>
        obtain rfl := eq_of_accept fed
        obtain rfl : needsComma = true := due
        cases listed with
        | name some => exact parsed_goto levels free (.parameters (grown _) (.comma some))
      · cases fed
    · next isClosing =>
      obtain rfl : token = _ := isClosing
      split at fed
      · next ends =>
        obtain rfl := eq_of_accept fed
        exact parsed_goto levels free (.parameters (grown _) (listed.close ends))
      · cases fed
    · cases fed

theorem parsed_variable {name : Option String} {start : Line}
    (started : Started (.variableName name start) vs)
    (fed : r.variableToken name start t = accept r') : Parsed r' (us ++ (vs ++ [t])) := by
  obtain ⟨token, l⟩ := t
  have reads (n : String) : Reads (.expr (.define n start))
      [⟨.keyword .varWord, start⟩, ⟨.name n, start⟩] := .expr (.define .plain) .done
  unfold variableToken at fed
  split at fed
  · next isName =>
    obtain rfl : token = _ := isName
    obtain rfl := eq_of_accept fed
    cases started with
    | define => exact parsed_goto levels free .variableName
  · cases fed
  · next n isEnd =>
    obtain rfl : token = _ := isEnd
    obtain rfl := eq_of_accept fed
    have line (l' : Line) : Unended (.expr (.define n start))
        [⟨.keyword .varWord, start⟩, ⟨.name n, l'⟩] := .declared (by simp) (reads n)
    cases started with
    | variableName => exact .between rfl (levels_goto (levels.emit free (.line (line _))) _)
  · next isAssign =>
    obtain rfl : token = _ := isAssign
    obtain rfl := eq_of_accept fed
    cases started with
    | variableName => exact parsed_goto levels free (.line .initializer)
  · next n notEnd notAssign =>
    cases started with
    | variableName =>
      refine parsed_lineToken levels free (fun _ => .declared notAssign) (fun _ r' done => ?_) fed
      have complete := completeLine_expr (reads n) r .expr start l
      exact ⟨_, .declared (by simp) (reads n), eq_of_accept (done.symm.trans complete)⟩

theorem parsed_className {start : Line} (started : Started (.className start) vs)
    (fed : r.classNameToken start t = accept r') : Parsed r' (us ++ (vs ++ [t])) := by
  obtain ⟨token, l⟩ := t
  unfold classNameToken at fed
  split at fed
  · next isName =>
    obtain rfl : token = _ := isName
    obtain rfl := eq_of_accept fed
    cases started with
    | classDef => exact parsed_goto levels free (.bases rfl .name)
  · cases fed

theorem parsed_base {name : String} {names : List String} {needsComma : Bool} {start : Line}
    (started : Started (.bases name names needsComma start) vs)
    (fed : r.baseToken name names needsComma start t = accept r') :
    Parsed r' (us ++ (vs ++ [t])) := by
  obtain ⟨token, l⟩ := t
  cases started with
  | @bases _ _ _ _ ts w written listed =>
    have grown (u : Token) : word (ts ++ [⟨u, l⟩]) = .name name :: (w ++ [u]) := by
      rw [word_append, written]
      rfl
    unfold baseToken at fed
    split at fed
    · next isComma =>
      obtain rfl : token = _ := isComma
      obtain rfl := eq_of_accept fed
      cases listed with
      | name => exact parsed_goto levels free (.bases (grown _) .comma)
    · next isBrace =>
      obtain rfl : token = _ := isBrace
      obtain rfl := eq_of_accept fed
      cases listed with
      | name => exact .between rfl (levels.openFrame free (.construct (.classDef (grown _))))
    · next n isName =>
      obtain rfl : token = _ := isName
      obtain rfl := eq_of_accept fed
      cases listed with
      | comma =>
        have more : BasesListed (names ++ [n]) true (baseTokens (names ++ [n])) := .name
        rw [baseTokens_concat] at more
        refine parsed_goto levels free (.bases (grown _) ?_)
        simpa using more
    · cases fed

theorem parsed_import {start : Line} (started : Started (.importPath start) vs)
    (fed : r.importToken start t = accept r') : Parsed r' (us ++ (vs ++ [t])) := by
  obtain ⟨token, l⟩ := t
  unfold importToken at fed
  split at fed
  · next isPath =>
    obtain rfl : token = _ := isPath
    obtain rfl := eq_of_accept fed
    cases started with
    | importPath => exact .between rfl (levels_goto (levels.emit free .importFile) _)
  · cases fed

theorem parsed_else {c : Chain} {start : Line} (started : Started (.afterElse c start) vs)
    (fed : r.elseToken c start t = accept r') : Parsed r' (us ++ (vs ++ [t])) := by
  obtain ⟨token, l⟩ := t
  cases started with
  | @afterElse _ _ ws branches =>
    unfold elseToken at fed
    rw [List.append_assoc]
    split at fed
    · next isIf =>
      obtain rfl : token = _ := isIf
      obtain rfl := eq_of_accept fed
      have begins : HeaderBegins (.branch (some c)) l
          (ws ++ [⟨.keyword .elseWord, start⟩, ⟨.keyword .ifWord, l⟩]) := .later branches
      have started := Started.header begins .waiting
      rw [List.append_nil] at started
      exact parsed_goto levels free started
    · next isBrace =>
      obtain rfl : token = _ := isBrace
      obtain rfl := eq_of_accept fed
      exact .between rfl (levels.openFrame free (.otherwise branches))
    · cases fed

/-- A token between the parentheses of a header. -/
theorem parsed_clause {kind : HeaderKind} {depth : Int} {buffer hs ts : List PlacedToken}
    {cs : List (List PlacedToken)} {start l : Line} (begins : HeaderBegins kind start hs)
    (clauses : Clauses (cs ++ [buffer.reverse]) ts)
    (fed : r.clauseToken kind depth buffer cs start t = accept r') :
    Parsed r' (us ++ (hs ++ (⟨.mark .leftParen, l⟩ :: ts ++ [t]))) := by
  obtain ⟨token, l'⟩ := t
  have goes {stage : HeaderStage}
      (read : HeaderRead kind stage (⟨.mark .leftParen, l⟩ :: ts ++ [⟨token, l'⟩])) :
      Parsed (r.goto (.header kind stage start))
        (us ++ (hs ++ (⟨.mark .leftParen, l⟩ :: ts ++ [⟨token, l'⟩]))) :=
    parsed_goto levels free (.header begins read)
  have collected (depth : Int) :
      Parsed (r.goto (.header kind (.inside depth (⟨token, l'⟩ :: buffer) cs) start))
        (us ++ (hs ++ (⟨.mark .leftParen, l⟩ :: ts ++ [⟨token, l'⟩]))) := by
    refine goes (.inside ?_)
    rw [List.reverse_cons]
    exact clauses.more_last ⟨token, l'⟩
  simp only [clauseToken] at fed
  split at fed
  · obtain rfl := eq_of_accept fed
    exact collected _
  · obtain rfl := eq_of_accept fed
    exact collected _
  · split at fed
    · unfold completeHeader at fed
      split at fed
      · next made =>
        obtain rfl := eq_of_accept fed
        exact goes (.complete (heads_of_ok made) clauses)
      · cases fed
    · obtain rfl := eq_of_accept fed
      exact collected _
  · split at fed
    · cases fed
    · obtain rfl := eq_of_accept fed
      exact collected _
  · split at fed
    · obtain rfl := eq_of_accept fed
      exact goes (.inside (clauses.next l'))
    · cases fed
  · cases fed
  · cases fed
  · obtain rfl := eq_of_accept fed
    exact collected _

theorem parsed_header {kind : HeaderKind} {stage : HeaderStage} {start : Line}
    (started : Started (.header kind stage start) vs)
    (fed : r.headerToken kind stage start t = accept r') : Parsed r' (us ++ (vs ++ [t])) := by
  obtain ⟨token, l⟩ := t
  cases started with
  | @header _ _ _ hs vs begins read =>
    have goes {stage : HeaderStage} (read : HeaderRead kind stage (vs ++ [⟨token, l⟩])) :
        Parsed (r.goto (.header kind stage start)) (us ++ (hs ++ vs ++ [⟨token, l⟩])) := by
      rw [List.append_assoc]
      exact parsed_goto levels free (.header begins read)
    unfold headerToken at fed
    split at fed
    · next isOpening =>
      obtain rfl : token = _ := isOpening
      obtain rfl := eq_of_accept fed
      cases read with
      | waiting => exact goes (.inside .last)
    · cases fed
    · cases read with
      | inside clauses =>
        rw [List.append_assoc]
        exact parsed_clause levels free begins clauses fed
    · next isBrace =>
      obtain rfl : token = _ := isBrace
      obtain rfl := eq_of_accept fed
      cases read with
      | complete heads clauses =>
        refine .between rfl (levels.openFrame free ?_)
        rw [List.append_assoc]
        refine begins.begins ?_
        rw [List.cons_append, List.append_assoc]
        exact .mk heads clauses
    · cases fed

theorem parsed_startToken (between : r.phase = .between)
    (fed : r.startToken t = accept r') : Parsed r' (us ++ [t]) := by
  obtain ⟨token, l⟩ := t
  have starts {u : Token} {p : Phase} (same : token = u) (started : Started p [⟨u, l⟩])
      (fed : accept (r.goto p) = accept r') : Parsed r' (us ++ [⟨token, l⟩]) := by
    obtain rfl := same
    obtain rfl := eq_of_accept fed
    exact parsed_goto levels free started
  unfold startToken at fed
  split at fed
  · next same =>
    obtain rfl : token = _ := same
    obtain rfl := eq_of_accept fed
    exact .between between (levels.semicolon free l)
  · next same =>
    obtain rfl : token = _ := same
    obtain rfl := eq_of_accept fed
    exact .between rfl (levels.openFrame free (.construct .block))
  · next same =>
    obtain rfl : token = _ := same
    have inside {ws : List PlacedToken} (all : Spells (.all r.innermost) ws) :
        Spells (.inside r.innermost) (ws ++ []) := by
      rw [List.append_nil]
      exact .closed all
    obtain ⟨between', closed⟩ := levels_closeFrame levels free inside (.refl r) free fed
    exact .between between' closed
  · next same => exact starts same .function fed
  · next same => exact starts same .define fed
  · next same => exact starts same .classDef fed
  · next same => exact starts same (.line .ret) fed
  · next same => exact starts same .importPath fed
  · next same => exact starts same (.header .first .waiting) fed
  · next same => exact starts same (.header (.loop (.inl rfl)) .waiting) fed
  · next same => exact starts same (.header (.loop (.inr rfl)) .waiting) fed
  · next same => exact starts same (.header .foreach .waiting) fed
  · next notEnd notOpening notClosing _ notVar _ _ _ _ _ _ _ =>
    have stays : staysInLine token = true := by
      unfold staysInLine
      split <;> simp_all
    have first : LineRead .expr [⟨token, l⟩].reverse l ([] ++ [⟨token, l⟩]) := .expr notVar
    exact parsed_lineToken levels free (fun _ => first)
      (fun ends => nomatch stays.symm.trans ends) fed

end

theorem parsed_beginToken (levels : Levels r ts) (between : r.phase = .between) {t : PlacedToken}
    (fed : r.beginToken t = accept r') : Parsed r' (ts ++ [t]) := by
  obtain ⟨token, l⟩ := t
  unfold beginToken at fed
  split at fed
  · next isElse held =>
    obtain rfl : token = _ := isElse
    obtain rfl := eq_of_accept fed
    obtain ⟨us, vs, rfl, left, branches⟩ := levels.unhold held
    rw [List.append_assoc]
    exact parsed_goto left (innermostHeld_hold r none) (.afterElse branches)
  · cases fed
  · exact parsed_startToken levels.release (innermostHeld_release r)
      ((phase_release r).trans between) fed

/-- One more token. -/
theorem Parsed.feed (h : Parsed r ts) {t : PlacedToken} (fed : r.feed t = accept r') :
    Parsed r' (ts ++ [t]) := by
  cases h with
  | between between levels =>
    have placed : Levels { r with line := t.line } ts := levels.congr rfl rfl rfl
    have begins : r.feed t = beginToken { r with line := t.line } t := by
      simp only [StatementReader.feed, between]
    exact parsed_beginToken placed between (begins.symm.trans fed)
  | @within us vs levels free started =>
    have levels : Levels { r with line := t.line } us := levels.congr rfl rfl rfl
    have free : StatementReader.innermostHeld { r with line := t.line } = none := free
    rw [List.append_assoc]
    unfold StatementReader.feed at fed
    dsimp only at fed
    split at fed
    · next phase =>
      rw [phase] at started
      cases started
    · next phase =>
      rw [phase] at started
      cases started with
      | line read =>
        refine parsed_lineToken levels free (fun _ => ?_) (fun _ _ => read.ended) fed
        rw [List.reverse_cons]
        exact read.more t
    · next phase =>
      rw [phase] at started
      exact parsed_functionName levels free started fed
    · next phase =>
      rw [phase] at started
      exact parsed_parameter levels free started fed
    · next phase =>
      rw [phase] at started
      exact parsed_variable levels free started fed
    · next phase =>
      rw [phase] at started
      exact parsed_className levels free started fed
    · next phase =>
      rw [phase] at started
      exact parsed_base levels free started fed
    · next phase =>
      rw [phase] at started
      exact parsed_else levels free started fed
    · next phase =>
      rw [phase] at started
      exact parsed_header levels free started fed
    · next phase =>
      rw [phase] at started
      exact parsed_import levels free started fed

/-- Whatever a reader reads, its tokens are the levels and the construct that it holds. -/
theorem Parsed.feedAll (h : Parsed r ts) (fed : feedAll r us = accept r') : Parsed r' (ts ++ us) := by
  induction us generalizing r ts with
  | nil =>
    obtain rfl := eq_of_accept fed
    rwa [List.append_nil]
  | cons t us ih =>
    obtain ⟨r₁, first, rest⟩ := exists_of_andThen fed
    rw [List.append_cons]
    exact ih (h.feed first) rest

theorem parsed_of_feedAll (fed : feedAll .new ts = accept r) : Parsed r ts := by
  have nothing : Parsed .new [] := .between rfl (.top rfl (.free .nil))
  exact nothing.feedAll fed

/-! ## Whole scripts -/

theorem frames_release (top : r.frames = []) : r.release.frames = [] := by
  unfold release
  split
  · exact top
  · simp only [hold, emit, top]

/-- The statements that are complete when nothing is open or held back. -/
theorem Levels.all (h : Levels r ts) (top : r.frames = []) (free : r.innermostHeld = none) :
    Spells (.all r.ready) ts := by
  cases h with
  | top _ level =>
    have free : r.held = none := by
      rwa [StatementReader.innermostHeld, top] at free
    rw [free] at level
    exact level.all
  | within within _ _ _ _ => exact absurd (within.frames.symm.trans top) (List.cons_ne_nil _ _)

/-- The end of a script after a line without its end. -/
theorem spells_of_unended {s : Stmt} (levels : Levels r us) (free : r.innermostHeld = none)
    (top : r.frames = []) (line : Unended s vs) :
    Spells (.inside ((r.emit s).goto .between).release.ready) (us ++ vs) := by
  have free' : ((r.emit s).goto .between).innermostHeld = none :=
    (innermostHeld_emit r s).trans free
  have emitted : ((r.emit s).goto .between).ready = r.ready ++ [s] := by
    simp only [goto, emit, top]
  rw [release_of_free free', emitted]
  exact .unended (levels.all top free) line

theorem spells_of_flush (fed : feedAll .new ts = accept r) (ended : r.flush = accept r') :
    Spells (.inside r'.ready) ts := by
  unfold flush at ended
  cases parsed_of_feedAll fed with
  | between between levels =>
    split at ended
    · next top _ =>
      obtain rfl := eq_of_accept ended
      exact .closed (levels.release.all (frames_release top) (innermostHeld_release r))
    · next phase => cases between.symm.trans phase
    · next phase => cases between.symm.trans phase
    · cases ended
  | within levels free started =>
    split at ended
    · next phase =>
      rw [phase] at started
      cases started
    · next top phase =>
      rw [phase] at started
      cases started with
      | line read =>
        obtain ⟨r₁, completed, ended⟩ := exists_of_andThen ended
        obtain ⟨s, line, rfl⟩ := read.ended completed
        obtain rfl := eq_of_accept ended
        exact spells_of_unended levels free top line
    · next n start top phase =>
      rw [phase] at started
      obtain rfl := eq_of_accept ended
      cases started with
      | variableName =>
        exact spells_of_unended levels free top
          (.declared (by simp) (.expr (.define .plain) .done))
    · cases ended

theorem flush_of_spells {ss : List Stmt} (h : Spells (.inside ss) ts) :
    ∃ r r', feedAll .new ts = accept r ∧ r.flush = accept r' ∧ r'.ready = ss := by
  have top (r : StatementReader) (ss : List Stmt)
      (released : r.release = ss.foldl emit StatementReader.new.release) :
      r.release = { StatementReader.new with ready := ss } := by
    rw [released, release_of_free rfl, foldl_emit_top ss rfl]
    rfl
  cases h with
  | closed all =>
    obtain ⟨r, ⟨l, fed⟩, between, released⟩ := all.fed .new rfl
    have whole := top r ss released
    have frames : r.frames = [] := frames_of_release (by rw [whole]; rfl)
    refine ⟨_, release { r with line := l }, fed, ?_, ?_⟩
    · simp only [flush, frames, between]
    · rw [release_line, whole]
  | @unended s ss ts us all line =>
    obtain ⟨r, read, between, released⟩ := all.fed .new rfl
    obtain ⟨r₁, read', pending⟩ := line.fed between
    have whole := top r ss released
    obtain ⟨l, fed⟩ := read.append read'
    refine ⟨_, _, fed, pending.flush (by rw [whole]; rfl) l, ?_⟩
    rw [whole]
    rfl

/-- A script is read to its end, as some statements, when and only when its tokens spell them. -/
theorem flush_iff_spells {ss : List Stmt} :
    (∃ r r', feedAll .new ts = accept r ∧ r.flush = accept r' ∧ r'.ready = ss) ↔
      Spells (.inside ss) ts := by
  constructor
  · rintro ⟨r, r', fed, ended, rfl⟩
    exact spells_of_flush fed ended
  · exact flush_of_spells

end Scriptlet.Grammar
