import Scriptlet.Proofs.Nesting

/-!
# Matching brackets

The search for a closing bracket has three ends. Either the brackets that it has passed are still
open at the end of the run, or a closing bracket is of another kind than the innermost open one, or
the first bracket is closed. Which of them it is depends on the run alone, and decides the answer
of the search (`findClosing_answers`).
-/

namespace Scriptlet.Bracket

variable {run rest inside more : List PlacedToken} {bs outer : List Bracket} {b : Bracket}
  {o c t : PlacedToken} {endLine : Line} {index found : Nat}

/-! ## Runs that leave brackets open -/

/-- Runs that start with a bracket and do not close it, and in which every bracket that is closed is
closed by one of its own kind; with the brackets that are open at the end, innermost first. -/
inductive Open : List Bracket → List PlacedToken → Prop
  | first {o : PlacedToken} {b : Bracket} {inside : List PlacedToken} :
      o.token.opens? = some b → Nested inside → Open [b] (o :: inside)
  | inner {bs : List Bracket} {run : List PlacedToken} {o : PlacedToken} {b : Bracket}
      {inside : List PlacedToken} :
      Open bs run → o.token.opens? = some b → Nested inside → Open (b :: bs) (run ++ o :: inside)

theorem Open.ne_nil (h : Open bs run) : bs ≠ [] := by
  cases h <;> exact List.cons_ne_nil _ _

/-- Nested runs change nothing. -/
theorem Open.append (h : Open bs run) (nested : Nested more) : Open bs (run ++ more) := by
  cases h with
  | first opens inside => exact .first opens (inside.append nested)
  | inner before opens inside =>
    rw [List.append_assoc, List.cons_append]
    exact .inner before opens (inside.append nested)

theorem Open.opens (h : Open bs run) (opens : t.token.opens? = some b) :
    Open (b :: bs) (run ++ [t]) := .inner h opens .nil

theorem Open.other (h : Open bs run) (opens : t.token.opens? = none)
    (closes : t.token.closes? = none) : Open bs (run ++ [t]) :=
  h.append (.other opens closes .nil)

/-- A closing bracket that leaves another one open. -/
theorem Open.closes (h : Open (b :: outer) run) (others : outer ≠ [])
    (closes : t.token.closes? = some b) : Open outer (run ++ [t]) := by
  cases h with
  | first => exact absurd rfl others
  | inner before opens inside =>
    rw [List.append_assoc, List.cons_append]
    exact before.append (.bracket opens inside closes .nil)

/-- Where one bracket is open, it is the first one. -/
theorem Open.single (h : Open [b] run) :
    ∃ o inside, run = o :: inside ∧ o.token.opens? = some b ∧ Nested inside := by
  cases h with
  | first opens inside => exact ⟨_, _, rfl, opens, inside⟩
  | inner before => exact absurd rfl before.ne_nil

/-- The search passes over a run that leaves brackets open, and looks for these. -/
theorem Open.passed (h : Open bs run) (endLine : Line) (index : Nat) (rest : List PlacedToken) :
    closingFrom endLine index [] (run ++ rest) =
      closingFrom endLine (index + run.length) bs rest := by
  induction h generalizing rest with
  | first opens nested =>
    rw [List.cons_append, closingFrom_cons_opens opens, closingFrom_nested nested, List.length_cons,
      Nat.add_assoc, Nat.add_comm 1]
  | @inner bs run o b inside _ opens nested ih =>
    have size : index + run.length + 1 + inside.length = index + (run ++ o :: inside).length := by
      rw [List.length_append, List.length_cons]
      omega
    rw [List.append_assoc, List.cons_append, ih, closingFrom_cons_opens opens,
      closingFrom_nested nested, size]

/-! ## The three ends -/

/-- Runs from a bracket to the one that closes it. -/
inductive Pair : List PlacedToken → Prop
  | enclosed {o c : PlacedToken} {b : Bracket} {inside : List PlacedToken} :
      o.token.opens? = some b → Nested inside → c.token.closes? = some b →
        Pair (o :: (inside ++ [c]))

/-- Whether a token closes a bracket of another kind than the innermost one that a run leaves
open. -/
def Clashes (run : List PlacedToken) (t : PlacedToken) : Prop :=
  ∃ b outer c, Open (b :: outer) run ∧ t.token.closes? = some c ∧ c ≠ b

theorem Pair.exists_opens (h : Pair run) :
    ∃ o b inside, run = o :: inside ∧ o.token.opens? = some b := by
  cases h with
  | enclosed opens => exact ⟨_, _, _, rfl, opens⟩

theorem Pair.nested (h : Pair run) : Nested run := by
  cases h with
  | enclosed opens inside closes => exact .bracket opens inside closes .nil

/-- A nested run that starts with a bracket starts with a pair. -/
theorem Nested.exists_pair (h : Nested (o :: run)) (opens : o.token.opens? = some b) :
    ∃ pair rest, o :: run = pair ++ rest ∧ Pair pair := by
  cases h with
  | other none => rw [opens] at none; cases none
  | @bracket _ c _ inside rest opens inner closes _ =>
    exact ⟨o :: (inside ++ [c]), rest, by simp, .enclosed opens inner closes⟩

/-- What stands after an open bracket leaves brackets open up to its end, or up to a closing
bracket that clashes, or it closes the first bracket. -/
theorem Open.ends (h : Open bs run) (rest : List PlacedToken) :
    (∃ bs', Open bs' (run ++ rest)) ∨
      (∃ before t after, run ++ rest = before ++ t :: after ∧ Clashes before t) ∨
      ∃ pair after, run ++ rest = pair ++ after ∧ Pair pair := by
  induction rest generalizing bs run with
  | nil => exact .inl ⟨bs, by rwa [List.append_nil]⟩
  | cons t rest ih =>
    have next : run ++ t :: rest = run ++ [t] ++ rest := by simp
    cases opens : t.token.opens? with
    | some b =>
      rw [next]
      exact ih (h.opens opens)
    | none =>
      cases closes : t.token.closes? with
      | none =>
        rw [next]
        exact ih (h.other opens closes)
      | some c =>
        obtain ⟨b, outer, rfl⟩ := List.exists_cons_of_ne_nil h.ne_nil
        by_cases same : c = b
        · subst same
          by_cases last : outer = []
          · subst last
            obtain ⟨o, inside, rfl, first, nested⟩ := h.single
            exact .inr (.inr ⟨o :: (inside ++ [t]), rest, by simp, .enclosed first nested closes⟩)
          · rw [next]
            exact ih (h.closes last closes)
        · exact .inr (.inl ⟨run, t, rest, rfl, b, outer, c, h, closes, same⟩)

theorem closingFrom_of_open (h : Open bs run) :
    closingFrom endLine index [] run = .error (.unexpectedEnd endLine) := by
  have passed := h.passed endLine index []
  rwa [List.append_nil, closingFrom] at passed

theorem closingFrom_of_clashes (h : Clashes run t) :
    closingFrom endLine index [] (run ++ t :: rest) =
      .error (.unexpectedToken t.token.text t.line) := by
  obtain ⟨b, outer, c, opened, closes, other⟩ := h
  rw [opened.passed, closingFrom_cons_closes closes, if_neg other]

theorem closingFrom_of_pair (h : Pair run) :
    closingFrom endLine index [] (run ++ rest) = .ok (index + (run.length - 1)) := by
  cases h with
  | @enclosed o c b inside opens nested closes =>
    have split : o :: (inside ++ [c]) ++ rest = o :: inside ++ c :: rest := by simp
    rw [split, (Open.first opens nested).passed, closingFrom_cons_closes closes, if_pos rfl,
      if_pos rfl]
    simp

theorem Pair.length_pos (h : Pair run) : 0 < run.length := by
  cases h
  exact Nat.succ_pos _

/-- Two pairs at the start of one run are the same. -/
theorem Pair.eq_of_append {pair pair' : List PlacedToken} (h : Pair pair) (h' : Pair pair')
    (same : pair ++ rest = pair' ++ more) : pair = pair' := by
  have search : closingFrom 0 0 [] (pair ++ rest) = .ok (0 + (pair.length - 1)) :=
    closingFrom_of_pair h
  rw [same, closingFrom_of_pair h'] at search
  have length := Except.ok.inj search
  have positive := h.length_pos
  have positive' := h'.length_pos
  exact (List.append_inj same (by omega)).1

/-- A pair is the shortest nested run from its bracket. -/
theorem Pair.length_le {pair : List PlacedToken} {k : Nat} (h : Pair pair)
    (nested : Nested ((pair ++ rest).take (k + 1))) : pair.length ≤ k + 1 := by
  obtain ⟨o, b, inside, rfl, opens⟩ := h.exists_opens
  rw [List.cons_append, List.take_succ_cons] at nested
  obtain ⟨shorter, more, split, isPair⟩ := nested.exists_pair opens
  rw [← List.take_succ_cons, ← List.cons_append] at split
  have same : o :: inside ++ rest = shorter ++ (more ++ (o :: inside ++ rest).drop (k + 1)) := by
    rw [← List.append_assoc, ← split, List.take_append_drop]
  have length := congrArg List.length split
  rw [List.length_append, List.length_take] at length
  rw [h.eq_of_append isPair same]
  omega

/-! ## What the search answers -/

/-- The answers of a search in a run that starts with a bracket, one for each end. -/
inductive Answers (endLine : Line) (index : Nat) (run : List PlacedToken) :
    Except SyntaxError Nat → Prop
  | unclosed {bs : List Bracket} : Open bs run →
      Answers endLine index run (.error (.unexpectedEnd endLine))
  | clash {before after : List PlacedToken} {t : PlacedToken} : run = before ++ t :: after →
      Clashes before t → Answers endLine index run (.error (.unexpectedToken t.token.text t.line))
  | closed {pair after : List PlacedToken} : run = pair ++ after → Pair pair →
      Answers endLine index run (.ok (index + (pair.length - 1)))

section

variable (opens : o.token.opens? = some b)

include opens

theorem answers_closingFrom (endLine : Line) (index : Nat) (run : List PlacedToken) :
    Answers endLine index (o :: run) (closingFrom endLine index [] (o :: run)) := by
  have ends := (Open.first opens .nil).ends run
  rw [List.singleton_append] at ends
  rcases ends with ⟨bs, opened⟩ | ⟨before, t, after, whole, clashes⟩ | ⟨pair, after, whole, isPair⟩
  · rw [closingFrom_of_open opened]
    exact .unclosed opened
  · rw [whole, closingFrom_of_clashes clashes]
    exact .clash rfl clashes
  · rw [whole, closingFrom_of_pair isPair]
    exact .closed rfl isPair

/-- The search from a bracket ends where the run from there is nested for the first time. -/
theorem closingFrom_eq_ok_iff :
    closingFrom endLine index [] (o :: run) = .ok found ↔
      ∃ k, found = index + k ∧ k < (o :: run).length ∧ Nested ((o :: run).take (k + 1)) ∧
        ∀ j < k, ¬ Nested ((o :: run).take (j + 1)) := by
  constructor
  · intro search
    have answers := answers_closingFrom opens endLine index run
    rw [search] at answers
    cases answers with
    | @closed pair after whole isPair =>
      have positive := isPair.length_pos
      have size : pair.length - 1 + 1 = pair.length := by omega
      rw [whole]
      refine ⟨_, rfl, ?_, ?_, fun j before nested => ?_⟩
      · rw [List.length_append]
        omega
      · rw [size, List.take_left]
        exact isPair.nested
      · have shortest := isPair.length_le nested
        omega
  · rintro ⟨k, rfl, inRun, nested, first⟩
    rw [List.take_succ_cons] at nested
    obtain ⟨pair, rest, split, isPair⟩ := nested.exists_pair opens
    rw [← List.take_succ_cons] at split
    have whole : o :: run = pair ++ (rest ++ (o :: run).drop (k + 1)) := by
      rw [← List.append_assoc, ← split, List.take_append_drop]
    have positive := isPair.length_pos
    have length := congrArg List.length split
    rw [List.length_take, List.length_append] at length
    -- the pair is nested itself, so no shorter run is all of the first one
    have all : ¬ pair.length - 1 < k := fun before => by
      have size : pair.length - 1 + 1 = pair.length := by omega
      refine first _ before ?_
      rw [size, whole, List.take_left]
      exact isPair.nested
    have last : pair.length - 1 = k := by omega
    rw [whole, closingFrom_of_pair isPair, last]

theorem closingFrom_eq_unexpectedToken_iff {text : String} {line : Line} :
    closingFrom endLine index [] (o :: run) = .error (.unexpectedToken text line) ↔
      ∃ before t after, o :: run = before ++ t :: after ∧ Clashes before t ∧
        text = t.token.text ∧ line = t.line := by
  constructor
  · intro search
    have answers := answers_closingFrom opens endLine index run
    rw [search] at answers
    cases answers with
    | clash whole clashes => exact ⟨_, _, _, whole, clashes, rfl, rfl⟩
  · rintro ⟨before, t, after, whole, clashes, rfl, rfl⟩
    rw [whole, closingFrom_of_clashes clashes]

theorem closingFrom_eq_unexpectedEnd_iff {line : Line} :
    closingFrom endLine index [] (o :: run) = .error (.unexpectedEnd line) ↔
      line = endLine ∧ ∃ bs, Open bs (o :: run) := by
  constructor
  · intro search
    have answers := answers_closingFrom opens endLine index run
    rw [search] at answers
    cases answers with
    | unclosed opened => exact ⟨rfl, _, opened⟩
  · rintro ⟨rfl, bs, opened⟩
    exact closingFrom_of_open opened

end

/-! ## The search in a run of tokens -/

section

variable {tokens : List PlacedToken} {start : Nat}

theorem drop_of_getElem? (here : tokens[start]? = some o) :
    tokens.drop start = o :: tokens.drop (start + 1) := by
  obtain ⟨inTokens, rfl⟩ := List.getElem?_eq_some_iff.1 here
  exact List.drop_eq_getElem_cons inTokens

theorem extract_add (tokens : List PlacedToken) (start k : Nat) :
    tokens.extract start (start + k) = (tokens.drop start).take k := by
  rw [List.extract_eq_take_drop, Nat.add_sub_cancel_left]

variable (here : tokens[start]? = some o) (opens : o.token.opens? = some b)

include here

theorem findClosing_eq_closingFrom : findClosing tokens start =
    closingFrom (lastLine tokens) start [] (o :: tokens.drop (start + 1)) := by
  rw [findClosing, drop_of_getElem? here]

include opens

theorem findClosing_eq_ok_iff {i : Nat} :
    findClosing tokens start = .ok i ↔ start ≤ i ∧ i < tokens.length ∧
      Nested (tokens.extract start (i + 1)) ∧
        ∀ j, start ≤ j → j < i → ¬ Nested (tokens.extract start (j + 1)) := by
  have length := congrArg List.length (drop_of_getElem? here)
  rw [List.length_drop] at length
  rw [findClosing_eq_closingFrom here, closingFrom_eq_ok_iff opens, ← drop_of_getElem? here,
    List.length_drop]
  constructor
  · rintro ⟨k, rfl, inRun, nested, first⟩
    refine ⟨Nat.le_add_right start k, by omega, ?_, fun j le before nested => ?_⟩
    · rwa [Nat.add_assoc, extract_add]
    · obtain ⟨j, rfl⟩ := Nat.exists_eq_add_of_le le
      rw [Nat.add_assoc, extract_add] at nested
      exact first j (by omega) nested
  · rintro ⟨le, inRun, nested, first⟩
    obtain ⟨k, rfl⟩ := Nat.exists_eq_add_of_le le
    rw [Nat.add_assoc, extract_add] at nested
    refine ⟨k, rfl, by omega, nested, fun j before nested => ?_⟩
    refine first (start + j) (Nat.le_add_right start j) (by omega) ?_
    rwa [Nat.add_assoc, extract_add]

theorem findClosing_eq_unexpectedToken_iff {text : String} {line : Line} :
    findClosing tokens start = .error (.unexpectedToken text line) ↔
      ∃ i t, start ≤ i ∧ tokens[i]? = some t ∧ Clashes (tokens.extract start i) t ∧
        text = t.token.text ∧ line = t.line := by
  rw [findClosing_eq_closingFrom here, closingFrom_eq_unexpectedToken_iff opens,
    ← drop_of_getElem? here]
  constructor
  · rintro ⟨before, t, after, whole, clashes, rfl, rfl⟩
    refine ⟨start + before.length, t, Nat.le_add_right .., ?_, ?_, rfl, rfl⟩
    · rw [← List.getElem?_drop, whole, List.getElem?_append_right (Nat.le_refl _), Nat.sub_self]
      rfl
    · rwa [extract_add, whole, List.take_left]
  · rintro ⟨i, t, le, stands, clashes, rfl, rfl⟩
    obtain ⟨k, rfl⟩ := Nat.exists_eq_add_of_le le
    rw [← List.getElem?_drop] at stands
    rw [extract_add] at clashes
    have split := List.take_append_drop k (tokens.drop start)
    rw [drop_of_getElem? stands] at split
    exact ⟨_, t, _, split.symm, clashes, rfl, rfl⟩

theorem findClosing_eq_unexpectedEnd_iff {line : Line} :
    findClosing tokens start = .error (.unexpectedEnd line) ↔
      line = lastLine tokens ∧ ∃ bs, Open bs (tokens.drop start) := by
  rw [findClosing_eq_closingFrom here, closingFrom_eq_unexpectedEnd_iff opens,
    ← drop_of_getElem? here]

/-- The search for the bracket that closes an opening one finds the first index up to which the run
from there is nested. It refuses the first closing bracket of another kind than the innermost open
one, and misses the end of the run exactly if the bracket is still open there. -/
theorem findClosing_answers :
    (∀ i, findClosing tokens start = .ok i ↔ start ≤ i ∧ i < tokens.length ∧
      Nested (tokens.extract start (i + 1)) ∧
        ∀ j, start ≤ j → j < i → ¬ Nested (tokens.extract start (j + 1))) ∧
    (∀ text line, findClosing tokens start = .error (.unexpectedToken text line) ↔
      ∃ i t, start ≤ i ∧ tokens[i]? = some t ∧ Clashes (tokens.extract start i) t ∧
        text = t.token.text ∧ line = t.line) ∧
    (∀ line, findClosing tokens start = .error (.unexpectedEnd line) ↔
      line = lastLine tokens ∧ ∃ bs, Open bs (tokens.drop start)) ∧
    ∀ e, findClosing tokens start = .error e →
      (∃ text line, e = .unexpectedToken text line) ∨ ∃ line, e = .unexpectedEnd line := by
  refine ⟨fun i => findClosing_eq_ok_iff here opens,
    fun text line => findClosing_eq_unexpectedToken_iff here opens,
    fun line => findClosing_eq_unexpectedEnd_iff here opens, fun e search => ?_⟩
  have answers := answers_closingFrom opens (lastLine tokens) start (tokens.drop (start + 1))
  rw [← findClosing_eq_closingFrom here, search] at answers
  cases answers with
  | unclosed => exact .inr ⟨_, rfl⟩
  | clash => exact .inl ⟨_, _, rfl⟩

end

/-- A pair of parentheses around a pair of square brackets, and then two brackets that clash. -/
def mixedRun : List PlacedToken :=
  [⟨.mark .leftParen, 1⟩, ⟨.mark .leftBracket, 1⟩, ⟨.int 1, 1⟩, ⟨.mark .rightBracket, 1⟩,
    ⟨.mark .rightParen, 2⟩, ⟨.mark .leftParen, 2⟩, ⟨.mark .rightBracket, 3⟩]

theorem findClosing_answers_mixedRun :
    mixedRun[0]? = some ⟨.mark .leftParen, 1⟩ ∧ mixedRun[5]? = some ⟨.mark .leftParen, 2⟩ ∧
      (Token.mark .leftParen).opens? = some .round ∧
      (Nested (mixedRun.extract 0 5) ∧
        ∀ j, 0 ≤ j → j < 4 → ¬ Nested (mixedRun.extract 0 (j + 1))) ∧
      ∃ i t, 5 ≤ i ∧ mixedRun[i]? = some t ∧ Clashes (mixedRun.extract 5 i) t ∧
        "]" = t.token.text ∧ 3 = t.line :=
  ⟨rfl, rfl, rfl, (((findClosing_answers rfl rfl).1 4).1 rfl).2.2,
    ((findClosing_answers rfl rfl).2.1 "]" 3).1 rfl⟩

end Scriptlet.Bracket
