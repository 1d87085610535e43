import Scriptlet.Proofs.Matching

/-!
# Splitting at commas

A comma of a nested run stands outside all brackets when the run up to it is nested. It is stray
when nothing stands before it, when nothing follows it, or when it follows another such comma. A
nested run without stray commas is cut into the parts between its commas, and these are the only
parts that it can be joined from; in any other run the first stray comma is refused
(`splitTopLevel_answers`).
-/

namespace Scriptlet.Bracket

variable {run rest before part : List PlacedToken} {parts : List (List PlacedToken)}
  {c t : PlacedToken} {i : Nat}

/-! ## Commas outside all brackets -/

/-- Whether a comma stands at an index of a run, outside all brackets. -/
def CommaAt (run : List PlacedToken) (i : Nat) : Prop :=
  ∃ t, run[i]? = some t ∧ t.token.isComma = true ∧ Nested (run.take i)

theorem CommaAt.lt_length (h : CommaAt run i) : i < run.length := by
  obtain ⟨t, here, _⟩ := h
  exact (List.getElem?_eq_some_iff.1 here).1

/-- What follows a pair in a nested run is nested. -/
theorem Nested.of_pair {pair : List PlacedToken} (h : Nested (pair ++ rest)) (isPair : Pair pair) :
    Nested rest := by
  obtain ⟨o, b, inside, rfl, opens⟩ := isPair.exists_opens
  generalize whole : o :: inside ++ rest = run at h
  cases h with
  | nil => cases whole
  | other none =>
    obtain rfl := (List.cons.inj whole).1
    rw [opens] at none
    cases none
  | @bracket o' c b' inside' rest' opens' nested closes after =>
    have whole' : o :: inside ++ rest = o' :: (inside' ++ [c]) ++ rest' := by simpa using whole
    have same := isPair.eq_of_append (.enclosed opens' nested closes) whole'
    rw [same] at whole'
    exact (List.append_cancel_left whole') ▸ after

theorem nested_append_iff (h : Nested before) : Nested (before ++ rest) ↔ Nested rest := by
  refine ⟨fun whole => ?_, h.append⟩
  induction h with
  | nil => exact whole
  | other opens _ _ ih => exact ih (whole.tail opens)
  | @bracket o c b inside tail opens inner closes _ _ ih =>
    rw [← enclosed_append, List.append_assoc] at whole
    exact ih (whole.of_pair (.enclosed opens inner closes))

theorem commaAt_append (h : Nested before) :
    CommaAt (before ++ rest) i ↔
      CommaAt before i ∨ ∃ k, i = before.length + k ∧ CommaAt rest k := by
  rcases Nat.lt_or_ge i before.length with inside | beyond
  · have only : ¬ ∃ k, i = before.length + k ∧ CommaAt rest k := by
      rintro ⟨k, rfl, _⟩
      omega
    rw [or_iff_left only, CommaAt, CommaAt, List.getElem?_append_left inside,
      List.take_append_of_le_length (Nat.le_of_lt inside)]
  · have only : ¬ CommaAt before i := fun comma => absurd comma.lt_length (Nat.not_lt.2 beyond)
    obtain ⟨k, rfl⟩ := Nat.exists_eq_add_of_le beyond
    rw [or_iff_right only, CommaAt, List.getElem?_append_right (Nat.le_add_right _ k),
      Nat.add_sub_cancel_left, List.take_length_add_append]
    simp only [nested_append_iff h, Nat.add_left_cancel_iff, exists_eq_left', CommaAt]

/-- All that stands in a pair stands in its brackets. -/
theorem Pair.not_commaAt (h : Pair run) : ¬ CommaAt run i := by
  intro comma
  cases i with
  | zero =>
    obtain ⟨o, b, inside, rfl, opens⟩ := h.exists_opens
    obtain ⟨_, here, isComma, _⟩ := comma
    cases here
    rw [isComma_of_opens? opens] at isComma
    cases isComma
  | succ k =>
    have inRun := comma.lt_length
    obtain ⟨_, _, _, nested⟩ := comma
    rw [← List.append_nil run] at nested
    have shortest := h.length_le nested
    omega

section

variable {o : PlacedToken} {b : Bracket} {inside : List PlacedToken}

theorem commaAt_cons (opens : t.token.opens? = none) (closes : t.token.closes? = none) :
    CommaAt (t :: rest) i ↔
      i = 0 ∧ t.token.isComma = true ∨ ∃ k, i = k + 1 ∧ CommaAt rest k := by
  have single : CommaAt [t] i ↔ i = 0 ∧ t.token.isComma = true := by
    constructor
    · intro comma
      obtain rfl : i = 0 := Nat.lt_one_iff.1 comma.lt_length
      obtain ⟨_, here, isComma, _⟩ := comma
      cases here
      exact ⟨rfl, isComma⟩
    · rintro ⟨rfl, isComma⟩
      exact ⟨t, rfl, isComma, .nil⟩
  rw [← List.singleton_append, commaAt_append (.other opens closes .nil), single,
    List.length_singleton]
  simp only [Nat.add_comm 1]

theorem commaAt_bracket (opens : o.token.opens? = some b) (inner : Nested inside)
    (closes : c.token.closes? = some b) :
    CommaAt (o :: (inside ++ c :: rest)) i ↔ ∃ k, i = inside.length + 2 + k ∧ CommaAt rest k := by
  have isPair : Pair (o :: (inside ++ [c])) := .enclosed opens inner closes
  rw [← enclosed_append, commaAt_append isPair.nested, or_iff_right isPair.not_commaAt, List.length_cons,
    List.length_append, List.length_singleton]

end

theorem Solid.not_commaAt (h : Solid run) : ¬ CommaAt run i := by
  induction h generalizing i with
  | nil => exact fun comma => absurd comma.lt_length (Nat.not_lt_zero i)
  | other opens closes noComma _ ih =>
    rw [commaAt_cons opens closes, noComma]
    rintro (⟨_, isComma⟩ | ⟨k, _, comma⟩)
    · cases isComma
    · exact ih comma
  | bracket opens inner closes _ ih =>
    rw [commaAt_bracket opens inner closes]
    rintro ⟨k, _, comma⟩
    exact ih comma

theorem Nested.solid (h : Nested run) (noComma : ∀ i, ¬ CommaAt run i) : Solid run := by
  induction h with
  | nil => exact .nil
  | other opens closes _ ih =>
    simp only [commaAt_cons opens closes] at noComma
    refine .other opens closes ?_ (ih fun k comma => noComma _ (.inr ⟨k, rfl, comma⟩))
    exact Bool.eq_false_iff.2 fun isComma => noComma 0 (.inl ⟨rfl, isComma⟩)
  | bracket opens inner closes _ _ ih =>
    simp only [commaAt_bracket opens inner closes] at noComma
    exact .bracket opens inner closes (ih fun k comma => noComma _ ⟨k, rfl, comma⟩)

/-- A nested run has a first comma outside all brackets, or none. -/
theorem Nested.exists_comma (h : Nested run) :
    Solid run ∨ ∃ part c rest, run = part ++ c :: rest ∧ Solid part ∧
      c.token.isComma = true ∧ Nested rest := by
  induction h with
  | nil => exact .inl .nil
  | @other t rest opens closes nested ih =>
    by_cases isComma : t.token.isComma = true
    · exact .inr ⟨[], t, rest, rfl, .nil, isComma, nested⟩
    · have noComma := Bool.eq_false_iff.2 isComma
      rcases ih with solid | ⟨part, c, later, rfl, solid, isComma, nested⟩
      · exact .inl (.other opens closes noComma solid)
      · exact .inr ⟨t :: part, c, later, rfl, .other opens closes noComma solid, isComma, nested⟩
  | @bracket o c b inside rest opens inner closes _ _ ih =>
    rcases ih with solid | ⟨part, comma, later, rfl, solid, isComma, nested⟩
    · exact .inl (.bracket opens inner closes solid)
    · exact .inr ⟨o :: (inside ++ c :: part), comma, later, by simp,
        .bracket opens inner closes solid, isComma, nested⟩

/-! ## Stray commas -/

/-- Whether a comma outside all brackets has nothing before it, nothing after it, or another one
right before it. -/
def StrayAt (run : List PlacedToken) (i : Nat) : Prop :=
  CommaAt run i ∧ (i = 0 ∨ i + 1 = run.length ∨ ∃ j, i = j + 1 ∧ CommaAt run j)

/-- Runs that neither start nor end with a comma outside all brackets, and in which no two such
commas are adjacent. -/
structure Spaced (run : List PlacedToken) : Prop where
  first : ¬ CommaAt run 0
  last : ∀ i, i + 1 = run.length → ¬ CommaAt run i
  adjacent : ∀ i, CommaAt run i → ¬ CommaAt run (i + 1)

theorem spaced_iff : Spaced run ↔ ∀ i, ¬ StrayAt run i := by
  constructor
  · rintro ⟨first, last, adjacent⟩ i ⟨comma, rfl | ends | ⟨j, rfl, before⟩⟩
    · exact first comma
    · exact last i ends comma
    · exact adjacent j before comma
  · intro none
    refine ⟨fun comma => none 0 ⟨comma, .inl rfl⟩, fun i ends comma => ?_,
      fun i before comma => ?_⟩
    · exact none i ⟨comma, .inr (.inl ends)⟩
    · exact none (i + 1) ⟨comma, .inr (.inr ⟨i, rfl, before⟩)⟩

section

variable (solid : Solid part) (isComma : c.token.isComma = true)

include solid isComma

theorem commaAt_part :
    CommaAt (part ++ c :: rest) i ↔
      i = part.length ∨ ∃ k, i = part.length + 1 + k ∧ CommaAt rest k := by
  rw [commaAt_append solid.nested, or_iff_right solid.not_commaAt]
  simp only [commaAt_cons (opens?_of_isComma isComma) (closes?_of_isComma isComma), isComma,
    and_true]
  constructor
  · rintro ⟨_, rfl, rfl | ⟨k, rfl, comma⟩⟩
    · exact .inl rfl
    · exact .inr ⟨k, by omega, comma⟩
  · rintro (rfl | ⟨k, rfl, comma⟩)
    · exact ⟨0, rfl, .inl rfl⟩
    · exact ⟨k + 1, by omega, .inr ⟨k, rfl, comma⟩⟩

/-- The comma after a part is stray if the part is empty or if it ends the run; the others are those
that are stray in what follows. -/
theorem strayAt_part :
    StrayAt (part ++ c :: rest) i ↔
      i = part.length ∧ (part = [] ∨ rest = []) ∨
        ∃ k, i = part.length + 1 + k ∧ StrayAt rest k := by
  simp only [StrayAt, commaAt_part solid isComma, List.length_append, List.length_cons,
    ← List.length_eq_zero_iff]
  constructor
  -- the comma starts the run, ends it, or follows another one
  · rintro ⟨rfl | ⟨k, rfl, comma⟩, start | ends | ⟨j, next, rfl | ⟨k', rfl, before⟩⟩⟩
    · exact .inl ⟨rfl, .inl start⟩
    · exact .inl ⟨rfl, .inr (by omega)⟩
    · omega
    · omega
    · omega
    · exact .inr ⟨k, rfl, comma, .inr (.inl (by omega))⟩
    · exact .inr ⟨k, rfl, comma, .inl (by omega)⟩
    · exact .inr ⟨k, rfl, comma, .inr (.inr ⟨k', by omega, before⟩)⟩
  · rintro (⟨rfl, start | ends⟩ | ⟨k, rfl, comma, rfl | ends | ⟨j, rfl, before⟩⟩)
    · exact ⟨.inl rfl, .inl start⟩
    · exact ⟨.inl rfl, .inr (.inl (by omega))⟩
    · exact ⟨.inr ⟨0, rfl, comma⟩, .inr (.inr ⟨part.length, rfl, .inl rfl⟩)⟩
    · exact ⟨.inr ⟨k, rfl, comma⟩, .inr (.inl (by omega))⟩
    · exact ⟨.inr ⟨j + 1, rfl, comma⟩,
        .inr (.inr ⟨part.length + 1 + j, by omega, .inr ⟨j, rfl, before⟩⟩)⟩

end

/-! ## The parts of a run -/

/-- Parts that make a run with single commas between them, where none is empty and each is nested
and without a comma outside its brackets. An empty run has no parts. -/
structure Decomposes (run : List PlacedToken) (parts : List (List PlacedToken)) : Prop where
  joined : run = [] ∧ parts = [] ∨ Joined run parts
  nonempty : ∀ part ∈ parts, part ≠ []
  nested : ∀ part ∈ parts, Nested part
  whole : ∀ part ∈ parts, ∀ i, ¬ CommaAt part i

theorem decomposes_iff :
    Decomposes run parts ↔
      (run = [] ∧ parts = [] ∨ Joined run parts) ∧ ∀ part ∈ parts, Solid part := by
  constructor
  · intro h
    exact ⟨h.joined, fun part mem => (h.nested part mem).solid (h.whole part mem)⟩
  · rintro ⟨joined, solid⟩
    refine ⟨joined, ?_, fun part mem => (solid part mem).nested,
      fun part mem _ => (solid part mem).not_commaAt⟩
    rcases joined with ⟨_, rfl⟩ | joined
    · simp
    · exact joined.nonempty

theorem Joined.not_strayAt (h : Joined run parts) (solid : ∀ part ∈ parts, Solid part) :
    ¬ StrayAt run i := by
  induction h generalizing i with
  | last => exact fun stray => (solid _ List.mem_cons_self).not_commaAt stray.1
  | @cons part rest c parts nonempty isComma later ih =>
    rw [strayAt_part (solid part List.mem_cons_self) isComma]
    rintro (⟨_, empty | ends⟩ | ⟨k, _, stray⟩)
    · exact nonempty empty
    · exact later.ne_nil ends
    · exact ih (fun p hp => solid p (List.mem_cons_of_mem _ hp)) stray

theorem Decomposes.not_strayAt (h : Decomposes run parts) : ¬ StrayAt run i := by
  obtain ⟨⟨rfl, _⟩ | joined, solid⟩ := decomposes_iff.1 h
  · exact fun stray => absurd stray.1.lt_length (Nat.not_lt_zero i)
  · exact joined.not_strayAt solid

/-! ## What the cut answers -/

/-- The answers of a cut: the parts of a run, or its first stray comma. -/
inductive Cuts (run : List PlacedToken) : Except SyntaxError (List (List PlacedToken)) → Prop
  | parts {parts : List (List PlacedToken)} : Decomposes run parts → Cuts run (.ok parts)
  | refused {i : Nat} {c : PlacedToken} : run[i]? = some c → StrayAt run i →
      (∀ j < i, ¬ StrayAt run j) → Cuts run (.error (.unexpectedToken "," c.line))

section

variable (solid : Solid part) (isComma : c.token.isComma = true)

include solid isComma

/-- The comma after the first part is refused if it has nothing before it or nothing after it. -/
theorem cuts_refused (stray : part = [] ∨ rest = []) :
    Cuts (part ++ c :: rest) (.error (.unexpectedToken "," c.line)) := by
  have here : (part ++ c :: rest)[part.length]? = some c := by simp
  have first : ∀ j < part.length, ¬ StrayAt (part ++ c :: rest) j := by
    intro j before earlier
    rcases (strayAt_part solid isComma).1 earlier with ⟨same, _⟩ | ⟨k, same, _⟩ <;> omega
  exact .refused here ((strayAt_part solid isComma).2 (.inl ⟨rfl, stray⟩)) first

/-- Otherwise the rest of the run decides. -/
theorem Cuts.cons {answer : Except SyntaxError (List (List PlacedToken))} (h : Cuts rest answer)
    (nonempty : part ≠ []) (more : rest ≠ []) :
    Cuts (part ++ c :: rest) (answer.map (part :: ·)) := by
  cases h with
  | parts decomposes =>
    obtain ⟨joined, solids⟩ := decomposes_iff.1 decomposes
    have later := joined.resolve_left fun empty => more empty.1
    refine .parts (decomposes_iff.2 ⟨.inr (.cons nonempty isComma later), ?_⟩)
    simpa using ⟨solid, solids⟩
  | @refused k c' here stray first =>
    have there : (part ++ c :: rest)[part.length + 1 + k]? = some c' := by
      have size : part.length + 1 + k = (part ++ [c]).length + k := by simp
      rw [size, List.append_cons, List.getElem?_append_right (Nat.le_add_right _ k),
        Nat.add_sub_cancel_left, here]
    refine .refused there ((strayAt_part solid isComma).2 (.inr ⟨k, rfl, stray⟩)) ?_
    intro j before earlier
    rcases (strayAt_part solid isComma).1 earlier with ⟨_, absent | absent⟩ | ⟨k', rfl, inRest⟩
    · exact nonempty absent
    · exact more absent
    · exact first k' (by omega) inRest

end

theorem lastLine_append_cons (some : rest ≠ []) :
    lastLine (part ++ c :: rest) = lastLine rest := by
  rw [lastLine, lastLine, List.getLast?_append, List.getLast?_cons,
    List.getLast?_eq_some_getLast some]
  rfl

theorem cuts_partsFrom {run : List PlacedToken} (nested : Nested run) (some : run ≠ []) :
    Cuts run (partsFrom (lastLine run) 0 [] run) := by
  rcases nested.exists_comma with solid | ⟨part, c, rest, split, solid, isComma, nested⟩
  · rw [partsFrom_solid_end solid some]
    exact .parts (decomposes_iff.2 ⟨.inr (.last some), by simpa using solid⟩)
  · have shorter : rest.length < run.length := by rw [split]; simp; omega
    rw [split, partsFrom_solid_comma solid isComma]
    by_cases empty : part = []
    · rw [if_pos empty]
      exact cuts_refused solid isComma (.inl empty)
    · rw [if_neg empty]
      by_cases ends : rest = []
      · have last : lastLine (part ++ c :: rest) = c.line := by simp [ends, lastLine]
        have refused : partsFrom c.line 0 [] rest = .error (.unexpectedToken "," c.line) := by
          rw [ends, partsFrom, if_pos rfl]
        rw [last, refused]
        exact cuts_refused solid isComma (.inr ends)
      · rw [lastLine_append_cons ends]
        exact (cuts_partsFrom nested ends).cons solid isComma empty ends
termination_by run.length

section

variable (nested : Nested run)

include nested

theorem cuts_splitTopLevel : Cuts run (splitTopLevel run) := by
  rw [splitTopLevel]
  split_ifs with empty
  · exact .parts (decomposes_iff.2 ⟨.inl ⟨empty, rfl⟩, by simp⟩)
  · exact cuts_partsFrom nested empty

theorem splitTopLevel_eq_ok_iff : splitTopLevel run = .ok parts ↔ Decomposes run parts := by
  constructor
  · intro split
    have cuts := cuts_splitTopLevel nested
    rw [split] at cuts
    cases cuts with
    | parts decomposes => exact decomposes
  · intro decomposes
    obtain ⟨⟨rfl, rfl⟩ | joined, solid⟩ := decomposes_iff.1 decomposes
    · rfl
    · exact splitTopLevel_of_joined joined solid

theorem splitTopLevel_eq_error_iff {e : SyntaxError} :
    splitTopLevel run = .error e ↔ ∃ i c, run[i]? = some c ∧ StrayAt run i ∧
      (∀ j < i, ¬ StrayAt run j) ∧ e = .unexpectedToken "," c.line := by
  have cuts := cuts_splitTopLevel nested
  constructor
  · intro split
    rw [split] at cuts
    cases cuts with
    | refused here stray first => exact ⟨_, _, here, stray, first, rfl⟩
  · rintro ⟨i, c, here, stray, first, rfl⟩
    generalize splitTopLevel run = answer at cuts
    cases cuts with
    | parts decomposes => exact absurd stray decomposes.not_strayAt
    | @refused i' c' here' stray' first' =>
      -- both are the first stray comma
      obtain rfl : i = i' := Nat.le_antisymm (Nat.le_of_not_lt fun before => first _ before stray')
        (Nat.le_of_not_lt fun before => first' _ before stray)
      rw [here] at here'
      cases here'
      rfl

theorem exists_splitTopLevel_iff :
    (∃ parts, splitTopLevel run = .ok parts) ↔ run = [] ∨ Spaced run := by
  constructor
  · rintro ⟨parts, split⟩
    have decomposes := (splitTopLevel_eq_ok_iff nested).1 split
    exact .inr (spaced_iff.2 fun i => decomposes.not_strayAt)
  · rintro (rfl | spaced)
    · exact ⟨[], rfl⟩
    · cases split : splitTopLevel run with
      | ok parts => exact ⟨parts, rfl⟩
      | error e =>
        obtain ⟨i, _, _, stray, _⟩ := (splitTopLevel_eq_error_iff nested).1 split
        exact absurd stray (spaced_iff.1 spaced i)

/-- A nested run is cut exactly if it is empty, or if its commas outside all brackets are neither at
its ends nor adjacent. What it is cut into are parts with single commas between them, none of which
is empty and each of which is nested and without a comma outside its brackets, and it has no other
such parts. Where a run is not cut, its first stray comma is unexpected. -/
theorem splitTopLevel_answers :
    ((∃ parts, splitTopLevel run = .ok parts) ↔ run = [] ∨ Spaced run) ∧
    (∀ parts, splitTopLevel run = .ok parts ↔ Decomposes run parts) ∧
    (∀ parts others, Decomposes run parts → Decomposes run others → parts = others) ∧
    ∀ e, splitTopLevel run = .error e ↔ ∃ i c, run[i]? = some c ∧ StrayAt run i ∧
      (∀ j < i, ¬ StrayAt run j) ∧ e = .unexpectedToken "," c.line := by
  refine ⟨exists_splitTopLevel_iff nested, fun parts => splitTopLevel_eq_ok_iff nested,
    fun parts others one other => ?_, fun e => splitTopLevel_eq_error_iff nested⟩
  have split := (splitTopLevel_eq_ok_iff nested).2 one
  rw [(splitTopLevel_eq_ok_iff nested).2 other] at split
  exact (Except.ok.inj split).symm

end

/-- A list among arguments, with commas in its brackets. -/
def listRun : List PlacedToken :=
  [⟨.int 1, 1⟩, ⟨.mark .comma, 1⟩, ⟨.mark .leftBracket, 1⟩, ⟨.mark .comma, 2⟩, ⟨.mark .comma, 2⟩,
    ⟨.mark .rightBracket, 3⟩]

/-- The list is one part with its commas; a comma after it is stray. -/
theorem splitTopLevel_answers_listRun :
    Nested listRun ∧ Spaced listRun ∧ Decomposes listRun [listRun.take 1, listRun.drop 2] ∧
      Nested (listRun ++ [⟨.mark .comma, 4⟩]) ∧
      ∃ i c, (listRun ++ [⟨.mark .comma, 4⟩])[i]? = some c ∧
        StrayAt (listRun ++ [⟨.mark .comma, 4⟩]) i ∧
        (∀ j < i, ¬ StrayAt (listRun ++ [⟨.mark .comma, 4⟩]) j) ∧
        SyntaxError.unexpectedToken "," 4 = .unexpectedToken "," c.line := by
  have commas : Nested [⟨.mark .comma, 2⟩, ⟨.mark .comma, 2⟩] :=
    .other rfl rfl (.other rfl rfl .nil)
  have nested : Nested listRun :=
    .other rfl rfl (.other rfl rfl (.bracket rfl commas rfl .nil))
  have longer : Nested (listRun ++ [⟨.mark .comma, 4⟩]) := nested.append (.other rfl rfl .nil)
  have answers := splitTopLevel_answers nested
  exact ⟨nested, (answers.1.1 ⟨_, rfl⟩).resolve_left (List.cons_ne_nil _ _),
    (answers.2.1 _).1 rfl, longer, ((splitTopLevel_answers longer).2.2.2 _).1 rfl⟩

end Scriptlet.Bracket
