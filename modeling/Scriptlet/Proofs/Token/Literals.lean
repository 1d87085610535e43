import Mathlib.Algebra.Group.Nat.Defs
import Scriptlet.Proofs.Token.Folding

/-!
# Integer literals

A run of digits is the integer that it writes, or the text is rejected. A minus that touches the run
is its sign exactly where no operand has ended before the minus, however large the number is, so the
least integer is written like every other one. A number out of range is never wrapped or cut
(`tokenize_digits`).
-/

namespace Scriptlet.Lexer

variable {first line line' : Line} {text rest later : List Char} {ls more : List Lexeme}
  {touches : Bool} {previous : Option Token} {failure : Option SyntaxError} {m : Lexeme}
  {ts us : List PlacedToken} {t : PlacedToken} {n : Nat}

/-! ## Where the lexer comes -/

/-- Where the lexer is in a text: it has cut some pieces and comes to the rest of the text on a
line, which touches the last piece or not. -/
inductive Comes (first : Line) (source : List Char) :
    List Lexeme → Line → (touches : Bool) → (rest : List Char) → Prop
  | start : Comes first source [] first false source
  | piece {ls : List Lexeme} {line : Line} {touches : Bool} {c : Char} {later rest : List Char}
      {p : Piece} : Comes first source ls line touches (c :: later) → scan c later = .piece p rest →
        Comes first source (ls ++ [⟨p, line, touches⟩]) line true rest
  | blank {ls : List Lexeme} {line : Line} {touches : Bool} {c : Char} {later rest : List Char} :
      Comes first source ls line touches (c :: later) → scan c later = .blank rest →
        Comes first source ls line false rest
  | newline {ls : List Lexeme} {line : Line} {touches : Bool} {c : Char} {later rest : List Char} :
      Comes first source ls line touches (c :: later) → scan c later = .newline rest →
        Comes first source ls (line + 1) false rest

theorem cutText_of_blank {c : Char} (glued : Bool) (found : scan c later = .blank rest) :
    cutText line glued (c :: later) = cutText line false rest := by
  rw [cutText, List.length_cons, pieces_of_blank _ line glued found]
  exact pieces_fuel (length_of_scan (p := .digits 0) (.inr found)) (Nat.le_refl _) line false

theorem cutText_of_newline {c : Char} (glued : Bool) (found : scan c later = .newline rest) :
    cutText line glued (c :: later) = cutText (line + 1) false rest := by
  rcases scan_cases c later with ⟨used, _, -, -, -, ⟨_, same⟩ | same⟩ | ⟨-, same⟩ | ⟨_, -, same⟩
  all_goals rw [found] at same
  all_goals cases same
  rw [cutText, List.length_cons, pieces_of_newline _ line glued found]
  rfl

/-- The pieces of a text are those cut so far and then those of the rest. -/
theorem Comes.cutText_eq {source : List Char} (comes : Comes first source ls line touches rest) :
    cutText first false source =
      (ls ++ (cutText line touches rest).1, (cutText line touches rest).2) := by
  induction comes with
  | start => rfl
  | piece _ found ih =>
    rw [ih, cutText_of_piece _ _ found, List.append_assoc, List.singleton_append]
  | blank _ found ih => rw [ih, cutText_of_blank _ found]
  | newline _ found ih => rw [ih, cutText_of_newline _ found]

/-! ## The token before -/

theorem eq_nil_of_join (joined : join failure previous ls = .ok []) : ls = [] := by
  cases ls with
  | nil => rfl
  | cons l ls =>
    rcases join_cons_cases joined with ⟨_, _, -, -, none⟩ | ⟨_, _, _, _, -, -, -, -, -, -, none⟩
    · cases none
    · cases none

/-- The last token of some pieces is made of the last piece. -/
theorem exists_getLast_of_join (joined : join failure previous ls = .ok ts)
    (last : t ∈ ts.getLast?) :
    ∃ m ∈ ls.getLast?, m.piece.Means t.token ∨ m.piece.Negates t.token := by
  induction hn : ls.length using Nat.strongRecOn generalizing ls previous ts with
  | ind k ih =>
    subst hn
    cases ls with
    | nil =>
      rw [join] at joined
      cases failure with
      | none =>
        obtain rfl := Except.ok.inj joined
        cases last
      | some e => cases joined
    | cons l ls =>
      rcases join_cons_cases joined with ⟨u, us, means, later, rfl⟩ |
        ⟨next, rest, u, us, rfl, -, -, -, negates, later, rfl⟩
      · cases us with
        | nil =>
          obtain rfl := eq_nil_of_join later
          obtain rfl := Option.some.inj last
          exact ⟨l, rfl, .inl means⟩
        | cons v us =>
          rw [List.getLast?_cons_cons] at last
          obtain ⟨m, final, made⟩ := ih ls.length (by simp) later last rfl
          exact ⟨m, List.mem_getLast?_cons final, made⟩
      · cases us with
        | nil =>
          obtain rfl := eq_nil_of_join later
          obtain rfl := Option.some.inj last
          exact ⟨next, rfl, .inr negates⟩
        | cons v us =>
          rw [List.getLast?_cons_cons] at last
          have shorter : rest.length < (l :: next :: rest).length := by
            simp only [List.length_cons]
            omega
          obtain ⟨m, final, made⟩ := ih rest.length shorter later last rfl
          exact ⟨m, List.mem_getLast?_cons (List.mem_getLast?_cons final), made⟩

/-- A minus is not the sign of a minus. -/
theorem apart_of_isMinus (minus : m.isMinus = true) :
    ∀ m' ∈ ls.getLast?, m'.isMinus = true → ∀ l ∈ (m :: more).head?, l.negative? = none := by
  rintro _ - - _ ⟨⟩
  by_contra number
  rw [not_isMinus_of_negative? (Option.isSome_iff_ne_none.2 number)] at minus
  cases minus

/-- A minus after some pieces is an operator after their tokens. -/
theorem exists_of_join_minus {before : List Lexeme} (minus : m.isMinus = true)
    (joined : join none previous (before ++ [m]) = .ok ts) :
    ∃ us, ts = us ++ [⟨.symbol .minus, m.line⟩] ∧ join none previous before = .ok us := by
  rw [join_append (apart_of_isMinus minus)] at joined
  obtain ⟨us, first, joined⟩ := bind_eq_ok_iff.1 joined
  obtain ⟨vs, second, same⟩ := bind_eq_ok_iff.1 joined
  rw [join, plain_of_isMinus minus] at second
  obtain rfl := Except.ok.inj second
  exact ⟨us, (Except.ok.inj same).symm, first⟩

/-- A minus at the end of some tokens is the last piece, which is an operator of its own. -/
theorem exists_minus (joined : join none previous ls = .ok (us ++ [⟨.symbol .minus, line'⟩])) :
    ∃ before m, ls = before ++ [m] ∧ m.isMinus = true ∧ m.line = line' ∧
      join none previous before = .ok us := by
  obtain ⟨m, final, made⟩ := exists_getLast_of_join joined List.getLast?_concat
  obtain ⟨before, rfl⟩ := List.getLast?_eq_some_iff.1 final
  have minus : m.isMinus = true := by
    obtain ⟨piece, line, glued⟩ := m
    rcases made with means | negates
    · cases means
      rfl
    · cases negates
  obtain ⟨vs, same, first⟩ := exists_of_join_minus minus joined
  obtain ⟨rfl, last⟩ := List.append_inj' same rfl
  cases last
  exact ⟨before, m, rfl, minus, rfl, first⟩

/-- The tokens of the rest of a text, on a line, after a token that the rest touches. -/
def tokensTouching (line : Line) (previous : Option Token) (rest : List Char) :
    Except SyntaxError (List PlacedToken) :=
  join (cutText line true rest).2 previous (cutText line true rest).1

/-! ## Runs of digits -/

theorem Starts.digits (starts : Starts text (.digits n) rest) :
    text = text.takeWhile Char.isDigit ++ rest ∧ text.takeWhile Char.isDigit ≠ [] ∧
      n = Number.digitsValue (text.takeWhile Char.isDigit) := by
  obtain ⟨c, later, rfl, found⟩ := starts
  rcases scan_piece_cases found with ⟨begins, number⟩ | ⟨-, never⟩ | ⟨s, never⟩ | symbol
  · rcases scanNumber_cases begins number with ⟨same, cut, some⟩ | ⟨x, never⟩
    · exact ⟨cut, some, Piece.digits.inj same⟩
    · cases never
  · cases never
  · cases never
  · rcases scanSymbol_cases symbol with ⟨s, never⟩ | ⟨m, never⟩ <;> cases never

/-- Whether a run that touches the text before it has a minus in front of it that no operand ends
before, where `ts` are the tokens of that text and `us` those without the minus. -/
def Signed (touches : Bool) (ts us : List PlacedToken) (l : Line) : Prop :=
  touches = true ∧ ts = us ++ [⟨.symbol .minus, l⟩] ∧ takesSign (lastToken none us) = true

theorem fit_of_lt (below : n < 2 ^ 63) : ∃ i : Int64, Number.fit n = some i ∧ i.toInt = n := by
  have fits : Number.fit n = some (Int64.ofInt n) := by
    rw [Number.fit, if_pos ⟨by omega, by omega⟩]
  exact ⟨_, fits, toInt_of_fit fits⟩

theorem fit_neg_of_le (below : n ≤ 2 ^ 63) :
    ∃ i : Int64, Number.fit (-n) = some i ∧ i.toInt = -n := by
  have fits : Number.fit (-n) = some (Int64.ofInt (-n)) := by
    rw [Number.fit, if_pos ⟨by omega, by omega⟩]
  exact ⟨_, fits, toInt_of_fit fits⟩

/-- A run of digits without a sign. -/
theorem join_digits : join failure previous (⟨.digits n, line, touches⟩ :: more) =
    (Number.fit n).elim (.error (.literalTooLarge line)) fun i =>
      (join failure (some (.int i)) more).map (⟨.int i, line⟩ :: ·) := by
  have alone : ∀ next ∈ more.head?, signedNumber? previous ⟨.digits n, line, touches⟩ next = none :=
    fun next _ => rfl
  simp only [join_cons alone, Lexeme.plain]
  cases Number.fit n with
  | none => rfl
  | some i => rfl

section

variable {source : String} (comes : Comes first source.toList ls line touches text)
  (starts : Starts text (.digits n) rest) (joined : join none none ls = .ok ts)

include comes starts in
theorem tokenize_of_comes : tokenize source first = join (cutText line true rest).2 none
    (ls ++ ⟨.digits n, line, touches⟩ :: (cutText line true rest).1) := by
  have whole : tokenize source first =
      join (cutText first false source.toList).2 none (cutText first false source.toList).1 := rfl
  obtain ⟨c, later, rfl, found⟩ := starts
  rw [whole, comes.cutText_eq, cutText_of_piece _ _ found]

include comes starts joined in
theorem tokenize_of_signed (signed : Signed touches ts us line') :
    tokenize source first =
      (Number.fit (-n)).elim (.error (.literalTooLarge line)) fun i =>
        (tokensTouching line (some (.int i)) rest).map (us ++ ⟨.int i, line'⟩ :: ·) := by
  obtain ⟨rfl, rfl, takes⟩ := signed
  obtain ⟨before, m, rfl, minus, rfl, first⟩ := exists_minus joined
  have sign : signedNumber? (lastToken none us) m ⟨.digits n, line, true⟩ =
      some ((Number.fit (-n)).elim (.error (.literalTooLarge line)) (.ok <| .int ·)) := by
    rw [signedNumber?, minus, takes]
    rfl
  rw [tokenize_of_comes comes starts, List.append_assoc, List.singleton_append,
    join_append (apart_of_isMinus minus), first, ok_bind, join, sign]
  cases Number.fit (-n) with
  | none => rfl
  | some i =>
    simp only [Option.elim_some, ok_bind, tokensTouching]
    cases join _ (some (.int i)) _ <;> rfl

include comes starts joined in
theorem tokenize_of_unsigned (unsigned : ∀ us l, ¬ Signed touches ts us l) :
    tokenize source first =
      (Number.fit n).elim (.error (.literalTooLarge line)) fun i =>
        (tokensTouching line (some (.int i)) rest).map (ts ++ ⟨.int i, line⟩ :: ·) := by
  rw [tokenize_of_comes comes starts]
  by_cases after : touches = true ∧ ∃ m ∈ ls.getLast?, m.isMinus = true
  · -- The minus is an operator, since an operand has ended before it.
    obtain ⟨rfl, m, last, minus⟩ := after
    obtain ⟨before, rfl⟩ := List.getLast?_eq_some_iff.1 last
    obtain ⟨us, rfl, first⟩ := exists_of_join_minus minus joined
    have takes : takesSign (lastToken none us) ≠ true :=
      fun takes => unsigned us m.line ⟨rfl, rfl, takes⟩
    have alone : ∀ next ∈ (⟨.digits n, line, true⟩ :: (cutText line true rest).1).head?,
        signedNumber? (lastToken none us) m next = none := by
      intro next _
      rw [signedNumber?, minus, eq_false_of_ne_true takes]
      rfl
    rw [List.append_assoc, List.singleton_append, join_append (apart_of_isMinus minus), first,
      ok_bind, join_cons alone, plain_of_isMinus minus, ok_bind, join_digits]
    cases Number.fit n with
    | none => rfl
    | some i =>
      simp only [Option.elim_some, tokensTouching]
      cases join _ (some (.int i)) _ <;> simp [Except.map, bind, Except.bind, pure, Except.pure]
  · have apart : ∀ m ∈ ls.getLast?, m.isMinus = true →
        ∀ l ∈ (⟨.digits n, line, touches⟩ :: (cutText line true rest).1).head?,
          l.negative? = none := by
      rintro m last minus _ ⟨⟩
      refine negative?_of_apart ?_
      rw [Bool.eq_false_iff]
      exact fun touch => after ⟨touch, m, last, minus⟩
    rw [join_append apart, joined, ok_bind, join_digits]
    cases Number.fit n with
    | none => rfl
    | some i =>
      simp only [Option.elim_some, tokensTouching]
      cases join _ (some (.int i)) _ <;> rfl

end

/-- A run of digits is the integer that it writes, with its sign, or the text is rejected; and no
sign is changed that cannot be. -/
theorem tokenize_digits (source : String) (first : Line) :
    inTwoPasses source first = (tokenize source first).map some ∧
    ∀ {ls line touches text n rest ts}, Comes first source.toList ls line touches text →
      Starts text (.digits n) rest → join none none ls = .ok ts →
      (text = text.takeWhile Char.isDigit ++ rest ∧ text.takeWhile Char.isDigit ≠ [] ∧
        n = Number.digitsValue (text.takeWhile Char.isDigit)) ∧
      (∀ {us l}, Signed touches ts us l →
        (n ≤ 2 ^ 63 → ∃ i : Int64, i.toInt = -n ∧ tokenize source first =
          (tokensTouching line (some (.int i)) rest).map (us ++ ⟨.int i, l⟩ :: ·)) ∧
        (2 ^ 63 < n → tokenize source first = .error (.literalTooLarge line))) ∧
      ((∀ us l, ¬ Signed touches ts us l) →
        (n < 2 ^ 63 → ∃ i : Int64, i.toInt = n ∧ tokenize source first =
          (tokensTouching line (some (.int i)) rest).map (ts ++ ⟨.int i, line⟩ :: ·)) ∧
        (2 ^ 63 ≤ n → tokenize source first = .error (.literalTooLarge line))) := by
  refine ⟨inTwoPasses_eq source first, fun comes starts joined => ⟨starts.digits, ?_, ?_⟩⟩
  · intro us l signed
    rw [tokenize_of_signed comes starts joined signed]
    refine ⟨fun below => ?_, fun above => ?_⟩
    · obtain ⟨i, fits, value⟩ := fit_neg_of_le below
      exact ⟨i, value, by rw [fits]; rfl⟩
    · rw [Number.fit, if_neg (by omega)]
      rfl
  · intro unsigned
    rw [tokenize_of_unsigned comes starts joined unsigned]
    refine ⟨fun below => ?_, fun above => ?_⟩
    · obtain ⟨i, fits, value⟩ := fit_of_lt below
      exact ⟨i, value, by rw [fits]; rfl⟩
    · rw [Number.fit, if_neg (by omega)]
      rfl

/-- The theorem at the least integer, in parentheses. -/
theorem tokenize_digits_least :
    Comes 1 "(-9223372036854775808)".toList
      [⟨.token (.mark .leftParen), 1, false⟩, ⟨.token (.symbol .minus), 1, true⟩] 1 true
      "9223372036854775808)".toList ∧
    Starts "9223372036854775808)".toList (.digits 9223372036854775808) [')'] ∧
    ∃ i : Int64, i.toInt = -9223372036854775808 ∧
      tokenize "(-9223372036854775808)" 1 =
        .ok [⟨.mark .leftParen, 1⟩, ⟨.int i, 1⟩, ⟨.mark .rightParen, 1⟩] := by
  have comes : Comes 1 "(-9223372036854775808)".toList
      [⟨.token (.mark .leftParen), 1, false⟩, ⟨.token (.symbol .minus), 1, true⟩] 1 true
      "9223372036854775808)".toList := by
    exact .piece (.piece .start rfl) rfl
  have starts : Starts "9223372036854775808)".toList (.digits 9223372036854775808) [')'] :=
    ⟨'9', "223372036854775808)".toList, rfl, rfl⟩
  have joined : join none none [⟨.token (.mark .leftParen), 1, false⟩,
      ⟨.token (.symbol .minus), 1, true⟩] = .ok [⟨.mark .leftParen, 1⟩, ⟨.symbol .minus, 1⟩] := rfl
  obtain ⟨-, signed, -⟩ := (tokenize_digits "(-9223372036854775808)" 1).2 comes starts joined
  obtain ⟨i, value, tokens⟩ := (@signed [⟨.mark .leftParen, 1⟩] 1 ⟨rfl, rfl, rfl⟩).1 (by decide)
  exact ⟨comes, starts, i, value, tokens⟩

end Scriptlet.Lexer
