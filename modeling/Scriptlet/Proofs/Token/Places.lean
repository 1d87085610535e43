import Scriptlet.Proofs.Token.Chunks

/-!
# Where tokens stand

The lexer counts lines while it cuts a text into pieces. `Stands` says the same by the text: which
tokens stand in it, and after which characters. Each token is on the first line and as many lines
further as ends of lines stand before it; a number with its sign stands where its minus does.
-/

namespace Scriptlet.Lexer

variable {before text used rest : List Char} {first line : Line} {previous : Option Token}
  {failure : Option SyntaxError} {ts : List PlacedToken} {l : Lexeme} {ls : List Lexeme}

/-- The token that a piece is by itself. -/
inductive Piece.Means : Piece → Token → Prop where
  | digits {n : Nat} {i : Int64} : Number.fit n = some i → Means (.digits n) (.int i)
  | token {t : Token} : Means (.token t) t

/-- The number that a piece is with a minus in front of it. -/
inductive Piece.Negates : Piece → Token → Prop where
  | digits {n : Nat} {i : Int64} : Number.fit (-(n : Int)) = some i → Negates (.digits n) (.int i)
  | float {x : Float} : Negates (.token (.float x)) (.float (-x))

/-- Whether a text starts with a piece that ends in front of `rest`. -/
def Starts (text : List Char) (p : Piece) (rest : List Char) : Prop :=
  ∃ c later, text = c :: later ∧ scan c later = .piece p rest

/-- Whether a text starts with something that separates tokens and ends in front of `rest`: a blank,
a comment or the end of a line. -/
def Separates (text rest : List Char) : Prop :=
  ∃ c later, text = c :: later ∧ (scan c later = .blank rest ∨ scan c later = .newline rest)

/-- A token, and the whole text before it. -/
structure StandingToken where
  before : List Char
  token : Token

/-- A standing token on its line, where the text starts on a line. -/
def StandingToken.placed (first : Line) (t : StandingToken) : PlacedToken :=
  ⟨t.token, first + t.before.count '\n'⟩

/-- Which tokens stand in a text after the text `before` and the token `previous`: one after another,
with nothing but separators between them. -/
inductive Stands : (before : List Char) → (previous : Option Token) → (text : List Char) →
    List StandingToken → Prop where
  | nil {before : List Char} {previous : Option Token} : Stands before previous [] []
  | skip {before used rest : List Char} {previous : Option Token} {ts : List StandingToken} :
      Separates (used ++ rest) rest → Stands (before ++ used) previous rest ts →
        Stands before previous (used ++ rest) ts
  | token {before used rest : List Char} {previous : Option Token} {p : Piece} {t : Token}
      {ts : List StandingToken} :
      Starts (used ++ rest) p rest → p.Means t → Stands (before ++ used) (some t) rest ts →
        Stands before previous (used ++ rest) (⟨before, t⟩ :: ts)
  /-- A number with its sign: a minus that no operand ends before, and a number that touches it. -/
  | signed {before minus used rest : List Char} {previous : Option Token} {p : Piece} {t : Token}
      {ts : List StandingToken} :
      takesSign previous = true →
      Starts (minus ++ (used ++ rest)) (.token (.symbol .minus)) (used ++ rest) →
      Starts (used ++ rest) p rest → p.Negates t →
      Stands (before ++ (minus ++ used)) (some t) rest ts →
        Stands before previous (minus ++ (used ++ rest)) (⟨before, t⟩ :: ts)

theorem means_of_plain {t : Token} (plain : l.plain = .ok t) : l.piece.Means t := by
  obtain ⟨piece, line, glued⟩ := l
  cases piece with
  | digits n =>
    cases fits : Number.fit n with
    | none =>
      simp only [Lexeme.plain, fits, Option.elim_none] at plain
      cases plain
    | some i =>
      simp only [Lexeme.plain, fits, Option.elim_some] at plain
      obtain rfl := Except.ok.inj plain
      exact .digits fits
  | token u =>
    obtain rfl := Except.ok.inj plain
    exact .token

theorem negates_of_negative? {t : Token} (negative : l.negative? = some (.ok t)) :
    l.glued = true ∧ l.piece.Negates t := by
  obtain ⟨piece, line, glued⟩ := l
  unfold Lexeme.negative? at negative
  split at negative
  · next n touches digits =>
    obtain rfl : piece = .digits n := digits
    refine ⟨touches, ?_⟩
    cases fits : Number.fit (-(n : Int)) with
    | none => simp [fits] at negative
    | some i =>
      simp only [fits, Option.elim_some, Option.some.injEq, Except.ok.injEq] at negative
      obtain rfl := negative
      exact .digits fits
  · next x touches float =>
    obtain rfl : piece = .token (.float x) := float
    simp only [Option.some.injEq, Except.ok.injEq] at negative
    obtain rfl := negative
    exact ⟨touches, .float⟩
  · cases negative

theorem eq_minus_of_isMinus (minus : l.isMinus = true) : l.piece = .token (.symbol .minus) := by
  unfold Lexeme.isMinus at minus
  split at minus
  · next same => exact same
  · cases minus

/-- The first token of some pieces is made of the first piece, or of a minus and the number that
touches it. -/
theorem join_cons_cases (joined : join failure previous (l :: ls) = .ok ts) :
    (∃ t us, l.piece.Means t ∧ join failure (some t) ls = .ok us ∧ ts = ⟨t, l.line⟩ :: us) ∨
      ∃ next rest t us, ls = next :: rest ∧ takesSign previous = true ∧
        l.piece = .token (.symbol .minus) ∧ next.glued = true ∧ next.piece.Negates t ∧
          join failure (some t) rest = .ok us ∧ ts = ⟨t, l.line⟩ :: us := by
  cases ls with
  | nil =>
    rw [join] at joined
    obtain ⟨t, plain, ends⟩ := bind_eq_ok_iff.1 joined
    cases failure with
    | none => exact .inl ⟨t, [], means_of_plain plain, rfl, (Except.ok.inj ends).symm⟩
    | some e => cases ends
  | cons next rest =>
    rw [join] at joined
    split at joined
    · next number signed =>
      obtain ⟨t, rfl, joins⟩ := bind_eq_ok_iff.1 joined
      obtain ⟨us, later, same⟩ := bind_eq_ok_iff.1 joins
      obtain ⟨minus, takes, negative⟩ := signedNumber?_eq_some signed
      obtain ⟨touches, negates⟩ := negates_of_negative? negative
      exact .inr ⟨next, rest, t, us, rfl, takes, eq_minus_of_isMinus minus, touches, negates, later,
        (Except.ok.inj same).symm⟩
    · obtain ⟨t, plain, joined⟩ := bind_eq_ok_iff.1 joined
      obtain ⟨us, later, same⟩ := bind_eq_ok_iff.1 joined
      exact .inl ⟨t, us, means_of_plain plain, later, (Except.ok.inj same).symm⟩

/-! ## Whole texts -/

/-- A piece that touches the one before it starts where that one ends. -/
theorem exists_of_pieces_touching {n : Nat} (cut : (pieces n line true text).1 = l :: ls)
    (touches : l.glued = true) : ∃ k rest, n = k + 1 ∧ Starts text l.piece rest ∧
      pieces n line true text = (l :: (pieces k line true rest).1, (pieces k line true rest).2) := by
  cases n with
  | zero => cases cut
  | succ k =>
    cases text with
    | nil => cases cut
    | cons c later =>
      -- after a separator no piece touches
      have apart {line : Line} {rest : List Char} (cut : (pieces k line false rest).1 = l :: ls) :
          False := by
        have head : l ∈ (pieces k line false rest).1.head? := by
          rw [cut]
          rfl
        rw [head_apart head] at touches
        cases touches
      cases found : scan c later with
      | piece p rest =>
        rw [pieces_of_piece k line true found] at cut ⊢
        obtain ⟨rfl, -⟩ := List.cons.inj cut
        exact ⟨k, rest, rfl, ⟨c, later, rfl, found⟩, rfl⟩
      | blank rest =>
        rw [pieces_of_blank k line true found] at cut
        exact (apart cut).elim
      | newline rest =>
        rw [pieces_of_newline k line true found] at cut
        exact (apart cut).elim
      | fail e =>
        rw [pieces_of_fail k line true found] at cut
        cases cut

/-- A piece takes something on one line from the front of a text. -/
theorem Starts.exists_used {p : Piece} (starts : Starts text p rest) :
    ∃ used, text = used ++ rest ∧ used ≠ [] ∧ '\n' ∉ used := by
  obtain ⟨c, later, rfl, found⟩ := starts
  rcases scan_cases c later with ⟨used, _, whole, some, clear, ⟨_, same⟩ | same⟩ | ⟨-, same⟩ |
    ⟨_, -, same⟩
  all_goals rw [found] at same
  all_goals cases same
  exact ⟨used, whole, some, clear⟩

/-- The tokens of the pieces of a text stand in it. -/
theorem exists_stands {n : Nat} {glued : Bool} (enough : text.length ≤ n)
    (joined : join (pieces n (first + before.count '\n') glued text).2 previous
      (pieces n (first + before.count '\n') glued text).1 = .ok ts) :
    ∃ standing, Stands before previous text standing ∧
      ts = standing.map (·.placed first) := by
  induction n using Nat.strongRecOn generalizing before text previous glued ts with
  | ind n ih =>
    cases text with
    | nil =>
      rw [pieces_nil] at joined
      obtain rfl := Except.ok.inj joined
      exact ⟨[], .nil, rfl⟩
    | cons c rest =>
      obtain ⟨k, rfl⟩ : ∃ k, n = k + 1 := ⟨n - 1, by rw [List.length_cons] at enough; omega⟩
      -- the line on which the text goes on
      have on {used : List Char} (clear : '\n' ∉ used) :
          first + before.count '\n' = first + (before ++ used).count '\n' := by
        rw [List.count_append, List.count_eq_zero_of_not_mem clear, Nat.add_zero]
      rcases scan_cases c rest with ⟨used, later, whole, some, clear, found⟩ | ⟨rfl, found⟩ |
        ⟨e, -, found⟩
      · have shorter := congrArg List.length whole
        have positive := List.length_pos_iff.2 some
        rw [List.length_append] at shorter
        rcases found with ⟨p, found⟩ | found
        · rw [pieces_of_piece k _ glued found] at joined
          rcases join_cons_cases joined with ⟨t, us, means, joins, rfl⟩ |
            ⟨next, ls, t, us, cut, takes, minus, touches, negates, joins, rfl⟩
          · rw [on clear] at joins
            have shorter : later.length ≤ k := by omega
            obtain ⟨standing, stands, rfl⟩ := ih k (Nat.lt_succ_self k) shorter joins
            refine ⟨⟨before, t⟩ :: standing, ?_, rfl⟩
            rw [whole]
            exact .token ⟨c, rest, whole.symm, found⟩ means stands
          · obtain ⟨j, last, rfl, starts, same⟩ := exists_of_pieces_touching cut touches
            obtain ⟨number, rfl, some', clear'⟩ := starts.exists_used
            obtain rfl : p = .token (.symbol .minus) := minus
            have positive' := List.length_pos_iff.2 some'
            rw [List.length_append] at shorter
            have clears : '\n' ∉ used ++ number := by simp [clear, clear']
            rw [same] at cut joins
            obtain ⟨-, rfl⟩ := List.cons.inj cut
            simp only [on clears] at joins
            have shorter : last.length ≤ j := by omega
            obtain ⟨standing, stands, rfl⟩ := ih j (by omega) shorter joins
            refine ⟨⟨before, t⟩ :: standing, ?_, rfl⟩
            rw [whole]
            exact .signed takes ⟨c, rest, whole.symm, found⟩ starts negates stands
        · rw [pieces_of_blank k _ glued found, on clear] at joined
          have shorter : later.length ≤ k := by omega
          obtain ⟨standing, stands, rfl⟩ := ih k (Nat.lt_succ_self k) shorter joined
          refine ⟨standing, ?_, rfl⟩
          rw [whole]
          exact .skip ⟨c, rest, whole.symm, .inl found⟩ stands
      · rw [pieces_of_newline k _ glued found] at joined
        have next : first + before.count '\n' + 1 = first + (before ++ ['\n']).count '\n' := by
          rw [List.count_append, List.count_singleton_self, Nat.add_assoc]
        rw [next] at joined
        have shorter : rest.length ≤ k := by
          rw [List.length_cons] at enough
          omega
        obtain ⟨standing, stands, rfl⟩ := ih k (Nat.lt_succ_self k) shorter joined
        have ends : Separates (['\n'] ++ rest) rest := ⟨'\n', rest, rfl, .inr found⟩
        exact ⟨standing, .skip ends stands, rfl⟩
      · rw [pieces_of_fail k _ glued found] at joined
        cases joined

/-- The tokens of a text stand in it, and each of them is on the line that the ends of lines before
it make it. -/
theorem exists_stands_of_tokenize {source : String} (lexes : tokenize source first = .ok ts) :
    ∃ standing, Stands [] none source.toList standing ∧ ts = standing.map (·.placed first) := by
  have joined : join (pieces source.toList.length (first + ([] : List Char).count '\n') false
      source.toList).2 none (pieces source.toList.length (first + ([] : List Char).count '\n') false
        source.toList).1 = .ok ts := lexes
  exact exists_stands (Nat.le_refl _) joined

end Scriptlet.Lexer
