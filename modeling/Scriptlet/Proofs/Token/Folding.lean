import Scriptlet.Proofs.Expr.Signs
import Scriptlet.Proofs.Token.Relexing

/-!
# Folding signs in two passes

A minus can be folded into the number after it while the pieces are cut, or when all of them are
tokens. The first must be done where the digits fit into an integer only with their sign; the second
changes the sign of a number that fits without it, and cannot be done to the least integer. Both
look at the token before the minus, the one before anything is folded and the other after it. A text
has the same tokens in two such passes as in one, and no sign is ever changed that cannot be
(`inTwoPasses_eq`).
-/

namespace Scriptlet

/-- Whether a token is a number. -/
def Token.isNumber : Token → Bool
  | .int _ | .float _ => true
  | _ => false

namespace Lexer

variable {previous p q : Option Token} {failure : Option SyntaxError} {l next : Lexeme}
  {ls rest : List Lexeme} {t n : Token}

/-! ## The passes -/

/-- A token before the second pass, with its line and whether it touches the token before it. -/
structure RawToken where
  token : Token
  line : Line
  glued : Bool

/-- The number that digits make with a minus which they touch, if they fit only with it. -/
def Lexeme.least? (l : Lexeme) : Option Token :=
  match l.glued, l.piece with
  | true, .digits n => if (Number.fit n).isNone then (Number.fit (-(n : Int))).map .int else none
  | _, _ => none

/-- The tokens so far, the last one first, where the next piece takes the minus at their end. -/
def foldLeast? : List RawToken → Lexeme → Option (List RawToken)
  | minus :: before, l =>
    if minus.token = .symbol .minus ∧ takesSign (before.head?.map (·.token)) = true then
      l.least?.map fun t => ⟨t, l.line, minus.glued⟩ :: before
    else none
  | [], _ => none

/-- The tokens of some pieces after the first pass, where `raw` are those so far, the last one
first. -/
def rawTokens (failure : Option SyntaxError) : (raw : List RawToken) → List Lexeme →
    Except SyntaxError (List RawToken)
  | raw, [] => failure.elim (.ok raw.reverse) .error
  | raw, l :: rest =>
    match foldLeast? raw l with
    | some raw => rawTokens failure raw rest
    | none => do
      let t ← l.plain
      rawTokens failure (⟨t, l.line, l.glued⟩ :: raw) rest

/-- Whether the second pass changes the sign of the number after a minus. -/
def negates (previous : Option Token) (minus next : RawToken) : Bool :=
  minus.token = .symbol .minus && takesSign previous && next.glued && next.token.isNumber

/-- The tokens after the second pass, which changes the signs of the numbers that touch a minus;
none if the sign of one of them cannot be changed. -/
def foldNegatives : (previous : Option Token) → List RawToken → Option (List PlacedToken)
  | _, [] => some []
  | _, [t] => some [⟨t.token, t.line⟩]
  | previous, minus :: next :: rest =>
    if negates previous minus next then do
      let t ← next.token.negative?
      let ts ← foldNegatives (some t) rest
      return ⟨t, minus.line⟩ :: ts
    else do
      let ts ← foldNegatives (some minus.token) (next :: rest)
      return ⟨minus.token, minus.line⟩ :: ts

/-- The tokens of a text in two passes; none if a sign is to be changed that cannot be. -/
def inTwoPasses (source : String) (line : Line) :
    Except SyntaxError (Option (List PlacedToken)) := do
  let (lexemes, failure) := pieces source.toList.length line false source.toList
  let raw ← rawTokens failure [] lexemes
  return foldNegatives none raw

/-! ## The first pass from left to right -/

/-- The number that a minus and digits make together in the first pass. -/
def leastNumber? (previous : Option Token) (minus next : Lexeme) : Option Token :=
  if minus.isMinus && takesSign previous then next.least? else none

/-- The tokens of some pieces after the first pass, where a minus looks at the piece after it. -/
def rawAhead (failure : Option SyntaxError) : (previous : Option Token) → List Lexeme →
    Except SyntaxError (List RawToken)
  | _, [] => failure.elim (.ok []) .error
  | previous, l :: next :: rest =>
    match leastNumber? previous l next with
    | some t => do
      let raw ← rawAhead failure (some t) rest
      return ⟨t, next.line, l.glued⟩ :: raw
    | none => do
      let t ← l.plain
      let raw ← rawAhead failure (some t) (next :: rest)
      return ⟨t, l.line, l.glued⟩ :: raw
  | _, [l] => do
    let t ← l.plain
    failure.elim (.ok [⟨t, l.line, l.glued⟩]) .error

theorem exists_of_least? (least : l.least? = some t) :
    ∃ i : Int64, t = .int i ∧ l.negative? = some (.ok t) := by
  obtain ⟨piece, line, glued⟩ := l
  unfold Lexeme.least? at least
  split at least
  · next n touches digits =>
    obtain rfl : piece = .digits n := digits
    obtain rfl : glued = true := touches
    split at least
    · obtain ⟨i, fits, rfl⟩ := Option.map_eq_some_iff.1 least
      exact ⟨i, rfl, by simp [Lexeme.negative?, fits]⟩
    · cases least
  · cases least

theorem glued_of_least? (least : l.least? = some t) : l.glued = true := by
  unfold Lexeme.least? at least
  split at least
  · next touches _ => exact touches
  · cases least

theorem least?_of_plain (plain : l.plain = .ok t) : l.least? = none := by
  obtain ⟨piece, line, glued⟩ := l
  cases glued with
  | false => rfl
  | true =>
    cases piece with
    | token => rfl
    | digits n =>
      cases fits : Number.fit n with
      | none =>
        simp only [Lexeme.plain, fits, Option.elim_none] at plain
        cases plain
      | some i => simp [Lexeme.least?, fits]

theorem leastNumber?_eq_some (least : leastNumber? previous l next = some t) :
    l.isMinus = true ∧ takesSign previous = true ∧ next.least? = some t := by
  unfold leastNumber? at least
  split at least
  · next both =>
    obtain ⟨minus, takes⟩ := Bool.and_eq_true_iff.1 both
    exact ⟨minus, takes, least⟩
  · cases least

theorem isMinus_of_plain (plain : l.plain = .ok (.symbol .minus)) : l.isMinus = true := by
  obtain ⟨piece, line, glued⟩ := l
  cases piece with
  | token u =>
    obtain rfl := Except.ok.inj plain
    rfl
  | digits n =>
    cases fits : Number.fit n with
    | none => simp [Lexeme.plain, fits] at plain
    | some i => simp [Lexeme.plain, fits] at plain

/-- A piece takes the minus before it exactly when the minus, which looks ahead, takes it. -/
theorem foldLeast?_cons {raw : List RawToken} (plain : l.plain = .ok t) :
    foldLeast? (⟨t, l.line, l.glued⟩ :: raw) next =
      (leastNumber? (raw.head?.map (·.token)) l next).map fun t =>
        ⟨t, next.line, l.glued⟩ :: raw := by
  cases minus : l.isMinus with
  | true =>
    obtain rfl := Except.ok.inj ((plain_of_isMinus minus).symm.trans plain)
    simp only [foldLeast?, leastNumber?, minus, Bool.true_and, true_and]
    split <;> rfl
  | false =>
    have other : t ≠ .symbol .minus := by
      rintro rfl
      rw [isMinus_of_plain plain] at minus
      cases minus
    simp [foldLeast?, leastNumber?, minus, other]

/-- A token in front of those to come is a token more behind those so far. -/
theorem map_reverse_cons (read : Except SyntaxError (List RawToken)) (u : RawToken)
    (raw : List RawToken) :
    read.map ((u :: raw).reverse ++ ·) =
      (read >>= fun later => return u :: later).map (raw.reverse ++ ·) := by
  cases read with
  | error e => rfl
  | ok later => simp [Except.map, ok_bind, pure, Except.pure]

theorem rawTokens_eq {raw : List RawToken} (before : raw.head?.map (·.token) = previous)
    (free : ∀ l ∈ ls.head?, foldLeast? raw l = none) :
    rawTokens failure raw ls = (rawAhead failure previous ls).map (raw.reverse ++ ·) := by
  fun_induction rawAhead failure previous ls generalizing raw with
  | case1 previous => cases failure <;> simp [rawTokens, Except.map]
  | case2 previous l next rest t least ih =>
    subst before
    obtain ⟨minus, -, digits⟩ := leastNumber?_eq_some least
    obtain ⟨i, rfl, -⟩ := exists_of_least? digits
    have plain := plain_of_isMinus minus
    have free' : ∀ l' ∈ rest.head?, foldLeast? (⟨.int i, next.line, l.glued⟩ :: raw) l' = none :=
      fun l' _ => by simp [foldLeast?]
    rw [rawTokens, free l rfl]
    simp only [plain, ok_bind]
    rw [rawTokens, foldLeast?_cons plain, least]
    simp only [Option.map_some]
    rw [ih rfl free', map_reverse_cons]
  | case3 previous l next rest least ih =>
    subst before
    rw [rawTokens, free l rfl]
    cases plain : l.plain with
    | error e => rfl
    | ok t =>
      have free' : ∀ l' ∈ (next :: rest).head?,
          foldLeast? (⟨t, l.line, l.glued⟩ :: raw) l' = none := by
        rintro _ ⟨⟩
        rw [foldLeast?_cons plain, least]
        rfl
      simp only [ok_bind]
      rw [ih t rfl free', map_reverse_cons]
  | case4 previous l =>
    rw [rawTokens, free l rfl]
    cases l.plain with
    | error e => rfl
    | ok t => cases failure <;> simp [rawTokens, Except.map, bind, Except.bind]

/-! ## The pieces of a text -/

/-- What is true of the pieces of every text: those that touch are on one line, a minus touches no
other minus, and an integer is its digits. -/
structure WellCut (ls : List Lexeme) : Prop where
  touching : Touching ls
  minuses : ls.IsChain fun l next => l.isMinus = true → next.glued = true → next.isMinus = false
  integers : ∀ l ∈ ls, ∀ i, l.piece ≠ .token (.int i)

theorem WellCut.tail (h : WellCut (l :: ls)) : WellCut ls :=
  ⟨h.touching.tail, h.minuses.tail, fun l member => h.integers l (List.mem_cons_of_mem _ member)⟩

section

variable {text after : List Char}

/-- No word is an integer or an operator. -/
theorem word_ne (s : String) : (∀ i, word s ≠ .int i) ∧ ∀ o, word s ≠ .symbol o := by
  rcases word_cases s with ⟨b, same⟩ | ⟨w, same⟩ | same <;> rw [same] <;> exact ⟨nofun, nofun⟩

theorem not_starts_int (i : Int64) : ¬ Starts text (.token (.int i)) after := by
  rintro ⟨c, later, -, found⟩
  rcases scan_piece_cases found with ⟨begins, number⟩ | ⟨-, same⟩ | ⟨s, never⟩ | symbol
  · rcases scanNumber_cases begins number with ⟨never, -⟩ | ⟨x, never⟩ <;> cases never
  · exact (word_ne _).1 i (Piece.token.inj same).symm
  · cases never
  · rcases scanSymbol_cases symbol with ⟨s, never⟩ | ⟨m, never⟩ <;> cases never

/-- A minus is one character, which no other minus follows. -/
theorem Starts.minus (starts : Starts text (.token (.symbol .minus)) after) :
    text = '-' :: after ∧ after.head? ≠ some '-' := by
  obtain ⟨c, later, rfl, found⟩ := starts
  rcases scan_piece_cases found with ⟨begins, number⟩ | ⟨-, same⟩ | ⟨s, never⟩ | symbol
  · rcases scanNumber_cases begins number with ⟨never, -⟩ | ⟨x, never⟩ <;> cases never
  · exact absurd (Piece.token.inj same).symm ((word_ne _).2 _)
  · cases never
  · unfold scanSymbol at symbol
    split at symbol
    · next s pair =>
      cases symbol
      cases later with
      | nil => cases pair
      | cons d rest => exact absurd (text_of_pairSymbol? pair) (by simp [Symbol.text])
    · next s alone single =>
      cases symbol
      have found : Symbol.all.find? (·.text == c.toString) = some .minus := single
      have written : Symbol.minus.text = c.toString := by simpa using List.find?_some found
      obtain rfl : '-' = c := by simpa [Symbol.text] using congrArg String.toList written
      refine ⟨rfl, fun another => ?_⟩
      rw [another] at alone
      cases alone
    · cases symbol
    · cases symbol

theorem wellCut_pieces (n : Nat) (line : Line) (glued : Bool) (text : List Char) :
    WellCut (pieces n line glued text).1 := by
  have touching := (touching_pieces n line glued text).1
  induction n generalizing line glued text with
  | zero => exact ⟨.nil, .nil, by simp [pieces]⟩
  | succ n ih =>
    cases text with
    | nil => exact ⟨.nil, .nil, by simp [pieces]⟩
    | cons c rest =>
      cases found : scan c rest with
      | piece p later =>
        rw [pieces_of_piece n line glued found] at touching ⊢
        obtain ⟨-, minuses, integers⟩ := ih line true later touching.tail
        refine ⟨touching, List.isChain_cons.2 ⟨fun next head minus touches => ?_, minuses⟩,
          List.forall_mem_cons.2 ⟨fun i same => ?_, integers⟩⟩
        · obtain rfl : p = .token (.symbol .minus) := eq_minus_of_isMinus minus
          have first : Starts (c :: rest) (.token (.symbol .minus)) later := ⟨c, rest, rfl, found⟩
          obtain ⟨ls, cut⟩ := List.head?_eq_some_iff.1 head
          obtain ⟨_, _, -, second, -⟩ := exists_of_pieces_touching cut touches
          rw [Bool.eq_false_iff]
          intro another
          rw [eq_minus_of_isMinus another] at second
          rw [second.minus.1] at first
          exact first.minus.2 rfl
        · obtain rfl : p = .token (.int i) := same
          exact not_starts_int i ⟨c, rest, rfl, found⟩
      | blank later =>
        rw [pieces_of_blank n line glued found] at touching ⊢
        exact ih line false later touching
      | newline later =>
        rw [pieces_of_newline n line glued found] at touching ⊢
        exact ih (line + 1) false later touching
      | fail e =>
        rw [pieces_of_fail n line glued found]
        exact ⟨.nil, .nil, by simp⟩

end

/-! ## One pass and two -/

/-- A piece that does not make a number with the one after it is a token of its own. -/
theorem rawAhead_cons (alone : ∀ next ∈ ls.head?, leastNumber? previous l next = none) :
    rawAhead failure previous (l :: ls) =
      l.plain >>= fun t => (rawAhead failure (some t) ls).map (⟨t, l.line, l.glued⟩ :: ·) := by
  cases ls with
  | nil =>
    rw [rawAhead]
    congr 1
    funext t
    cases failure <;> rfl
  | cons next rest =>
    rw [rawAhead, alone next rfl]
    rfl

theorem exists_of_rawAhead_cons {raw : List RawToken}
    (read : rawAhead failure previous (l :: ls) = .ok raw) :
    ∃ first later, raw = first :: later ∧ first.glued = l.glued ∧
      (l.isMinus = true ∨ l.plain = .ok first.token) := by
  by_cases alone : ∀ next ∈ ls.head?, leastNumber? previous l next = none
  · rw [rawAhead_cons alone] at read
    obtain ⟨t, plain, read⟩ := bind_eq_ok_iff.1 read
    obtain ⟨later, -, rfl⟩ := map_eq_ok_iff.1 read
    exact ⟨_, later, rfl, rfl, .inr plain⟩
  · obtain ⟨next, head, least⟩ : ∃ next ∈ ls.head?, leastNumber? previous l next ≠ none := by
      simpa using alone
    obtain ⟨rest, rfl⟩ := List.head?_eq_some_iff.1 head
    obtain ⟨t, least⟩ := Option.ne_none_iff_exists'.1 least
    rw [rawAhead, least] at read
    obtain ⟨later, -, same⟩ := bind_eq_ok_iff.1 read
    obtain rfl := Except.ok.inj same
    exact ⟨_, later, rfl, rfl, .inl (leastNumber?_eq_some least).1⟩

theorem foldNegatives_cons {first : RawToken} {raw : List RawToken}
    (alone : ∀ next ∈ raw.head?, negates previous first next = false) :
    foldNegatives previous (first :: raw) =
      (foldNegatives (some first.token) raw).map (⟨first.token, first.line⟩ :: ·) := by
  cases raw with
  | nil => rfl
  | cons next rest =>
    rw [foldNegatives, alone next rfl]
    cases foldNegatives (some first.token) (next :: rest) <;> rfl

/-- Tokens in front of a run that is the same in one pass and in two. -/
theorem map_map_of_later {r : Except SyntaxError (List RawToken)}
    {joined : Except SyntaxError (List PlacedToken)} {t : PlacedToken}
    {front : List RawToken → List RawToken} {f g : List RawToken → Option (List PlacedToken)}
    (later : r.map f = joined.map some)
    (first : ∀ raw, r = .ok raw → g (front raw) = (f raw).map (t :: ·)) :
    (r.map front).map g = (joined.map (t :: ·)).map some := by
  cases r with
  | error e =>
    cases joined with
    | error e' => exact later
    | ok us => cases later
  | ok raw =>
    cases joined with
    | error e' => cases later
    | ok us =>
      have same : f raw = some us := Except.ok.inj later
      show Except.ok (g (front raw)) = .ok (some (t :: us))
      rw [first raw rfl, same]
      rfl

theorem negates_eq_true_iff {first next : RawToken} : negates previous first next = true ↔
    first.token = .symbol .minus ∧ takesSign previous = true ∧ next.glued = true ∧
      next.token.isNumber = true := by
  simp [negates, and_assoc]

/-- A number that touches a minus has a sign in one of the two ways. -/
theorem isSome_negative? (plain : l.plain = .ok t) (touches : l.glued = true)
    (number : t.isNumber = true) : l.negative?.isSome = true ∨ ∃ i, l.piece = .token (.int i) := by
  obtain ⟨piece, line, glued⟩ := l
  obtain rfl : glued = true := touches
  cases piece with
  | digits n => exact .inl rfl
  | token u =>
    obtain rfl := Except.ok.inj plain
    cases u with
    | int i => exact .inr ⟨i, rfl⟩
    | float x => exact .inl rfl
    | _ => cases number

theorem leastNumber?_of_signedNumber? (same : takesSign p = takesSign q)
    (alone : signedNumber? q l next = none) : leastNumber? p l next = none := by
  cases least : leastNumber? p l next with
  | none => rfl
  | some t =>
    obtain ⟨minus, takes, digits⟩ := leastNumber?_eq_some least
    obtain ⟨i, -, negative⟩ := exists_of_least? digits
    rw [signedNumber?, minus, ← same, takes] at alone
    exact absurd (negative.symm.trans alone) (by simp)

theorem leastNumber?_of_isMinus_eq_false (other : l.isMinus = false) :
    leastNumber? previous l next = none := by
  rw [leastNumber?, other]
  rfl

/-- The second pass leaves a token as it is where the only pass does. -/
theorem not_negates (cut : WellCut (l :: next :: rest)) (plain : l.plain = .ok t)
    (alone : signedNumber? q l next = none) {raw : List RawToken}
    (read : rawAhead failure p (next :: rest) = .ok raw) :
    ∀ u ∈ raw.head?, negates q ⟨t, l.line, l.glued⟩ u = false := by
  obtain ⟨first, later, rfl, glued, minusOr⟩ := exists_of_rawAhead_cons read
  rintro _ ⟨⟩
  rw [Bool.eq_false_iff]
  intro negated
  obtain ⟨rfl, takes, touches, number⟩ := negates_eq_true_iff.1 negated
  rw [glued] at touches
  have minus := isMinus_of_plain plain
  have other := (List.isChain_cons_cons.1 cut.minuses).1 minus touches
  have plain' := minusOr.resolve_left (by simp [other])
  rcases isSome_negative? plain' touches number with negative | ⟨i, piece⟩
  · rw [signedNumber?, minus, takes] at alone
    obtain ⟨r, negative⟩ := Option.isSome_iff_exists.1 negative
    exact absurd (negative.symm.trans alone) (by simp)
  · exact cut.integers next (by simp) i piece

theorem isNumber_of_negative? (opposite : t.negative? = some n) : t.isNumber = true := by
  cases t with
  | int | float => rfl
  | _ => cases opposite

/-- Digits that do not fit without a sign make the number of the first pass, or fail in both. -/
theorem least?_cases {number : Except SyntaxError Token} {e : SyntaxError}
    (negative : l.negative? = some number) (plain : l.plain = .error e) :
    (∃ t, number = .ok t ∧ l.least? = some t) ∨ number = .error e ∧ l.least? = none := by
  obtain ⟨piece, line, glued⟩ := l
  cases piece with
  | token t => cases plain
  | digits n =>
    cases fits : Number.fit n with
    | some i =>
      simp only [Lexeme.plain, fits, Option.elim_some] at plain
      cases plain
    | none =>
      simp only [Lexeme.plain, fits, Option.elim_none] at plain
      obtain rfl := Except.error.inj plain
      cases glued with
      | false => cases negative
      | true =>
        obtain rfl := Option.some.inj negative
        cases least : Number.fit (-(n : Int)) with
        | none => exact .inr ⟨rfl, by simp [Lexeme.least?, fits, least]⟩
        | some i => exact .inl ⟨.int i, rfl, by simp [Lexeme.least?, fits, least]⟩

/-- Two passes over the pieces of a text give the tokens of one pass. -/
theorem map_foldNegatives_rawAhead (cut : WellCut ls) (same : takesSign p = takesSign q) :
    (rawAhead failure p ls).map (foldNegatives q) = (join failure q ls).map some := by
  fun_induction join failure q ls generalizing p with
  | case1 q => cases failure <;> rfl
  | case2 q l next rest number signed ih =>
    obtain ⟨minus, takes, negative⟩ := signedNumber?_eq_some signed
    have other : next.isMinus = false := not_isMinus_of_negative? (by rw [negative]; rfl)
    have apart : ∀ next' ∈ rest.head?, leastNumber? (some (.symbol .minus)) next next' = none :=
      fun next' _ => leastNumber?_of_isMinus_eq_false other
    cases plain : next.plain with
    | ok t =>
      -- The digits fit without the minus, so the second pass changes the sign.
      obtain ⟨touches, n, rfl, opposite⟩ := exists_of_negative? negative plain
      obtain ⟨-, takesNot, takesNot', -⟩ := ends_of_negative? opposite
      have alone : ∀ next' ∈ (next :: rest).head?, leastNumber? p l next' = none := by
        rintro _ ⟨⟩
        rw [leastNumber?, least?_of_plain plain, ite_self]
      rw [rawAhead_cons alone, plain_of_isMinus minus, ok_bind, rawAhead_cons apart, plain, ok_bind]
      have pairs : ((rawAhead failure (some t) rest).map (⟨t, next.line, next.glued⟩ :: ·)).map
          (⟨.symbol .minus, l.line, l.glued⟩ :: ·) = (rawAhead failure (some t) rest).map fun raw =>
            ⟨.symbol .minus, l.line, l.glued⟩ :: ⟨t, next.line, next.glued⟩ :: raw := by
        cases rawAhead failure (some t) rest <;> rfl
      rw [pairs]
      refine map_map_of_later (ih n cut.tail.tail (takesNot.trans takesNot'.symm)) fun raw _ => ?_
      have negated :
          negates q ⟨.symbol .minus, l.line, l.glued⟩ ⟨t, next.line, next.glued⟩ = true :=
        negates_eq_true_iff.2 ⟨rfl, takes, touches, isNumber_of_negative? opposite⟩
      rw [foldNegatives, negated, opposite, if_pos rfl, Option.bind_eq_bind, Option.bind_some]
      cases foldNegatives (some n) raw <;> rfl
    | error e =>
      rcases least?_cases negative plain with ⟨t, rfl, least⟩ | ⟨rfl, least⟩
      · -- They fit only with it, and the first pass makes the number.
        obtain ⟨i, rfl, -⟩ := exists_of_least? least
        have touches : next.glued = true := glued_of_least? least
        have both : leastNumber? p l next = some (.int i) := by
          rw [leastNumber?, minus, same, takes]
          exact least
        rw [rawAhead, both, ← (List.isChain_cons_cons.1 cut.touching).1 touches]
        refine map_map_of_later (ih (.int i) cut.tail.tail rfl) fun raw _ => ?_
        exact foldNegatives_cons fun u _ => rfl
      · have alone : ∀ next' ∈ (next :: rest).head?, leastNumber? p l next' = none := by
          rintro _ ⟨⟩
          rw [leastNumber?, least, ite_self]
        rw [rawAhead_cons alone, plain_of_isMinus minus, ok_bind, rawAhead_cons apart, plain]
        rfl
  | case3 q l next rest alone ih =>
    have apart : ∀ next' ∈ (next :: rest).head?, leastNumber? p l next' = none := by
      rintro _ ⟨⟩
      exact leastNumber?_of_signedNumber? same alone
    rw [rawAhead_cons apart]
    cases plain : l.plain with
    | error e => rfl
    | ok t =>
      exact map_map_of_later (ih t cut.tail rfl) fun raw read =>
        foldNegatives_cons (not_negates cut plain alone read)
  | case4 q l =>
    rw [rawAhead]
    cases l.plain with
    | error e => rfl
    | ok t => cases failure <;> rfl

theorem rawTokens_nil (failure : Option SyntaxError) (ls : List Lexeme) :
    rawTokens failure [] ls = rawAhead failure none ls := by
  have free : ∀ l ∈ ls.head?, foldLeast? [] l = none := fun _ _ => rfl
  have start : ([] : List RawToken).head?.map (·.token) = none := rfl
  rw [rawTokens_eq start free]
  cases rawAhead failure none ls <;> rfl

/-- A text has the same tokens in two passes as in one. -/
theorem inTwoPasses_eq (source : String) (line : Line) :
    inTwoPasses source line = (tokenize source line).map some := by
  have cut := wellCut_pieces source.toList.length line false source.toList
  simp only [inTwoPasses, tokenize, rawTokens_nil]
  rw [← map_foldNegatives_rawAhead cut rfl]
  cases rawAhead _ none _ <;> rfl

end Lexer

end Scriptlet
