import Scriptlet.Proofs.Token.Places
import Scriptlet.Proofs.Token.Texts

/-!
# Tokens that are written and read again

The lexer gives only tokens that it reads back from their texts, floats and strings with illegible
characters apart, and a number with a sign only where it takes a sign. So the texts of the tokens
of a script, with spaces between them, have these tokens again.
-/

namespace Scriptlet.Lexer

open Scriptlet.Text (Quoted.quote)

variable {before text rest : List Char} {first : Line} {previous : Option Token}
  {ts : List PlacedToken} {c : Char}

/-- The tokens whose texts say all of them: no floats, and of the strings those that are legible. -/
def Legible : Token → Prop
  | .float _ => False
  | .string s => ∀ c ∈ s.toList, isLegible c = true
  | _ => True

/-! ## One token -/

theorem word_cases (s : String) :
    (∃ b, word s = .bool b) ∨ (∃ w, word s = .keyword w) ∨ word s = .name s := by
  rw [word]
  split
  · exact .inl ⟨true, rfl⟩
  · split
    · exact .inl ⟨false, rfl⟩
    · split
      · next w _ => exact .inr (.inl ⟨w, rfl⟩)
      · exact .inr (.inr rfl)

/-- A name that is read is written as names are. -/
theorem spelled_word (start : isNameStart c = true) (rest : List Char) :
    Spelled (word (String.ofList (c :: rest.takeWhile isNameRest))) := by
  rcases word_cases (String.ofList (c :: rest.takeWhile isNameRest)) with ⟨b, same⟩ | ⟨w, same⟩ | same
  · rw [same]
    trivial
  · rw [same]
    trivial
  · have all : ∀ d ∈ rest.takeWhile isNameRest, isNameRest d = true :=
      fun d member => List.mem_takeWhile_imp member
    rw [same]
    exact ⟨c, rest.takeWhile isNameRest, String.toList_ofList, start, all, same⟩

theorem isSigned_word (s : String) : isSigned (word s) = false := by
  rcases word_cases s with ⟨b, same⟩ | ⟨w, same⟩ | same
  all_goals
    rw [same]
    rfl

/-- What a text starts with is a token that is read back, if it is legible. -/
theorem Starts.spelled {t : Token} (starts : Starts text (.token t) rest) (legible : Legible t) :
    Spelled t ∧ isSigned t = false := by
  obtain ⟨c, later, -, found⟩ := starts
  rcases scan_piece_cases found with ⟨begins, number⟩ | ⟨start, same⟩ | ⟨s, same⟩ | symbol
  · rcases scanNumber_cases begins number with ⟨never, -⟩ | ⟨x, same⟩
    · cases never
    · cases same
      exact legible.elim
  · cases same
    exact ⟨spelled_word start later, isSigned_word _⟩
  · cases same
    exact ⟨legible, rfl⟩
  · rcases scanSymbol_cases symbol with ⟨s, same⟩ | ⟨m, same⟩ <;> cases same <;>
      exact ⟨trivial, rfl⟩

theorem Piece.Means.spelled {p : Piece} {t : Token} (starts : Starts text p rest) (means : p.Means t)
    (legible : Legible t) : Spelled t ∧ isSigned t = false := by
  cases means with
  | token => exact starts.spelled legible
  | @digits n i fits =>
    have value := toInt_of_fit fits
    refine ⟨trivial, decide_eq_false ?_⟩
    omega

theorem Piece.Negates.spelled {p : Piece} {t : Token} (negates : p.Negates t) (legible : Legible t) :
    Spelled t := by
  cases negates with
  | digits => trivial
  | float => exact legible

/-! ## All tokens of a text -/

/-- The tokens that stand in a text are read back one by one, and no operand ends before one with a
sign. -/
theorem Stands.spelled {standing : List StandingToken}
    (h : Stands before previous text standing) (legible : ∀ t ∈ standing, Legible t.token) :
    (∀ t ∈ standing, Spelled t.token) ∧ Signs previous (standing.map (·.token)) := by
  induction h with
  | nil => exact ⟨List.forall_mem_nil _, trivial⟩
  | skip _ _ ih => exact ih legible
  | token starts means _ ih =>
    obtain ⟨here, later⟩ := List.forall_mem_cons.1 legible
    obtain ⟨spelled, signs⟩ := ih later
    obtain ⟨first, unsigned⟩ := means.spelled starts here
    refine ⟨List.forall_mem_cons.2 ⟨first, spelled⟩, fun signed => ?_, signs⟩
    exact absurd (unsigned.symm.trans signed) (by decide)
  | signed takes _ _ negates _ ih =>
    obtain ⟨here, later⟩ := List.forall_mem_cons.1 legible
    obtain ⟨spelled, signs⟩ := ih later
    exact ⟨List.forall_mem_cons.2 ⟨negates.spelled here, spelled⟩, fun _ => takes, signs⟩

/-- The texts of the tokens of a script, with single spaces between them, have these tokens again;
the quoted form of a legible string has that string as its only token. -/
theorem tokenize_texts (line : Line) :
    (∀ source first ts, tokenize source first = .ok ts → (∀ t ∈ ts, Legible t.token) →
      tokenize (String.intercalate " " (ts.map (·.token.text))) line =
        .ok (ts.map fun t => ⟨t.token, line⟩)) ∧
    ∀ s : String, (∀ c ∈ s.toList, isLegible c = true) →
      tokenize (Quoted.quote s) line = .ok [⟨.string s, line⟩] := by
  constructor
  · intro source first ts lexes legible
    obtain ⟨standing, stands, rfl⟩ := exists_stands_of_tokenize lexes
    obtain ⟨spelled, signs⟩ := stands.spelled fun t member =>
      legible _ (List.mem_map_of_mem member)
    have read := tokenize_intercalate (List.forall_mem_map.2 spelled) signs line
    simpa [placed, StandingToken.placed, Function.comp_def] using read
  · intro s legible
    have spelled : ∀ t ∈ [Token.string s], Spelled t := List.forall_mem_singleton.2 legible
    have signs : Signs none [Token.string s] := ⟨nofun, trivial⟩
    exact tokenize_intercalate spelled signs line

/-- The tokens of a script on two lines, with escapes, a comment and two signs. -/
def rewritten : List PlacedToken :=
  [⟨.name "iffy", 1⟩, ⟨.symbol .assign, 1⟩, ⟨.string "tab\t\"", 1⟩, ⟨.symbol .plus, 1⟩,
    ⟨.int (-9223372036854775808), 1⟩, ⟨.symbol .minus, 1⟩, ⟨.int (-1), 2⟩, ⟨.mark .semicolon, 2⟩]

/-- The theorem at that script, and at the string in it. -/
theorem tokenize_texts_rewritten :
    tokenize "iffy=\"tab\\t\\\"\"+-9223372036854775808- // min\n-1;" 1 = .ok rewritten ∧
    tokenize "iffy = \"tab\\t\\\"\" + -9223372036854775808 - -1 ;" 1 =
      .ok (rewritten.map fun t => ⟨t.token, 1⟩) ∧
    tokenize "\"tab\\t\\\"\"" 1 = .ok [⟨.string "tab\t\"", 1⟩] := by
  have lexes : tokenize "iffy=\"tab\\t\\\"\"+-9223372036854775808- // min\n-1;" 1 =
      .ok rewritten := by rfl
  have written : String.intercalate " " (rewritten.map (·.token.text)) =
      "iffy = \"tab\\t\\\"\" + -9223372036854775808 - -1 ;" := by decide
  have string : ∀ c ∈ "tab\t\"".toList, isLegible c = true := List.all_eq_true.1 (by decide)
  have quoted : Quoted.quote "tab\t\"" = "\"tab\\t\\\"\"" := by decide
  have legible : ∀ t ∈ rewritten, Legible t.token := by
    simpa [rewritten, Legible] using string
  have again := (tokenize_texts 1).1 _ 1 rewritten lexes legible
  have alone := (tokenize_texts 1).2 "tab\t\"" string
  rw [written] at again
  rw [quoted] at alone
  exact ⟨lexes, again, alone⟩

end Scriptlet.Lexer
