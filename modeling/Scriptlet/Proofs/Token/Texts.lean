import Scriptlet.Proofs.Token.Scanning

/-!
# The texts of tokens

The text of a token is read back as that token, if what follows it does not go on with it. So a
text that is laid out from the texts of tokens, with spaces where two of them would run together,
has these tokens again. Floats are left out, and so are strings with characters that are not
legible: the lexer knows no escape for their code points.
-/

namespace Scriptlet.Lexer

open Scriptlet.Text (isVisible Quoted.escape Quoted.unescape Quoted.decode Quoted.encode Quoted.quote)

variable {line : Line} {c : Char} {rest : List Char}

/-! ## Strings -/

/-- Printable ASCII and the controls that an escape stands for. -/
def isLegible (c : Char) : Bool :=
  c = '\n' || c = '\t' || c = '\r' || 0x20 ≤ c.toNat && c.toNat < 0x7f

theorem escape_of_isLegible (legible : isLegible c = true) :
    (∃ d, Quoted.escape c = ['\\', d] ∧ d ≠ '\n' ∧ Quoted.unescape d = c) ∨
      Quoted.escape c = [c] ∧ c ≠ '"' ∧ c ≠ '\\' ∧ c ≠ '\n' := by
  by_cases named : c ∈ ['"', '\\', '\n', '\t', '\r']
  · left
    simp only [List.mem_cons, List.not_mem_nil, or_false] at named
    rcases named with rfl | rfl | rfl | rfl | rfl
    · exact ⟨'"', rfl, by decide, rfl⟩
    · exact ⟨'\\', rfl, by decide, rfl⟩
    · exact ⟨'n', rfl, by decide, rfl⟩
    · exact ⟨'t', rfl, by decide, rfl⟩
    · exact ⟨'r', rfl, by decide, rfl⟩
  · right
    simp only [List.mem_cons, List.not_mem_nil, or_false, not_or] at named
    obtain ⟨quote, backslash, newline, tab, home⟩ := named
    have range : 0x20 ≤ c.toNat ∧ c.toNat < 0x7f := by
      simpa [isLegible, newline, tab, home] using legible
    have shows : isVisible c = true := by
      rw [isVisible, if_pos range.2, decide_eq_true range.1]
    have zero : c ≠ '\x00' := by
      rintro rfl
      exact absurd range.1 (by decide)
    refine ⟨?_, quote, backslash, newline⟩
    rw [Quoted.escape, if_pos shows]
    all_goals assumption

theorem closeString_escape {text : List Char} (legible : ∀ c ∈ text, isLegible c = true)
    (rest : List Char) :
    closeString (text.flatMap Quoted.escape ++ '"' :: rest) =
      some (text.flatMap Quoted.escape, rest) := by
  induction text with
  | nil => rfl
  | cons c text ih =>
    have later := ih fun d member => legible d (List.mem_cons_of_mem _ member)
    rw [List.flatMap_cons, List.append_assoc]
    rcases escape_of_isLegible (legible c List.mem_cons_self) with ⟨d, same, newline, -⟩ |
      ⟨same, quote, backslash, newline⟩
    · rw [same, List.cons_append, List.cons_append, List.nil_append, closeString, if_neg newline,
        later]
      rfl
    · rw [same, List.cons_append, List.nil_append, closeString_cons quote newline backslash, later]
      rfl

theorem decode_cons (backslash : c ≠ '\\') :
    Quoted.decode (c :: rest) = c :: Quoted.decode rest := by
  rw [Quoted.decode]
  · exact fun _ _ same => absurd same backslash
  · exact fun same => absurd same backslash

theorem decode_escape {text : List Char} (legible : ∀ c ∈ text, isLegible c = true) :
    Quoted.decode (text.flatMap Quoted.escape) = text := by
  induction text with
  | nil => rfl
  | cons c text ih =>
    have later := ih fun d member => legible d (List.mem_cons_of_mem _ member)
    rw [List.flatMap_cons]
    rcases escape_of_isLegible (legible c List.mem_cons_self) with ⟨d, same, -, means⟩ |
      ⟨same, -, backslash, -⟩
    · rw [same, List.cons_append, List.cons_append, List.nil_append, Quoted.decode, means, later]
    · rw [same, List.cons_append, List.nil_append, decode_cons backslash, later]

theorem scan_quote {s : String} (legible : ∀ c ∈ s.toList, isLegible c = true) (rest : List Char) :
    scan '"' (s.toList.flatMap Quoted.escape ++ '"' :: rest) = .piece (.token (.string s)) rest := by
  have string : scanString (s.toList.flatMap Quoted.escape ++ '"' :: rest) =
      .piece (.token (.string s)) rest := by
    rw [scanString, closeString_escape legible]
    simp only [decode_escape legible, String.ofList_toList]
  rw [scan, string]
  rfl

/-! ## What follows a token -/

/-- Characters before which every token ends. -/
def isBreak (c : Char) : Bool := c = ' ' || c = ',' || c = ']'

/-- Whether a token ends where its text does when a text follows. -/
def EndsBefore (t : Token) (rest : List Char) : Prop :=
  (∀ c ∈ rest.head?, isBreak c = true) ∨ ∃ m, t = .mark m ∧ m ≠ .dot

theorem head_cases {rest : List Char} (breaks : ∀ c ∈ rest.head?, isBreak c = true) :
    rest = [] ∨ ∃ c later, rest = c :: later ∧ (c = ' ' ∨ c = ',' ∨ c = ']') := by
  cases rest with
  | nil => exact .inl rfl
  | cons c later =>
    have known := breaks c rfl
    simp only [isBreak, Bool.or_eq_true, decide_eq_true_eq, or_assoc] at known
    exact .inr ⟨c, later, rfl, known⟩

/-- Nothing of a kind that breaks end stands at the front of what follows. -/
theorem takeWhile_of_breaks {p : Char → Bool} (space : p ' ' = false) (comma : p ',' = false)
    (bracket : p ']' = false) (breaks : ∀ c ∈ rest.head?, isBreak c = true) :
    rest.takeWhile p = [] ∧ rest.dropWhile p = rest := by
  obtain rfl | ⟨c, later, rfl, rfl | rfl | rfl⟩ := head_cases breaks
  · exact ⟨rfl, rfl⟩
  · exact ⟨List.takeWhile_cons_of_neg (by simp [space]), List.dropWhile_cons_of_neg (by simp [space])⟩
  · exact ⟨List.takeWhile_cons_of_neg (by simp [comma]), List.dropWhile_cons_of_neg (by simp [comma])⟩
  · exact ⟨List.takeWhile_cons_of_neg (by simp [bracket]),
      List.dropWhile_cons_of_neg (by simp [bracket])⟩

/-! ## Integers -/

theorem ne_of_isDigit {d : Char} (digit : c.isDigit = true) (other : d.isDigit = false) : c ≠ d := by
  rintro rfl
  rw [other] at digit
  cases digit

theorem scanNumber_digits {digits : List Char} (all : ∀ c ∈ digits, c.isDigit = true)
    (breaks : ∀ c ∈ rest.head?, isBreak c = true) :
    scanNumber (digits ++ rest) = .piece (.digits (Number.digitsValue digits)) rest := by
  have whole : (digits ++ rest).takeWhile Char.isDigit = digits := by
    rw [List.takeWhile_append_of_pos all,
      (takeWhile_of_breaks (by decide) (by decide) (by decide) breaks).1, List.append_nil]
  have fraction : fractionLength rest = 0 := by
    obtain rfl | ⟨c, later, rfl, rfl | rfl | rfl⟩ := head_cases breaks <;> rfl
  have power : exponentLength rest = 0 := by
    obtain rfl | ⟨c, later, rfl, rfl | rfl | rfl⟩ := head_cases breaks <;> rfl
  simp only [scanNumber, whole, List.drop_left, fraction, Nat.add_zero, power, if_true,
    List.take_left]

theorem scan_digits {digits : List Char} (first : c.isDigit = true)
    (all : ∀ c ∈ digits, c.isDigit = true) (breaks : ∀ c ∈ rest.head?, isBreak c = true) :
    scan c (digits ++ rest) = .piece (.digits (Number.digitsValue (c :: digits))) rest := by
  have newline : c ≠ '\n' := ne_of_isDigit first (by decide)
  have space : isSpace c = false := by
    simp only [isSpace, ne_of_isDigit first (show Char.isDigit ' ' = false by decide),
      ne_of_isDigit first (show Char.isDigit '\t' = false by decide),
      ne_of_isDigit first (show Char.isDigit '\r' = false by decide),
      ne_of_isDigit first (show Char.isDigit '\x0c' = false by decide), decide_false, Bool.or_false]
  have starts : startsNumber (c :: (digits ++ rest)) = true := by
    rw [startsNumber, first]
    rintro _ _ rfl
    exact absurd first (by decide)
  have digit : ∀ d ∈ c :: digits, d.isDigit = true := List.forall_mem_cons.2 ⟨first, all⟩
  have number := scanNumber_digits digit breaks
  rw [scan, if_neg newline, if_neg (by simp [space]), if_pos starts]
  exact number

/-- The digits of a number. -/
theorem exists_digits (n : Nat) : ∃ c digits, (toString n).toList = c :: digits ∧
    c.isDigit = true ∧ (∀ d ∈ digits, d.isDigit = true) ∧
      Number.digitsValue (c :: digits) = n := by
  have written : (toString n).toList = Nat.toDigits 10 n := String.toList_ofList
  have value : Number.digitsValue (Nat.toDigits 10 n) = n :=
    Nat.ofDigitChars_toDigits (by decide) (by decide)
  have all : ∀ d ∈ Nat.toDigits 10 n, d.isDigit = true :=
    fun d member => Nat.isDigit_of_mem_toDigits (by decide) (by decide) member
  rw [written]
  cases same : Nat.toDigits 10 n with
  | nil => exact absurd same Nat.toDigits_ne_nil
  | cons c digits =>
    rw [same] at value all
    exact ⟨c, digits, rfl, all c List.mem_cons_self, fun d member => all d (List.mem_cons_of_mem _ member),
      value⟩

theorem scan_nat (n : Nat) : ∃ c digits, (toString n).toList = c :: digits ∧ c.isDigit = true ∧
    ∀ rest : List Char, (∀ c ∈ rest.head?, isBreak c = true) →
      scan c (digits ++ rest) = .piece (.digits n) rest := by
  obtain ⟨c, digits, written, first, all, value⟩ := exists_digits n
  refine ⟨c, digits, written, first, fun rest breaks => ?_⟩
  rw [scan_digits first all breaks, value]

/-! ## Words -/

theorem scan_word {text : List Char} (first : isNameStart c = true)
    (all : ∀ d ∈ text, isNameRest d = true) (breaks : ∀ c ∈ rest.head?, isBreak c = true) :
    scan c (text ++ rest) = .piece (.token (word (String.ofList (c :: text)))) rest := by
  have other {d : Char} (not : isNameStart d = false) : c ≠ d := by
    rintro rfl
    rw [not] at first
    cases first
  have space : isSpace c = false := by
    simp only [isSpace, other (show isNameStart ' ' = false by decide),
      other (show isNameStart '\t' = false by decide), other (show isNameStart '\r' = false by decide),
      other (show isNameStart '\x0c' = false by decide), decide_false, Bool.or_false]
  have digit : c.isDigit = false := by
    by_contra digit
    rw [Bool.not_eq_false] at digit
    have range : 48 ≤ c.val.toNat ∧ c.val.toNat ≤ 57 := by
      simpa [Char.isDigit, UInt32.le_iff_toNat_le] using digit
    have underscore : c ≠ '_' := ne_of_isDigit digit (by decide)
    have letter : c.isAlpha = true := by
      simpa [isNameStart, underscore] using first
    have cases : (decide (c.val ≥ 65 ∧ c.val ≤ 90) ||
        decide (c.val ≥ 97) && decide (c.val ≤ 122)) = true := letter
    simp only [Bool.or_eq_true, Bool.and_eq_true, decide_eq_true_eq, ge_iff_le,
      UInt32.le_iff_toNat_le, UInt32.reduceToNat] at cases
    omega
  have starts : startsNumber (c :: (text ++ rest)) = false := by
    rw [startsNumber, digit]
    rintro _ _ rfl
    exact absurd first (by decide)
  have none := takeWhile_of_breaks (p := isNameRest) (by decide) (by decide) (by decide) breaks
  rw [scan, if_neg (other (by decide)), if_neg (by simp [space]), if_neg (by simp [starts]), if_pos first,
    List.takeWhile_append_of_pos all, List.dropWhile_append_of_pos all, none.1, none.2,
    List.append_nil]

theorem exists_word (w : Keyword) : ∃ c text, w.text.toList = c :: text ∧ isNameStart c = true ∧
    (∀ d ∈ text, isNameRest d = true) ∧ word (String.ofList (c :: text)) = .keyword w := by
  cases w <;> exact ⟨_, _, rfl, by decide, List.all_eq_true.1 (by decide), by decide⟩

theorem exists_boolean (b : Bool) : ∃ c text, (Token.bool b).text.toList = c :: text ∧
    isNameStart c = true ∧ (∀ d ∈ text, isNameRest d = true) ∧
      word (String.ofList (c :: text)) = .bool b := by
  cases b <;> exact ⟨_, _, rfl, by decide, List.all_eq_true.1 (by decide), by decide⟩

/-! ## Symbols and marks -/

theorem text_of_pairSymbol? {d : Char} {s : Symbol} (pair : pairSymbol? c d = some s) :
    s.text.toList = [c, d] := by
  have found := List.find?_some pair
  simpa using congrArg String.toList (beq_iff_eq.1 found)

theorem pairSymbol?_eq_none {d : Char} (never : ∀ s : Symbol, s.text.toList ≠ [c, d]) :
    pairSymbol? c d = none := by
  cases pair : pairSymbol? c d with
  | none => rfl
  | some s => exact absurd (text_of_pairSymbol? pair) (never s)

/-- No symbol goes on with what breaks a token, and none starts with a mark. -/
theorem head?_pairSymbol? (breaks : (∀ d ∈ rest.head?, isBreak d = true) ∨ ∃ m : Mark, c = m.char) :
    rest.head?.bind (pairSymbol? c) = none := by
  cases rest with
  | nil => rfl
  | cons d later =>
    refine pairSymbol?_eq_none fun s same => ?_
    rcases breaks with breaks | ⟨m, rfl⟩
    · have known := breaks d rfl
      simp only [isBreak, Bool.or_eq_true, decide_eq_true_eq, or_assoc] at known
      rcases known with rfl | rfl | rfl <;> cases s <;> simp [Symbol.text] at same
    · cases m <;> cases s <;> simp [Symbol.text, Mark.char] at same

theorem scanSymbol_mark (m : Mark) (rest : List Char) :
    scanSymbol m.char rest = .piece (.token (.mark m)) rest := by
  rw [scanSymbol, head?_pairSymbol? (.inr ⟨m, rfl⟩)]
  cases m <;> rfl

/-- A mark ends in front of anything, but for a point in front of a digit. -/
theorem scan_mark (m : Mark)
    (clear : m = .dot → ∀ c ∈ rest.head?, c.isDigit = false) :
    scan m.char rest = .piece (.token (.mark m)) rest := by
  have starts : startsNumber (m.char :: rest) = false := by
    cases m with
    | dot =>
      cases rest with
      | nil => rfl
      | cons c later => exact clear rfl c rfl
    | _ => rfl
  have symbol := scanSymbol_mark m rest
  rw [scan, starts, symbol]
  cases m <;> rfl

/-- The characters that symbols start with. -/
def leads : List Char := ['=', '!', '<', '>', '&', '|', '+', '-', '*', '/', '%']

theorem exists_symbol (s : Symbol) : ∃ c ∈ leads,
    (s.text.toList = [c] ∧ Symbol.ofText? c.toString = some s) ∨
      ∃ d, s.text.toList = [c, d] ∧ d ≠ '/' ∧ pairSymbol? c d = some s := by
  cases s
  all_goals first
    | exact ⟨_, by decide, .inl ⟨rfl, by decide⟩⟩
    | exact ⟨_, by decide, .inr ⟨_, rfl, by decide, by decide⟩⟩

/-- What a symbol starts with starts nothing else but a comment. -/
theorem scan_of_leads (lead : c ∈ leads) (comment : rest.head? ≠ some '/') :
    scan c rest = scanSymbol c rest := by
  -- all of `leads` is tried, not all characters, of which there are finitely many, too
  have plain : ∀ c ∈ leads, c ≠ '\n' ∧ isSpace c = false ∧ c.isDigit = false ∧ c ≠ '.' ∧
      isNameStart c = false ∧ c ≠ '"' := 
    @of_decide_eq_true _ (List.decidableBAll _ leads) rfl
  obtain ⟨newline, space, digit, point, name, quote⟩ := plain c lead
  have starts : startsNumber (c :: rest) = false := by
    rw [startsNumber, digit]
    exact fun _ _ same => absurd same point
  rw [scan, if_neg newline, if_neg (by simp [space]), if_neg (by simp [starts]), if_neg (by simp [name]),
    if_neg quote, if_neg fun both => comment both.2]

theorem scan_symbol (s : Symbol) : ∃ c text, s.text.toList = c :: text ∧
    ∀ rest : List Char, (∀ c ∈ rest.head?, isBreak c = true) →
      scan c (text ++ rest) = .piece (.token (.symbol s)) rest := by
  obtain ⟨c, lead, ⟨same, single⟩ | ⟨d, same, slash, pair⟩⟩ := exists_symbol s
  · refine ⟨c, [], same, fun rest breaks => ?_⟩
    have comment : rest.head? ≠ some '/' := by
      intro slash
      exact absurd (breaks '/' slash) (by decide)
    rw [List.nil_append, scan_of_leads lead comment, scanSymbol, head?_pairSymbol? (.inl breaks),
      single]
  · refine ⟨c, [d], same, fun rest _ => ?_⟩
    have comment : ([d] ++ rest).head? ≠ some '/' := fun same => slash (Option.some.inj same)
    rw [scan_of_leads lead comment, scanSymbol, List.singleton_append, List.head?_cons,
      Option.bind_some, pair]
    rfl

/-- A minus in front of a digit is a symbol. -/
theorem scan_minus (digit : c.isDigit = true) :
    scan '-' (c :: rest) = .piece (.token (.symbol .minus)) (c :: rest) := by
  have comment : (c :: rest).head? ≠ some '/' := by
    intro slash
    obtain rfl := Option.some.inj slash
    exact absurd digit (by decide)
  have single : pairSymbol? '-' c = none := by
    refine pairSymbol?_eq_none fun s same => ?_
    cases s <;> simp [Symbol.text] at same <;> rw [← same] at digit <;> exact absurd digit (by decide)
  rw [scan_of_leads (by decide) comment, scanSymbol, List.head?_cons, Option.bind_some, single]
  rfl

/-! ## One token -/

/-- The tokens whose texts are read back. -/
def Spelled : Token → Prop
  | .float _ => False
  | .string s => ∀ c ∈ s.toList, isLegible c = true
  | .name n => ∃ c text, n.toList = c :: text ∧ isNameStart c = true ∧
      (∀ d ∈ text, isNameRest d = true) ∧ word n = .name n
  | _ => True

/-- Whether the text of a token has a sign. -/
def isSigned : Token → Bool
  | .int i => i.toInt < 0
  | _ => false

/-- The piece that the text of a token without a sign is. -/
def pieceOf : Token → Piece
  | .int i => .digits i.toInt.toNat
  | t => .token t

theorem text_of_unsigned {i : Int64} (unsigned : 0 ≤ i.toInt) :
    (Token.int i).text = toString i.toInt.toNat := by
  rw [Token.text, ← Int.toNat_of_nonneg unsigned]
  rfl

theorem text_of_signed {i : Int64} (signed : i.toInt < 0) :
    (Token.int i).text.toList = '-' :: (toString i.toInt.natAbs).toList := by
  obtain ⟨n, same⟩ : ∃ n, i.toInt = Int.negSucc n := Int.eq_negSucc_of_lt_zero signed
  rw [Token.text, same]
  exact String.toList_append

/-- The text of a token without a sign is one piece. -/
theorem scan_text {t : Token} (spelled : Spelled t) (unsigned : isSigned t = false) :
    ∃ c text, t.text.toList = c :: text ∧ ∀ rest, EndsBefore t rest →
      scan c (text ++ rest) = .piece (pieceOf t) rest := by
  cases t with
  | int i =>
    have positive : 0 ≤ i.toInt := by simpa [isSigned] using unsigned
    obtain ⟨c, text, written, -, scanned⟩ := scan_nat i.toInt.toNat
    refine ⟨c, text, by rw [text_of_unsigned positive, written], fun rest ends => ?_⟩
    exact scanned rest (ends.resolve_right fun ⟨_, never, _⟩ => by cases never)
  | float x => cases spelled
  | string s =>
    refine ⟨'"', s.toList.flatMap Quoted.escape ++ ['"'], ?_, fun rest _ => ?_⟩
    · exact String.toList_ofList
    · rw [List.append_assoc]
      exact scan_quote spelled rest
  | bool b =>
    obtain ⟨c, text, written, first, all, means⟩ := exists_boolean b
    refine ⟨c, text, written, fun rest ends => ?_⟩
    rw [scan_word first all (ends.resolve_right fun ⟨_, never, _⟩ => by cases never), means]
    rfl
  | keyword w =>
    obtain ⟨c, text, written, first, all, means⟩ := exists_word w
    refine ⟨c, text, written, fun rest ends => ?_⟩
    rw [scan_word first all (ends.resolve_right fun ⟨_, never, _⟩ => by cases never), means]
    rfl
  | name n =>
    obtain ⟨c, text, written, first, all, means⟩ := spelled
    refine ⟨c, text, written, fun rest ends => ?_⟩
    rw [scan_word first all (ends.resolve_right fun ⟨_, never, _⟩ => by cases never), ← written,
      String.ofList_toList, means]
    rfl
  | symbol s =>
    obtain ⟨c, text, written, scanned⟩ := scan_symbol s
    refine ⟨c, text, written, fun rest ends => ?_⟩
    exact scanned rest (ends.resolve_right fun ⟨_, never, _⟩ => by cases never)
  | mark m =>
    refine ⟨m.char, [], by cases m <;> rfl, fun rest ends => ?_⟩
    refine scan_mark m fun isDot c front => ?_
    rcases ends with breaks | ⟨_, same, other⟩
    · have known := breaks c front
      simp only [isBreak, Bool.or_eq_true, decide_eq_true_eq] at known
      rcases known with (rfl | rfl) | rfl <;> decide
    · cases same
      exact absurd isDot other

/-- All pieces of a text. -/
def cutText (line : Line) (glued : Bool) (text : List Char) : List Lexeme × Option SyntaxError :=
  pieces text.length line glued text

section

variable {later : List Char} (line : Line) (glued : Bool)

theorem length_of_scan {p : Piece} (found : scan c rest = .piece p later ∨ scan c rest = .blank later) :
    later.length ≤ rest.length := by
  obtain ⟨used, _, whole, some, -, ⟨_, same⟩ | same⟩ | ⟨-, same⟩ | ⟨_, -, same⟩ := scan_cases c rest
  all_goals rw [same] at found
  all_goals rcases found with found | found
  all_goals cases found
  all_goals
    have positive := List.length_pos_iff.2 some
    have lengths := congrArg List.length whole
    rw [List.length_append, List.length_cons] at lengths
    omega

theorem cutText_of_piece {p : Piece} (found : scan c rest = .piece p later) :
    cutText line glued (c :: rest) =
      (⟨p, line, glued⟩ :: (cutText line true later).1, (cutText line true later).2) := by
  have shorter := length_of_scan (.inl found)
  rw [cutText, List.length_cons, pieces_of_piece rest.length line glued found,
    pieces_fuel shorter (Nat.le_refl _) line true]
  rfl

theorem cutText_space (rest : List Char) :
    cutText line glued (' ' :: rest) = cutText line false rest := by
  have found : scan ' ' rest = .blank rest := rfl
  rw [cutText, List.length_cons, pieces_of_blank rest.length line glued found]
  rfl

/-- The pieces of the text of a token. -/
def cut (line : Line) (glued : Bool) : Token → List Lexeme
  | .int i =>
    if i.toInt < 0 then
      [⟨.token (.symbol .minus), line, glued⟩, ⟨.digits i.toInt.natAbs, line, true⟩]
    else [⟨.digits i.toInt.toNat, line, glued⟩]
  | t => [⟨.token t, line, glued⟩]

theorem cut_of_unsigned {t : Token} (unsigned : isSigned t = false) :
    cut line glued t = [⟨pieceOf t, line, glued⟩] := by
  cases t with
  | int i =>
    have positive : ¬ i.toInt < 0 := by simpa [isSigned] using unsigned
    rw [cut, if_neg positive, pieceOf]
  | _ => rfl

/-- The text of a token is cut into its pieces. -/
theorem cutText_text {t : Token} (spelled : Spelled t) (ends : EndsBefore t rest) :
    cutText line glued (t.text.toList ++ rest) =
      (cut line glued t ++ (cutText line true rest).1, (cutText line true rest).2) := by
  cases signed : isSigned t with
  | false =>
    obtain ⟨c, text, written, scanned⟩ := scan_text spelled signed
    rw [written, List.cons_append, cutText_of_piece line glued (scanned rest ends),
      cut_of_unsigned line glued signed]
    rfl
  | true =>
    cases t with
    | int i =>
      have negative : i.toInt < 0 := by simpa [isSigned] using signed
      obtain ⟨c, text, written, digit, scanned⟩ := scan_nat i.toInt.natAbs
      have breaks := ends.resolve_right fun ⟨_, never, _⟩ => by cases never
      rw [text_of_signed negative, written, List.cons_append, List.cons_append,
        cutText_of_piece line glued (scan_minus digit), cutText_of_piece line true (scanned rest breaks),
        cut, if_pos negative]
      rfl
    | _ => cases signed

end

/-! ## Texts laid out from tokens -/

/-- The texts of tokens one after another; a space stands before those that are marked with `true`. -/
def layout : List (Bool × Token) → List Char
  | [] => []
  | (spaced, t) :: rest => (if spaced then [' '] else []) ++ (t.text.toList ++ layout rest)

/-- Tokens on a line. -/
def placed (line : Line) (w : List Token) : List PlacedToken := w.map (⟨·, line⟩)

theorem placed_append (line : Line) (w v : List Token) :
    placed line (w ++ v) = placed line w ++ placed line v := List.map_append

/-- Whether every token that is laid out after another one is read back: it is spelled so, it does
not run into what follows, and if it has a sign, no operand ends before it. -/
def Readable : (previous : Option Token) → List (Bool × Token) → Prop
  | _, [] => True
  | previous, (_, t) :: rest =>
    Spelled t ∧ EndsBefore t (layout rest) ∧ (isSigned t = true → takesSign previous = true) ∧
      Readable (some t) rest

/-- The pieces of a layout. -/
def lexemes (line : Line) : (glued : Bool) → List (Bool × Token) → List Lexeme
  | _, [] => []
  | glued, (spaced, t) :: rest => cut line (glued && !spaced) t ++ lexemes line true rest

theorem cutText_layout {previous : Option Token} {ts : List (Bool × Token)}
    (readable : Readable previous ts) (line : Line) (glued : Bool) :
    cutText line glued (layout ts) = (lexemes line glued ts, none) := by
  induction ts generalizing previous glued with
  | nil => rfl
  | cons p rest ih =>
    obtain ⟨spaced, t⟩ := p
    obtain ⟨spelled, ends, -, later⟩ := readable
    have read (glued : Bool) := cutText_text line glued spelled ends
    simp only [ih later] at read
    cases spaced with
    | false =>
      simp only [layout, lexemes, Bool.not_false, Bool.and_true, Bool.false_eq_true, if_false,
        List.nil_append]
      exact read glued
    | true =>
      simp only [layout, lexemes, Bool.not_true, Bool.and_false, if_true, List.singleton_append]
      rw [cutText_space]
      exact read false

/-- A piece is a token of its own if it is not a minus with a number that touches it. -/
theorem join_cons {failure : Option SyntaxError} {previous : Option Token} {l : Lexeme}
    {ls : List Lexeme} (alone : ∀ next ∈ ls.head?, signedNumber? previous l next = none) :
    join failure previous (l :: ls) =
      l.plain >>= fun t => (join failure (some t) ls).map (⟨t, l.line⟩ :: ·) := by
  cases ls with
  | nil =>
    rw [join]
    congr 1
    funext t
    cases failure <;> rfl
  | cons next rest =>
    rw [join, alone next rfl]
    rfl

theorem join_plain {previous : Option Token} {l : Lexeme} {ls : List Lexeme} {t : Token}
    (apart : ∀ next ∈ ls.head?, signedNumber? previous l next = none) (plain : l.plain = .ok t) :
    join none previous (l :: ls) = (join none (some t) ls).map (⟨t, l.line⟩ :: ·) := by
  rw [join_cons apart, plain]
  rfl

theorem fit_toInt (i : Int64) : Number.fit i.toInt = some i := by
  have low := i.le_toInt
  have high := i.toInt_lt
  rw [Number.fit, if_pos ⟨by omega, by omega⟩, Int64.ofInt_toInt]

theorem toInt_of_fit {i : Int} {j : Int64} (fits : Number.fit i = some j) : j.toInt = i := by
  unfold Number.fit at fits
  split at fits
  · next bounds =>
    obtain rfl := Option.some.inj fits
    exact Int64.toInt_ofInt_of_le bounds.1 bounds.2
  · cases fits

theorem plain_pieceOf {t : Token} (unsigned : isSigned t = false) (line : Line) (glued : Bool) :
    (⟨pieceOf t, line, glued⟩ : Lexeme).plain = .ok t := by
  cases t with
  | int i =>
    have positive : 0 ≤ i.toInt := by simpa [isSigned] using unsigned
    have fits : Number.fit (i.toInt.toNat : Int) = some i := by
      rw [Int.toNat_of_nonneg positive, fit_toInt]
    simp only [Lexeme.plain, pieceOf, fits, Option.elim_some]
  | _ => rfl

/-- The token after a minus that is an operator does not become a number with it: either a space
stands before it, or it is no number. -/
theorem signedNumber?_lexemes {previous : Option Token} {t : Token} {rest : List (Bool × Token)}
    {l : Lexeme} (same : l.piece = pieceOf t) (ends : EndsBefore t (layout rest))
    (readable : Readable (some t) rest) :
    ∀ next ∈ (lexemes line true rest).head?, signedNumber? previous l next = none := by
  intro next front
  have notSigned (number : next.negative? = none) : signedNumber? previous l next = none := by
    rw [signedNumber?, number, ite_self]
  cases minus : l.isMinus with
  | false => rw [signedNumber?, minus, Bool.false_and]; rfl
  | true =>
    cases rest with
    | nil => cases front
    | cons p rest =>
      obtain ⟨spaced, u⟩ := p
      have breaks : ∀ c ∈ (layout ((spaced, u) :: rest)).head?, isBreak c = true := by
        refine ends.resolve_right ?_
        rintro ⟨m, rfl, -⟩
        rw [Lexeme.isMinus, same] at minus
        cases minus
      cases spaced with
      | true =>
        refine notSigned ?_
        cases u with
        | int i =>
          simp only [lexemes, cut] at front
          split at front <;> cases front <;> rfl
        | _ => cases front; rfl
      | false =>
        cases u with
        | int i =>
          -- the text of an integer starts with a digit or with a minus
          exfalso
          by_cases negative : i.toInt < 0
          · have first := breaks '-' (by simp [layout, text_of_signed negative])
            exact absurd first (by decide)
          · obtain ⟨c, digits, written, digit, -⟩ := scan_nat i.toInt.toNat
            have unsigned := text_of_unsigned (Int.not_lt.1 negative)
            have first := breaks c (by rw [layout, unsigned, written]; rfl)
            simp only [isBreak, Bool.or_eq_true, decide_eq_true_eq] at first
            rcases first with (rfl | rfl) | rfl <;> exact absurd digit (by decide)
        | float x => exact absurd readable.1 id
        | _ => cases front; exact notSigned rfl

theorem join_lexemes {previous : Option Token} {ts : List (Bool × Token)}
    (readable : Readable previous ts) (line : Line) (glued : Bool) :
    join none previous (lexemes line glued ts) = .ok (placed line (ts.map (·.2))) := by
  induction ts generalizing previous glued with
  | nil => rfl
  | cons p rest ih =>
    obtain ⟨spaced, t⟩ := p
    obtain ⟨-, ends, sign, later⟩ := readable
    rw [lexemes]
    cases signed : isSigned t with
    | false =>
      have apart : ∀ next ∈ (lexemes line true rest).head?,
          signedNumber? previous ⟨pieceOf t, line, glued && !spaced⟩ next = none :=
        signedNumber?_lexemes rfl ends later
      rw [cut_of_unsigned line _ signed, List.singleton_append,
        join_plain apart (plain_pieceOf signed line _), ih later true]
      rfl
    | true =>
      cases t with
      | int i =>
        have negative : i.toInt < 0 := by simpa [isSigned] using signed
        have fits : Number.fit (-(i.toInt.natAbs : Int)) = some i := by
          rw [Int.ofNat_natAbs_of_nonpos (Int.le_of_lt negative), Int.neg_neg, fit_toInt]
        have number : signedNumber? previous ⟨.token (.symbol .minus), line, glued && !spaced⟩
            ⟨.digits i.toInt.natAbs, line, true⟩ = some (.ok (.int i)) := by
          simp only [signedNumber?, Lexeme.isMinus, sign signed, Bool.and_self, if_true,
            Lexeme.negative?, fits, Option.elim_some]
        rw [cut, if_pos negative, List.cons_append, List.singleton_append, join, number]
        simp only [ok_bind, ih later true]
        rfl
      | _ => cases signed

/-- A text that is laid out from readable tokens has these tokens, all on its first line. -/
theorem tokenize_layout {ts : List (Bool × Token)} (readable : Readable none ts) (line : Line) :
    tokenize (String.ofList (layout ts)) line = .ok (placed line (ts.map (·.2))) := by
  have read := cutText_layout readable line false
  rw [cutText] at read
  simp only [tokenize, String.toList_ofList, read]
  exact join_lexemes readable line false

/-! ## Tokens with spaces between them -/

/-- Whether no operand ends before a token with a sign, among tokens after another one. -/
def Signs : (previous : Option Token) → List Token → Prop
  | _, [] => True
  | previous, t :: rest => (isSigned t = true → takesSign previous = true) ∧ Signs (some t) rest

theorem readable_spaced {ts : List Token} {previous : Option Token} (spelled : ∀ t ∈ ts, Spelled t)
    (signs : Signs previous ts) : Readable previous (ts.map fun t => (true, t)) := by
  induction ts generalizing previous with
  | nil => trivial
  | cons t rest ih =>
    refine ⟨spelled t List.mem_cons_self, .inl ?_, signs.1, ?_⟩
    · intro c front
      cases rest with
      | nil => cases front
      | cons u rest =>
        obtain rfl := Option.some.inj front
        rfl
    · exact ih (fun u member => spelled u (List.mem_cons_of_mem _ member)) signs.2

/-- The layout of tokens with a space before each is that of their texts with spaces between. -/
theorem layout_spaced (ts : List Token) : layout (ts.map fun t => (true, t)) =
    ts.flatMap fun t => ' ' :: t.text.toList := by
  induction ts with
  | nil => rfl
  | cons t rest ih => rw [List.map_cons, layout, ih]; rfl

theorem intercalate_eq_flatMap (first : List Char) (texts : List (List Char)) :
    List.intercalate [' '] (first :: texts) = first ++ texts.flatMap fun text => ' ' :: text := by
  induction texts generalizing first with
  | nil => simp
  | cons next texts ih =>
    rw [List.intercalate_cons_cons, ih, List.flatMap_cons]
    simp

/-- Texts of tokens with single spaces between them have these tokens. -/
theorem tokenize_intercalate {ts : List Token} (spelled : ∀ t ∈ ts, Spelled t)
    (signs : Signs none ts) (line : Line) :
    tokenize (String.intercalate " " (ts.map Token.text)) line = .ok (placed line ts) := by
  cases ts with
  | nil => rfl
  | cons t rest =>
    have readable : Readable none ((false, t) :: rest.map fun t => (true, t)) := readable_spaced spelled signs
    have written : String.intercalate " " ((t :: rest).map Token.text) =
        String.ofList (layout ((false, t) :: rest.map fun t => (true, t))) := by
      rw [layout, layout_spaced, ← String.toList_inj, String.toList_intercalate, List.map_cons,
        List.map_cons, String.toList_ofList]
      show List.intercalate [' '] _ = _
      rw [intercalate_eq_flatMap]
      simp [List.flatMap_map]
    have back : rest.map ((·.2) ∘ fun t => (true, t)) = rest := List.map_id rest
    rw [written, tokenize_layout readable line, List.map_cons, List.map_map, back]

end Scriptlet.Lexer
