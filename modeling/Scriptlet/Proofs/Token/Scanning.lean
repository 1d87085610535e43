import Mathlib.Data.List.TakeWhile
import Scriptlet.Token.Lexer

/-!
# Pieces and lines

No piece goes over the end of its line. So what is scanned from a text is also scanned from every
longer one, if the text has the end of the line in it, and a text that is cut after the end of a
line has the pieces of its two parts.
-/

namespace Scriptlet.Lexer

variable {text tail : List Char}

/-! ## Lengths of numbers -/

/-- The length of something at the front of a text that is on one line. -/
structure OnLine (length : List Char → Nat) : Prop where
  clear : ∀ text : List Char, '\n' ∉ text.take (length text)
  same : ∀ {text : List Char} (tail : List Char), '\n' ∈ text →
    length (text ++ tail) = length text

theorem OnLine.lt {length : List Char → Nat} (h : OnLine length) (line : '\n' ∈ text) :
    length text < text.length := by
  by_contra long
  have whole : text.take (length text) = text := List.take_of_length_le (by omega)
  have clear := h.clear text
  rw [whole] at clear
  exact clear line

theorem OnLine.mem_drop {length : List Char → Nat} (h : OnLine length) (line : '\n' ∈ text) :
    '\n' ∈ text.drop (length text) := by
  rw [← List.take_append_drop (length text) text] at line
  rcases List.mem_append.1 line with front | back
  · exact absurd front (h.clear text)
  · exact back

theorem OnLine.take_append {length : List Char → Nat} (h : OnLine length) (tail : List Char)
    (line : '\n' ∈ text) : (text ++ tail).take (length text) = text.take (length text) :=
  List.take_append_of_le_length (h.lt line).le

theorem OnLine.drop_append {length : List Char → Nat} (h : OnLine length) (tail : List Char)
    (line : '\n' ∈ text) : (text ++ tail).drop (length text) = text.drop (length text) ++ tail :=
  List.drop_append_of_le_length (h.lt line).le

/-- One thing after another. -/
theorem OnLine.add {f g : List Char → Nat} (hf : OnLine f) (hg : OnLine g) :
    OnLine fun text => f text + g (text.drop (f text)) := by
  constructor
  · intro text
    rw [List.take_add, List.mem_append, not_or]
    exact ⟨hf.clear text, hg.clear _⟩
  · intro text tail line
    rw [hf.same tail line, hf.drop_append tail line, hg.same tail (hf.mem_drop line)]

theorem takeWhile_append_of_mem (p : Char → Bool) (tail : List Char) (stops : p '\n' = false)
    (line : '\n' ∈ text) : (text ++ tail).takeWhile p = text.takeWhile p := by
  rw [List.takeWhile_append, if_neg]
  intro whole
  have same : text.takeWhile p = text :=
    (List.takeWhile_prefix p).eq_of_length whole
  rw [← same] at line
  have goesOn : p '\n' = true := List.mem_takeWhile_imp line
  rw [stops] at goesOn
  cases goesOn

theorem not_mem_takeWhile (p : Char → Bool) (text : List Char) (stops : p '\n' = false) : '\n' ∉ text.takeWhile p := by
  intro line
  have goesOn : p '\n' = true := List.mem_takeWhile_imp line
  rw [stops] at goesOn
  cases goesOn

theorem take_takeWhile {p : Char → Bool} (text : List Char) :
    text.take (text.takeWhile p).length = text.takeWhile p :=
  (List.prefix_iff_eq_take.1 (List.takeWhile_prefix p)).symm

theorem onLine_digits : OnLine fun text => (text.takeWhile Char.isDigit).length := by
  constructor
  · intro text
    rw [take_takeWhile]
    exact not_mem_takeWhile _ text (by decide)
  · intro text tail line
    rw [takeWhile_append_of_mem _ tail (by decide) line]

theorem onLine_fraction : OnLine fractionLength := by
  constructor
  · intro text
    unfold fractionLength
    split
    · next rest =>
      dsimp only
      split
      · simp
      · have clear := onLine_digits.clear rest
        rw [Nat.add_comm, List.take_succ_cons]
        simpa using clear
    · simp
  · intro text tail line
    cases text with
    | nil => cases line
    | cons c rest =>
      by_cases point : c = '.'
      · have later : '\n' ∈ rest := by simpa [point] using line
        have digits := takeWhile_append_of_mem Char.isDigit tail (by decide) later
        simp only [point, List.cons_append, fractionLength, digits]
      · simp [fractionLength, point]

/-- The length of a sign at the front of a text. -/
def signLength : List Char → Nat
  | '+' :: _ | '-' :: _ => 1
  | _ => 0

theorem onLine_sign : OnLine signLength := by
  constructor
  · intro text
    unfold signLength
    split <;> simp
  · intro text tail line
    cases text with
    | nil => cases line
    | cons c rest =>
      by_cases plus : c = '+'
      · simp [signLength, plus]
      · by_cases minus : c = '-'
        · simp [signLength, minus]
        · simp [signLength, plus, minus]

theorem exponentLength_cons (c : Char) (rest : List Char) :
    exponentLength (c :: rest) =
      if c = 'e' ∨ c = 'E' then
        if (rest.drop (signLength rest)).takeWhile Char.isDigit = [] then 0
        else 1 + (signLength rest + ((rest.drop (signLength rest)).takeWhile Char.isDigit).length)
      else 0 := by
  simp only [exponentLength, Nat.add_assoc]
  rfl

theorem onLine_exponent : OnLine exponentLength := by
  have inside := onLine_sign.add onLine_digits
  constructor
  · intro text
    cases text with
    | nil => simp [exponentLength]
    | cons c rest =>
      rw [exponentLength_cons]
      by_cases mark : c = 'e' ∨ c = 'E'
      · rw [if_pos mark]
        split
        · simp
        · rw [Nat.add_comm, List.take_succ_cons]
          have front : '\n' ≠ c := by rcases mark with rfl | rfl <;> decide
          simpa [front] using inside.clear rest
      · simp [mark]
  · intro text tail line
    cases text with
    | nil => cases line
    | cons c rest =>
      rw [List.cons_append, exponentLength_cons, exponentLength_cons]
      by_cases mark : c = 'e' ∨ c = 'E'
      · have later : '\n' ∈ rest := by
          rcases mark with rfl | rfl
          · simpa using line
          · simpa using line
        have sign := onLine_sign.same tail later
        have drop := onLine_sign.drop_append tail later
        have digits := takeWhile_append_of_mem Char.isDigit tail (by decide)
          (onLine_sign.mem_drop later)
        rw [sign, drop, digits]
      · simp [mark]

/-! ## Scanning a longer text -/

/-- What is scanned when more text follows. -/
def Scan.extend (tail : List Char) : Scan → Scan
  | .piece p rest => .piece p (rest ++ tail)
  | .blank rest => .blank (rest ++ tail)
  | .newline rest => .newline (rest ++ tail)
  | .fail e => .fail e

theorem scanNumber_append (line : '\n' ∈ text) :
    scanNumber (text ++ tail) = (scanNumber text).extend tail := by
  have digits := takeWhile_append_of_mem Char.isDigit tail (by decide) line
  have whole := onLine_digits.drop_append tail line
  have fraction := onLine_fraction.same tail (onLine_digits.mem_drop line)
  have number := onLine_digits.add onLine_fraction
  have part := number.drop_append tail line
  have power := onLine_exponent.same tail (number.mem_drop line)
  have all := number.add onLine_exponent
  have front := all.take_append tail line
  have back := all.drop_append tail line
  simp only [scanNumber, digits, whole, fraction, part, power]
  split
  · rw [onLine_digits.take_append tail line]
    rfl
  · rw [front, back]
    rfl

theorem closeString_cons {c : Char} {rest : List Char} (quote : c ≠ '"') (newline : c ≠ '\n')
    (plain : c ≠ '\\') :
    closeString (c :: rest) =
      (closeString rest).map fun (inside, rest) => (c :: inside, rest) := by
  rw [closeString]
  · exact quote
  · exact newline
  · exact fun _ _ escape => absurd escape plain
  · exact fun escape => absurd escape plain

theorem closeString_append (line : '\n' ∈ text) :
    closeString (text ++ tail) =
      (closeString text).map fun (inside, rest) => (inside, rest ++ tail) := by
  fun_induction closeString text with
  | case1 => cases line
  | case2 rest => rfl
  | case3 rest => rfl
  | case4 rest => simp [closeString]
  | case5 c rest other ih =>
    have later : '\n' ∈ rest := by
      simpa [Ne.symm other] using line
    simp [closeString, other, ih later, Function.comp_def]
  | case6 => simp at line
  | case7 c rest quote newline escape last ih =>
    have plain : c ≠ '\\' := by
      rintro rfl
      cases rest with
      | nil => exact last rfl rfl
      | cons d rest => exact escape d rest rfl rfl
    have later : '\n' ∈ rest := by
      simpa [Ne.symm (newline : c ≠ '\n')] using line
    rw [List.cons_append, closeString_cons quote newline plain, ih later]
    simp [Function.comp_def]

theorem scanString_append (line : '\n' ∈ text) :
    scanString (text ++ tail) = (scanString text).extend tail := by
  rw [scanString, closeString_append line, scanString]
  cases closeString text <;> rfl

theorem scanSymbol_append {c : Char} {rest : List Char} (later : '\n' ∈ rest) :
    scanSymbol c (rest ++ tail) = (scanSymbol c rest).extend tail := by
  cases rest with
  | nil => cases later
  | cons d rest =>
    simp only [scanSymbol, List.cons_append, List.head?_cons, List.drop_one, List.tail_cons]
    split <;> rfl

theorem startsNumber_append {c : Char} {rest : List Char} (later : '\n' ∈ rest) :
    startsNumber (c :: (rest ++ tail)) = startsNumber (c :: rest) := by
  cases rest with
  | nil => cases later
  | cons d rest =>
    by_cases point : c = '.'
    · rw [point]
      rfl
    · simp [startsNumber, point]

theorem dropWhile_append_of_mem (p : Char → Bool) (tail : List Char) (stops : p '\n' = false)
    (line : '\n' ∈ text) : (text ++ tail).dropWhile p = text.dropWhile p ++ tail := by
  rw [List.dropWhile_append, if_neg]
  rw [List.isEmpty_iff, List.dropWhile_eq_nil_iff]
  intro all
  have goesOn := all '\n' line
  rw [stops] at goesOn
  cases goesOn

/-- What follows the end of a line does not change what is scanned before. -/
theorem scan_append {c : Char} {rest : List Char} (tail : List Char) (line : '\n' ∈ c :: rest) :
    scan c (rest ++ tail) = (scan c rest).extend tail := by
  by_cases newline : c = '\n'
  · simp [scan, newline, Scan.extend]
  · have later : '\n' ∈ rest := by simpa [Ne.symm newline] using line
    have name := takeWhile_append_of_mem isNameRest tail (by decide) later
    have afterName := dropWhile_append_of_mem isNameRest tail (by decide) later
    have afterComment := dropWhile_append_of_mem (fun d => d ≠ '\n') tail
      (by decide) later
    have number : scanNumber (c :: (rest ++ tail)) = (scanNumber (c :: rest)).extend tail :=
      scanNumber_append line
    have head : (rest ++ tail).head? = rest.head? := by
      cases rest with
      | nil => cases later
      | cons d rest => rfl
    simp only [scan, startsNumber_append later, number, name, afterName, scanString_append later,
      head, afterComment, scanSymbol_append later]
    repeat' split
    all_goals rfl

/-! ## What a scan takes -/

/-- What a scan takes from the front of a text: something on one line, or the end of the line. -/
inductive Scan.Takes : List Char → Scan → Prop where
  | piece {used rest : List Char} {p : Piece} : used ≠ [] → '\n' ∉ used →
      Takes (used ++ rest) (.piece p rest)
  | blank {used rest : List Char} : used ≠ [] → '\n' ∉ used → Takes (used ++ rest) (.blank rest)
  | newline {rest : List Char} : Takes ('\n' :: rest) (.newline rest)
  | fail {text : List Char} {error : Nat → SyntaxError} : (∀ line, (error line).line = line) →
      Takes text (.fail error)

theorem takes_piece (used : List Char) {rest : List Char} {p : Piece} (same : text = used ++ rest)
    (some : used ≠ []) (clear : '\n' ∉ used) : Scan.Takes text (.piece p rest) := by
  rw [same]
  exact .piece some clear

theorem number_pos (starts : startsNumber text = true) :
    0 < (text.takeWhile Char.isDigit).length +
      fractionLength (text.drop (text.takeWhile Char.isDigit).length) := by
  cases text with
  | nil => cases starts
  | cons c rest =>
    by_cases digit : c.isDigit = true
    · rw [List.takeWhile_cons_of_pos digit, List.length_cons]
      omega
    · rw [List.takeWhile_cons_of_neg digit]
      unfold startsNumber at starts
      split at starts
      · next d later same =>
        obtain ⟨rfl, rfl⟩ := List.cons.inj same
        simp only [List.length_nil, List.drop_zero, fractionLength, List.takeWhile_cons, starts,
          if_true, List.cons_ne_nil, if_false]
        omega
      · next same =>
        obtain ⟨rfl, rfl⟩ := List.cons.inj same
        exact absurd starts digit
      · cases starts

theorem takes_number (starts : startsNumber text = true) : (scanNumber text).Takes text := by
  have all := (onLine_digits.add onLine_fraction).add onLine_exponent
  have cut (n : Nat) : text = text.take n ++ text.drop n := (List.take_append_drop n text).symm
  have some := number_pos starts
  have front {n : Nat} (positive : 0 < n) : text.take n ≠ [] := by
    cases text with
    | nil => cases starts
    | cons c rest =>
      obtain ⟨k, rfl⟩ : ∃ k, n = k + 1 := ⟨n - 1, by omega⟩
      simp
  simp only [scanNumber]
  split
  · exact takes_piece _ (cut _) (front (by omega)) (onLine_digits.clear text)
  · exact takes_piece _ (cut _) (front (by omega)) (all.clear text)

theorem exists_of_closeString {inside rest : List Char}
    (closed : closeString text = some (inside, rest)) :
    ∃ used, text = used ++ rest ∧ '\n' ∉ used := by
  fun_induction closeString text generalizing inside with
  | case1 | case3 | case4 | case6 => cases closed
  | case2 later =>
    cases closed
    exact ⟨['"'], rfl, by decide⟩
  | case5 c later other ih =>
    obtain ⟨⟨inner, _⟩, closed, same⟩ := Option.map_eq_some_iff.1 closed
    cases same
    obtain ⟨used, rfl, clear⟩ := ih closed
    exact ⟨'\\' :: c :: used, rfl, by simp [clear, Ne.symm other]⟩
  | case7 c later quote newline escape last ih =>
    obtain ⟨⟨inner, _⟩, closed, same⟩ := Option.map_eq_some_iff.1 closed
    cases same
    obtain ⟨used, rfl, clear⟩ := ih closed
    exact ⟨c :: used, rfl, by simp [clear, Ne.symm (newline : c ≠ '\n')]⟩

theorem not_newline_of_pairSymbol? {c d : Char} {s : Symbol} (pair : pairSymbol? c d = some s) :
    d ≠ '\n' := by
  rintro rfl
  have found := List.find?_some pair
  have written : s.text.toList = [c, '\n'] := by simpa using congrArg String.toList (beq_iff_eq.1 found)
  cases s <;> simp [Symbol.text] at written

theorem takes_symbol {c : Char} (rest : List Char) (newline : c ≠ '\n') :
    (scanSymbol c rest).Takes (c :: rest) := by
  have single : '\n' ∉ [c] := by simp [Ne.symm newline]
  unfold scanSymbol
  split
  · next s pair =>
    cases rest with
    | nil => cases pair
    | cons d rest =>
      have other := not_newline_of_pairSymbol? pair
      exact takes_piece [c, d] rfl (by simp) (by simp [Ne.symm newline, Ne.symm other])
  · exact takes_piece [c] rfl (by simp) single
  · exact takes_piece [c] rfl (by simp) single
  · exact .fail fun _ => rfl

theorem takes_scan (c : Char) (rest : List Char) : (scan c rest).Takes (c :: rest) := by
  unfold scan
  split
  · next newline =>
    rw [newline]
    exact .newline
  · next newline =>
    have single : '\n' ∉ [c] := by simp [Ne.symm newline]
    split
    · exact @Scan.Takes.blank [c] rest (by simp) single
    · split
      · next starts => exact takes_number starts
      · split
        · have clear := not_mem_takeWhile isNameRest rest (by decide)
          refine takes_piece (c :: rest.takeWhile isNameRest) ?_ (by simp) ?_
          · rw [List.cons_append, List.takeWhile_append_dropWhile]
          · simpa [Ne.symm newline] using clear
        · split
          · unfold scanString
            split
            · next inside later closed =>
              obtain ⟨used, rfl, clear⟩ := exists_of_closeString closed
              exact takes_piece (c :: used) rfl (by simp) (by simp [Ne.symm newline, clear])
            · exact .fail fun _ => rfl
          · split
            · have clear := not_mem_takeWhile (fun d => d ≠ '\n') rest (by decide)
              have whole : c :: rest = (c :: rest.takeWhile fun d => d ≠ '\n') ++
                  rest.dropWhile fun d => d ≠ '\n' := by
                rw [List.cons_append, List.takeWhile_append_dropWhile]
              rw [whole]
              refine .blank (by simp) ?_
              rw [List.mem_cons, not_or]
              exact ⟨Ne.symm newline, clear⟩
            · exact takes_symbol rest newline

theorem scan_cases (c : Char) (rest : List Char) :
    (∃ used later, c :: rest = used ++ later ∧ used ≠ [] ∧ '\n' ∉ used ∧
      ((∃ p, scan c rest = .piece p later) ∨ scan c rest = .blank later)) ∨
    (c = '\n' ∧ scan c rest = .newline rest) ∨
    ∃ e, (∀ line, (e line).line = line) ∧ scan c rest = .fail e := by
  have takes := takes_scan c rest
  generalize whole : c :: rest = text at takes
  generalize scan c rest = s at takes
  cases takes with
  | @piece used later p some clear => exact .inl ⟨used, later, rfl, some, clear, .inl ⟨p, rfl⟩⟩
  | @blank used later some clear => exact .inl ⟨used, later, rfl, some, clear, .inr rfl⟩
  | newline =>
    obtain ⟨rfl, rfl⟩ := List.cons.inj whole
    exact .inr (.inl ⟨rfl, rfl⟩)
  | fail names => exact .inr (.inr ⟨_, names, rfl⟩)

/-! ## What is read as what -/

section

variable {c : Char} {rest later : List Char} {p : Piece}

/-- What is read is a number, a word, a string, or it is read as a symbol or a mark. -/
theorem scan_piece_cases (found : scan c rest = .piece p later) :
    (startsNumber (c :: rest) = true ∧ scanNumber (c :: rest) = .piece p later) ∨
    (isNameStart c = true ∧ p = .token (word (String.ofList (c :: rest.takeWhile isNameRest)))) ∨
    (∃ s, p = .token (.string s)) ∨
    scanSymbol c rest = .piece p later := by
  unfold scan at found
  split at found
  · cases found
  split at found
  · cases found
  split at found
  · next number => exact .inl ⟨number, found⟩
  split at found
  · next start =>
    cases found
    exact .inr (.inl ⟨start, rfl⟩)
  split at found
  · unfold scanString at found
    split at found
    · cases found
      exact .inr (.inr (.inl ⟨_, rfl⟩))
    · cases found
  split at found
  · cases found
  · exact .inr (.inr (.inr found))

/-- A number is the digits in front of the text, or it has a fraction or a power of ten. -/
theorem scanNumber_cases (starts : startsNumber text = true)
    (found : scanNumber text = .piece p later) :
    (p = .digits (Number.digitsValue (text.takeWhile Char.isDigit)) ∧
      text = text.takeWhile Char.isDigit ++ later ∧ text.takeWhile Char.isDigit ≠ []) ∨
    ∃ x, p = .token (.float x) := by
  have positive := number_pos starts
  unfold scanNumber at found
  dsimp only at found
  split at found
  · next whole =>
    cases found
    have cut := List.take_append_drop (text.takeWhile Char.isDigit).length text
    rw [take_takeWhile] at cut ⊢
    refine .inl ⟨rfl, cut.symm, List.length_pos_iff.1 ?_⟩
    omega
  · cases found
    exact .inr ⟨_, rfl⟩

theorem scanSymbol_cases (found : scanSymbol c rest = .piece p later) :
    (∃ s, p = .token (.symbol s)) ∨ ∃ m, p = .token (.mark m) := by
  unfold scanSymbol at found
  split at found
  · cases found
    exact .inl ⟨_, rfl⟩
  · cases found
    exact .inl ⟨_, rfl⟩
  · cases found
    exact .inr ⟨_, rfl⟩
  · cases found

end

/-! ## Pieces -/

theorem pieces_nil (fuel : Nat) (line : Line) (glued : Bool) :
    pieces fuel line glued [] = ([], none) := by
  cases fuel <;> rfl

section

variable {c : Char} {rest later : List Char} (n : Nat) (line : Line) (glued : Bool)

theorem pieces_of_piece {p : Piece} (found : scan c rest = .piece p later) :
    pieces (n + 1) line glued (c :: rest) =
      (⟨p, line, glued⟩ :: (pieces n line true later).1, (pieces n line true later).2) := by
  rw [pieces, found]

theorem pieces_of_blank (found : scan c rest = .blank later) :
    pieces (n + 1) line glued (c :: rest) = pieces n line false later := by
  rw [pieces, found]

theorem pieces_of_newline (found : scan c rest = .newline later) :
    pieces (n + 1) line glued (c :: rest) = pieces n (line + 1) false later := by
  rw [pieces, found]

theorem pieces_of_fail {e : Nat → SyntaxError} (found : scan c rest = .fail e) :
    pieces (n + 1) line glued (c :: rest) = ([], some (e line)) := by
  rw [pieces, found]

end

/-- More steps than characters change nothing. -/
theorem pieces_fuel {n k : Nat} (enough : text.length ≤ n) (enough' : text.length ≤ k) (line : Line)
    (glued : Bool) : pieces n line glued text = pieces k line glued text := by
  induction n generalizing k text line glued with
  | zero =>
    obtain rfl := List.length_eq_zero_iff.1 (Nat.le_zero.1 enough)
    rw [pieces_nil, pieces_nil]
  | succ n ih =>
    cases text with
    | nil => rw [pieces_nil, pieces_nil]
    | cons c rest =>
      have length : (c :: rest).length = rest.length + 1 := List.length_cons
      obtain ⟨k, rfl⟩ : ∃ j, k = j + 1 := ⟨k - 1, by omega⟩
      rcases scan_cases c rest with ⟨used, later, whole, some, -, found⟩ | ⟨-, found⟩ |
        ⟨e, -, found⟩
      · have positive := List.length_pos_iff.2 some
        have shorter := congrArg List.length whole
        rw [List.length_append] at shorter
        have same (glued : Bool) : pieces n line glued later = pieces k line glued later :=
          ih (by omega) (by omega) line glued
        rcases found with ⟨p, found⟩ | found
        · rw [pieces_of_piece n line glued found, pieces_of_piece k line glued found, same]
        · rw [pieces_of_blank n line glued found, pieces_of_blank k line glued found, same]
      · rw [pieces_of_newline n line glued found, pieces_of_newline k line glued found]
        exact ih (by omega) (by omega) (line + 1) false
      · rw [pieces_of_fail n line glued found, pieces_of_fail k line glued found]

/-- Whether a text ends with the end of a line, if it has anything in it. -/
def EndsLine (text : List Char) : Prop := ∀ c ∈ text.getLast?, c = '\n'

theorem EndsLine.of_append (used : List Char) {rest : List Char} (ends : EndsLine (used ++ rest)) :
    EndsLine rest := by
  intro c last
  exact ends c (by rw [List.getLast?_append, Option.mem_def.1 last]; rfl)

theorem EndsLine.mem (ends : EndsLine text) (some : text ≠ []) : '\n' ∈ text := by
  have last := List.getLast?_eq_some_getLast some
  have same := ends _ last
  rw [← same]
  exact List.getLast_mem some

/-- The pieces of one text and then those of another one, if the first one can be read. -/
def followedBy (first next : List Lexeme × Option SyntaxError) :
    List Lexeme × Option SyntaxError :=
  match first with
  | (ls, none) => (ls ++ next.1, next.2)
  | (ls, some e) => (ls, some e)

theorem followedBy_cons (l : Lexeme) (first next : List Lexeme × Option SyntaxError) :
    followedBy (l :: first.1, first.2) next =
      (l :: (followedBy first next).1, (followedBy first next).2) := by
  obtain ⟨ls, _ | e⟩ := first <;> rfl

/-- The pieces of a text that is cut after the end of a line. -/
theorem pieces_append {n k j : Nat} (enough : (text ++ tail).length ≤ n) (enough' : text.length ≤ k)
    (enough'' : tail.length ≤ j) {line : Line} {glued : Bool} (ends : EndsLine text)
    (start : text = [] → glued = false) :
    pieces n line glued (text ++ tail) =
      followedBy (pieces k line glued text) (pieces j (line + text.count '\n') false tail) := by
  induction k generalizing n text line glued with
  | zero =>
    obtain rfl := List.length_eq_zero_iff.1 (Nat.le_zero.1 enough')
    rw [start rfl]
    exact pieces_fuel enough enough'' line false
  | succ k ih =>
    cases text with
    | nil =>
      rw [start rfl]
      exact pieces_fuel enough enough'' line false
    | cons c rest =>
      have length : (c :: rest ++ tail).length = (c :: rest).length + tail.length :=
        List.length_append
      have positive : (c :: rest).length = rest.length + 1 := List.length_cons
      obtain ⟨n, rfl⟩ : ∃ i, n = i + 1 := ⟨n - 1, by omega⟩
      have scanned := scan_append tail (ends.mem (List.cons_ne_nil c rest))
      rw [List.cons_append]
      rcases scan_cases c rest with ⟨used, later, whole, some, clear, found⟩ | ⟨rfl, found⟩ |
        ⟨e, -, found⟩
      · -- the line goes on after the piece, since the text ends with the end of a line
        have more : later ≠ [] := by
          rintro rfl
          rw [whole, List.append_nil] at ends
          exact clear (ends.mem some)
        have front : (c :: rest).count '\n' = later.count '\n' := by
          rw [whole, List.count_append, List.count_eq_zero_of_not_mem clear, Nat.zero_add]
        have used_pos := List.length_pos_iff.2 some
        have shorter := congrArg List.length whole
        have length' : (later ++ tail).length = later.length + tail.length := List.length_append
        rw [List.length_append] at shorter
        have rest_ends : EndsLine later := by
          rw [whole] at ends
          exact ends.of_append used
        have step (glued : Bool) : pieces n line glued (later ++ tail) =
            followedBy (pieces k line glued later)
              (pieces j (line + later.count '\n') false tail) :=
          ih (by omega) (by omega) rest_ends fun none => absurd none more
        rw [front]
        rcases found with ⟨p, found⟩ | found
        · rw [found, Scan.extend] at scanned
          rw [pieces_of_piece n line glued scanned, pieces_of_piece k line glued found, step true,
            ← followedBy_cons]
        · rw [found, Scan.extend] at scanned
          rw [pieces_of_blank n line glued scanned, pieces_of_blank k line glued found, step false]
      · rw [found, Scan.extend] at scanned
        have length' : (rest ++ tail).length = rest.length + tail.length := List.length_append
        have step := @ih rest n (by omega) (by omega) (line + 1) false
          (EndsLine.of_append ['\n'] ends) fun _ => rfl
        have count : line + ('\n' :: rest).count '\n' = line + 1 + rest.count '\n' := by
          rw [List.count_cons_self, Nat.add_right_comm, Nat.add_assoc]
        rw [pieces_of_newline n line glued scanned, pieces_of_newline k line glued found, step, count]
      · rw [found, Scan.extend] at scanned
        rw [pieces_of_fail n line glued scanned, pieces_of_fail k line glued found]
        rfl

/-! ## Lines -/

/-- The number of lines of a text, where an end of a line at its end begins no further line. -/
def lines (text : List Char) : Nat :=
  text.count '\n' + if text.getLast?.all (· == '\n') then 0 else 1

theorem lines_newline (rest : List Char) : lines ('\n' :: rest) = lines rest + 1 := by
  cases rest with
  | nil => rfl
  | cons c rest =>
    simp only [lines, List.getLast?_cons_cons, List.count_cons_self]
    omega

theorem lines_append {used : List Char} (rest : List Char) (some : used ≠ []) (clear : '\n' ∉ used) :
    lines rest ≤ lines (used ++ rest) ∧ 1 ≤ lines (used ++ rest) := by
  have none : used.count '\n' = 0 := List.count_eq_zero_of_not_mem clear
  cases rest with
  | nil =>
    have last : used.getLast some ≠ '\n' := fun same => clear (same ▸ List.getLast_mem some)
    simp [lines, List.getLast?_eq_some_getLast some, last]
  | cons c rest =>
    have same : lines (used ++ c :: rest) = lines (c :: rest) := by
      have last := List.getLast?_eq_some_getLast (List.cons_ne_nil c rest)
      rw [lines, lines, List.count_append, none, Nat.zero_add, List.getLast?_append, last]
      rfl
    refine ⟨same.ge, ?_⟩
    rw [same, lines]
    by_cases line : (c :: rest).getLast (List.cons_ne_nil c rest) = '\n'
    · have member : '\n' ∈ c :: rest := line ▸ List.getLast_mem (List.cons_ne_nil c rest)
      have positive := List.count_pos_iff.2 member
      omega
    · rw [List.getLast?_eq_some_getLast (List.cons_ne_nil c rest)]
      simp [line]

/-- A piece is on a line of the text. -/
theorem line_of_mem_pieces {n : Nat} {line : Line} {glued : Bool} {l : Lexeme}
    (member : l ∈ (pieces n line glued text).1) : ∃ i < lines text, l.line = line + i := by
  induction n generalizing text line glued with
  | zero => cases member
  | succ n ih =>
    cases text with
    | nil => cases member
    | cons c rest =>
      rcases scan_cases c rest with ⟨used, later, whole, some, clear, found⟩ | ⟨rfl, found⟩ |
        ⟨e, -, found⟩
      · obtain ⟨more, positive⟩ := lines_append later some clear
        rw [← whole] at more positive
        have on {glued : Bool} (member : l ∈ (pieces n line glued later).1) :
            ∃ i < lines (c :: rest), l.line = line + i := by
          obtain ⟨i, below, same⟩ := ih member
          exact ⟨i, by omega, same⟩
        rcases found with ⟨p, found⟩ | found
        · rw [pieces_of_piece n line glued found] at member
          rcases List.mem_cons.1 member with rfl | member
          · exact ⟨0, by omega, rfl⟩
          · exact on member
        · rw [pieces_of_blank n line glued found] at member
          exact on member
      · rw [pieces_of_newline n line glued found] at member
        obtain ⟨i, below, same⟩ := ih member
        have count := lines_newline rest
        exact ⟨i + 1, by omega, by rw [same, Nat.add_assoc, Nat.add_comm 1 i]⟩
      · rw [pieces_of_fail n line glued found] at member
        cases member

/-! ## Tokens -/

/-- A token is on the line of its first piece. -/
theorem exists_piece_of_join {failure : Option SyntaxError} {previous : Option Token}
    {ls : List Lexeme} {ts : List PlacedToken} (joined : join failure previous ls = .ok ts)
    {t : PlacedToken} (member : t ∈ ts) : ∃ l ∈ ls, t.line = l.line := by
  fun_induction join failure previous ls generalizing ts with
  | case1 previous =>
    cases failure with
    | none =>
      obtain rfl : [] = ts := Except.ok.inj joined
      cases member
    | some e => cases joined
  | case2 previous l next rest number signed ih =>
    obtain ⟨u, -, joined⟩ := bind_eq_ok_iff.1 joined
    obtain ⟨us, later, same⟩ := bind_eq_ok_iff.1 joined
    obtain rfl := Except.ok.inj same
    rcases List.mem_cons.1 member with rfl | member
    · exact ⟨l, List.mem_cons_self, rfl⟩
    · obtain ⟨l', within, same⟩ := ih u later member
      exact ⟨l', by simp [within], same⟩
  | case3 previous l next rest plain ih =>
    obtain ⟨u, -, joined⟩ := bind_eq_ok_iff.1 joined
    obtain ⟨us, later, same⟩ := bind_eq_ok_iff.1 joined
    obtain rfl := Except.ok.inj same
    rcases List.mem_cons.1 member with rfl | member
    · exact ⟨l, List.mem_cons_self, rfl⟩
    · obtain ⟨l', within, same⟩ := ih u later member
      exact ⟨l', List.mem_cons_of_mem _ within, same⟩
  | case4 previous l =>
    obtain ⟨u, -, joined⟩ := bind_eq_ok_iff.1 joined
    cases failure with
    | none =>
      obtain rfl : [⟨u, l.line⟩] = ts := Except.ok.inj joined
      rw [List.mem_singleton.1 member]
      exact ⟨l, List.mem_singleton_self l, rfl⟩
    | some e => cases joined

/-- A token is on a line of the text. -/
theorem line_of_mem_tokenize {source : String} {line : Line} {ts : List PlacedToken}
    (lexes : tokenize source line = .ok ts) {t : PlacedToken} (member : t ∈ ts) :
    ∃ i < lines source.toList, t.line = line + i := by
  simp only [tokenize] at lexes
  obtain ⟨l, within, same⟩ := exists_piece_of_join lexes member
  obtain ⟨i, below, on⟩ := line_of_mem_pieces within
  exact ⟨i, below, same.trans on⟩

/-! ## Errors -/

theorem lines_pos {c : Char} (rest : List Char) : 0 < lines (c :: rest) := by
  by_cases newline : c = '\n'
  · rw [newline, lines_newline]
    exact Nat.succ_pos _
  · have clear : '\n' ∉ [c] := by simp [Ne.symm newline]
    exact (lines_append rest (List.cons_ne_nil c []) clear).2

/-- What cannot be cut off is on a line of the text. -/
theorem line_of_pieces_fail {n : Nat} {line : Line} {glued : Bool} {e : SyntaxError}
    (fails : (pieces n line glued text).2 = some e) : ∃ i < lines text, e.line = line + i := by
  induction n generalizing text line glued with
  | zero => cases fails
  | succ n ih =>
    cases text with
    | nil => cases fails
    | cons c rest =>
      rcases scan_cases c rest with ⟨used, later, whole, some, clear, found⟩ | ⟨rfl, found⟩ |
        ⟨e', names, found⟩
      · obtain ⟨more, -⟩ := lines_append later some clear
        rw [← whole] at more
        have on {glued : Bool} (fails : (pieces n line glued later).2 = .some e) :
            ∃ i < lines (c :: rest), e.line = line + i := by
          obtain ⟨i, below, same⟩ := ih fails
          exact ⟨i, by omega, same⟩
        rcases found with ⟨p, found⟩ | found
        · rw [pieces_of_piece n line glued found] at fails
          exact on fails
        · rw [pieces_of_blank n line glued found] at fails
          exact on fails
      · rw [pieces_of_newline n line glued found] at fails
        obtain ⟨i, below, same⟩ := ih fails
        have count := lines_newline rest
        exact ⟨i + 1, by omega, by rw [same, Nat.add_assoc, Nat.add_comm 1 i]⟩
      · rw [pieces_of_fail n line glued found] at fails
        obtain rfl : e' line = e := by simpa using fails
        exact ⟨0, lines_pos rest, names line⟩

/-- A number that is too large is on its own line. -/
theorem line_of_plain {l : Lexeme} {e : SyntaxError} (fails : l.plain = .error e) :
    e.line = l.line := by
  unfold Lexeme.plain at fails
  split at fails
  · cases fails
  · rename_i value _
    cases fits : Number.fit value with
    | none =>
      rw [fits] at fails
      cases fails
      rfl
    | some i =>
      rw [fits] at fails
      cases fails

theorem line_of_signedNumber? {l next : Lexeme} {previous : Option Token} {e : SyntaxError}
    (fails : signedNumber? previous l next = some (.error e)) : e.line = next.line := by
  unfold signedNumber? at fails
  split at fails
  · unfold Lexeme.negative? at fails
    split at fails
    · rename_i value _ _
      cases fits : Number.fit (-(value : Int)) with
      | none =>
        rw [fits] at fails
        cases fails
        rfl
      | some i =>
        rw [fits] at fails
        cases fails
    · cases fails
    · cases fails
  · cases fails

/-- The error of a text is that of one of its pieces or the one that ended them. -/
theorem exists_piece_of_join_error {failure : Option SyntaxError} {previous : Option Token}
    {ls : List Lexeme} {e : SyntaxError} (fails : join failure previous ls = .error e) :
    failure = some e ∨ ∃ l ∈ ls, e.line = l.line := by
  fun_induction join failure previous ls with
  | case1 previous =>
    cases failure with
    | none => cases fails
    | some f =>
      cases fails
      exact .inl rfl
  | case2 previous l next rest number signed ih =>
    rcases bind_eq_error_iff.1 fails with rfl | ⟨u, -, fails⟩
    · exact .inr ⟨next, by simp, line_of_signedNumber? signed⟩
    · rcases bind_eq_error_iff.1 fails with fails | ⟨us, -, never⟩
      · exact (ih u fails).imp_right fun ⟨l', within, same⟩ => ⟨l', by simp [within], same⟩
      · cases never
  | case3 previous l next rest plain ih =>
    rcases bind_eq_error_iff.1 fails with own | ⟨u, -, fails⟩
    · exact .inr ⟨l, List.mem_cons_self, line_of_plain own⟩
    · rcases bind_eq_error_iff.1 fails with fails | ⟨us, -, never⟩
      · exact (ih u fails).imp_right fun ⟨l', within, same⟩ =>
          ⟨l', List.mem_cons_of_mem _ within, same⟩
      · cases never
  | case4 previous l =>
    rcases bind_eq_error_iff.1 fails with own | ⟨u, -, fails⟩
    · exact .inr ⟨l, List.mem_singleton_self l, line_of_plain own⟩
    · cases failure with
      | none => cases fails
      | some f =>
        cases fails
        exact .inl rfl

/-- The error of a text that cannot be cut into tokens is on a line of it. -/
theorem line_of_tokenize_error {source : String} {line : Line} {e : SyntaxError}
    (fails : tokenize source line = .error e) : ∃ i < lines source.toList, e.line = line + i := by
  simp only [tokenize] at fails
  rcases exists_piece_of_join_error fails with ends | ⟨l, within, same⟩
  · exact line_of_pieces_fail ends
  · obtain ⟨i, below, on⟩ := line_of_mem_pieces within
    exact ⟨i, below, same.trans on⟩

end Scriptlet.Lexer
