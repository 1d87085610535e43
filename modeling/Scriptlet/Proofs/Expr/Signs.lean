import Mathlib.Data.List.Chain
import Scriptlet.Proofs.Expr.ErrorLines
import Scriptlet.Proofs.Token.Chunks
import Scriptlet.Proofs.Token.Texts

/-!
# The signs of numbers

The lexer takes a minus that touches a number for its sign and decides by the token before; the
builder takes a minus for an operator and decides by its place in the expression. A run of tokens
reads the same whichever of the minuses that start an operand are folded into their numbers
(`Reads.folds`). The lexer folds others too, those after a step that trails an operand, and what it
makes of these is no expression. So the text means what it means with every minus kept, exactly
when no such step stands in it (`exists_tokenize_iff`).
-/

namespace Scriptlet

/-- A number with its sign changed. -/
def Token.negative? : Token → Option Token
  | .int i => (Number.fit (-i.toInt)).map .int
  | .float x => some (.float (-x))
  | _ => none

/-- The ways to fold minuses into the numbers after them, where `after` is whether an operand ended
before the run: only minuses with which an operand starts are folded. -/
inductive Folds : (after : Bool) → List PlacedToken → List PlacedToken → Prop
  | nil {after : Bool} : Folds after [] []
  | keep {after : Bool} {t : PlacedToken} {ts us : List PlacedToken} :
      Folds (t.token.endsOperand after) ts us → Folds after (t :: ts) (t :: us)
  | sign {t n : Token} {l : Line} {ts us : List PlacedToken} :
      t.negative? = some n → Folds true ts us →
        Folds false (⟨.symbol .minus, l⟩ :: ⟨t, l⟩ :: ts) (⟨n, l⟩ :: us)

/-- Whether nothing trails the numbers of a run. -/
def Bare (ts : List PlacedToken) : Prop :=
  ts.IsChain fun t u => t.token.negative?.isSome = true → Expr.trails u.token = false

section

variable {after : Bool} {t o c : PlacedToken} {ts us rest inside : List PlacedToken}

theorem Folds.eq_nil (folds : Folds after [] us) : us = [] := by
  cases folds
  rfl

/-- After an operand there is no sign to fold. -/
theorem Folds.tail (folds : Folds true (t :: ts) us) :
    ∃ vs, us = t :: vs ∧ Folds (t.token.endsOperand true) ts vs := by
  cases folds with
  | keep later => exact ⟨_, rfl, later⟩

theorem Folds.next (folds : Folds after (t :: ts) us) (operator : t.token ≠ .symbol .minus) :
    ∃ vs, us = t :: vs ∧ Folds (t.token.endsOperand after) ts vs := by
  cases folds with
  | keep later => exact ⟨_, rfl, later⟩
  | sign _ _ => exact absurd rfl operator

theorem Folds.head? (folds : Folds true ts us) : us.head? = ts.head? := by
  cases folds <;> rfl

/-- What is folded in a run in two parts is folded in one of them, unless the second one starts with
a number. -/
theorem Folds.split (folds : Folds after (ts ++ rest) us)
    (apart : ∀ t ∈ rest.head?, t.token.negative? = none) :
    ∃ vs ws, us = vs ++ ws ∧ Folds after ts vs ∧ Folds (endsAfter after ts) rest ws := by
  generalize whole : ts ++ rest = all at folds
  induction folds generalizing ts with
  | nil =>
    obtain ⟨rfl, rfl⟩ := List.append_eq_nil_iff.1 whole
    exact ⟨[], [], rfl, .nil, .nil⟩
  | @keep after t all us later ih =>
    cases ts with
    | nil =>
      subst whole
      exact ⟨[], t :: us, rfl, .nil, .keep later⟩
    | cons u ts =>
      obtain ⟨rfl, rfl⟩ := List.cons.inj whole
      obtain ⟨vs, ws, rfl, left, right⟩ := ih rfl
      exact ⟨u :: vs, ws, rfl, .keep left, right⟩
  | @sign t n l all us number later ih =>
    match ts with
    | [] =>
      subst whole
      exact ⟨[], ⟨n, l⟩ :: us, rfl, .nil, .sign number later⟩
    | [_] =>
      obtain ⟨rfl, rfl⟩ := List.cons.inj whole
      rw [apart ⟨t, l⟩ rfl] at number
      cases number
    | _ :: _ :: ts =>
      obtain ⟨rfl, same⟩ := List.cons.inj whole
      obtain ⟨rfl, rfl⟩ := List.cons.inj same
      obtain ⟨vs, ws, rfl, left, right⟩ := ih rfl
      refine ⟨⟨n, l⟩ :: vs, ws, rfl, .sign number left, ?_⟩
      have ends : Token.endsOperand (Token.endsOperand false (.symbol .minus)) t = true := by
        cases t with
        | int | float => rfl
        | _ => cases number
      rw [endsAfter_cons, endsAfter_cons, ends]
      exact right

theorem eq_of_opens? {t : Token} {b : Bracket} (opens : t.opens? = some b) :
    t = .mark .leftParen ∨ t = .mark .leftBracket := by
  unfold Token.opens? at opens
  split at opens
  · exact .inl rfl
  · exact .inr rfl
  · cases opens

theorem eq_of_closes? {t : Token} {b : Bracket} (closes : t.closes? = some b) :
    t = .mark .rightParen ∨ t = .mark .rightBracket := by
  unfold Token.closes? at closes
  split at closes
  · exact .inl rfl
  · exact .inr rfl
  · cases closes

/-- Brackets stay, and what stands between them is folded by itself. -/
theorem Folds.bracket {b : Bracket} (folds : Folds after (o :: (inside ++ c :: rest)) us)
    (opens : o.token.opens? = some b) (closes : c.token.closes? = some b) :
    ∃ vs ws, us = o :: (vs ++ c :: ws) ∧ Folds false inside vs ∧ Folds true rest ws := by
  have first : o.token ≠ .symbol .minus := by rcases eq_of_opens? opens with h | h <;> simp [h]
  have last : c.token ≠ .symbol .minus ∧ c.token.negative? = none := by
    rcases eq_of_closes? closes with h | h <;> simp [h, Token.negative?]
  obtain ⟨us, rfl, within⟩ := folds.next first
  rw [endsOperand_of_opens? opens] at within
  obtain ⟨vs, ws, rfl, left, right⟩ := within.split fun t head => by
    obtain rfl := Option.some.inj head
    exact last.2
  obtain ⟨ws, rfl, beyond⟩ := right.next last.1
  rw [endsOperand_of_closes? closes] at beyond
  exact ⟨vs, ws, rfl, left, beyond⟩

theorem Bare.left (bare : Bare (ts ++ us)) : Bare ts := List.IsChain.left_of_append bare

theorem Bare.right (bare : Bare (ts ++ us)) : Bare us := List.IsChain.right_of_append bare

theorem Bare.tail (bare : Bare (t :: ts)) : Bare ts := List.IsChain.tail bare

theorem Bare.ends (bare : Bare (t :: ts)) (number : t.token.negative?.isSome = true) :
    Expr.Ends ts := by
  intro u head
  cases ts with
  | nil => cases head
  | cons v ts =>
    obtain rfl := Option.some.inj head
    exact (List.isChain_cons_cons.1 bare).1 number

end

namespace Expr

variable {p : Phrase} {ts us : List PlacedToken} {e tree : Expr}

/-- Whether an operand has ended before a phrase. -/
def Phrase.after : Phrase → Bool
  | .operators _ _ | .trailing _ _ => true
  | .expr _ | .operand _ | .arguments _ | .items _ => false

/-- Nothing is read after a tree where nothing trails it. -/
theorem eq_of_reads_trailing (reads : Reads (.trailing tree e) ts) (ends : Ends ts) :
    ts = [] ∧ e = tree := by
  cases reads with
  | plain => exact ⟨rfl, rfl⟩
  | apply | index | memberCall | member => cases ends _ rfl
  | step isTrailing =>
    have stops := ends _ rfl
    rw [trails, isTrailing] at stops
    cases stops

theorem apart_of_reads_operators (reads : Reads (.operators tree e) ts) :
    ∀ t ∈ ts.head?, t.token.negative? = none := by
  intro t head
  cases reads with
  | done => cases head
  | operator =>
    obtain rfl := Option.some.inj head
    rfl

/-- A minus in front of a number makes the constant that the folded number is. -/
theorem reads_sign {t n : Token} {l : Line} (number : t.negative? = some n)
    (reads : Reads (.operand e) (⟨t, l⟩ :: ts)) (ends : Ends ts) :
    ts = [] ∧ Reads (.operand (leading .minus e l)) [⟨n, l⟩] := by
  cases reads with
  | literal value later =>
    obtain ⟨rfl, rfl⟩ := eq_of_reads_trailing later ends
    refine ⟨rfl, ?_⟩
    cases t with
    | int i =>
      obtain ⟨j, fits, rfl⟩ := Option.map_eq_some_iff.1 number
      obtain rfl := Option.some.inj value
      rw [leading, fits]
      exact .literal rfl .plain
    | float x =>
      obtain rfl := Option.some.inj number
      obtain rfl := Option.some.inj value
      exact .literal rfl .plain
    | _ => cases number
  | _ => cases number

/-- A run of tokens reads the same whichever of the minuses that start an operand are folded into
their numbers. -/
theorem Reads.folds (reads : Reads p ts) (bare : Bare ts) (folds : Folds p.after ts us) :
    Reads p us := by
  induction reads generalizing us with
  | expr operand later ih ih' =>
    have folds : Folds false _ us := folds
    obtain ⟨vs, ws, rfl, left, right⟩ := folds.split (apart_of_reads_operators later)
    have ends : endsAfter false _ = true := endsAfter_of_reads operand
    rw [ends] at right
    exact .expr (ih bare.left left) (ih' bare.right right)
  | done | plain | none =>
    rw [folds.eq_nil]
    constructor
  | operator binary operand later ih ih' =>
    obtain ⟨us, rfl, rest⟩ := folds.tail
    rw [endsOperand_of_isBinary binary] at rest
    obtain ⟨vs, ws, rfl, left, right⟩ := rest.split (apart_of_reads_operators later)
    have ends : endsAfter false _ = true := endsAfter_of_reads operand
    rw [ends] at right
    exact .operator binary (ih bare.tail.left left) (ih' bare.tail.right right)
  | leading isLeading operand ih =>
    cases folds with
    | keep later => exact .leading isLeading (ih bare.tail later)
    | sign number later =>
      have ends := bare.tail.ends (by rw [number]; rfl)
      obtain ⟨rfl, reads⟩ := reads_sign number operand ends
      rw [later.eq_nil]
      exact reads
  | literal value _ ih =>
    obtain ⟨us, rfl, rest⟩ := folds.next (by rintro rfl; cases value)
    rw [endsOperand_of_literal? value] at rest
    exact .literal value (ih bare.tail rest)
  | define _ ih =>
    obtain ⟨us, rfl, name⟩ := folds.next (by simp)
    obtain ⟨us, rfl, rest⟩ := name.next (by simp)
    exact .define (ih bare.tail.tail rest)
  | named uncalled _ ih =>
    obtain ⟨us, rfl, rest⟩ := folds.next (by simp)
    refine .named ?_ (ih bare.tail rest)
    rwa [StartsCall, rest.head?]
  | call _ _ ih ih' =>
    obtain ⟨us, rfl, group⟩ := folds.next (by simp)
    obtain ⟨vs, ws, rfl, left, right⟩ := group.bracket rfl rfl
    exact .call (ih bare.tail.tail.left left) (ih' bare.tail.tail.right.tail right)
  | group _ _ ih ih' =>
    obtain ⟨vs, ws, rfl, left, right⟩ := folds.bracket rfl rfl
    exact .group (ih bare.tail.left left) (ih' bare.tail.right.tail right)
  | list _ _ ih ih' =>
    obtain ⟨vs, ws, rfl, left, right⟩ := folds.bracket rfl rfl
    exact .list (ih bare.tail.left left) (ih' bare.tail.right.tail right)
  | apply _ _ ih ih' =>
    obtain ⟨vs, ws, rfl, left, right⟩ := folds.bracket rfl rfl
    exact .apply (ih bare.tail.left left) (ih' bare.tail.right.tail right)
  | index _ _ ih ih' =>
    obtain ⟨vs, ws, rfl, left, right⟩ := folds.bracket rfl rfl
    exact .index (ih bare.tail.left left) (ih' bare.tail.right.tail right)
  | memberCall _ _ ih ih' =>
    obtain ⟨us, rfl, name⟩ := folds.next (by simp)
    obtain ⟨us, rfl, group⟩ := name.next (by simp)
    obtain ⟨vs, ws, rfl, left, right⟩ := group.bracket rfl rfl
    exact .memberCall (ih bare.tail.tail.tail.left left) (ih' bare.tail.tail.tail.right.tail right)
  | member uncalled _ ih =>
    obtain ⟨us, rfl, name⟩ := folds.next (by simp)
    obtain ⟨us, rfl, rest⟩ := name.next (by simp)
    refine .member ?_ (ih bare.tail.tail rest)
    rwa [StartsCall, rest.head?]
  | step isTrailing _ ih =>
    obtain ⟨us, rfl, rest⟩ := folds.tail
    rw [Token.endsOperand, isTrailing] at rest
    exact .step isTrailing (ih bare.tail rest)
  | some _ ih => exact .some (ih bare folds)
  | last _ ih => exact .last (ih bare folds)
  | more first _ ih ih' =>
    obtain ⟨vs, ws, rfl, left, right⟩ := folds.split fun t head => by
      obtain rfl := Option.some.inj head
      rfl
    obtain ⟨ws, rfl, others⟩ := right.next (by simp)
    exact .more (ih bare.left left) (ih' bare.right.tail others)

/-! ## Literals after operands -/

/-- Whether no literal of a run stands where an operand has ended, where `after` is whether one
ended before the run. -/
def Fresh : (after : Bool) → List PlacedToken → Prop
  | _, [] => True
  | after, t :: ts =>
    (t.token.isLiteral = true → after = false) ∧ Fresh (t.token.endsOperand after) ts

theorem fresh_append {after : Bool} :
    Fresh after (ts ++ us) ↔ Fresh after ts ∧ Fresh (endsAfter after ts) us := by
  induction ts generalizing after with
  | nil => simp [Fresh]
  | cons t ts ih => simp [Fresh, ih, and_assoc]

theorem Fresh.beyond {after b : Bool} (left : Fresh after ts) (ends : endsAfter after ts = b)
    (right : Fresh b us) : Fresh after (ts ++ us) := by
  subst ends
  exact fresh_append.2 ⟨left, right⟩

/-- A token that is no literal may stand anywhere. -/
theorem Fresh.other {after : Bool} (other : t.token.isLiteral = false)
    (rest : Fresh (t.token.endsOperand after) ts) : Fresh after (t :: ts) := by
  refine ⟨fun literal => ?_, rest⟩
  rw [other] at literal
  cases literal

/-- Brackets with a run between them, and a run after them. -/
theorem fresh_bracket {after : Bool} {o c : PlacedToken} {b : Bracket}
    (opens : o.token.opens? = some b) (closes : c.token.closes? = some b)
    (left : Fresh false ts) (right : Fresh true us) :
    Fresh after (o :: (ts ++ c :: us)) := by
  have first : o.token.isLiteral = false := by
    rcases eq_of_opens? opens with h | h <;> rw [h] <;> rfl
  have last : c.token.isLiteral = false := by
    rcases eq_of_closes? closes with h | h <;> rw [h] <;> rfl
  refine ⟨by simp [first], ?_⟩
  rw [endsOperand_of_opens? opens, fresh_append]
  refine ⟨left, by simp [last], ?_⟩
  rw [endsOperand_of_closes? closes]
  exact right

/-- The literals of what reads as a phrase stand where no operand has ended. -/
theorem Reads.fresh (reads : Reads p ts) : Fresh p.after ts := by
  induction reads with
  | expr operand _ ih ih' => exact Fresh.beyond ih (endsAfter_of_reads operand) ih'
  | done | plain | none => trivial
  | operator binary operand _ ih ih' =>
    refine .other rfl ?_
    rw [endsOperand_of_isBinary binary]
    exact Fresh.beyond ih (endsAfter_of_reads operand) ih'
  | leading _ _ ih => exact .other rfl ih
  | literal value _ ih =>
    refine ⟨fun _ => rfl, ?_⟩
    rw [endsOperand_of_literal? value]
    exact ih
  | define _ ih => exact .other rfl (.other rfl ih)
  | named _ _ ih => exact .other rfl ih
  | call _ _ ih ih' => exact .other rfl (fresh_bracket rfl rfl ih ih')
  | group _ _ ih ih' | list _ _ ih ih' | apply _ _ ih ih' | index _ _ ih ih' =>
    exact fresh_bracket rfl rfl ih ih'
  | memberCall _ _ ih ih' => exact .other rfl (.other rfl (fresh_bracket rfl rfl ih ih'))
  | member _ _ ih => exact .other rfl (.other rfl ih)
  | step isTrailing _ ih =>
    refine .other rfl ?_
    rw [Token.endsOperand, isTrailing]
    exact ih
  | some _ ih | last _ ih => exact ih
  | more _ _ ih ih' => exact fresh_append.2 ⟨ih, .other rfl ih'⟩

end Expr

/-! ## What the lexer folds -/

namespace Lexer

variable {previous q : Option Token} {failure : Option SyntaxError} {after : Bool}
  {ts us : List PlacedToken} {ls : List Lexeme} {l next : Lexeme} {t n : Token}

/-- A piece as a token of its own, with its line. -/
def Lexeme.placed (l : Lexeme) : Except SyntaxError PlacedToken := l.plain.map (⟨·, l.line⟩)

/-- The tokens of a text with each minus kept as an operator. -/
def unfolded (source : String) (line : Line) : Except SyntaxError (List PlacedToken) := do
  let (lexemes, failure) := pieces source.toList.length line false source.toList
  let ts ← lexemes.mapM Lexeme.placed
  failure.elim (.ok ts) .error

/-- Whether a minus that touches a number comes after a step that trails an operand, as in
`a++ -1`; `after` is whether an operand ended before the pieces. -/
def SignsStep (after : Bool) (ls : List Lexeme) : Prop :=
  ∃ before rest ts s l, ls = before ++ rest ∧ opensSigned rest = true ∧
    before.mapM Lexeme.placed = .ok (ts ++ [⟨.symbol s, l⟩]) ∧ s.isTrailing = true ∧
    endsAfter after ts = true

/-- Whether the lexer takes some minus for a sign although an operand has ended before it. -/
inductive Misplaces : (after : Bool) → (previous : Option Token) → List Lexeme → Prop
  | here {previous : Option Token} {ls : List Lexeme} :
      takesSign previous = true → opensSigned ls = true → Misplaces true previous ls
  | later {after : Bool} {previous : Option Token} {l : Lexeme} {t : Token} {ls : List Lexeme} :
      l.plain = .ok t → Misplaces (t.endsOperand after) (some t) ls →
        Misplaces after previous (l :: ls)

theorem exists_of_opensSigned (opens : opensSigned ls = true) :
    ∃ minus number rest, ls = minus :: number :: rest ∧ minus.isMinus = true ∧
      ∃ r, number.negative? = some r := by
  match ls with
  | minus :: number :: rest =>
    obtain ⟨isMinus, touches⟩ := Bool.and_eq_true_iff.1 opens
    exact ⟨minus, number, rest, rfl, isMinus, Option.isSome_iff_exists.1 touches⟩

theorem not_misplaces_nil : ¬ Misplaces after previous [] := by
  intro misplaces
  generalize none : ([] : List Lexeme) = ls at misplaces
  cases misplaces with
  | here _ opens =>
    subst none
    cases opens
  | later => cases none

theorem Misplaces.congr (misplaces : Misplaces after previous ls)
    (same : takesSign previous = takesSign q) : Misplaces after q ls := by
  cases misplaces with
  | here takes signed => exact .here (same ▸ takes) signed
  | later plain misplaces => exact .later plain misplaces

theorem join_congr (same : takesSign previous = takesSign q) (ls : List Lexeme) :
    join failure previous ls = join failure q ls := by
  match ls with
  | [] | [_] => rfl
  | l :: next :: rest =>
    have signed : signedNumber? previous l next = signedNumber? q l next := by
      rw [signedNumber?, signedNumber?, same]
    simp only [join, signed]

theorem plain_of_isMinus (minus : l.isMinus = true) : l.plain = .ok (.symbol .minus) := by
  obtain ⟨piece, line, glued⟩ := l
  unfold Lexeme.isMinus at minus
  split at minus
  · next same => rw [Lexeme.plain, same]
  · cases minus

/-- A number that fits has a token with its sign changed, and it touches what stands before it. -/
theorem exists_of_negative? {number : Except SyntaxError Token}
    (negative : l.negative? = some number) (plain : l.plain = .ok t) :
    l.glued = true ∧ ∃ n, number = .ok n ∧ t.negative? = some n := by
  obtain ⟨piece, line, glued⟩ := l
  unfold Lexeme.negative? at negative
  split at negative
  · next n touches digits =>
    obtain rfl : piece = .digits n := digits
    obtain rfl : glued = true := touches
    refine ⟨rfl, ?_⟩
    cases fits : Number.fit n with
    | none =>
      simp only [Lexeme.plain, fits, Option.elim_none] at plain
      cases plain
    | some i =>
      simp only [Lexeme.plain, fits, Option.elim_some] at plain
      obtain rfl := Except.ok.inj plain
      have value := toInt_of_fit fits
      have high := i.toInt_lt
      obtain ⟨j, opposite⟩ : ∃ j, Number.fit (-(n : Int)) = some j := by
        rw [Number.fit, if_pos ⟨by omega, by omega⟩]
        exact ⟨_, rfl⟩
      rw [opposite] at negative
      refine ⟨.int j, (Option.some.inj negative).symm, ?_⟩
      rw [Token.negative?, value, opposite]
      rfl
  · next x touches float =>
    obtain rfl : piece = .token (.float x) := float
    obtain rfl : glued = true := touches
    obtain rfl := Except.ok.inj plain
    exact ⟨rfl, .float (-x), (Option.some.inj negative).symm, rfl⟩
  · cases negative

theorem not_isMinus_of_negative? (negative : l.negative?.isSome = true) : l.isMinus = false := by
  obtain ⟨piece, line, glued⟩ := l
  unfold Lexeme.negative? at negative
  split at negative
  · next n _ digits =>
    obtain rfl : piece = .digits n := digits
    rfl
  · next x _ float =>
    obtain rfl : piece = .token (.float x) := float
    rfl
  · cases negative

/-- A number and the number with its sign changed end an operand, and no sign comes after them. -/
theorem ends_of_negative? (number : t.negative? = some n) :
    (∀ after, t.endsOperand after = true ∧ n.endsOperand after = true) ∧
      takesSign (some t) = false ∧ takesSign (some n) = false ∧ n.isLiteral = true := by
  cases t with
  | int i =>
    obtain ⟨j, -, rfl⟩ := Option.map_eq_some_iff.1 number
    exact ⟨fun _ => ⟨rfl, rfl⟩, rfl, rfl, rfl⟩
  | float x =>
    obtain rfl := Option.some.inj number
    exact ⟨fun _ => ⟨rfl, rfl⟩, rfl, rfl, rfl⟩
  | _ => cases number

/-- Pieces that touch are on one line. -/
def Touching (ls : List Lexeme) : Prop :=
  ls.IsChain fun l next => next.glued = true → next.line = l.line

theorem touching_pieces (n : Nat) (line : Line) (glued : Bool) (text : List Char) :
    Touching (pieces n line glued text).1 ∧
      ∀ l ∈ (pieces n line glued text).1.head?, l.glued = true → l.line = line := by
  induction n generalizing text line glued with
  | zero => exact ⟨.nil, by simp [pieces]⟩
  | succ n ih =>
    cases text with
    | nil => exact ⟨.nil, by simp [pieces]⟩
    | cons c rest =>
      cases found : scan c rest with
      | piece p later =>
        rw [pieces_of_piece n line glued found]
        obtain ⟨touching, head⟩ := ih line true later
        refine ⟨List.isChain_cons.2 ⟨head, touching⟩, fun l first _ => ?_⟩
        obtain rfl := Option.some.inj first
        rfl
      | blank later =>
        rw [pieces_of_blank n line glued found]
        exact ih line false later
      | newline later =>
        rw [pieces_of_newline n line glued found]
        refine ⟨(ih (line + 1) false later).1, fun l first touches => ?_⟩
        rw [head_apart first] at touches
        cases touches
      | fail e =>
        rw [pieces_of_fail n line glued found]
        exact ⟨.nil, by simp⟩

theorem mapM_placed_cons (kept : (l :: ls).mapM Lexeme.placed = .ok ts) :
    ∃ t us, l.plain = .ok t ∧ ls.mapM Lexeme.placed = .ok us ∧ ts = ⟨t, l.line⟩ :: us := by
  rw [List.mapM_cons] at kept
  obtain ⟨u, placed, kept⟩ := bind_eq_ok_iff.1 kept
  obtain ⟨us, others, same⟩ := bind_eq_ok_iff.1 kept
  obtain ⟨t, plain, rfl⟩ := map_eq_ok_iff.1 placed
  exact ⟨t, us, plain, others, (Except.ok.inj same).symm⟩

theorem join_signed {rest : List Lexeme} (signed : signedNumber? previous l next = some (.ok n)) :
    join failure previous (l :: next :: rest) =
      (join failure (some n) rest).map (⟨n, l.line⟩ :: ·) := by
  rw [join, signed]
  show (do
    let tokens ← join failure (some n) rest
    return (⟨n, l.line⟩ : PlacedToken) :: tokens) = _
  cases join failure (some n) rest <;> rfl

/-- Where no sign is misplaced, the lexer folds minuses with which an operand starts. -/
theorem exists_join_folds (touching : Touching ls) (kept : ls.mapM Lexeme.placed = .ok ts)
    (well : ¬ Misplaces after previous ls) :
    ∃ us, join none previous ls = .ok us ∧ Folds after ts us := by
  fun_induction join none previous ls generalizing ts after with
  | case1 previous =>
    obtain rfl : [] = ts := Except.ok.inj kept
    exact ⟨[], rfl, .nil⟩
  | case2 previous l next rest number signed ih =>
    obtain ⟨minus, takes, negative⟩ := signedNumber?_eq_some signed
    obtain ⟨_, _, plain, later, rfl⟩ := mapM_placed_cons kept
    obtain ⟨t, ts, digits, others, rfl⟩ := mapM_placed_cons later
    obtain rfl := Except.ok.inj ((plain_of_isMinus minus).symm.trans plain)
    obtain ⟨touches, n, rfl, opposite⟩ := exists_of_negative? negative digits
    obtain ⟨together, touching⟩ := List.isChain_cons_cons.1 touching
    obtain ⟨ends, plainTakes, signTakes, -⟩ := ends_of_negative? opposite
    cases after with
    | true => exact absurd (.here takes (by rw [opensSigned, minus, negative]; rfl)) well
    | false =>
      have well' : ¬ Misplaces true (some n) rest := fun misplaces => by
        have misplaces := misplaces.congr (signTakes.trans plainTakes.symm)
        rw [← (ends false).1] at misplaces
        exact well (.later plain (.later digits misplaces))
      obtain ⟨us, joined, folds⟩ := ih n touching.tail others well'
      refine ⟨⟨n, l.line⟩ :: us, by rw [ok_bind, joined]; rfl, ?_⟩
      rw [together touches]
      exact .sign opposite folds
  | case3 previous l next rest unsigned ih =>
    obtain ⟨t, ts, plain, later, rfl⟩ := mapM_placed_cons kept
    have well' : ¬ Misplaces (t.endsOperand after) (some t) (next :: rest) := fun misplaces =>
      well (.later plain misplaces)
    obtain ⟨us, joined, folds⟩ := ih t touching.tail later well'
    exact ⟨⟨t, l.line⟩ :: us, by rw [plain, ok_bind, joined]; rfl, .keep folds⟩
  | case4 previous l =>
    obtain ⟨t, ts, plain, later, rfl⟩ := mapM_placed_cons kept
    obtain rfl : [] = ts := Except.ok.inj later
    exact ⟨[⟨t, l.line⟩], by rw [plain, ok_bind]; rfl, .keep .nil⟩

/-- Where a sign is misplaced, the lexer makes a number that follows an operand. -/
theorem not_fresh_of_misplaces (misplaces : Misplaces after previous ls)
    (kept : ls.mapM Lexeme.placed = .ok ts) (joined : join none previous ls = .ok us) :
    ¬ Expr.Fresh after us := by
  induction misplaces generalizing ts us with
  | @here previous ls takes opens =>
    obtain ⟨minus, number, rest, rfl, isMinus, r, negative⟩ := exists_of_opensSigned opens
    obtain ⟨_, _, -, later, rfl⟩ := mapM_placed_cons kept
    obtain ⟨t, _, digits, -, rfl⟩ := mapM_placed_cons later
    obtain ⟨-, n, rfl, opposite⟩ := exists_of_negative? negative digits
    have signed : signedNumber? previous minus number = some (.ok n) := by
      rw [signedNumber?, isMinus, takes]
      exact negative
    rw [join_signed signed] at joined
    obtain ⟨us, -, rfl⟩ := map_eq_ok_iff.1 joined
    intro fresh
    cases fresh.1 (ends_of_negative? opposite).2.2.2
  | @later after previous l t ls plain misplaces ih =>
    obtain ⟨_, _, -, later, rfl⟩ := mapM_placed_cons kept
    cases ls with
    | nil => exact absurd misplaces not_misplaces_nil
    | cons next rest =>
      cases signed : signedNumber? previous l next with
      | none =>
        have apart : ∀ other ∈ (next :: rest).head?, signedNumber? previous l other = none := by
          rintro _ ⟨⟩
          exact signed
        rw [join_plain apart plain] at joined
        obtain ⟨us, tail, rfl⟩ := map_eq_ok_iff.1 joined
        exact fun fresh => ih later tail fresh.2
      | some r =>
        obtain ⟨minus, -, negative⟩ := signedNumber?_eq_some signed
        obtain ⟨t', ts', digits, others, rfl⟩ := mapM_placed_cons later
        obtain ⟨-, n, rfl, opposite⟩ := exists_of_negative? negative digits
        obtain ⟨ends, plainTakes, signTakes, -⟩ := ends_of_negative? opposite
        obtain rfl := Except.ok.inj ((plain_of_isMinus minus).symm.trans plain)
        rw [join_signed signed] at joined
        obtain ⟨us, tail, rfl⟩ := map_eq_ok_iff.1 joined
        -- The pieces after the number are joined as they are after the number without its sign.
        have kept : join none (some (.symbol .minus)) (next :: rest) =
            .ok (⟨t', next.line⟩ :: us) := by
          have apart : signedNumber? (some (.symbol .minus)) next = fun _ => none := by
            funext other
            rw [signedNumber?, not_isMinus_of_negative? (by rw [negative]; rfl)]
            rfl
          rw [join_plain (fun other _ => congrFun apart other) digits,
            join_congr (plainTakes.trans signTakes.symm), tail]
          rfl
        intro fresh
        refine ih later kept ⟨fun _ => Bool.and_false after, ?_⟩
        rw [(ends _).1]
        have rest := fresh.2
        rwa [(ends _).2] at rest

theorem mapM_placed_of_cons (plain : l.plain = .ok t) (kept : ls.mapM Lexeme.placed = .ok ts) :
    (l :: ls).mapM Lexeme.placed = .ok (⟨t, l.line⟩ :: ts) := by
  rw [List.mapM_cons, Lexeme.placed, plain, kept]
  rfl

/-- Only a step ends an operand and is taken for a token after which one starts. -/
theorem exists_step (ends : t.endsOperand after = true) (takes : takesSign (some t) = true) :
    ∃ s : Symbol, t = .symbol s ∧ s.isTrailing = true ∧ after = true := by
  cases t with
  | symbol s =>
    obtain ⟨before, trails⟩ := Bool.and_eq_true_iff.1 ends
    exact ⟨s, rfl, trails, before⟩
  | mark m =>
    cases m with
    | rightParen | rightBracket => cases takes
    | _ => cases ends
  | keyword w =>
    cases w with
    | nullWord => cases takes
    | _ => cases ends
  | _ => cases takes

theorem signsStep_or_of_misplaces (misplaces : Misplaces after previous ls) :
    SignsStep after ls ∨ after = true ∧ takesSign previous = true ∧ opensSigned ls = true := by
  induction misplaces with
  | here takes opens => exact .inr ⟨rfl, takes, opens⟩
  | @later after previous l t ls plain _ ih =>
    refine .inl ?_
    rcases ih with ⟨before, rest, ts, s, k, rfl, opens, kept, trails, ends⟩ | ⟨ends, takes, opens⟩
    · exact ⟨l :: before, rest, ⟨t, l.line⟩ :: ts, s, k, rfl, opens, mapM_placed_of_cons plain kept,
        trails, ends⟩
    · obtain ⟨s, rfl, trails, rfl⟩ := exists_step ends takes
      exact ⟨[l], ls, [], s, l.line, rfl, opens, mapM_placed_of_cons plain rfl, trails, rfl⟩

theorem misplaces_append {before rest : List Lexeme} (opens : opensSigned rest = true)
    (kept : before.mapM Lexeme.placed = .ok ts) (takes : takesSign (lastToken previous ts) = true)
    (ends : endsAfter after ts = true) : Misplaces after previous (before ++ rest) := by
  induction before generalizing after previous ts with
  | nil =>
    obtain rfl : [] = ts := Except.ok.inj kept
    obtain rfl : after = true := ends
    exact .here takes opens
  | cons l before ih =>
    obtain ⟨t, ts, plain, later, rfl⟩ := mapM_placed_cons kept
    rw [lastToken_cons] at takes
    exact .later plain (ih later takes ends)

/-- A sign is misplaced exactly after a step that trails an operand. -/
theorem misplaces_iff : Misplaces false none ls ↔ SignsStep false ls := by
  constructor
  · intro misplaces
    rcases signsStep_or_of_misplaces misplaces with signs | ⟨never, -⟩
    · exact signs
    · cases never
  · rintro ⟨before, rest, ts, s, l, rfl, opens, kept, trails, ends⟩
    refine misplaces_append opens kept ?_ ?_
    · rw [lastToken_append]
      rfl
    · rw [endsAfter_append, ends, endsAfter_cons, Token.endsOperand, trails]
      rfl

theorem mapM_of_unfolded {source : String} {line : Line} (kept : unfolded source line = .ok ts) :
    (pieces source.toList.length line false source.toList).1.mapM Lexeme.placed = .ok ts ∧
      (pieces source.toList.length line false source.toList).2 = none := by
  rw [unfolded] at kept
  obtain ⟨us, placed, ended⟩ := bind_eq_ok_iff.1 kept
  cases failure : (pieces source.toList.length line false source.toList).2 with
  | some e =>
    rw [failure] at ended
    cases ended
  | none =>
    rw [failure] at ended
    obtain rfl := Except.ok.inj ended
    exact ⟨placed, rfl⟩

/-- A text means what it means with each minus kept as an operator, exactly when no minus that
touches a number comes after a step that trails an operand. -/
theorem exists_tokenize_iff {source : String} {line : Line} {e : Expr}
    (kept : unfolded source line = .ok ts) (bare : Bare ts) (built : Expr.ofTokens ts = .ok e) :
    (∃ us, tokenize source line = .ok us ∧ Expr.ofTokens us = .ok e) ↔
      ¬ SignsStep false (pieces source.toList.length line false source.toList).1 := by
  have touching := (touching_pieces source.toList.length line false source.toList).1
  have reads := Expr.ofTokens_eq_ok_iff.1 built
  obtain ⟨placed, whole⟩ := mapM_of_unfolded kept
  simp only [tokenize, whole]
  rw [← misplaces_iff]
  constructor
  · rintro ⟨us, joined, built⟩ misplaces
    exact not_fresh_of_misplaces misplaces placed joined (Expr.ofTokens_eq_ok_iff.1 built).fresh
  · intro well
    obtain ⟨us, joined, folds⟩ := exists_join_folds touching placed well
    exact ⟨us, joined, Expr.ofTokens_eq_ok_iff.2 (reads.folds bare folds)⟩

/-- Without steps there is nothing in a text that a sign could come after by mistake. -/
theorem not_signsStep (kept : ls.mapM Lexeme.placed = .ok ts)
    (clear : ∀ s l, ⟨.symbol s, l⟩ ∈ ts → s.isTrailing = false) : ¬ SignsStep after ls := by
  rintro ⟨before, rest, us, s, l, rfl, -, first, trails, -⟩
  rw [List.mapM_append, first, ok_bind] at kept
  obtain ⟨vs, -, same⟩ := bind_eq_ok_iff.1 kept
  obtain rfl := Except.ok.inj same
  rw [clear s l (by simp)] at trails
  cases trails

/-- A difference, with one minus that is an operator and one that is a sign. -/
theorem exists_tokenize_difference : ∃ ts e, unfolded "x-1 - -2" 1 = .ok ts ∧ Bare ts ∧
    Expr.ofTokens ts = .ok e ∧ ∃ us, tokenize "x-1 - -2" 1 = .ok us ∧ Expr.ofTokens us = .ok e := by
  have kept : unfolded "x-1 - -2" 1 = .ok ([.name "x", .symbol .minus, .int 1, .symbol .minus,
      .symbol .minus, .int 2].map (⟨·, 1⟩)) := by
    decide
  have bare : Bare ([.name "x", .symbol .minus, .int 1, .symbol .minus, .symbol .minus,
      .int 2].map (⟨·, 1⟩)) := by
    unfold Bare
    decide
  have clear : ¬ SignsStep false (pieces "x-1 - -2".toList.length 1 false "x-1 - -2".toList).1 := by
    refine not_signsStep (mapM_of_unfolded kept).1 ?_
    rintro s l member
    simp only [List.map_cons, List.map_nil, List.mem_cons, PlacedToken.mk.injEq, Token.symbol.injEq,
      reduceCtorEq, false_and, false_or, List.not_mem_nil, or_false] at member
    rcases member with ⟨rfl, -⟩ | ⟨rfl, -⟩ | ⟨rfl, -⟩ <;> rfl
  exact ⟨_, _, kept, bare, rfl, (exists_tokenize_iff kept bare rfl).2 clear⟩

/-- After a step the sign is folded into the number, and the builder misses a separator. -/
theorem ofTokens_signedStep : ∃ ts e us, unfolded "a++ -1" 1 = .ok ts ∧ Bare ts ∧
    Expr.ofTokens ts = .ok e ∧ tokenize "a++ -1" 1 = .ok us ∧
    Expr.ofTokens us = .error (.missingSeparator "-1" 1) := by
  have kept : unfolded "a++ -1" 1 = .ok ([.name "a", .symbol .increment, .symbol .minus,
      .int 1].map (⟨·, 1⟩)) := by
    decide
  have folded : tokenize "a++ -1" 1 = .ok ([.name "a", .symbol .increment, .int (-1)].map
      (⟨·, 1⟩)) := by
    decide
  have bare : Bare ([.name "a", .symbol .increment, .symbol .minus, .int 1].map (⟨·, 1⟩)) := by
    unfold Bare
    decide
  have refused : Expr.ofTokens ([.name "a", .symbol .increment, .int (-1)].map (⟨·, 1⟩)) =
      .error (.missingSeparator (Token.int (-1)).text 1) := rfl
  exact ⟨_, _, _, kept, bare, rfl, folded, refused⟩

end Lexer

end Scriptlet
