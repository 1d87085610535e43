import Mathlib.Algebra.Group.Int.Defs
import Scriptlet.Proofs.Evaluation.Expressions
import Scriptlet.Proofs.Expr.Operators
import Scriptlet.Proofs.Token.Texts
import Scriptlet.Session

/-!
# Integer arithmetic

`Arithmetic` are expressions over 64-bit integers, `value` is what they are in the integers, and
`Fits` says that no intermediate result leaves the range and no divisor is zero. Written with no
more parentheses than the usual precedences need, such an expression evaluates to its value if it
fits and fails if it does not: nothing wraps.
-/

namespace Scriptlet

open Scriptlet.Expr (Reads parens)
open Scriptlet.Lexer (Spelled Signs isSigned placed placed_append takesSign)

/-- Operators on two integers. -/
inductive ArithmeticOperator where
  | add | sub | mul | div | mod
  deriving DecidableEq

/-- Expressions over integers. -/
inductive Arithmetic where
  | literal (i : Int64)
  | negation (a : Arithmetic)
  | operation (op : ArithmeticOperator) (left right : Arithmetic)

namespace ArithmeticOperator

/-- The result of an operator in the integers: a quotient is truncated toward zero, and a remainder
has the sign of the dividend. -/
def exact : ArithmeticOperator → Int → Int → Int
  | add, a, b => a + b
  | sub, a, b => a - b
  | mul, a, b => a * b
  | div, a, b => a.tdiv b
  | mod, a, b => a.tmod b

/-- How tightly an operator binds. -/
def strength : ArithmeticOperator → Nat
  | add | sub => 0
  | mul | div | mod => 1

/-- The symbol of an operator. -/
def symbol : ArithmeticOperator → Symbol
  | add => .plus
  | sub => .minus
  | mul => .times
  | div => .divide
  | mod => .modulo

/-- Whether an integer is one of 64 bits. -/
def InRange (i : Int) : Prop := -2 ^ 63 ≤ i ∧ i < 2 ^ 63

instance (i : Int) : Decidable (InRange i) := inferInstanceAs (Decidable (_ ∧ _))

/-- Whether an operator has a result in range; a remainder counts as its quotient does. -/
def Allows : ArithmeticOperator → Int → Int → Prop
  | add, a, b => InRange (a + b)
  | sub, a, b => InRange (a - b)
  | mul, a, b => InRange (a * b)
  | div, a, b | mod, a, b => b ≠ 0 ∧ InRange (a.tdiv b)

/-- The operator of values that an operator is. -/
def meaning : ArithmeticOperator → BinaryOperator
  | add => .add
  | sub => .sub
  | mul => .mul
  | div => .div
  | mod => .mod

/-- The builtin that an operator calls. -/
def builtin : ArithmeticOperator → Builtin
  | sub => .minus
  | op => .binary op.meaning

instance : (op : ArithmeticOperator) → (a b : Int) → Decidable (op.Allows a b)
  | add, a, b => inferInstanceAs (Decidable (InRange (a + b)))
  | sub, a, b => inferInstanceAs (Decidable (InRange (a - b)))
  | mul, a, b => inferInstanceAs (Decidable (InRange (a * b)))
  | div, a, b | mod, a, b => inferInstanceAs (Decidable (b ≠ 0 ∧ InRange (a.tdiv b)))

end ArithmeticOperator

namespace Arithmetic

open ArithmeticOperator (InRange)

/-- The value of an expression in the integers. -/
def value : Arithmetic → Int
  | literal i => i.toInt
  | negation a => -a.value
  | operation op a b => op.exact a.value b.value

/-- Whether every intermediate result is in range and no divisor is zero. -/
def Fits : Arithmetic → Prop
  | literal _ => True
  | negation a => a.Fits ∧ InRange (-a.value)
  | operation op a b => a.Fits ∧ b.Fits ∧ op.Allows a.value b.value

instance : (a : Arithmetic) → Decidable a.Fits
  | literal _ => inferInstanceAs (Decidable True)
  | negation a => @instDecidableAnd _ _ (instDecidableFits a) inferInstance
  | operation _ a b => @instDecidableAnd _ _ (instDecidableFits a)
      (@instDecidableAnd _ _ (instDecidableFits b) inferInstance)

/-- How tightly the root of an expression binds; a sign binds tighter than any operator. -/
def strength : Arithmetic → Nat
  | literal _ | negation _ => 2
  | operation op _ _ => op.strength

/-- A word, in parentheses where they are needed. -/
def enclosed (needed : Bool) (w : List Token) : List Token := if needed then parens w else w

/-- The tokens of an expression, with parentheses only around operands that would otherwise be
taken apart: operators of one strength group to the left. -/
def tokens : Arithmetic → List Token
  | literal i => [.int i]
  | negation a => .symbol .minus :: enclosed (a.strength < 2) a.tokens
  | operation op a b => enclosed (a.strength < op.strength) a.tokens ++
      .symbol op.symbol :: enclosed (b.strength ≤ op.strength) b.tokens

/-- The text of an expression, with spaces between its tokens. -/
def text (a : Arithmetic) : String := String.intercalate " " (a.tokens.map Token.text)

/-! ## Reading -/

/-- A tree, in parentheses where they are needed. -/
def side (needed : Bool) (t : OpTree) : OpTree := if needed then .operand t.expr.grouped else t

/-- The operators of an expression as the builder ranks them. -/
def tree : Arithmetic → OpTree
  | literal i => .operand (.constant (.int i) 1)
  | negation a => .operand (.leading .minus (side (a.strength < 2) a.tree).expr 1)
  | operation op a b => .node op.symbol (side (a.strength < op.strength) a.tree)
      (side (b.strength ≤ op.strength) b.tree) 1

/-- The tree that the builder makes of an expression. -/
def expr (a : Arithmetic) : Expr := a.tree.expr

theorem isOperand_grouped (e : Expr) : e.grouped.isOperand = true := by
  cases e <;> rfl

theorem isOperand_leading {s : Symbol} {e : Expr} {l : Line} :
    (Expr.leading s e l).isOperand = true := by
  unfold Expr.leading
  split
  · split <;> rfl
  · rfl
  · rfl

theorem isBinary_symbol (op : ArithmeticOperator) : op.symbol.isBinary = true := by
  cases op <;> rfl

theorem rank_symbol (op : ArithmeticOperator) : Operation.rank op.symbol = op.strength + 3 := by
  cases op <;> rfl

theorem rank_tree (a : Arithmetic) : a.tree.rank = a.strength + 3 := by
  cases a with
  | literal | negation => rfl
  | operation op => exact rank_symbol op

theorem side_proper {needed : Bool} {t : OpTree} (proper : t.Proper) : (side needed t).Proper := by
  unfold side
  split
  · exact ⟨isOperand_grouped _, by simp [OpTree.operations]⟩
  · exact proper

theorem tree_proper (a : Arithmetic) : a.tree.Proper := by
  induction a with
  | literal i => exact ⟨rfl, by simp [tree, OpTree.operations]⟩
  | negation a _ => exact ⟨isOperand_leading, by simp [tree, OpTree.operations]⟩
  | operation op a b iha ihb =>
    exact .node (isBinary_symbol op) (side_proper iha) (side_proper ihb) 1

theorem side_ranked {needed : Bool} {t : OpTree} (ranked : t.Ranked) : (side needed t).Ranked := by
  unfold side
  split
  · trivial
  · exact ranked

theorem le_rank_side (a : Arithmetic) {needed : Bool} {n : Nat} (low : n ≤ 2)
    (tight : needed = false → n ≤ a.strength) : n + 3 ≤ (side needed a.tree).rank := by
  unfold side
  split
  · exact Nat.add_le_add_right low 3
  · next loose =>
    rw [rank_tree]
    exact Nat.add_le_add_right (tight (by simpa using loose)) 3

theorem strength_lt (op : ArithmeticOperator) : op.strength < 2 := by
  cases op <;> decide

theorem tree_ranked (a : Arithmetic) : a.tree.Ranked := by
  induction a with
  | literal | negation => trivial
  | operation op a b iha ihb =>
    have low := strength_lt op
    have left : op.strength + 3 ≤ (side (a.strength < op.strength) a.tree).rank :=
      le_rank_side a low.le (by simp)
    have right : op.strength + 1 + 3 ≤ (side (b.strength ≤ op.strength) b.tree).rank :=
      le_rank_side b low fun loose => Nat.succ_le_of_lt (by simpa using loose)
    refine ⟨side_ranked iha, side_ranked ihb, ?_⟩
    rw [rank_symbol, if_neg (by omega)]
    exact ⟨left, by omega⟩

theorem reads_parens {e : Expr} {w : List Token} (reads : Reads (.expr e) (placed 1 w)) :
    Reads (.operand e.grouped) (placed 1 (parens w)) := by
  rw [parens, placed, List.map_cons, List.map_append]
  exact Reads.group reads .plain

theorem readsAs_side {needed : Bool} {t : OpTree} {w : List Token} (reads : t.ReadsAs (placed 1 w))
    (ranked : t.Ranked) (proper : t.Proper) :
    (side needed t).ReadsAs (placed 1 (enclosed needed w)) := by
  cases needed with
  | true => exact OpTree.readsAs_operand (reads_parens (reads.reads ranked proper))
  | false => exact reads

/-- The tokens of an expression read as its tree; an operand reads so wherever it stands. -/
theorem readsAs_tokens (a : Arithmetic) : a.tree.ReadsAs (placed 1 a.tokens) ∧
    (2 ≤ a.strength → Reads (.operand a.expr) (placed 1 a.tokens)) := by
  induction a with
  | literal i =>
    have reads : Reads (.operand (.constant (.int i) 1)) (placed 1 [.int i]) := .literal rfl .plain
    exact ⟨OpTree.readsAs_operand reads, fun _ => reads⟩
  | negation a ih =>
    have inner : Reads (.operand (side (a.strength < 2) a.tree).expr)
        (placed 1 (enclosed (a.strength < 2) a.tokens)) := by
      by_cases loose : a.strength < 2
      · simp only [loose, decide_true]
        exact reads_parens (ih.1.reads (tree_ranked a) (tree_proper a))
      · simp only [loose, decide_false]
        exact ih.2 (Nat.not_lt.1 loose)
    have reads : Reads (.operand (negation a).expr) (placed 1 (negation a).tokens) :=
      .leading rfl inner
    exact ⟨OpTree.readsAs_operand reads, fun _ => reads⟩
  | operation op a b iha ihb =>
    refine ⟨?_, fun tight => absurd tight (Nat.not_le.2 (strength_lt op))⟩
    rw [tokens, placed_append]
    exact .node (isBinary_symbol op) (readsAs_side iha.1 (tree_ranked a) (tree_proper a))
      (readsAs_side ihb.1 (tree_ranked b) (tree_proper b)) 1

theorem reads_tokens (a : Arithmetic) : Reads (.expr a.expr) (placed 1 a.tokens) :=
  (readsAs_tokens a).1.reads (tree_ranked a) (tree_proper a)

/-! ## Tokens of the text -/

theorem forall_enclosed {P : Token → Prop} {needed : Bool} {w : List Token}
    (mark : ∀ m, P (.mark m)) (all : ∀ t ∈ w, P t) : ∀ t ∈ enclosed needed w, P t := by
  cases needed with
  | false => exact all
  | true =>
    intro t member
    simp only [enclosed, parens, if_true, List.mem_cons, List.mem_append, List.not_mem_nil,
      or_false] at member
    rcases member with rfl | member | rfl
    · exact mark _
    · exact all t member
    · exact mark _

/-- The tokens of an expression are integers, symbols and marks. -/
theorem forall_tokens {P : Token → Prop} (int : ∀ i, P (.int i)) (symbol : ∀ s, P (.symbol s))
    (mark : ∀ m, P (.mark m)) (a : Arithmetic) : ∀ t ∈ a.tokens, P t := by
  induction a with
  | literal i =>
    intro t member
    rw [List.mem_singleton.1 member]
    exact int i
  | negation a ih =>
    intro t member
    rcases List.mem_cons.1 member with rfl | member
    · exact symbol _
    · exact forall_enclosed mark ih t member
  | operation op a b iha ihb =>
    intro t member
    rcases List.mem_append.1 member with member | member
    · exact forall_enclosed mark iha t member
    · rcases List.mem_cons.1 member with rfl | member
      · exact symbol _
      · exact forall_enclosed mark ihb t member

theorem spelled_tokens (a : Arithmetic) : ∀ t ∈ a.tokens, Spelled t :=
  forall_tokens (fun _ => trivial) (fun _ => trivial) (fun _ => trivial) a

/-- Tokens that may follow any other ones, as none of them depends on the token before. -/
def FollowsAny (w : List Token) : Prop := ∀ previous, Signs previous w

theorem followsAny_cons {t : Token} {w : List Token} (unsigned : isSigned t = false)
    (later : Signs (some t) w) : FollowsAny (t :: w) := by
  intro previous
  refine ⟨fun signed => ?_, later⟩
  rw [unsigned] at signed
  cases signed

theorem signs_enclosed {needed : Bool} {w v : List Token} {previous : Option Token}
    (opens : takesSign previous = true) (follows : FollowsAny v)
    (inner : ∀ {previous v}, takesSign previous = true → FollowsAny v → Signs previous (w ++ v)) :
    Signs previous (enclosed needed w ++ v) := by
  cases needed with
  | false => exact inner opens follows
  | true =>
    have closed : FollowsAny ([.mark .rightParen] ++ v) := followsAny_cons rfl (follows _)
    have opened : Signs (some (.mark .leftParen)) (w ++ ([.mark .rightParen] ++ v)) :=
      inner rfl closed
    rw [← List.append_assoc] at opened
    exact followsAny_cons rfl opened previous

/-- An expression starts where a sign belongs to the number after it, and so do its operands. -/
theorem signs_tokens (a : Arithmetic) {previous : Option Token} {v : List Token}
    (opens : takesSign previous = true) (follows : FollowsAny v) : Signs previous (a.tokens ++ v) := by
  induction a generalizing previous v with
  | literal i => exact ⟨fun _ => opens, follows _⟩
  | negation a ih =>
    exact followsAny_cons rfl (signs_enclosed rfl follows ih) previous
  | operation op a b iha ihb =>
    rw [tokens, List.append_assoc]
    refine signs_enclosed opens ?_ iha
    exact followsAny_cons rfl (signs_enclosed rfl follows ihb)

theorem tokenize_text (a : Arithmetic) : Lexer.tokenize a.text 1 = .ok (placed 1 a.tokens) := by
  have signs : Signs none (a.tokens ++ []) := signs_tokens a rfl fun _ => trivial
  rw [List.append_nil] at signs
  exact Lexer.tokenize_intercalate (spelled_tokens a) signs 1

/-! ## Operators on 64-bit integers -/

/-- What is right for an exact result: the integer that is it, or an error if it does not fit. -/
def Answers (fits : Prop) (exact : Int) (r : Except RuntimeError Int64) : Prop :=
  (fits ∧ ∃ i, r = .ok i ∧ i.toInt = exact) ∨
    (¬ fits ∧ ∃ e, r = .error e ∧ (e = .overflow 1 ∨ e = .divisionByZero 1))

theorem fit_cases (i : Int) : (InRange i ∧ ∃ j, Number.fit i = some j ∧ j.toInt = i) ∨
    (¬ InRange i ∧ Number.fit i = none) := by
  by_cases fits : InRange i
  · exact .inl ⟨fits, Int64.ofInt i, if_pos fits, Int64.toInt_ofInt_of_le fits.1 fits.2⟩
  · exact .inr ⟨fits, if_neg fits⟩

/-- A remainder is smaller than the divisor. -/
theorem inRange_tmod (a : Int) {b : Int} (other : b ≠ 0) (hb : InRange b) : InRange (a.tmod b) := by
  have smaller : (a.tmod b).natAbs < b.natAbs := by
    rw [Int.natAbs_tmod]
    exact Nat.mod_lt _ (Int.natAbs_pos.2 other)
  obtain ⟨low, high⟩ := hb
  exact ⟨by omega, by omega⟩

theorem inRange_toInt (i : Int64) : InRange i.toInt := ⟨i.le_toInt, i.toInt_lt⟩

/-- An operator whose exact result must fit. -/
theorem answers_of_exact {op : BinaryOperator} {i j : Int64} {exact : Int}
    (plain : ¬ ((op = .div ∨ op = .mod) ∧ j = 0))
    (result : op.exactInt? i.toInt j.toInt = some exact)
    (fits : InRange exact → op.fits i.toInt j.toInt = true) :
    Answers (InRange exact) exact (op.onInts i j 1) := by
  rw [BinaryOperator.onInts, if_neg plain, result, Option.bind_some]
  rcases fit_cases exact with ⟨inside, k, fit, same⟩ | ⟨outside, none⟩
  · left
    refine ⟨inside, k, ?_, same⟩
    simp only [fit, fits inside, if_true]
  · right
    refine ⟨outside, .overflow 1, ?_, .inl rfl⟩
    simp only [none]

theorem toInt_ne_zero {j : Int64} (other : ¬ j = 0) : j.toInt ≠ 0 := by
  intro zero
  exact other (Int64.toInt_inj.1 zero)

theorem answers_divisionByZero {op : BinaryOperator} (divides : op = .div ∨ op = .mod) (i : Int64)
    {fits : Prop} {exact : Int} (never : ¬ fits) : Answers fits exact (op.onInts i 0 1) := by
  refine .inr ⟨never, .divisionByZero 1, ?_, .inr rfl⟩
  rw [BinaryOperator.onInts, if_pos ⟨divides, rfl⟩]

/-- The checked operators are exact or fail. -/
theorem answers_onInts (op : ArithmeticOperator) (i j : Int64) :
    Answers (op.Allows i.toInt j.toInt) (op.exact i.toInt j.toInt) (op.meaning.onInts i j 1) := by
  cases op with
  | add | sub | mul => exact answers_of_exact (by simp [ArithmeticOperator.meaning]) rfl fun _ => rfl
  | div =>
    by_cases zero : j = 0
    · subst zero
      exact answers_divisionByZero (.inl rfl) i fun allowed => allowed.1 rfl
    · have other := toInt_ne_zero zero
      have answers : Answers (InRange (i.toInt.tdiv j.toInt)) (i.toInt.tdiv j.toInt)
          (BinaryOperator.div.onInts i j 1) :=
        answers_of_exact (fun both => zero both.2) rfl fun _ => rfl
      have allows : ArithmeticOperator.div.Allows i.toInt j.toInt ↔
          InRange (i.toInt.tdiv j.toInt) := and_iff_right other
      rw [allows]
      exact answers
  | mod =>
    by_cases zero : j = 0
    · subst zero
      exact answers_divisionByZero (.inr rfl) i fun allowed => allowed.1 rfl
    · have other := toInt_ne_zero zero
      have remains := inRange_tmod i.toInt other (inRange_toInt j)
      rcases fit_cases (i.toInt.tmod j.toInt) with ⟨-, k, fit, same⟩ | ⟨outside, -⟩
      · have step : ArithmeticOperator.mod.meaning.onInts i j 1 =
            if BinaryOperator.mod.fits i.toInt j.toInt then .ok k else .error (.overflow 1) := by
          have result : BinaryOperator.mod.exactInt? i.toInt j.toInt =
              some (i.toInt.tmod j.toInt) := rfl
          rw [ArithmeticOperator.meaning, BinaryOperator.onInts, if_neg fun both => zero both.2,
            result, Option.bind_some]
          simp only [fit]
        have quotient : BinaryOperator.mod.fits i.toInt j.toInt =
            (Number.fit (i.toInt.tdiv j.toInt)).isSome := rfl
        rw [step, quotient]
        rcases fit_cases (i.toInt.tdiv j.toInt) with ⟨inside, q, fit, -⟩ | ⟨outside, none⟩
        · exact .inl ⟨⟨other, inside⟩, k, by rw [fit]; rfl, same⟩
        · exact .inr ⟨fun allowed => outside allowed.2, .overflow 1, by rw [none]; rfl, .inl rfl⟩
      · exact absurd remains outside

theorem unify_ints (s : Store) (i j : Int64) (line : Line) :
    s.unify (.int i) (.int j) line = .ok ((.int i, .int j), s) := rfl

theorem arithmetic_ints (s : Store) (op : BinaryOperator) (i j : Int64) (line : Line) :
    s.arithmetic op (.int i) (.int j) line =
      ((op.onInts i j line).map Value.int).map (·, s) := by
  rw [Store.arithmetic, unify_ints, ok_bind]
  cases computed : op.onInts i j line <;> simp only [computed] <;> rfl

theorem call_builtin (s : Store) (op : ArithmeticOperator) (i j : Int64) (line : Line) :
    op.builtin.call s [.int i, .int j] line =
      ((op.meaning.onInts i j line).map Value.int).map (·, s) := by
  rw [← arithmetic_ints]
  cases op <;> rfl

theorem call_negation (s : Store) (i : Int64) (line : Line) :
    Builtin.minus.call s [.int i] line = (Store.negate (.int i) line).map (·, s) := rfl

/-! ## Evaluation -/

/-- Whether the operators have their first meaning where a machine evaluates. -/
def Calculates (m : Machine) : Prop :=
  ∀ op : ArithmeticOperator, ∃ f, m.store.findFunction? m.current op.symbol.text = some f ∧
    (m.store.function f).body = .builtin op.builtin

set_option maxRecDepth 20000 in
theorem calculates_new : Calculates Machine.new := by
  intro op
  cases op with
  | add => exact ⟨⟨0⟩, by decide, rfl⟩
  | sub => exact ⟨⟨1⟩, by decide, rfl⟩
  | mul => exact ⟨⟨2⟩, by decide, rfl⟩
  | div => exact ⟨⟨3⟩, by decide, rfl⟩
  | mod => exact ⟨⟨4⟩, by decide, rfl⟩

variable {m : Machine} {e f : Expr} {r q : Except RuntimeError Int64}

/-- An expression that has an integer or an error and changes nothing. -/
def Gives (m : Machine) (e : Expr) (r : Except RuntimeError Int64) : Prop :=
  ∃ fuel, ∀ setting, (Evaluator.eval fuel e).Exits setting m [] (r.map .int) m

open Scriptlet.Evaluator

theorem gives_literal (m : Machine) (i : Int64) (line : Line) :
    Gives m (.constant (.int i) line) (.ok i) := by
  refine ⟨1, fun setting => ?_⟩
  rw [eval]
  exact .value

theorem Gives.grouped (h : Gives m e r) : Gives m e.grouped r := by
  cases e with
  | call name es p line =>
    obtain ⟨fuel, ends⟩ := h
    refine ⟨fuel, fun setting => ?_⟩
    have same : eval fuel (Expr.call name es p line).grouped = eval fuel (.call name es p line) := by
      cases fuel <;> simp only [Expr.grouped, eval]
    rw [same]
    exact ends setting
  | _ => exact h

/-- What arguments evaluate to, in as many steps as it takes. -/
def GivesAll (m : Machine) (es : List Expr) (result : Except RuntimeError (List Value)) : Prop :=
  ∃ fuel, ∀ setting, (arguments fuel es).Exits setting m [] result m

theorem givesAll_nil (m : Machine) : GivesAll m [] (.ok []) :=
  ⟨1, fun _ => exits_arguments_nil⟩

theorem Gives.cons {es : List Expr} {result : Except RuntimeError (List Value)} (first : Gives m e r)
    (rest : GivesAll m es result) :
    GivesAll m (e :: es) (r.bind fun i => result.map (.int i :: ·)) := by
  obtain ⟨a, first⟩ := first
  obtain ⟨b, rest⟩ := rest
  refine ⟨max a b + 1, fun setting => ?_⟩
  have head := (endsIn (Nat.le_max_left a b)).eval e (first setting)
  cases r with
  | error failure => exact exits_arguments_error head
  | ok i =>
    exact exits_arguments_cons head rfl
      ((endsIn (Nat.le_max_right a b)).arguments es (rest (setting.hold [.int i])))

section

variable {name : String} {ref : FunctionRef} {es : List Expr} {p : Precedence} {line : Line}
  (plain : (Symbol.ofText? name).bind Symbol.assign? = none)
  (found : m.store.findFunction? m.current name = some ref)
include plain found

/-- A call of a builtin that has an integer or an error for its arguments. -/
theorem gives_call {b : Builtin} {vs : List Value} (body : (m.store.function ref).body = .builtin b)
    (silent : b.output m.store vs = "")
    (called : b.call m.store vs line = (r.map Value.int).map (·, m.store))
    (evaluated : GivesAll m es (.ok vs)) : Gives m (.call name es p line) r := by
  obtain ⟨fuel, evaluated⟩ := evaluated
  refine ⟨fuel + 3, fun setting => ?_⟩
  rw [eval_call plain]
  exact exits_call found ((endsIn (Nat.le_succ fuel)).arguments es (evaluated _))
    (exits_invoke_builtin body silent called)

theorem gives_call_error {failure : RuntimeError} (evaluated : GivesAll m es (.error failure)) :
    Gives m (.call name es p line) (.error failure) := by
  obtain ⟨fuel, evaluated⟩ := evaluated
  refine ⟨fuel + 2, fun setting => ?_⟩
  rw [eval_call plain]
  exact exits_call_error found (evaluated _)

end

theorem gives_operation (calculates : Calculates m) (op : ArithmeticOperator) (p : Precedence)
    (left : Gives m e r) (right : Gives m f q) :
    Gives m (.call op.symbol.text [e, f] p 1)
      (r.bind fun i => q.bind fun j => op.meaning.onInts i j 1) := by
  obtain ⟨ref, found, body⟩ := calculates op
  have plain : (Symbol.ofText? op.symbol.text).bind Symbol.assign? = none := by
    cases op <;> rfl
  have operands := left.cons (right.cons (givesAll_nil m))
  cases r with
  | error failure => exact gives_call_error plain found operands
  | ok i =>
    cases q with
    | error failure => exact gives_call_error plain found operands
    | ok j =>
      have silent : op.builtin.output m.store [.int i, .int j] = "" := by
        cases op <;> rfl
      exact gives_call plain found body silent (call_builtin m.store op i j 1) operands

/-- The opposite of an integer. -/
def opposite (i : Int64) : Except RuntimeError Int64 :=
  (Number.fit (-i.toInt)).elim (.error (.overflow 1)) .ok

theorem gives_minus (calculates : Calculates m) (p : Precedence) (given : Gives m e r) :
    Gives m (.call Symbol.minus.text [e] p 1) (r.bind opposite) := by
  obtain ⟨ref, found, body⟩ := calculates .sub
  have operands := given.cons (givesAll_nil m)
  cases r with
  | error failure => exact gives_call_error rfl found operands
  | ok i =>
    have called : Builtin.minus.call m.store [.int i] 1 =
        ((opposite i).map Value.int).map (·, m.store) := by
      rw [call_negation, Store.negate, opposite]
      cases Number.fit (-i.toInt) <;> rfl
    exact gives_call rfl found body rfl called operands

/-- An expression that is a constant has its value. -/
theorem Gives.of_constant {c : Constant} {line : Line} (given : Gives m (.constant c line) r) :
    r.map Value.int = .ok (m.store.ofConstant c).1 := by
  obtain ⟨fuel, given⟩ := given
  have ends := given ⟨#[], "", []⟩
  cases fuel with
  | zero =>
    rw [eval] at ends
    exact absurd ends Outcome.not_exits_cutOff
  | succ fuel =>
    rw [eval] at ends
    exact (Outcome.exits_value_iff.1 ends).2.1

/-- A minus in front of an operand, which the builder makes part of a literal where it fits. -/
theorem gives_leading (calculates : Calculates m) (given : Gives m e r) :
    Gives m (.leading .minus e 1) (r.bind opposite) := by
  have called := gives_minus calculates .call given
  cases e with
  | constant c line =>
    have known := given.of_constant
    cases c with
    | int i =>
      obtain rfl : r = .ok i := by
        cases r <;> cases known
        rfl
      cases fits : Number.fit (-i.toInt) with
      | none =>
        have same : Expr.leading .minus (.constant (.int i) line) 1 =
            .call Symbol.minus.text [.constant (.int i) line] .call 1 := by
          rw [Expr.leading, fits]
        rw [same]
        exact called
      | some j =>
        have same : Expr.leading .minus (.constant (.int i) line) 1 = .constant (.int j) line := by
          rw [Expr.leading, fits]
        have folded : opposite i = .ok j := by rw [opposite, fits]; rfl
        rw [same]
        show Gives m _ (opposite i)
        rw [folded]
        exact gives_literal m j line
    | float x => cases r <;> cases known
    | _ => exact called
  | _ => exact called

theorem Gives.side {needed : Bool} {t : OpTree} (given : Gives m t.expr r) :
    Gives m (side needed t).expr r := by
  cases needed with
  | true => exact given.grouped
  | false => exact given

theorem answers_opposite (i : Int64) : Answers (InRange (-i.toInt)) (-i.toInt) (opposite i) := by
  rcases fit_cases (-i.toInt) with ⟨inside, j, fit, same⟩ | ⟨outside, none⟩
  · exact .inl ⟨inside, j, by rw [opposite, fit]; rfl, same⟩
  · exact .inr ⟨outside, .overflow 1, by rw [opposite, none]; rfl, .inl rfl⟩

/-- An expression has its exact value if it fits, and an error if it does not. -/
theorem exists_gives (calculates : Calculates m) (a : Arithmetic) :
    ∃ r, Gives m a.expr r ∧ Answers a.Fits a.value r := by
  induction a with
  | literal i => exact ⟨.ok i, gives_literal m i 1, .inl ⟨trivial, i, rfl, rfl⟩⟩
  | negation a ih =>
    obtain ⟨r, given, answers⟩ := ih
    refine ⟨r.bind opposite, gives_leading calculates given.side, ?_⟩
    rcases answers with ⟨fits, i, rfl, exact⟩ | ⟨unfit, failure, rfl, known⟩
    · have answers := answers_opposite i
      rw [exact] at answers
      have same : (negation a).Fits ↔ InRange (-a.value) := and_iff_right fits
      rw [same]
      exact answers
    · exact .inr ⟨fun fits => unfit fits.1, failure, rfl, known⟩
  | operation op a b iha ihb =>
    obtain ⟨r, left, answers⟩ := iha
    obtain ⟨q, right, answers'⟩ := ihb
    refine ⟨_, gives_operation calculates op _ left.side right.side, ?_⟩
    rcases answers with ⟨fits, i, rfl, exact⟩ | ⟨unfit, failure, rfl, known⟩
    · rcases answers' with ⟨fits', j, rfl, exact'⟩ | ⟨unfit, failure, rfl, known⟩
      · have answers := answers_onInts op i j
        rw [exact, exact'] at answers
        have same : (operation op a b).Fits ↔ op.Allows a.value b.value :=
          (and_iff_right fits).trans (and_iff_right fits')
        rw [same]
        exact answers
      · exact .inr ⟨fun fits => unfit fits.2.1, failure, rfl, known⟩
    · exact .inr ⟨fun fits => unfit fits.1, failure, rfl, known⟩

/-! ## Scripts -/

theorem head_tokens (a : Arithmetic) :
    ∀ t ∈ (placed 1 a.tokens).head?, t.token ≠ .keyword .varWord := by
  intro t front
  obtain ⟨u, member, rfl⟩ := List.mem_map.1 (List.mem_of_head? front)
  exact forall_tokens (P := (· ≠ .keyword .varWord)) (by simp) (by simp) (by simp) a u member

/-- The text of an expression evaluates to its exact value if every intermediate result fits and no
divisor is zero, and otherwise fails. -/
theorem run_text (importRoot : String) (a : Arithmetic) :
    (a.Fits → ∃ fuel v, v.toInt = a.value ∧
      run fuel a.text ⟨#[], importRoot, []⟩ Machine.new = .value (.ok (.int v)) Machine.new) ∧
    (¬ a.Fits → ∃ fuel e, (e = .overflow 1 ∨ e = .divisionByZero 1) ∧
      run fuel a.text ⟨#[], importRoot, []⟩ Machine.new =
        .value (.error (.running e)) Machine.new) := by
  obtain ⟨r, ⟨fuel, given⟩, answers⟩ := exists_gives calculates_new a
  have ends := given ⟨#[], importRoot, []⟩
  have lexes := tokenize_text a
  have reads := reads_tokens a
  rcases answers with ⟨fits, v, rfl, exact⟩ | ⟨unfit, failure, rfl, known⟩
  · have ran := run_value lexes reads (head_tokens a) ends.eq_value
    exact ⟨fun _ => ⟨_, v, exact, ran⟩, fun unfit => absurd fits unfit⟩
  · have ran := run_error lexes reads (head_tokens a) ends.eq_error
    exact ⟨fun fits => absurd fits unfit, fun _ => ⟨_, failure, known, ran⟩⟩

/-- An expression in which the least integer is a difference that is divided. -/
def dividedLeast : Arithmetic :=
  operation .mod (operation .mul (literal 3) (literal (-2)))
    (operation .div (operation .sub (negation (literal 9223372036854775807)) (literal 1)) (literal 4))

/-- An expression in which a minus stands in front of the least integer. -/
def negatedLeast : Arithmetic :=
  operation .add (literal 1) (negation (literal (-9223372036854775808)))

/-- The least integer can be divided and cannot be negated. -/
theorem run_text_leastInteger :
    dividedLeast.text = "3 * -2 % ( ( - 9223372036854775807 - 1 ) / 4 )" ∧
    (∃ fuel v, v.toInt = -6 ∧ run fuel dividedLeast.text ⟨#[], ".", []⟩ Machine.new =
      .value (.ok (.int v)) Machine.new) ∧
    negatedLeast.text = "1 + - -9223372036854775808" ∧
    ∃ fuel e, (e = .overflow 1 ∨ e = .divisionByZero 1) ∧
      run fuel negatedLeast.text ⟨#[], ".", []⟩ Machine.new =
        .value (.error (.running e)) Machine.new := by
  have value : dividedLeast.value = -6 := by decide
  have divided := (run_text "." dividedLeast).1 (by decide)
  rw [value] at divided
  exact ⟨by decide, divided, by decide,
    (run_text "." negatedLeast).2 (by decide)⟩

end Arithmetic

end Scriptlet
