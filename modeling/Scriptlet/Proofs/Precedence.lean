import Mathlib.Tactic.SplitIfs
import Scriptlet.Expr

/-!
# Operators put into a tree and precedence climbing

An expression is a first operand followed by operations. The builder puts the operations
into the tree one after another; the reference reads them by precedence climbing, from a
table of levels. Both give the same tree, and it is the only one that keeps the order of
the operations and ranks every node between its children.
-/

namespace Scriptlet

/-- Whether an expression is an operand: no operator goes into it. -/
def Expr.isOperand : Expr → Bool
  | call _ _ precedence _ => precedence = .call
  | _ => true

/-- A binary operator with its right operand. -/
structure Operation where
  symbol : Symbol
  operand : Expr
  line : Line

namespace Operation

/-- The binary operators by level, from loosest to tightest. -/
def levels : List (List Symbol) :=
  [[.assign, .addAssign, .subAssign, .mulAssign, .divAssign],
    [.and, .or],
    [.equal, .notEqual, .less, .greater, .lessEqual, .greaterEqual],
    [.plus, .minus],
    [.times, .divide, .modulo]]

/-- The place of a symbol's level in the table. -/
def rank (s : Symbol) : Nat := levels.findIdx (·.contains s)

/-- The least rank that belongs to the right operand of an operator: assignments group to the
right, every other level to the left. -/
def rightRank (s : Symbol) : Nat := if rank s = 0 then 0 else rank s + 1

/-- A binary operator and an operand that no operator goes into. -/
def Proper (o : Operation) : Prop := o.symbol.isBinary = true ∧ o.operand.isOperand = true

instance : DecidablePred Proper := fun _ => inferInstanceAs (Decidable (_ ∧ _))

/-- The tree after one more operation. -/
def putInto (tree : Expr) (o : Operation) : Expr :=
  .insertOperator o.symbol.text o.operand o.line tree

theorem rank_eq_level (s : Symbol) : rank s = s.precedence.level := by
  cases s <;> rfl

theorem rank_le_rightRank (s : Symbol) : rank s ≤ rightRank s := by
  rw [rightRank]
  split_ifs <;> omega

theorem ofName_text (s : Symbol) : Precedence.ofName s.text = s.precedence := by
  cases s <;> rfl

theorem takesIn_iff (s t : Symbol) :
    Expr.takesIn s.precedence t.precedence = true ↔ rightRank s ≤ rank t := by
  rw [rightRank, rank_eq_level, rank_eq_level]
  cases s.precedence <;> cases t.precedence <;> decide

end Operation

open Operation (rank rightRank putInto)

/-- Operands joined by binary operators. -/
inductive OpTree where
  | operand (e : Expr)
  | node (symbol : Symbol) (left right : OpTree) (line : Line)

namespace OpTree

/-- The expression of a tree. -/
def expr : OpTree → Expr
  | operand e => e
  | node s left right line => .call s.text [left.expr, right.expr] s.precedence line

/-- The first operand of a tree. -/
def first : OpTree → Expr
  | operand e => e
  | node _ left _ _ => left.first

/-- The operations of a tree in the order of the source. -/
def operations : OpTree → List Operation
  | operand _ => []
  | node s left right line => left.operations ++ ⟨s, right.first, line⟩ :: right.operations

/-- The rank of the root; operands rank above every operator. -/
def rank : OpTree → Nat
  | operand _ => Operation.levels.length
  | node s _ _ _ => Operation.rank s

/-- Every node ranks at most as high as its left child and lower than its right child; for an
assignment it is the other way round. -/
def Ranked : OpTree → Prop
  | operand _ => True
  | node s left right _ =>
    left.Ranked ∧ right.Ranked ∧
      if Operation.rank s = 0 then Operation.rank s < left.rank ∧ Operation.rank s ≤ right.rank
      else Operation.rank s ≤ left.rank ∧ Operation.rank s < right.rank

/-! ## Precedence climbing -/

/-- The tree of a left operand and of the operations from a rank upward that follow it, and the
operations left over. -/
def climb (least : Nat) (left : OpTree) :
    (rest : List Operation) → { r : OpTree × List Operation // r.2.length ≤ rest.length }
  | [] => ⟨(left, []), Nat.le_refl _⟩
  | o :: rest =>
    if least ≤ Operation.rank o.symbol then
      let ⟨(right, between), h⟩ := climb (rightRank o.symbol) (operand o.operand) rest
      let ⟨result, h'⟩ := climb least (node o.symbol left right o.line) between
      ⟨result, Nat.le_trans h' (Nat.le_succ_of_le h)⟩
    else ⟨(left, o :: rest), Nat.le_refl _⟩
termination_by rest => rest.length
decreasing_by
  · simp
  · exact Nat.lt_succ_of_le h

/-! ## Putting operations into a tree -/

/-- The tree after one more operation. -/
def insert (o : Operation) : OpTree → OpTree
  | operand e => node o.symbol (operand e) (operand o.operand) o.line
  | node s left right line =>
    if rightRank s ≤ Operation.rank o.symbol then node s left (right.insert o) line
    else node o.symbol (node s left right line) (operand o.operand) o.line

/-- The tree after more operations. -/
def insertAll (t : OpTree) (ops : List Operation) : OpTree := ops.foldl (fun t o => t.insert o) t

/-- A tree made of operands and binary operators only. -/
def Proper (t : OpTree) : Prop := t.first.isOperand = true ∧ ∀ o ∈ t.operations, o.Proper

theorem first_insert (t : OpTree) (o : Operation) : (t.insert o).first = t.first := by
  induction t with
  | operand e => rfl
  | node s left right line _ _ => simp only [insert]; split_ifs <;> rfl

theorem operations_insert (t : OpTree) (o : Operation) :
    (t.insert o).operations = t.operations ++ [o] := by
  induction t with
  | operand e => rfl
  | node s left right line _ ih =>
    simp only [insert]
    split_ifs
    · simp only [operations, first_insert, ih, List.append_assoc, List.cons_append]
    · rfl

theorem proper_insert {t : OpTree} {o : Operation} (ht : t.Proper) (ho : o.Proper) :
    (t.insert o).Proper := by
  refine ⟨by rw [first_insert]; exact ht.1, fun p hp => ?_⟩
  rw [operations_insert] at hp
  rcases List.mem_append.1 hp with hp | hp
  · exact ht.2 p hp
  · rw [List.mem_singleton.1 hp]; exact ho

/-- The builder goes down the last arguments exactly where the tree does. -/
theorem putInto_expr {t : OpTree} (ht : t.Proper) (o : Operation) :
    putInto t.expr o = (t.insert o).expr := by
  induction t with
  | operand e =>
    have whole : e.isOperand = true := ht.1
    have notIn : ∀ p : Precedence, Expr.takesIn .call p = false := by intro p; cases p <;> rfl
    cases e with
    | call f args p l =>
      have tight : p = .call := by simpa [Expr.isOperand] using whole
      subst tight
      simp only [putInto, insert, expr, Expr.insertOperator, Operation.ofName_text, notIn,
        Bool.false_and, Bool.false_eq_true, if_false]
    | _ => simp only [putInto, insert, expr, Expr.insertOperator, Operation.ofName_text]
  | node s left right line _ ih =>
    have middle : Operation.Proper ⟨s, right.first, line⟩ := ht.2 _ (by simp [operations])
    have proper : right.Proper :=
      ⟨middle.2, fun p hp => ht.2 p (by simp [operations, hp])⟩
    have enters := Operation.takesIn_iff s o.symbol
    simp only [putInto, expr, Expr.insertOperator, Operation.ofName_text, insert, List.isEmpty_cons,
      Bool.not_false, Bool.and_true]
    by_cases h : rightRank s ≤ Operation.rank o.symbol
    · rw [if_pos (enters.2 h), if_pos h]
      simp only [Expr.insertLast, expr]
      rw [← ih proper, putInto]
    · rw [if_neg fun taken => h (enters.1 taken), if_neg h]
      rfl

theorem foldl_putInto {t : OpTree} {ops : List Operation} (ht : t.Proper)
    (hops : ∀ o ∈ ops, o.Proper) : ops.foldl putInto t.expr = (t.insertAll ops).expr := by
  induction ops generalizing t with
  | nil => rfl
  | cons o rest ih =>
    have ho := hops o List.mem_cons_self
    rw [List.foldl_cons, putInto_expr ht o, ih (proper_insert ht ho) fun p hp =>
      hops p (List.mem_cons_of_mem _ hp)]
    rfl

/-! ## The tree of a sequence of operations -/

theorem insertAll_append (t : OpTree) (a b : List Operation) :
    t.insertAll (a ++ b) = (t.insertAll a).insertAll b := List.foldl_append

/-- Operations that rank high enough all go into the right operand. -/
theorem insertAll_node (s : Symbol) (left right : OpTree) (line : Line) {ops : List Operation}
    (high : ∀ o ∈ ops, rightRank s ≤ Operation.rank o.symbol) :
    (node s left right line).insertAll ops = node s left (right.insertAll ops) line := by
  induction ops generalizing right with
  | nil => rfl
  | cons o rest ih =>
    have enters : (node s left right line).insert o = node s left (right.insert o) line := by
      simp only [insert]
      rw [if_pos (high o List.mem_cons_self)]
    calc (node s left right line).insertAll (o :: rest)
        = ((node s left right line).insert o).insertAll rest := rfl
      _ = (node s left (right.insert o) line).insertAll rest := by rw [enters]
      _ = node s left ((right.insert o).insertAll rest) line :=
        ih _ fun p hp => high p (List.mem_cons_of_mem _ hp)

/-- Whether an operation put into a tree goes around all of it. -/
def Surrounds (o : Operation) : OpTree → Prop
  | operand _ => True
  | node s _ _ _ => Operation.rank o.symbol < rightRank s

theorem insert_of_surrounds {t : OpTree} {o : Operation} (h : t.Surrounds o) :
    t.insert o = node o.symbol t (operand o.operand) o.line := by
  cases t with
  | operand e => rfl
  | node s left right line =>
    have low : ¬ rightRank s ≤ Operation.rank o.symbol := Nat.not_le.2 h
    simp only [insert]
    rw [if_neg low]

/-- Climbing takes the operations up to the first one of a lower rank and puts them into the
left operand one after another. -/
theorem climb_spec (least : Nat) (left : OpTree) (rest : List Operation)
    (start : ∀ o ∈ rest.head?, left.Surrounds o) :
    ∃ taken, rest = taken ++ (climb least left rest).val.2 ∧
      (climb least left rest).val.1 = left.insertAll taken ∧
      (∀ o ∈ taken, least ≤ Operation.rank o.symbol) ∧
      ∀ o ∈ (climb least left rest).val.2.head?, Operation.rank o.symbol < least := by
  match rest with
  | [] =>
    rw [climb]
    exact ⟨[], rfl, rfl, by simp, by simp⟩
  | o :: rest =>
    rw [climb]
    by_cases high : least ≤ Operation.rank o.symbol
    · rw [if_pos high]
      obtain ⟨inner, innerSplit, innerTree, innerHigh, innerStop⟩ :=
        climb_spec (rightRank o.symbol) (operand o.operand) rest fun _ _ => trivial
      generalize climb (rightRank o.symbol) (operand o.operand) rest = found at *
      obtain ⟨⟨right, between⟩, shorter⟩ := found
      obtain ⟨outer, outerSplit, outerTree, outerHigh, outerStop⟩ :=
        climb_spec least (node o.symbol left right o.line) between innerStop
      refine ⟨o :: (inner ++ outer), ?_, ?_, ?_, outerStop⟩
      · rw [List.cons_append, List.append_assoc, ← outerSplit]
        exact congrArg (o :: ·) innerSplit
      · have around := insert_of_surrounds (start o rfl)
        have entered := insertAll_node o.symbol left (operand o.operand) o.line innerHigh
        calc _ = (node o.symbol left right o.line).insertAll outer := outerTree
          _ = (node o.symbol left ((operand o.operand).insertAll inner) o.line).insertAll outer := by
            rw [← innerTree]
          _ = ((left.insert o).insertAll inner).insertAll outer := by rw [around, entered]
          _ = left.insertAll (o :: (inner ++ outer)) := (insertAll_append (left.insert o) _ _).symm
      · intro p hp
        rcases List.mem_cons.1 hp with rfl | hp
        · exact high
        · rcases List.mem_append.1 hp with hp | hp
          · exact Nat.le_trans high (Nat.le_trans (Operation.rank_le_rightRank _) (innerHigh p hp))
          · exact outerHigh p hp
    · rw [if_neg high]
      exact ⟨[], rfl, rfl, by simp, by simpa using high⟩
termination_by rest.length
decreasing_by
  · simp
  · exact Nat.lt_succ_of_le shorter

/-- Climbing from the lowest rank takes every operation. -/
theorem climb_zero (left : OpTree) (ops : List Operation)
    (start : ∀ o ∈ ops.head?, left.Surrounds o) :
    (climb 0 left ops).val = (left.insertAll ops, []) := by
  obtain ⟨taken, split, tree, -, stop⟩ := climb_spec 0 left ops start
  have nothing : (climb 0 left ops).val.2 = [] := by
    cases h : (climb 0 left ops).val.2 with
    | nil => rfl
    | cons o rest => exact absurd (stop o (by rw [h]; rfl)) (Nat.not_lt_zero _)
  rw [nothing, List.append_nil] at split
  exact Prod.ext (by rw [tree, split]) nothing

/-! ## Ranks along the tree -/

theorem rank_insert (t : OpTree) (o : Operation) (least : Nat) (ht : least ≤ t.rank)
    (ho : least ≤ Operation.rank o.symbol) : least ≤ (t.insert o).rank := by
  cases t with
  | operand e => exact ho
  | node s left right line =>
    simp only [insert]
    split_ifs
    · exact ht
    · exact ho

theorem rank_lt_of_binary {s : Symbol} (binary : s.isBinary = true) :
    Operation.rank s < Operation.levels.length := by
  cases s <;> revert binary <;> decide

theorem ranked_insert {t : OpTree} {o : Operation} (ht : t.Ranked)
    (binary : o.symbol.isBinary = true) : (t.insert o).Ranked := by
  have low := rank_lt_of_binary binary
  induction t with
  | operand e =>
    refine ⟨trivial, trivial, ?_⟩
    simp only [rank]
    split_ifs <;> omega
  | node s left right line _ ih =>
    obtain ⟨hl, hr, ranks⟩ := ht
    simp only [insert]
    by_cases enters : rightRank s ≤ Operation.rank o.symbol
    · rw [if_pos enters]
      refine ⟨hl, ih hr, ?_⟩
      have kept := rank_insert right o (rightRank s)
      rw [rightRank] at enters kept
      split_ifs at ranks enters kept ⊢ with assigns
      · exact ⟨ranks.1, by rw [assigns]; exact Nat.zero_le _⟩
      · exact ⟨ranks.1, kept ranks.2 enters⟩
    · rw [if_neg enters]
      refine ⟨⟨hl, hr, ranks⟩, trivial, ?_⟩
      simp only [rank]
      rw [rightRank] at enters
      split_ifs at enters ⊢ <;> omega

theorem insertAll_spec {t : OpTree} {ops : List Operation} (ht : t.Ranked)
    (binary : ∀ o ∈ ops, o.symbol.isBinary = true) :
    (t.insertAll ops).Ranked ∧ (t.insertAll ops).first = t.first ∧
      (t.insertAll ops).operations = t.operations ++ ops := by
  induction ops generalizing t with
  | nil => exact ⟨ht, rfl, (List.append_nil _).symm⟩
  | cons o rest ih =>
    obtain ⟨ranked, hf, ho⟩ := ih (ranked_insert ht (binary o List.mem_cons_self)) fun p hp =>
      binary p (List.mem_cons_of_mem _ hp)
    refine ⟨ranked, hf.trans (first_insert t o), ho.trans ?_⟩
    rw [operations_insert, List.append_assoc]
    rfl

/-- No operation of a ranked tree ranks below its root. -/
theorem rank_le_of_mem {t : OpTree} (ht : t.Ranked) {o : Operation} (ho : o ∈ t.operations) :
    t.rank ≤ Operation.rank o.symbol := by
  induction t with
  | operand e => simp [operations] at ho
  | node s left right line ihl ihr =>
    obtain ⟨hl, hr, ranks⟩ := ht
    have bounds : Operation.rank s ≤ left.rank ∧ Operation.rank s ≤ right.rank := by
      split_ifs at ranks <;> omega
    rcases List.mem_append.1 ho with ho | ho
    · exact Nat.le_trans bounds.1 (ihl hl ho)
    · rcases List.mem_cons.1 ho with rfl | ho
      · exact Nat.le_refl _
      · exact Nat.le_trans bounds.2 (ihr hr ho)

/-- A ranked tree is what putting its operations into its first operand gives. -/
theorem insertAll_operations {t : OpTree} (ht : t.Ranked) :
    (operand t.first).insertAll t.operations = t := by
  induction t with
  | operand e => rfl
  | node s left right line ihl ihr =>
    obtain ⟨hl, hr, ranks⟩ := ht
    have around : left.insert ⟨s, right.first, line⟩ = node s left (operand right.first) line := by
      apply insert_of_surrounds
      cases left with
      | operand e => trivial
      | node s' _ _ _ =>
        simp only [rank] at ranks
        simp only [Surrounds, rightRank]
        split_ifs at ranks ⊢ <;> omega
    have high : ∀ o ∈ right.operations, rightRank s ≤ Operation.rank o.symbol := by
      intro o ho
      have below := rank_le_of_mem hr ho
      rw [rightRank]
      split_ifs at ranks ⊢ <;> omega
    calc (operand left.first).insertAll (left.operations ++ ⟨s, right.first, line⟩ :: right.operations)
        = (left.insert ⟨s, right.first, line⟩).insertAll right.operations := by
          rw [insertAll_append, ihl hl]; rfl
      _ = node s left ((operand right.first).insertAll right.operations) line := by
          rw [around, insertAll_node s left _ line high]
      _ = node s left right line := by rw [ihr hr]

/-- Operations put one after another into the tree built so far give the tree that precedence
climbing reads. It keeps the order of the source, every node of it ranks as it must between its
children, and no other tree does both. -/
theorem foldl_putInto_eq_climb (first : Expr) (ops : List Operation)
    (whole : first.isOperand = true) (proper : ∀ o ∈ ops, o.Proper) :
    ∃ tree : OpTree, (climb 0 (operand first) ops).val = (tree, []) ∧
      ops.foldl putInto first = tree.expr ∧
      tree.first = first ∧ tree.operations = ops ∧ tree.Ranked ∧
      ∀ other : OpTree, other.first = first → other.operations = ops → other.Ranked →
        other = tree := by
  obtain ⟨ranked, hfirst, hops⟩ :=
    insertAll_spec (t := operand first) trivial fun o ho => (proper o ho).1
  refine ⟨(operand first).insertAll ops, climb_zero _ _ fun _ _ => trivial, ?_, hfirst, hops, ranked,
    ?_⟩
  · exact foldl_putInto (t := operand first) ⟨whole, by simp [operations]⟩ proper
  · intro other sameFirst sameOps otherRanked
    rw [← insertAll_operations otherRanked, sameFirst, sameOps]

/-- The theorem at `a = b += c + d * e - f == g && h`, where both kinds of grouping and every level
occur. -/
theorem foldl_putInto_every_level :
    let ops : List Operation :=
      [⟨.assign, .named "b" 1, 1⟩, ⟨.addAssign, .named "c" 1, 1⟩, ⟨.plus, .named "d" 1, 1⟩,
        ⟨.times, .named "e" 1, 1⟩, ⟨.minus, .named "f" 1, 1⟩, ⟨.equal, .named "g" 1, 1⟩,
        ⟨.and, .named "h" 1, 1⟩]
    ∃ tree : OpTree, (climb 0 (operand (.named "a" 1)) ops).val = (tree, []) ∧
      ops.foldl putInto (.named "a" 1) = tree.expr ∧
      tree.first = .named "a" 1 ∧ tree.operations = ops ∧ tree.Ranked ∧
      ∀ other : OpTree, other.first = .named "a" 1 → other.operations = ops → other.Ranked →
        other = tree :=
  foldl_putInto_eq_climb (.named "a" 1) _ rfl (by decide)

end OpTree

end Scriptlet
