import Scriptlet.Proofs.Store.Equality

/-!
# Comparison

The comparison of two values says the same as the comparison of the exchanged values with the
mirrored operator (`comparison_flip`): only the operand of the lower rank is converted, on whichever
side it stands, and each order of values turns around with them. What cannot be compared in one order
cannot be in the other.
-/

namespace Scriptlet

/-- The operator that asks of exchanged operands what an operator asks of them. -/
def BinaryOperator.flip : BinaryOperator → BinaryOperator
  | .less => .greater
  | .greater => .less
  | .lessEqual => .greaterEqual
  | .greaterEqual => .lessEqual
  | op => op

/-- The error of exchanged operands. -/
def RuntimeError.mirrored : RuntimeError → RuntimeError
  | .incomparable left right line => .incomparable right left line
  | e => e

namespace BinaryOperator

theorem isEquality_flip (op : BinaryOperator) : op.flip.isEquality = op.isEquality := by
  cases op <;> rfl

theorem flip_eq_of_isEquality {op : BinaryOperator} (equality : op.isEquality = true) :
    op.flip = op := by
  cases op <;> first | rfl | cases equality

theorem holds_flip (op : BinaryOperator) (order : Option Ordering) :
    op.flip.holds (order.map Ordering.swap) = op.holds order := by
  cases op <;> rcases order with _ | (_ | _ | _) <;> rfl

theorem holds_notEqual (order : Option Ordering) :
    BinaryOperator.notEqual.holds order = !BinaryOperator.equal.holds order := by
  simp [holds]

end BinaryOperator

namespace Store

variable {s t : Store} {a b v w : Value} {op : BinaryOperator} {line : Line}

/-! ## Order -/

theorem equalOrder_swap (equal : Bool) : (equalOrder equal).map Ordering.swap = equalOrder equal := by
  cases equal <;> rfl

theorem order?_flip (op : BinaryOperator) (v w : Value) :
    s.order? op.flip w v = (s.order? op v w).map (Option.map Ordering.swap) := by
  have same := equal_comm (s := s) w v
  cases v <;> cases w <;>
    simp only [order?, BinaryOperator.isEquality_flip, same, Option.map_some, Option.map_none,
      equalOrder_swap, apply_ite (Option.map (Option.map Ordering.swap)), ← Number.order_swap,
      ← Std.OrientedCmp.eq_swap, Ordering.swap_eq]

/-- Only whether an operator asks for equality alone makes a difference to the order. -/
theorem order?_congr {op' : BinaryOperator} (same : op.isEquality = op'.isEquality) :
    s.order? op v w = s.order? op' v w := by
  unfold order?
  rw [same]

/-! ## One kind -/

theorem eq_of_rank {k l : Kind} (same : k.rank = l.rank) : k = l := by
  cases k <;> cases l <;> first | rfl | cases same

/-- The second of two values stays as it is if its kind is the higher one. -/
theorem unify_of_rank_right (here : b.kind ≠ .member) (higher : a.kind.rank ≤ b.kind.rank) :
    s.unify a b line = (s.upconvert a b.kind line).map fun p => ((p.1, b), p.2) := by
  have max : a.kind.max b.kind = b.kind := by
    unfold Kind.max
    split
    · rfl
    · next lower => exact eq_of_rank (Nat.le_antisymm higher (Nat.le_of_not_lt lower))
  rw [unify, max]
  cases s.upconvert a b.kind line with
  | error e => rfl
  | ok p =>
    obtain ⟨v, t⟩ := p
    rw [ok_bind]
    dsimp only
    rw [upconvert_self here]
    rfl

theorem unify_comm (left : a.kind ≠ .member) (right : b.kind ≠ .member) :
    s.unify b a line = (s.unify a b line).map fun r => (r.1.swap, r.2) := by
  rcases Nat.le_total b.kind.rank a.kind.rank with higher | higher
  · rw [unify_of_rank left higher rfl, unify_of_rank_right left higher]
    cases s.upconvert b a.kind line <;> rfl
  · rw [unify_of_rank right higher rfl, unify_of_rank_right right higher]
    cases s.upconvert a b.kind line <;> rfl

theorem error_of_upconvert {target : Kind} {e : RuntimeError} (here : v.kind ≠ .member)
    (failed : s.upconvert v target line = .error e) :
    e = .invalidConversion v.kind target line := by
  rw [upconvert, settle_of_kind here, ok_bind] at failed
  dsimp only at failed
  repeat' split at failed
  all_goals cases failed
  all_goals rfl

theorem error_of_unify {e : RuntimeError} (left : a.kind ≠ .member) (right : b.kind ≠ .member)
    (failed : s.unify a b line = .error e) :
    ∃ source target, e = .invalidConversion source target line := by
  have of_map {α β : Type} {x : Except RuntimeError α} {f : α → β} (failed : x.map f = .error e) :
      x = .error e := by
    cases x <;> cases failed
    rfl
  rcases Nat.le_total b.kind.rank a.kind.rank with higher | higher
  · rw [unify_of_rank left higher rfl] at failed
    exact ⟨_, _, error_of_upconvert right (of_map failed)⟩
  · rw [unify_of_rank_right right higher] at failed
    exact ⟨_, _, error_of_upconvert left (of_map failed)⟩

/-! ## Comparisons -/

theorem comparison_of_apart (apart : a.kind.isNumberLike ≠ b.kind.isNumberLike) :
    s.comparison op a b line = .error (.incomparable a.kind b.kind line) := by
  rw [comparison, unifyForCompare, if_neg apart]
  rfl

theorem comparison_of_unconvertible {source target : Kind} {l : Line}
    (near : a.kind.isNumberLike = b.kind.isNumberLike)
    (failed : s.unify a b line = .error (.invalidConversion source target l)) :
    s.comparison op a b line =
      if op.isEquality then .ok (.ofBool (op = .notEqual), s)
      else .error (.invalidConversion source target l) := by
  rw [comparison, unifyForCompare, if_pos near, failed]
  rfl

theorem comparison_of_unified (near : a.kind.isNumberLike = b.kind.isNumberLike)
    (unified : s.unify a b line = .ok ((v, w), t)) :
    s.comparison op a b line =
      (t.order? op v w).elim (.error (.incomparable v.kind w.kind line))
        fun order => .ok (.ofBool (op.holds order), t) := by
  rw [comparison, unifyForCompare, if_pos near, unified]
  dsimp only
  cases t.order? op v w <;> rfl

/-- Two values are not compared, do not come to one kind, or do. -/
theorem unify_cases (left : a.kind ≠ .member) (right : b.kind ≠ .member) (line : Line) :
    a.kind.isNumberLike ≠ b.kind.isNumberLike ∨ a.kind.isNumberLike = b.kind.isNumberLike ∧
      ((∃ source target, s.unify a b line = .error (.invalidConversion source target line)) ∨
        ∃ v w t, s.unify a b line = .ok ((v, w), t)) := by
  by_cases near : a.kind.isNumberLike = b.kind.isNumberLike
  · refine .inr ⟨near, ?_⟩
    cases unified : s.unify a b line with
    | error e =>
      obtain ⟨source, target, rfl⟩ := error_of_unify left right unified
      exact .inl ⟨source, target, rfl⟩
    | ok r => exact .inr ⟨_, _, _, rfl⟩
  · exact .inl near

theorem comparison_flip (left : a.kind ≠ .member) (right : b.kind ≠ .member) :
    s.comparison op.flip b a line = (s.comparison op a b line).mapError RuntimeError.mirrored := by
  rcases unify_cases left right line with apart | ⟨near, ⟨source, target, failed⟩ | ⟨v, w, t, unified⟩⟩
  · rw [comparison_of_apart apart, comparison_of_apart apart.symm]
    rfl
  · have turned : s.unify b a line = .error (.invalidConversion source target line) := by
      rw [unify_comm left right, failed]
      rfl
    rw [comparison_of_unconvertible near failed, comparison_of_unconvertible near.symm turned,
      BinaryOperator.isEquality_flip]
    split
    · next equality => rw [BinaryOperator.flip_eq_of_isEquality equality]; rfl
    · rfl
  · have turned : s.unify b a line = .ok ((w, v), t) := by
      rw [unify_comm left right, unified]
      rfl
    rw [comparison_of_unified near unified, comparison_of_unified near.symm turned, order?_flip]
    cases t.order? op v w with
    | none => rfl
    | some order =>
      exact congrArg (fun holds => Except.ok (Value.ofBool holds, t))
        (BinaryOperator.holds_flip op order)

theorem comparison_notEqual (left : a.kind ≠ .member) (right : b.kind ≠ .member) :
    ∃ r : Except RuntimeError (Bool × Store),
      s.comparison .equal a b line = r.map (fun p => (.ofBool p.1, p.2)) ∧
        s.comparison .notEqual a b line = r.map fun p => (.ofBool !p.1, p.2) := by
  rcases unify_cases left right line with apart | ⟨near, ⟨source, target, failed⟩ | ⟨v, w, t, unified⟩⟩
  · exact ⟨.error _, comparison_of_apart apart, comparison_of_apart apart⟩
  · exact ⟨.ok (false, s), comparison_of_unconvertible near failed,
      comparison_of_unconvertible near failed⟩
  · have same : t.order? .notEqual v w = t.order? .equal v w := order?_congr rfl
    rw [comparison_of_unified near unified, comparison_of_unified near unified, same]
    cases t.order? .equal v w with
    | none => exact ⟨.error _, rfl, rfl⟩
    | some order =>
      exact ⟨.ok (BinaryOperator.equal.holds order, t), rfl,
        congrArg (fun holds => Except.ok (Value.ofBool holds, t))
          (BinaryOperator.holds_notEqual order)⟩

theorem error_of_comparison {e : RuntimeError} (left : a.kind ≠ .member) (right : b.kind ≠ .member)
    (failed : s.comparison op a b line = .error e) :
    (∃ k l, e = .incomparable k l line) ∨
      op.isEquality = false ∧ ∃ source target, e = .invalidConversion source target line := by
  rcases unify_cases left right line with apart | ⟨near, ⟨source, target, unified⟩ | ⟨v, w, t, unified⟩⟩
  · rw [comparison_of_apart apart] at failed
    cases failed
    exact .inl ⟨_, _, rfl⟩
  · rw [comparison_of_unconvertible near unified] at failed
    split at failed
    · cases failed
    · next other =>
      cases failed
      exact .inr ⟨Bool.eq_false_iff.2 other, _, _, rfl⟩
  · rw [comparison_of_unified near unified] at failed
    cases order : t.order? op v w with
    | none =>
      rw [order] at failed
      cases failed
      exact .inl ⟨_, _, rfl⟩
    | some o =>
      rw [order] at failed
      cases failed

/-- Comparisons of resolved values are consistent: the mirrored operator says the same of the
exchanged values, or fails with the mirrored error; values are unequal exactly if they are not equal;
and nothing but an order can fail for want of a conversion. -/
theorem comparison_consistent (op : BinaryOperator) (left : a.kind ≠ .member)
    (right : b.kind ≠ .member) (line : Line) :
    s.comparison op.flip b a line = (s.comparison op a b line).mapError RuntimeError.mirrored ∧
      (∃ r : Except RuntimeError (Bool × Store),
        s.comparison .equal a b line = r.map (fun p => (.ofBool p.1, p.2)) ∧
          s.comparison .notEqual a b line = r.map fun p => (.ofBool !p.1, p.2)) ∧
      ∀ e, s.comparison op a b line = .error e →
        (∃ k l, e = .incomparable k l line) ∨
          op.isEquality = false ∧ ∃ source target, e = .invalidConversion source target line :=
  ⟨comparison_flip left right, comparison_notEqual left right,
    fun _ => error_of_comparison left right⟩

/-- A list of one text against the text, which becomes such a list, and an array of integers against a
class instance, which does not become an array. -/
theorem comparison_consistent_mixed :
    let s : Store :=
      { Store.empty with
        lists := #[[.string "a", .int 1]]
        arrays := #[⟨.int, [.int 1], rfl, by simp [Value.kind]⟩] }
    (∃ t, s.comparison .less (.string "a") (.list ⟨0⟩) 1 = .ok (.ofBool true, t) ∧
        s.comparison .greater (.list ⟨0⟩) (.string "a") 1 = .ok (.ofBool true, t)) ∧
      s.comparison .greater (.object ⟨0⟩) (.array ⟨0⟩) 1 =
        .error (.invalidConversion .array .object 1) ∧
      s.comparison .less (.array ⟨0⟩) (.object ⟨0⟩) 1 =
        .error (.invalidConversion .array .object 1) := by
  intro s
  have text := (comparison_consistent (s := s) .less (a := .string "a") (b := .list ⟨0⟩) nofun nofun 1).1
  have object := (comparison_consistent (s := s) .greater (a := .object ⟨0⟩) (b := .array ⟨0⟩)
    nofun nofun 1).1
  have less : s.comparison .less (.string "a") (.list ⟨0⟩) 1 =
      .ok (.ofBool true, (s.newList [.string "a"]).2) := rfl
  have greater : s.comparison .greater (.object ⟨0⟩) (.array ⟨0⟩) 1 =
      .error (.invalidConversion .array .object 1) := rfl
  rw [less] at text
  rw [greater] at object
  exact ⟨⟨_, less, text⟩, greater, object⟩

end Store

end Scriptlet
