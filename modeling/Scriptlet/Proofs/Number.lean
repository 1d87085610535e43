import Scriptlet.Store.Comparison

/-!
# Floats in order

The order of two floats turns around with them, and floats that are equal as numbers have the same
order to every other float. What is not a number has no order to anything, not even to itself.
-/

namespace Scriptlet.Number

open Float.Model

theorem compare_swap (x y : UnpackedFloat) : y.compare x = (x.compare y).map Ordering.swap := by
  have turned (e f : Int) (m n : Nat) : (compare f e).then (compare n m) =
      ((compare e f).then (compare m n)).swap := by
    rw [Ordering.swap_then, ← Std.OrientedCmp.eq_swap, ← Std.OrientedCmp.eq_swap]
  rcases x with (_ | _) | _ | _ | ⟨(_ | _), m, e, _⟩ <;>
    rcases y with (_ | _) | _ | _ | ⟨(_ | _), n, f, _⟩ <;>
    try rfl
  · exact congrArg (fun order => some order.swap) (turned e f m n)
  · exact congrArg some (turned e f m n)

theorem compare_congr {x y : UnpackedFloat} (equal : x.compare y = some .eq) (z : UnpackedFloat) :
    x.compare z = y.compare z := by
  have same {e f : Int} {m n : Nat} (both : (compare e f).then (compare m n) = .eq) :
      e = f ∧ m = n := by
    obtain ⟨exponents, mantissas⟩ := Ordering.then_eq_eq.1 both
    exact ⟨Std.LawfulEqOrd.eq_of_compare exponents, Std.LawfulEqOrd.eq_of_compare mantissas⟩
  rcases x with (_ | _) | _ | _ | ⟨(_ | _), m, e, _⟩ <;>
    rcases y with (_ | _) | _ | _ | ⟨(_ | _), n, f, _⟩ <;>
    try first | rfl | cases equal
  · -- Zeros of both signs are equal.
    rcases z with (_ | _) | _ | _ | ⟨(_ | _), k, g, _⟩ <;> rfl
  · obtain ⟨rfl, rfl⟩ := same (Ordering.swap_eq_eq.1 (Option.some.inj equal))
    rfl
  · obtain ⟨rfl, rfl⟩ := same (Option.some.inj equal)
    rfl

theorem lt_iff_compare (x y : Float) :
    x < y ↔ x.toModel.unpack.compare y.toModel.unpack = some .lt := by
  show decide (x.toModel < y.toModel) = true ↔ _
  rw [decide_eq_true_iff]
  show (x.toModel.unpack.compare y.toModel.unpack == some .lt) = true ↔ _
  rw [beq_iff_eq]

theorem order_eq_compare (x y : Float) :
    order x y = x.toModel.unpack.compare y.toModel.unpack := by
  have same : (x == y) = (x.toModel.unpack.compare y.toModel.unpack == some .eq) := rfl
  simp only [order, lt_iff_compare, same, compare_swap x.toModel.unpack y.toModel.unpack]
  rcases x.toModel.unpack.compare y.toModel.unpack with _ | (_ | _ | _) <;> rfl

theorem order_swap (x y : Float) : order y x = (order x y).map Ordering.swap := by
  rw [order_eq_compare, order_eq_compare, compare_swap]

theorem beq_eq_order (x y : Float) : (x == y) = (order x y == some .eq) := by
  rw [order_eq_compare]
  rfl

theorem beq_comm (x y : Float) : (x == y) = (y == x) := by
  rw [beq_eq_order, beq_eq_order, order_swap x y]
  rcases order x y with _ | (_ | _ | _) <;> rfl

theorem beq_congr {x y : Float} (equal : (x == y) = true) (z : Float) : (x == z) = (y == z) := by
  rw [beq_eq_order, beq_iff_eq, order_eq_compare] at equal
  rw [beq_eq_order, beq_eq_order, order_eq_compare, order_eq_compare, compare_congr equal]

end Scriptlet.Number

namespace Scriptlet.Vec3

theorem equal_comm (u v : Vec3) : u.equal v = v.equal u := by
  rw [equal, equal, Number.beq_comm u.x, Number.beq_comm u.y, Number.beq_comm u.z]

theorem equal_congr {u v : Vec3} (same : u.equal v = true) (w : Vec3) : u.equal w = v.equal w := by
  simp only [equal, Bool.and_eq_true] at same
  obtain ⟨⟨first, second⟩, third⟩ := same
  rw [equal, equal, Number.beq_congr first, Number.beq_congr second, Number.beq_congr third]

end Scriptlet.Vec3
