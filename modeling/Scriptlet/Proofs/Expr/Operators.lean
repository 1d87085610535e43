import Scriptlet.Proofs.Expr.Reading
import Scriptlet.Proofs.Precedence

/-!
# Trees of operators that are read back

A run that has the operands and operators of a tree in their order reads as the tree, if the tree
ranks its nodes between their children.
-/

namespace Scriptlet.OpTree

open Scriptlet.Expr (Reads)
open Scriptlet.Operation (putInto)

variable {t l r : OpTree} {ts us : List PlacedToken}

/-- Whether a run reads as the first operand of a tree and then as its operations. -/
def ReadsAs (t : OpTree) (ts : List PlacedToken) : Prop :=
  ∃ first later, ts = first ++ later ∧ Reads (.operand t.first) first ∧
    ∀ tree e rest, Reads (.operators (t.operations.foldl putInto tree) e) rest →
      Reads (.operators tree e) (later ++ rest)

theorem readsAs_operand {e : Expr} (reads : Reads (.operand e) ts) : (operand e).ReadsAs ts :=
  ⟨ts, [], (List.append_nil ts).symm, reads, fun _ _ _ later => later⟩

theorem ReadsAs.node {s : Symbol} (binary : s.isBinary = true) (left : l.ReadsAs ts)
    (right : r.ReadsAs us) (line : Line) :
    (node s l r line).ReadsAs (ts ++ ⟨.symbol s, line⟩ :: us) := by
  obtain ⟨first, later, rfl, readsFirst, readsLater⟩ := left
  obtain ⟨first', later', rfl, readsFirst', readsLater'⟩ := right
  refine ⟨first, later ++ ⟨.symbol s, line⟩ :: (first' ++ later'), by simp, readsFirst, ?_⟩
  intro tree e rest reads
  rw [operations, List.foldl_append, List.foldl_cons] at reads
  rw [List.append_assoc, List.cons_append, List.append_assoc]
  exact readsLater _ _ _ (.operator binary readsFirst' (readsLater' _ _ _ reads))

/-- The expression of a ranked tree is what its run reads as. -/
theorem ReadsAs.reads (reads : t.ReadsAs ts) (ranked : t.Ranked) (proper : t.Proper) :
    Reads (.expr t.expr) ts := by
  obtain ⟨first, later, rfl, readsFirst, readsLater⟩ := reads
  have built : t.operations.foldl putInto t.first = t.expr := by
    have first : (operand t.first).Proper := ⟨proper.1, by simp [operations]⟩
    calc t.operations.foldl putInto t.first
        = ((operand t.first).insertAll t.operations).expr := foldl_putInto first proper.2
      _ = t.expr := by rw [insertAll_operations ranked]
  have reads := readsLater t.first t.expr [] (by rw [built]; exact .done)
  rw [List.append_nil] at reads
  exact .expr readsFirst reads

theorem Proper.node {s : Symbol} (binary : s.isBinary = true) (left : l.Proper) (right : r.Proper)
    (line : Line) : (node s l r line).Proper := by
  refine ⟨left.1, fun o member => ?_⟩
  rcases List.mem_append.1 member with member | member
  · exact left.2 o member
  · rcases List.mem_cons.1 member with rfl | member
    · exact ⟨binary, right.1⟩
    · exact right.2 o member

end Scriptlet.OpTree
