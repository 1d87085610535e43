import Scriptlet.Proofs.Evaluation.Congruence
import Scriptlet.Proofs.Evaluation.Exits

/-!
# Back in the scope before

Evaluation that ends, with a value or with an error, ends in the scope that it began in or in the
global one; the latter happens after a script failed that a host function ran. A scope that is
entered is left for the one around it in either case.
-/

namespace Scriptlet

/-- Whether a machine is left as evaluation leaves it: in the scope before it or in the global
scope, which stays the same, with the closings before it. -/
structure Machine.Homes (m n : Machine) : Prop where
  global : n.global = m.global
  current : n.current = m.current ∨ n.current = m.global
  closings : ∀ c, m.closings c → n.closings c

namespace Machine.Homes

theorem refl (m : Machine) : m.Homes m := ⟨rfl, .inl rfl, fun _ before => before⟩

theorem trans {m n k : Machine} (first : m.Homes n) (second : n.Homes k) : m.Homes k := by
  refine ⟨second.global.trans first.global, ?_, fun c before =>
    second.closings c (first.closings c before)⟩
  rcases second.current with stays | leaves
  · rw [stays]
    exact first.current
  · exact .inr (leaves.trans first.global)

theorem close (m : Machine) (held : List Value) (r : ScopeRef) : m.Homes (m.close held r) := by
  unfold Machine.close
  split
  · exact .refl m
  · exact ⟨rfl, .inl rfl, fun _ => .inr⟩

end Machine.Homes

namespace Eval

variable {α β : Type} {x : Eval α}

/-- Whether every end of an evaluation leaves the machine in the scope before it or in the global
one. -/
def Homing (x : Eval α) : Prop :=
  ∀ {setting m log r n}, x.Exits setting m log r n → m.Homes n

theorem Primitive.homing (h : Primitive x) : x.Homing := by
  intro setting m log r n ends
  cases h with
  | pure _ | look _ | change _ | changeHere _ | print _ =>
    obtain ⟨-, -, rfl⟩ := Outcome.exits_value_iff.1 ends
    exact ⟨rfl, .inl rfl, fun _ before => before⟩
  | fail _ =>
    obtain ⟨-, -, rfl⟩ := Outcome.exits_error_iff.1 ends
    exact .refl _
  | check f =>
    simp only [Eval.Exits, Eval.check] at ends
    split at ends
    · obtain ⟨-, -, rfl⟩ := Outcome.exits_value_iff.1 ends
      exact .refl _
    · obtain ⟨-, -, rfl⟩ := Outcome.exits_error_iff.1 ends
      exact .refl _
  | attempt f =>
    simp only [Eval.Exits, Eval.attempt] at ends
    split at ends
    · obtain ⟨-, -, rfl⟩ := Outcome.exits_value_iff.1 ends
      exact ⟨rfl, .inl rfl, fun _ before => before⟩
    · obtain ⟨-, -, rfl⟩ := Outcome.exits_error_iff.1 ends
      exact .refl _
  | leaveAll =>
    obtain ⟨-, -, rfl⟩ := exits_leaveAll_iff.1 ends
    exact ⟨rfl, .inr rfl, fun _ before => before⟩
  | ask request =>
    cases ends with
    | ask ends =>
      obtain ⟨-, -, rfl⟩ := Outcome.exits_value_iff.1 ends
      exact .refl _

theorem Homing.bind {f : α → Eval β} (first : x.Homing) (second : ∀ a, (f a).Homing) :
    (x >>= f).Homing := by
  intro setting m log r n ends
  rcases exists_of_exits_bind ends with ⟨e, rfl, fails⟩ | ⟨l₁, l₂, a, k, rfl, before, after⟩
  · exact first fails
  · exact (first before).trans (second a after)

theorem homing_setting : setting.Homing := by
  intro _ m log r n ends
  obtain ⟨-, -, rfl⟩ := Outcome.exits_value_iff.1 ends
  exact .refl _

theorem Homing.catching (h : x.Homing) : (catching x).Homing := by
  intro setting m log r n ends
  obtain ⟨inner, rfl, inside⟩ := exits_catching_iff.1 ends
  exact h inside

/-- A scope that is entered is left for the one around it, wherever evaluation ends inside. -/
theorem Homing.within (h : x.Homing) (r : ScopeRef) (results : α → List Value) :
    (within r results x).Homing := by
  intro setting m log result n ends
  obtain ⟨k, inside, rfl⟩ := Outcome.exits_finish_iff.1 ends
  have entered : Machine.Homes { m with current := r } k := h inside
  have returned : m.Homes { k with current := m.current } :=
    ⟨entered.global, .inl rfl, entered.closings⟩
  exact returned.trans (.close _ _ r)

theorem Homing.holding (h : x.Homing) (values : List Value) : (holding values x).Homing :=
  fun ends => h ends

theorem congruence_homing : Congruence fun x _ => x.Homing where
  cutOff _ _ _ _ _ _ ends := absurd ends Outcome.not_exits_cutOff
  primitive h := h.homing
  setting h _ _ := homing_setting.bind h
  bind first second := first.bind second
  catching h := h.catching
  holding values h := h.holding values
  within r results h := h.within r results

end Eval

namespace Evaluator

/-- Nothing that the evaluator does leaves the machine in a scope of its own. -/
theorem homing (fuel : Nat) : Related (fun x _ => x.Homing) fuel fuel :=
  related Eval.congruence_homing (Nat.le_refl fuel)

end Evaluator

end Scriptlet
