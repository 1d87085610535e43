import Scriptlet.Proofs.Store.Leaving

/-!
# Closings

What evaluation is to do when it closes a scope is to keep the scope for every function and every
instance that is live afterwards and looks up names in it (`Closing.Safe`). What it does is to keep
what is needed, and this falls short of it in one way only (`Closing.Exact`): a scope is lost to
what looks up names in it through one of its own named sub-scopes, if nothing else needs it.
-/

namespace Scriptlet

namespace Store

variable {s : Store} {e q r : ScopeRef} {fuel : Nat}

theorem self_mem_outward (bound : e.index < fuel) : e ∈ s.outward fuel e := by
  cases fuel with
  | zero => exact absurd bound (Nat.not_lt_zero _)
  | succ fuel => exact List.mem_cons_self

/-- With a scope of a chain, the one around it is on the chain. -/
theorem Sound.parent_mem_outward (sound : s.Sound) (bound : e.index < fuel)
    (member : q ∈ s.outward fuel e) (parent : (s.scope q).parent = some r) :
    r ∈ s.outward fuel e := by
  induction fuel generalizing e with
  | zero => cases member
  | succ fuel ih =>
    rcases List.mem_cons.1 member with rfl | outside
    · have older : r.index < q.index := (sound.scope q).parent r parent
      refine List.mem_cons_of_mem _ ?_
      rw [parent]
      exact self_mem_outward (by omega)
    · cases around : (s.scope e).parent with
      | none =>
        rw [around] at outside
        cases outside
      | some p =>
        rw [around] at outside
        have older : p.index < e.index := (sound.scope e).parent p around
        refine List.mem_cons_of_mem _ ?_
        rw [around]
        exact ih (by omega) outside

/-- A chain that goes through a scope begins there or comes to it from a scope inside it. -/
theorem eq_or_exists_of_mem_outward (member : r ∈ s.outward fuel e) :
    e = r ∨ ∃ q ∈ s.outward fuel e, (s.scope q).parent = some r := by
  induction fuel generalizing e with
  | zero => cases member
  | succ fuel ih =>
    rcases List.mem_cons.1 member with rfl | outside
    · exact .inl rfl
    · cases around : (s.scope e).parent with
      | none =>
        rw [around] at outside
        cases outside
      | some p =>
        rw [around] at outside
        rcases ih outside with rfl | ⟨q, isIn, parent⟩
        · exact .inr ⟨e, List.mem_cons_self, around⟩
        · refine .inr ⟨q, List.mem_cons_of_mem _ ?_, parent⟩
          rw [around]
          exact isIn

theorem Sound.hasScope_environments (sound : s.Sound) {n : Node} (h : e ∈ s.environments n) :
    s.HasScope e := by
  cases n with
  | function f =>
    have refers : .scope e ∈ s.referents (.function f) := List.mem_map.2 ⟨e, h, rfl⟩
    exact sound.hasNode refers
  | scope o =>
    simp only [environments] at h
    split at h
    · rename_i isClass
      obtain rfl : e = o := by simpa using h
      by_contra absent
      have none : s.scopes[e.index]? = none := Array.getElem?_eq_none (Nat.le_of_not_lt absent)
      simp [Store.scope, none, default, Scope.new] at isClass
    · cases h
  | _ => cases h

end Store

namespace Closing

/-- Whether the scope is kept. -/
def kept (c : Closing) : Bool := (c.store.leave c.held c.scope).1

/-- The store after it. -/
def after (c : Closing) : Store := (c.store.leave c.held c.scope).2

/-- Whether a function, or an instance, is live afterwards and looks up names in a scope. -/
def Looks (c : Closing) (n : Node) (e : ScopeRef) : Prop :=
  c.after.Reaches c.held n ∧ e ∈ c.store.environments n

/-- Whether the scope is kept for all that is live afterwards and looks up names in it. -/
def Safe (c : Closing) : Prop :=
  ∀ n e, c.Looks n e → c.scope ∈ c.store.chain e → c.kept = true

/-- What a closing does: it keeps a scope that is needed, with the whole store, and empties any
other. So it is safe unless it empties a scope in which something that is live looks up names
through a named sub-scope. -/
structure Exact (c : Closing) : Prop where
  kept_iff : c.kept = true ↔ c.store.Needed c.held c.scope
  keeps : c.kept = true → c.after = c.store
  empties : c.kept = false → c.after.Empty c.scope
  safe_iff : c.Safe ↔ c.kept = true ∨ ∀ n e, c.Looks n e → ∀ q ∈ c.store.chain e,
    (c.store.scope q).parent = some c.scope → q ∉ (c.store.scope c.scope).scopes.values

theorem exact (c : Closing) (sound : c.store.Sound) (usable : ∀ v ∈ c.held, c.store.Usable v)
    (here : c.store.HasScope c.scope) (plain : (c.store.scope c.scope).isClass = false) :
    c.Exact where
  kept_iff := sound.leave_iff_needed usable here plain
  keeps := Store.leave_eq_of_kept
  empties := Store.empty_of_not_kept here
  safe_iff := by
    have live {n : Node} {e : ScopeRef} (looks : c.Looks n e) (enters : c.store.Enters e c.scope) :
        c.kept = true := sound.kept_of_live usable here plain looks.1 looks.2 enters
    constructor
    · intro safe
      by_cases kept : c.kept = true
      · exact .inl kept
      · refine .inr fun n e looks q member parent _ => kept (safe n e looks ?_)
        exact sound.parent_mem_outward (sound.hasScope_environments looks.2) member parent
    · rintro (kept | outside) n e looks member
      · exact kept
      · rcases Store.eq_or_exists_of_mem_outward member with same | ⟨q, isIn, parent⟩
        · exact live looks (.inl same)
        · exact live looks (.inr ⟨q, isIn, parent, outside n e looks q isIn parent⟩)

end Closing

end Scriptlet
