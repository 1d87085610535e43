import Scriptlet.Proofs.Store.Cells
import Scriptlet.Proofs.Store.Lineage

/-!
# What names stand for

A name stands for a variable, which is the nearest one on the way outward (`Binds`). What it holds
depends on the scopes alone and stays while other variables change (`SameBut`).
-/

namespace Scriptlet.Store

variable {s t u : Store} {q r p : ScopeRef} {x y : String} {a v w : Value}
  {inner outer : List ScopeRef}

/-- Whether two stores have the same scopes with the same variables and functions in them, but for one
variable. -/
structure SameBut (s t : Store) (q : ScopeRef) (x : String) : Prop where
  size : t.scopes.size = s.scopes.size
  parent : ∀ r, (t.scope r).parent = (s.scope r).parent
  function : ∀ r y, t.functionAt? r y = s.functionAt? r y
  vars : ∀ r y, r ≠ q ∨ y ≠ x → t.variableAt? r y = s.variableAt? r y

theorem SameBut.trans (first : s.SameBut t q x) (second : t.SameBut u q x) : s.SameBut u q x where
  size := second.size.trans first.size
  parent r := (second.parent r).trans (first.parent r)
  function r y := (second.function r y).trans (first.function r y)
  vars r y other := (second.vars r y other).trans (first.vars r y other)

theorem IntactBut.variableAt? (intact : s.IntactBut a t) (plain : ∀ r, a ≠ .object r)
    (r : ScopeRef) (y : String) : t.variableAt? r y = s.variableAt? r y := by
  rw [Store.variableAt?, Store.variableAt?, intact.scope r (plain r).symm]

/-- Writing to what is no class instance changes no name. -/
theorem IntactBut.sameBut (intact : s.IntactBut a t) (plain : ∀ r, a ≠ .object r) (q : ScopeRef)
    (x : String) : s.SameBut t q x := by
  have same (r : ScopeRef) : t.scope r = s.scope r := intact.scope r (plain r).symm
  refine ⟨intact.scopes, fun r => by rw [same], fun r y => ?_, fun r y _ =>
    intact.variableAt? plain r y⟩
  rw [functionAt?, functionAt?, same]

theorem sameBut_setVariable (s : Store) (q : ScopeRef) (x : String) (v : Value) :
    s.SameBut (s.setVariable q x v) q x := by
  -- A scope that is not there is read as an empty one before and after.
  have changed (r : ScopeRef) : (s.setVariable q x v).scope r = s.scope r ∨
      r = q ∧ (s.setVariable q x v).scope r =
        { s.scope r with vars := (s.scope r).vars.insert x v } := by
    by_cases same : r = q
    · by_cases here : q.index < s.scopes.size
      · rw [setVariable, scope_modifyScope s q r _ here, if_pos same.symm]
        exact .inr ⟨same, rfl⟩
      · subst same
        have none : s.scopes[r.index]? = none := Array.getElem?_eq_none (Nat.not_lt.1 here)
        refine .inl ?_
        simp [setVariable, modifyScope, Store.scope, Array.getElem?_modify, none]
    · exact .inl ((IntactBut.setVariable s q x v).scope r fun never => same (Value.object.inj never))
  refine ⟨Array.size_modify, fun r => ?_, fun r y => ?_, fun r y other => ?_⟩
  · rcases changed r with same | ⟨-, same⟩ <;> rw [same]
  · rcases changed r with same | ⟨-, same⟩ <;> rw [functionAt?, functionAt?, same]
  · rcases changed r with same | ⟨rfl, same⟩
    · rw [variableAt?, variableAt?, same]
    · have different : y ≠ x := other.resolve_left fun never => never rfl
      rw [variableAt?, variableAt?, same]
      simp [OrderedMap.get?_insert, different]

theorem variableAt?_setVariable (here : s.HasScope q) :
    (s.setVariable q x v).variableAt? q x = some v := by
  rw [variableAt?, setVariable, scope_modifyScope s q q _ here, if_pos rfl]
  simp only [OrderedMap.get?_insert, Std.ReflCmp.compare_self, if_true]

theorem valueAt?_setVariable (here : (s.setVariable q x v).HasScope q) :
    (s.setVariable q x v).valueAt? q x = some v := by
  rw [HasScope, (sameBut_setVariable s q x v).size] at here
  rw [valueAt?, variableAt?_setVariable here]

/-- What a name reads as where a scope on the way outward has it. -/
theorem findValue?_of_chain (chain : s.chain r = inner ++ q :: outer)
    (last : s.valueAt? q x = some v) :
    s.findValue? r x = some ((inner.findSome? (s.valueAt? · x)).getD v) := by
  rw [findValue?, chain, List.findSome?_append, List.findSome?_cons, last]
  cases inner.findSome? (s.valueAt? · x) <;> rfl

namespace SameBut

variable (same : s.SameBut t q x)

include same

theorem chain (r : ScopeRef) : t.chain r = s.chain r := by
  have outward (fuel : Nat) (r : ScopeRef) : t.outward fuel r = s.outward fuel r := by
    induction fuel generalizing r with
    | zero => rfl
    | succ fuel ih =>
      rw [Store.outward, Store.outward, same.parent]
      cases (s.scope r).parent with
      | none => rfl
      | some p => exact congrArg (r :: ·) (ih p)
  rw [Store.chain, Store.chain, same.size, outward]

theorem findValue? (other : y ≠ x) : t.findValue? r y = s.findValue? r y := by
  have values : (fun p => t.valueAt? p y) = fun p => s.valueAt? p y := by
    funext p
    rw [valueAt?, valueAt?, same.vars p y (.inr other), same.function]
  rw [Store.findValue?, Store.findValue?, same.chain, values]

/-- A name leads to the same scope as long as the variable that changes stays one. -/
theorem findVariableScope?
    (both : y = x → (t.variableAt? q x).isSome = (s.variableAt? q x).isSome) :
    t.findVariableScope? r y = s.findVariableScope? r y := by
  have there : (fun p => (t.variableAt? p y).isSome) = fun p => (s.variableAt? p y).isSome := by
    funext p
    by_cases other : p ≠ q ∨ y ≠ x
    · rw [same.vars p y other]
    · obtain ⟨rfl, rfl⟩ : p = q ∧ y = x := by simpa [not_or] using other
      exact both rfl
  rw [Store.findVariableScope?, Store.findVariableScope?, same.chain, there]

end SameBut

/-! ## Variables -/

/-- Whether a name stands for a variable, the one of a scope, which holds a value. -/
structure Binds (s : Store) (r : ScopeRef) (x : String) (q : ScopeRef) (v : Value) : Prop where
  leads : s.findVariableScope? r x = some q
  holds : s.variableAt? q x = some v

/-- A name reads as the value of its variable, unless a function on the way to it has the name. -/
theorem Binds.findValue? (binds : s.Binds r x q v)
    (free : ∀ p ∈ s.chain r, s.functionAt? p x = none) : s.findValue? r x = some v := by
  obtain ⟨-, inner, outer, chain, before⟩ := List.find?_eq_some_iff_append.1 binds.leads
  have nothing : inner.findSome? (s.valueAt? · x) = none := by
    refine List.findSome?_eq_none_iff.2 fun p member => ?_
    have isIn : p ∈ s.chain r := chain ▸ List.mem_append_left _ member
    have unset : s.variableAt? p x = none := by simpa using before p member
    rw [valueAt?, unset, free p isIn]
    rfl
  have here : s.valueAt? q x = some v := by rw [valueAt?, binds.holds]
  rw [findValue?_of_chain chain here, nothing, Option.getD_none]

/-- What reads as something else than a function is a variable. -/
theorem exists_binds (reads : s.findValue? r x = some v) (plain : v.kind ≠ .function) :
    ∃ q, s.Binds r x q v := by
  obtain ⟨inner, q, outer, chain, here, before⟩ := List.findSome?_eq_some_iff.1 reads
  have unset {p : ScopeRef} (nothing : s.valueAt? p x = none) : s.variableAt? p x = none := by
    rw [valueAt?] at nothing
    split at nothing
    · cases nothing
    · assumption
  have held : s.variableAt? q x = some v := by
    rw [valueAt?] at here
    split at here
    · next found => rw [found, here]
    · obtain ⟨f, -, rfl⟩ := Option.map_eq_some_iff.1 here
      exact absurd rfl plain
  refine ⟨q, List.find?_eq_some_iff_append.2 ⟨by rw [held]; rfl, inner, outer, chain, ?_⟩, held⟩
  intro p member
  simp [unset (before p member)]

/-- A name that reads as what its variable holds is not hidden by a function, and reads as what is
written to the variable. -/
theorem Binds.findValue?_write (binds : s.Binds r x q v) (reads : s.findValue? r x = some v)
    (plain : v.kind ≠ .function) (same : s.SameBut t q x) (written : t.variableAt? q x = some w) :
    t.findValue? r x = some w := by
  obtain ⟨-, inner, outer, chain, before⟩ := List.find?_eq_some_iff_append.1 binds.leads
  have unset (p : ScopeRef) (member : p ∈ inner) : s.variableAt? p x = none := by
    simpa using before p member
  have inside : inner.findSome? (s.valueAt? · x) = none := by
    cases front : inner.findSome? (s.valueAt? · x) with
    | none => rfl
    | some u =>
      rw [Store.findValue?, chain, List.findSome?_append, front] at reads
      cases reads
      obtain ⟨p, member, found⟩ := List.exists_of_findSome?_eq_some front
      rw [valueAt?, unset p member] at found
      obtain ⟨f, -, rfl⟩ := Option.map_eq_some_iff.1 found
      exact absurd rfl plain
  have still : inner.findSome? (t.valueAt? · x) = none := by
    refine List.findSome?_eq_none_iff.2 fun p member => ?_
    have other : p ≠ q := by
      rintro rfl
      have held := binds.holds
      rw [unset p member] at held
      cases held
    rw [valueAt?, same.vars p x (.inl other), same.function, ← valueAt?]
    exact List.findSome?_eq_none_iff.1 inside p member
  have here : t.valueAt? q x = some w := by rw [valueAt?, written]
  rw [findValue?_of_chain ((same.chain r).trans chain) here, still, Option.getD_none]

/-- A variable that changes holds what is written to it. -/
theorem Binds.write (binds : s.Binds r x q v) (same : s.SameBut t q x)
    (written : t.variableAt? q x = some w) : t.Binds r x q w := by
  refine ⟨?_, written⟩
  rw [same.findVariableScope? fun _ => by rw [written, binds.holds]; rfl, binds.leads]

/-- Other names stand for what they stood for. -/
theorem Binds.keep (binds : s.Binds r y p v) (same : s.SameBut t q x) (other : y ≠ x) :
    t.Binds r y p v := by
  refine ⟨?_, ?_⟩
  · rw [same.findVariableScope? fun equal => absurd equal other, binds.leads]
  · rw [same.vars p y (.inr other), binds.holds]

/-- The scope whose variable an assignment to a name writes: the nearest one that has it, else the one
that the name is used in. -/
def written (s : Store) (r : ScopeRef) (x : String) : ScopeRef := (s.findVariableScope? r x).getD r

theorem Binds.written (binds : s.Binds r x q v) : s.written r x = q := by
  rw [Store.written, binds.leads, Option.getD_some]

/-- The scope that an assignment writes to is on the way outward, and no scope inside it has a
variable of the name. -/
theorem exists_chain_written (sound : s.Sound) (here : s.HasScope r) (x : String) :
    ∃ inner outer, s.chain r = inner ++ (s.findVariableScope? r x).getD r :: outer ∧
      ∀ p ∈ inner, s.variableAt? p x = none := by
  cases found : s.findVariableScope? r x with
  | none => exact ⟨[], _, sound.chain_eq here, fun p never => by cases never⟩
  | some q =>
    obtain ⟨-, inner, outer, chain, free⟩ := List.find?_eq_some_iff_append.1 found
    exact ⟨inner, outer, chain, fun p member => by simpa using free p member⟩

theorem Sound.hasScope_written (sound : s.Sound) (here : s.HasScope r) (x : String) :
    s.HasScope (s.written r x) := by
  rw [written]
  cases found : s.findVariableScope? r x with
  | none => exact here
  | some q => exact sound.findVariableScope? here found

/-- A variable of the scope that a name is used in is what the name stands for. -/
theorem Sound.binds_here (sound : s.Sound) (here : s.HasScope r) (same : s.SameBut t r x)
    (holds : t.variableAt? r x = some v) : t.Binds r x r v := by
  refine ⟨?_, holds⟩
  rw [Store.findVariableScope?, same.chain, sound.chain_eq here]
  simp [holds]

/-- A name stands for what an assignment has written. -/
theorem Sound.binds_written (sound : s.Sound) (here : s.HasScope r) (x : String) (v : Value) :
    (s.setVariable (s.written r x) x v).Binds r x (s.written r x) v := by
  have holds := variableAt?_setVariable (x := x) (v := v) (sound.hasScope_written here x)
  have same := sameBut_setVariable s (s.written r x) x v
  cases found : s.findVariableScope? r x with
  | none =>
    have nearest : s.written r x = r := by rw [written, found]; rfl
    rw [nearest] at holds same ⊢
    exact sound.binds_here here same holds
  | some q =>
    have there : s.written r x = q := by rw [written, found]; rfl
    have set : (s.variableAt? q x).isSome = true := by
      simpa using List.find?_some found
    rw [there] at holds same ⊢
    refine ⟨?_, holds⟩
    rw [same.findVariableScope? fun _ => by rw [holds, set]; rfl, found]

end Scriptlet.Store
