import Scriptlet.Proofs.Store.Operations
import Scriptlet.Proofs.Store.Soundness

/-!
# Definitions that are kept

What goes on in scopes that were not there before defines functions and classes in these scopes only
and empties none but them: every scope that was there keeps its functions and its classes
(`KeepsDefinitions`), whatever becomes of its variables.
-/

namespace Scriptlet.Store

variable {s t u : Store} {r q : ScopeRef} {name : String}

/-- Whether the scopes of one store have in another one the functions and the sub-scopes that they
had, and new scopes name new ones only. -/
structure KeepsDefinitions (s t : Store) : Prop where
  size : s.scopes.size ≤ t.scopes.size
  inner : ∀ r, s.scopes.size ≤ r.index → ∀ e ∈ (t.scope r).scopes.entries,
    s.scopes.size ≤ e.2.index
  functions : ∀ r, r.index < s.scopes.size → (t.scope r).functions = (s.scope r).functions
  scopes : ∀ r, r.index < s.scopes.size → (t.scope r).scopes = (s.scope r).scopes

/-- Stores that keep the definitions of one store. -/
def keptDefinitions (s : Store) : Validity := ⟨s.KeepsDefinitions, fun _ _ => True, fun _ _ => True⟩

namespace KeepsDefinitions

theorem refl (s : Store) : s.KeepsDefinitions s where
  size := Nat.le_refl _
  inner r new e member := by
    have none : s.scopes[r.index]? = none := Array.getElem?_eq_none new
    rw [Store.scope, none] at member
    cases member
  functions _ _ := rfl
  scopes _ _ := rfl

/-- What changes no scope. -/
theorem of_scopes (kept : s.KeepsDefinitions t) (same : u.scopes = t.scopes) :
    s.KeepsDefinitions u := by
  have scope (r : ScopeRef) : u.scope r = t.scope r := by rw [Store.scope, same]; rfl
  refine ⟨?_, fun r => ?_, fun r => ?_, fun r => ?_⟩
  · rw [same]
    exact kept.size
  · rw [scope]
    exact kept.inner r
  · rw [scope]
    exact kept.functions r
  · rw [scope]
    exact kept.scopes r

theorem newScope (kept : s.KeepsDefinitions t) {scope : Scope} (inner : scope.scopes = .empty) :
    s.KeepsDefinitions (t.newScope scope).2 ∧ s.scopes.size ≤ (t.newScope scope).1.index := by
  have read (r : ScopeRef) : (t.newScope scope).2.scope r =
      if r.index = t.scopes.size then scope else t.scope r :=
    getD_push t.scopes scope default r.index
  have old {r : ScopeRef} (here : r.index < s.scopes.size) :
      (t.newScope scope).2.scope r = t.scope r := by
    rw [read, if_neg (Nat.ne_of_lt (Nat.lt_of_lt_of_le here kept.size))]
  refine ⟨⟨?_, fun r new => ?_, fun r here => ?_, fun r here => ?_⟩, kept.size⟩
  · simp only [Store.newScope, Array.size_push]
    exact Nat.le_succ_of_le kept.size
  · rw [read]
    split
    · rw [inner]
      intro e member
      cases member
    · exact kept.inner r new
  · rw [old here, kept.functions r here]
  · rw [old here, kept.scopes r here]

/-- A scope that was there and keeps its definitions, or a new one that names new ones. -/
theorem modifyScope (kept : s.KeepsDefinitions t) {change : Scope → Scope}
    (inner : s.scopes.size ≤ r.index →
      ∀ e ∈ (change (t.scope r)).scopes.entries, s.scopes.size ≤ e.2.index)
    (same : r.index < s.scopes.size → (change (t.scope r)).functions = (t.scope r).functions ∧
      (change (t.scope r)).scopes = (t.scope r).scopes) :
    s.KeepsDefinitions (t.modifyScope r change) := by
  refine ⟨?_, fun q new => ?_, fun q here => ?_, fun q here => ?_⟩
  · simp only [Store.modifyScope, Array.size_modify]
    exact kept.size
  · rcases t.scope_modifyScope_or r q change with unchanged | ⟨rfl, changed⟩
    · rw [unchanged]
      exact kept.inner q new
    · rw [changed]
      exact inner new
  · rcases t.scope_modifyScope_or r q change with unchanged | ⟨rfl, changed⟩
    · rw [unchanged, kept.functions q here]
    · rw [changed, (same here).1, kept.functions r here]
  · rcases t.scope_modifyScope_or r q change with unchanged | ⟨rfl, changed⟩
    · rw [unchanged, kept.scopes q here]
    · rw [changed, (same here).2, kept.scopes r here]

theorem modifyNew (kept : s.KeepsDefinitions t) (new : s.scopes.size ≤ r.index)
    {change : Scope → Scope}
    (inner : ∀ e ∈ (change (t.scope r)).scopes.entries, s.scopes.size ≤ e.2.index) :
    s.KeepsDefinitions (t.modifyScope r change) :=
  kept.modifyScope (fun _ => inner) fun old => absurd new (Nat.not_le_of_lt old)

theorem setVariable (kept : s.KeepsDefinitions t) (r : ScopeRef) (name : String) (v : Value) :
    s.KeepsDefinitions (t.setVariable r name v) :=
  kept.modifyScope (kept.inner r) fun _ => ⟨rfl, rfl⟩

theorem addFunction (kept : s.KeepsDefinitions t) (new : s.scopes.size ≤ r.index) (f : FunctionRef) :
    s.KeepsDefinitions (t.addFunction r f) :=
  kept.modifyNew new (kept.inner r new)

theorem defineFunction (kept : s.KeepsDefinitions t) (new : s.scopes.size ≤ r.index)
    (f : Function) : s.KeepsDefinitions (t.defineFunction r f) :=
  addFunction (kept.of_scopes (u := (t.newFunction f).2) rfl) new _

theorem defineClass (kept : s.KeepsDefinitions t) (new : s.scopes.size ≤ r.index)
    (inside : s.scopes.size ≤ q.index) (name : String) :
    s.KeepsDefinitions (t.defineClass r name q) := by
  have adds : s.KeepsDefinitions (t.addScope r name q) := by
    refine kept.modifyNew new fun e member => ?_
    rcases OrderedMap.mem_insert member with rfl | old
    · exact inside
    · exact kept.inner r new e old
  exact adds.defineFunction new _

theorem copyVariables (kept : s.KeepsDefinitions t) (r : ScopeRef) (entries : List (String × Value)) :
    s.KeepsDefinitions (t.copyVariables r entries) := by
  induction entries generalizing t with
  | nil => exact kept
  | cons e rest ih =>
    have copied : s.KeepsDefinitions (t.duplicate e.2).2 := by
      cases e.2 <;> exact kept.of_scopes rfl
    exact ih (copied.setVariable r e.1 _)

theorem inherit (kept : s.KeepsDefinitions t) (new : s.scopes.size ≤ r.index) (base : ScopeRef) :
    s.KeepsDefinitions (t.inherit r base) := by
  have copied := kept.copyVariables r (t.scope base).vars.entries
  exact copied.modifyNew new (copied.inner r new)

/-! ## Scopes that are left -/

theorem modifyEmpty (kept : s.KeepsDefinitions t) (new : s.scopes.size ≤ r.index)
    {change : Scope → Scope} (empty : (change (t.scope r)).scopes = .empty) :
    s.KeepsDefinitions (t.modifyScope r change) := by
  refine kept.modifyNew new fun e member => ?_
  rw [empty] at member
  cases member

theorem teardownWithin (kept : s.KeepsDefinitions t) (fuel : Nat) {pending : List ScopeRef}
    (new : ∀ r ∈ pending, s.scopes.size ≤ r.index) :
    s.KeepsDefinitions (t.teardownWithin fuel pending) := by
  induction fuel generalizing t pending with
  | zero => exact kept
  | succ fuel ih =>
    cases pending with
    | nil => exact kept
    | cons r pending =>
      have fresh := new r List.mem_cons_self
      refine ih (kept.modifyEmpty fresh rfl) fun q member => ?_
      rcases List.mem_append.1 member with named | later
      · obtain ⟨e, entry, rfl⟩ := List.mem_map.1 named
        exact kept.inner r fresh e entry
      · exact new q (List.mem_cons_of_mem _ later)

theorem teardown (kept : s.KeepsDefinitions t) (new : s.scopes.size ≤ r.index) :
    s.KeepsDefinitions (t.teardown r) := by
  unfold Store.teardown
  split
  · exact kept.modifyEmpty new rfl
  · refine kept.teardownWithin _ fun q member => ?_
    rw [List.mem_singleton.1 member]
    exact new

theorem forget (kept : s.KeepsDefinitions t) (new : s.scopes.size ≤ r.index) :
    s.KeepsDefinitions (t.forget r) := by
  unfold Store.forget
  split
  · exact kept.modifyEmpty new rfl
  · exact kept

theorem leave (kept : s.KeepsDefinitions t) (new : s.scopes.size ≤ r.index) (held : List Value) :
    s.KeepsDefinitions (t.leave held r).2 := by
  unfold Store.leave
  split
  · exact kept.forget new
  · have closes : s.KeepsDefinitions (t.close held r).2 := by
      unfold Store.close
      split
      · exact kept
      · exact kept.teardown new
    dsimp only
    split
    · exact closes
    · exact closes.forget new

end KeepsDefinitions

theorem keptDefinitions_lawful (s : Store) : s.keptDefinitions.Lawful where
  refl _ := trivial
  trans _ _ := trivial
  grows _ _ := trivial
  scalar _ := trivial
  member _ := ⟨trivial, trivial⟩
  list _ _ _ _ := trivial
  array _ _ _ _ := trivial
  dictionary _ _ _ _ := ⟨trivial, trivial⟩
  vars _ _ _ _ := trivial
  functions _ _ _ _ := trivial
  newList kept _ _ := ⟨⟨trivial, KeepsDefinitions.of_scopes kept rfl⟩, trivial⟩
  newArray kept _ _ := ⟨⟨trivial, KeepsDefinitions.of_scopes kept rfl⟩, trivial⟩
  newDictionary kept _ _ := ⟨⟨trivial, KeepsDefinitions.of_scopes kept rfl⟩, trivial⟩
  setList kept _ _ _ := ⟨trivial, KeepsDefinitions.of_scopes kept rfl⟩
  setArray kept _ _ _ := ⟨trivial, KeepsDefinitions.of_scopes kept rfl⟩
  setDictionary kept _ _ _ := ⟨trivial, KeepsDefinitions.of_scopes kept rfl⟩
  setMember kept _ _ name v _ := ⟨trivial, KeepsDefinitions.setVariable kept _ name v⟩

end Scriptlet.Store
