import Scriptlet.Proofs.Store.Needed

/-!
# Scopes that evaluation leaves

A scope of a sound store is kept exactly if it is needed (`Store.Sound.leave_iff_needed`), and
then with the whole store; otherwise it is emptied and the store refers to no more than before. So
it is kept for every function and every instance that is live afterwards and whose chain of scopes
enters it otherwise than through a named sub-scope (`Store.Sound.kept_of_live`).
-/

namespace Scriptlet.Store

variable {s t : Store} {held : List Value} {r q : ScopeRef} {n m : Node}

/-! ## Leaving a scope -/

/-- A plain scope has nothing registered and nothing inside it. -/
theorem Sound.isPlain (sound : s.Sound) (isPlain : s.isPlain r = true) :
    (s.scope r).functions.values = [] ∧ (s.scope r).scopes.values = [] ∧
      (∀ f, (s.function f).environment ≠ some r) ∧ ∀ q, (s.scope q).parent ≠ some r := by
  simp only [Store.isPlain, Bool.and_eq_true, Bool.not_eq_true'] at isPlain
  obtain ⟨⟨⟨functions, scopes⟩, noFunction⟩, noScope⟩ := isPlain
  refine ⟨?_, ?_, fun f environment => ?_, fun q parent => ?_⟩
  · simpa [OrderedMap.isEmpty, OrderedMap.values] using functions
  · simpa [OrderedMap.isEmpty, OrderedMap.values] using scopes
  · by_cases bound : f.index < s.functions.size
    · have found : s.functions.any (·.environment = some r) = true := by
        refine Array.any_eq_true.2 ⟨f.index, bound, ?_⟩
        simpa [Store.function, bound] using environment
      rw [noFunction] at found
      cases found
    · have none : s.functions[f.index]? = none := Array.getElem?_eq_none (Nat.le_of_not_lt bound)
      simp [Store.function, none, default] at environment
  · by_cases bound : q.index < s.scopes.size
    · have younger : r.index < q.index := (sound.scope q).parent r parent
      have found : s.scopes.any (·.parent = some r) r.index = true := by
        refine Array.any_iff_exists.2 ⟨q.index, bound, Nat.le_of_lt younger, bound, ?_⟩
        simpa [Store.scope, bound] using parent
      rw [noScope] at found
      cases found
    · have none : s.scopes[q.index]? = none := Array.getElem?_eq_none (Nat.le_of_not_lt bound)
      simp [Store.scope, none, default, Scope.new] at parent

theorem leave_eq (s : Store) (held : List Value) (r : ScopeRef) : s.leave held r =
    if s.isPlain r && !held.contains (.object r) then (false, s.forget r)
    else if s.isNeeded held r then (true, s)
    else (false, (s.teardown r).forget r) := by
  unfold leave close
  split
  · rfl
  · by_cases needed : s.isNeeded held r = true <;> simp [needed]

/-- A scope that belongs to no class is kept when evaluation leaves it if it is needed. -/
theorem Sound.leave_iff_needed (sound : s.Sound) (usable : ∀ v ∈ held, s.Usable v)
    (here : s.HasScope r) (plain : (s.scope r).isClass = false) :
    (s.leave held r).1 = true ↔ s.Needed held r := by
  have noClass : (s.scope r).isClass ≠ true := by simp [plain]
  rw [leave_eq]
  split
  · rename_i quick
    obtain ⟨isPlain, free⟩ := Bool.and_eq_true_iff.1 quick
    obtain ⟨functions, -, noFunction, noScope⟩ := sound.isPlain isPlain
    refine ⟨fun never => absurd never (by simp), fun needed => ?_⟩
    rcases needed with inUse | ⟨m, -, -, refers⟩ | ⟨f, own, -⟩ | ⟨f, own, -⟩
    · obtain ⟨v, member, refers⟩ := List.mem_flatMap.1 inUse
      rcases usable v member with valid | ⟨q, rfl, -⟩
      · exact absurd (valid.isClass refers) noClass
      · obtain rfl : r = q := by simpa [Value.referents] using refers
        simp [member] at free
    · rcases sound.referrer plain refers with ⟨f, -, environment⟩ | ⟨q, -, parent⟩
      · exact absurd environment (noFunction f)
      · exact absurd parent (noScope q)
    · rw [functions] at own
      cases own
    · rw [functions] at own
      cases own
  · rw [← sound.isNeeded_iff usable here plain]
    split
    · rename_i needed
      simp [needed]
    · rename_i needed
      simpa using needed

/-! ## What leaving does not change -/

theorem functions_teardownWithin (s : Store) (fuel : Nat) (pending : List ScopeRef) :
    (s.teardownWithin fuel pending).functions = s.functions := by
  induction fuel generalizing s pending with
  | zero => rfl
  | succ fuel ih =>
    cases pending with
    | nil => rfl
    | cons r pending => exact ih _ _

theorem functions_teardown (s : Store) (r : ScopeRef) :
    (s.teardown r).functions = s.functions := by
  unfold teardown
  split
  · rfl
  · exact functions_teardownWithin s _ _

theorem functions_forget (s : Store) (r : ScopeRef) : (s.forget r).functions = s.functions := by
  unfold forget
  split <;> rfl

/-- A scope that is kept is kept with the whole store. -/
theorem leave_eq_of_kept (kept : (s.leave held r).1 = true) : (s.leave held r).2 = s := by
  rw [leave_eq] at kept ⊢
  split
  · rename_i quick
    rw [if_pos quick] at kept
    cases kept
  · rename_i slow
    rw [if_neg slow] at kept
    split
    · rfl
    · rename_i needed
      rw [if_neg needed] at kept
      cases kept

/-! ## What is left of a scope that is not kept -/

/-- A scope without contents. -/
def Empty (s : Store) (r : ScopeRef) : Prop :=
  (s.scope r).vars = .empty ∧ (s.scope r).functions = .empty ∧ (s.scope r).scopes = .empty

theorem empty_clear (here : s.HasScope r) : (s.modifyScope r Scope.cleared).Empty r := by
  rw [Empty, scope_modifyScope s r r _ here, if_pos rfl]
  exact ⟨rfl, rfl, rfl⟩

theorem Empty.clear (empty : s.Empty r) (q : ScopeRef) :
    (s.modifyScope q Scope.cleared).Empty r := by
  rcases scope_modifyScope_or s q r Scope.cleared with same | ⟨-, new⟩
  · rw [Empty, same]
    exact empty
  · rw [Empty, new]
    exact ⟨rfl, rfl, rfl⟩

theorem Empty.teardownWithin (empty : s.Empty r) (fuel : Nat) (pending : List ScopeRef) :
    (s.teardownWithin fuel pending).Empty r := by
  induction fuel generalizing s pending with
  | zero => exact empty
  | succ fuel ih =>
    cases pending with
    | nil => exact empty
    | cons q pending => exact ih (empty.clear q) _

theorem empty_teardown (here : s.HasScope r) : (s.teardown r).Empty r := by
  unfold Store.teardown
  split
  · exact empty_clear here
  · exact (empty_clear here).teardownWithin _ _

theorem Empty.forget (empty : s.Empty r) : (s.forget r).Empty r := by
  unfold Store.forget
  split
  · rcases scope_modifyScope_or s r r fun scope => .new scope.name none scope.isClass with
      same | ⟨-, new⟩
    · rw [Empty, same]
      exact empty
    · rw [Empty, new]
      exact ⟨rfl, rfl, rfl⟩
  · exact empty

/-- A scope that is not kept has lost its contents. -/
theorem empty_of_not_kept (here : s.HasScope r) (left : (s.leave held r).1 = false) :
    (s.leave held r).2.Empty r := by
  rw [leave_eq] at left ⊢
  split
  · rename_i quick
    have isPlain := (Bool.and_eq_true_iff.1 quick).1
    dsimp only
    rw [Store.forget, if_pos isPlain, Empty, scope_modifyScope s r r _ here, if_pos rfl]
    exact ⟨rfl, rfl, rfl⟩
  · rename_i slow
    rw [if_neg slow] at left
    split
    · rename_i needed
      rw [if_pos needed] at left
      cases left
    · exact Empty.forget (empty_teardown here)

/-! ## What is live afterwards -/

/-- The objects that the values in use lead to. -/
inductive Reaches (s : Store) (held : List Value) : Node → Prop where
  | used {n : Node} (inUse : n ∈ held.flatMap Value.referents) : Reaches s held n
  | link {m n : Node} (before : s.Reaches held m) (refers : n ∈ s.referents m) : Reaches s held n

/-- What is reached is not gone. -/
theorem Reaches.not_gone (reaches : s.Reaches held n) {v : Value} : ¬ s.Gone (v :: held) n := by
  induction reaches with
  | used inUse => exact not_gone_of_used (List.mem_append_right _ inUse)
  | link _ refers ih => exact not_gone_of_referred refers ih

/-- A store whose objects refer to nothing that they did not refer to before. -/
def Sheds (s t : Store) : Prop := ∀ n, t.referents n ⊆ s.referents n

theorem Sheds.trans {u : Store} (first : s.Sheds t) (second : t.Sheds u) : s.Sheds u :=
  fun n => List.Subset.trans (second n) (first n)

theorem Reaches.sheds (sheds : s.Sheds t) (reaches : t.Reaches held n) : s.Reaches held n := by
  induction reaches with
  | used inUse => exact .used inUse
  | link _ refers ih => exact .link ih (sheds _ refers)

theorem sheds_modifyScope {change : Scope → Scope}
    (parent : ∀ scope : Scope, (change scope).parent.toList ⊆ scope.parent.toList)
    (contents : ∀ scope : Scope, (change scope).vars = .empty ∧ (change scope).functions = .empty ∧
      (change scope).scopes = .empty) : s.Sheds (s.modifyScope r change) := by
  intro n
  cases n with
  | scope q =>
    rcases scope_modifyScope_or s r q change with same | ⟨-, new⟩
    · simp only [referents, same]
      exact List.Subset.refl _
    · obtain ⟨vars, functions, scopes⟩ := contents (s.scope q)
      simp only [referents, new, vars, functions, scopes]
      refine List.Subset.trans ?_ (List.subset_append_left _ _)
      refine List.Subset.trans ?_ (List.subset_append_left _ _)
      refine List.Subset.trans ?_ (List.subset_append_left _ _)
      have outside := List.map_subset Node.scope (parent (s.scope q))
      simpa [OrderedMap.values, OrderedMap.empty] using outside
  | _ => exact List.Subset.refl _

theorem sheds_clear (s : Store) (r : ScopeRef) : s.Sheds (s.modifyScope r Scope.cleared) :=
  sheds_modifyScope (fun _ => List.Subset.refl _) fun _ => ⟨rfl, rfl, rfl⟩

theorem sheds_teardownWithin (s : Store) (fuel : Nat) (pending : List ScopeRef) :
    s.Sheds (s.teardownWithin fuel pending) := by
  induction fuel generalizing s pending with
  | zero => exact fun _ => List.Subset.refl _
  | succ fuel ih =>
    cases pending with
    | nil => exact fun _ => List.Subset.refl _
    | cons r pending => exact (sheds_clear s r).trans (ih _ _)

theorem sheds_teardown (s : Store) (r : ScopeRef) : s.Sheds (s.teardown r) := by
  unfold Store.teardown
  split
  · exact sheds_clear s r
  · exact sheds_teardownWithin s _ _

theorem sheds_forget (s : Store) (r : ScopeRef) : s.Sheds (s.forget r) := by
  unfold Store.forget
  split
  · exact sheds_modifyScope (fun _ => by simp [Scope.new]) fun _ => ⟨rfl, rfl, rfl⟩
  · exact fun _ => List.Subset.refl _

theorem sheds_leave (s : Store) (held : List Value) (r : ScopeRef) :
    s.Sheds (s.leave held r).2 := by
  rw [leave_eq]
  split
  · exact sheds_forget s r
  · split
    · exact fun _ => List.Subset.refl _
    · exact (sheds_teardown s r).trans (sheds_forget _ r)

/-- The scopes in which a function looks up names, for a constructor the template of its class,
and for an instance itself. -/
def environments (s : Store) : Node → List ScopeRef
  | .function f => (s.function f).scopes
  | .scope o => if (s.scope o).isClass then [o] else []
  | _ => []

/-- Whether a chain of scopes enters a scope otherwise than through one of its named sub-scopes. -/
def Enters (s : Store) (e r : ScopeRef) : Prop :=
  e = r ∨ ∃ q ∈ s.chain e, (s.scope q).parent = some r ∧ q ∉ (s.scope r).scopes.values

theorem Reaches.outward {e : ScopeRef} (reaches : s.Reaches held (.scope e)) {fuel : Nat}
    (h : q ∈ s.outward fuel e) : s.Reaches held (.scope q) := by
  induction fuel generalizing e with
  | zero => cases h
  | succ fuel ih =>
    rcases List.mem_cons.1 h with rfl | outside
    · exact reaches
    · cases parent : (s.scope e).parent with
      | none =>
        rw [parent] at outside
        cases outside
      | some p =>
        rw [parent] at outside
        exact ih (.link reaches (by simp [referents, parent])) outside

/-- The functions of a scope that is not kept are not live. -/
theorem needed_of_function (sheds : s.Sheds t) (empty : t.Empty r) {f : FunctionRef}
    (own : f ∈ (s.scope r).functions.values) (live : t.Reaches held (.function f)) :
    s.Needed held r := by
  cases live with
  | used inUse => exact .functionUsed f own inUse
  | @link m _ before refers =>
    by_cases same : m = .scope r
    · obtain ⟨vars, functions, scopes⟩ := empty
      subst same
      simp [referents, vars, functions, scopes, OrderedMap.values, OrderedMap.empty] at refers
    · refine .functionReferred f own m (before.sheds sheds).not_gone ?_
      rw [unnamedReferents, if_neg same]
      exact sheds m refers

/-- Where something live looks up names is live, and it is the scope itself only if the scope is
needed. -/
theorem environment_of_live (plain : (s.scope r).isClass = false) (sheds : s.Sheds t)
    (empty : t.Empty r) (live : t.Reaches held n) {e : ScopeRef} (around : e ∈ s.environments n) :
    s.Reaches held (.scope e) ∧ (e = r → s.Needed held r) := by
  have before : s.Reaches held n := live.sheds sheds
  cases n with
  | function f =>
    have refers : .scope e ∈ s.referents (.function f) := List.mem_map.2 ⟨e, around, rfl⟩
    refine ⟨.link before refers, ?_⟩
    rintro rfl
    -- A function of the scope itself has lost its name there, so something else refers to it.
    by_cases own : f ∈ (s.scope e).functions.values
    · exact needed_of_function sheds empty own live
    · exact .referred (.function f) before.not_gone (fun owns => own owns.1) refers
  | scope o =>
    simp only [environments] at around
    split at around
    · rename_i isClass
      obtain rfl : e = o := by simpa using around
      refine ⟨before, ?_⟩
      rintro rfl
      rw [plain] at isClass
      cases isClass
    · cases around
  | _ => cases around

/-- A scope that belongs to no class is kept for every function and every instance that is live
afterwards, if the chain of scopes around it enters the scope otherwise than through one of its
named sub-scopes. -/
theorem Sound.kept_of_live (sound : s.Sound) (usable : ∀ v ∈ held, s.Usable v)
    (here : s.HasScope r) (plain : (s.scope r).isClass = false)
    (live : (s.leave held r).2.Reaches held n) {e : ScopeRef} (around : e ∈ s.environments n)
    (enters : s.Enters e r) : (s.leave held r).1 = true := by
  by_contra left
  have left : (s.leave held r).1 = false := by simpa using left
  have unneeded : ¬ s.Needed held r := fun needed => by
    rw [(sound.leave_iff_needed usable here plain).2 needed] at left
    cases left
  obtain ⟨reaches, own⟩ :=
    environment_of_live plain (sheds_leave s held r) (empty_of_not_kept here left) live around
  rcases enters with same | ⟨q, member, parent, foreign⟩
  · exact unneeded (own same)
  · have reaches : s.Reaches held (.scope q) := reaches.outward member
    exact unneeded (.referred (.scope q) reaches.not_gone (fun owns => foreign owns.1)
      (by simp [referents, parent]))

end Scriptlet.Store
