import Scriptlet.Proofs.Store.Templates

/-!
# Emptying a scope and all that it names

Sub-scopes may be named more than once, by several scopes, and in a circle. So the recursion that
empties them runs over links that it takes away on its way, and it ends since it takes them away:
each visit uses up the links of its scope. It comes to an end in every order of the visits, and
what it leaves does not depend on the order: the scopes that could be reached by names when it
started are empty, and all others are as they were (`tearsDown_iff`).
-/

namespace Scriptlet

/-- A scope without the names of its sub-scopes. -/
def Scope.unlinked (scope : Scope) : Scope := { scope with scopes := .empty }

/-- A scope without its variables and functions. -/
def Scope.vacated (scope : Scope) : Scope := { scope with vars := .empty, functions := .empty }

namespace Store

variable {s t u : Store} {r p q : ScopeRef} {pending subs rest : List ScopeRef}
  {gone later : ScopeRef → Prop}

/-! ## The recursion -/

/-- An order in which the sub-scopes of a scope are visited. -/
structure VisitOrder where
  visits : Store → ScopeRef → List ScopeRef
  perm : ∀ s r, (visits s r).Perm (s.scope r).scopes.values

/-- The recursion that empties scopes, one after another: it takes the names of the sub-scopes of a
scope, empties these, and then takes the functions and the variables of the scope. -/
inductive TearsDown (order : VisitOrder) : Store → List ScopeRef → Store → Prop where
  | done {s : Store} : TearsDown order s [] s
  | visit {s t u : Store} {r : ScopeRef} {rest : List ScopeRef} :
      TearsDown order (s.modifyScope r Scope.unlinked) (order.visits s r) t →
      TearsDown order (t.modifyScope r Scope.vacated) rest u →
      TearsDown order s (r :: rest) u

/-! ## Stores with some scopes emptied -/

/-- A store that is another one with some scopes emptied. -/
structure Empties (s : Store) (gone : ScopeRef → Prop) (t : Store) : Prop where
  emptied : ∀ q, gone q → t.scope q = (s.scope q).cleared
  kept : ∀ q, ¬ gone q → t.scope q = s.scope q
  size : t.scopes.size = s.scopes.size
  lists : t.lists = s.lists
  arrays : t.arrays = s.arrays
  dictionaries : t.dictionaries = s.dictionaries
  functions : t.functions = s.functions

theorem cleared_cleared (scope : Scope) : scope.cleared.cleared = scope.cleared := rfl

theorem Empties.none (none : ∀ q, ¬ gone q) : s.Empties gone s :=
  ⟨fun q now => absurd now (none q), fun _ _ => rfl, rfl, rfl, rfl, rfl, rfl⟩

theorem Empties.congr (h : s.Empties gone t) (same : ∀ q, gone q ↔ later q) :
    s.Empties later t :=
  { h with
    emptied := fun q now => h.emptied q ((same q).2 now)
    kept := fun q not => h.kept q fun now => not ((same q).1 now) }

theorem Empties.trans (first : s.Empties gone t) (second : t.Empties later u) :
    s.Empties (fun q => gone q ∨ later q) u where
  emptied q now := by
    by_cases after : later q
    · rw [second.emptied q after]
      by_cases before : gone q
      · rw [first.emptied q before, cleared_cleared]
      · rw [first.kept q before]
    · rw [second.kept q after, first.emptied q (now.resolve_right after)]
  kept q not := by
    rw [second.kept q fun after => not (.inr after), first.kept q fun before => not (.inl before)]
  size := second.size.trans first.size
  lists := second.lists.trans first.lists
  arrays := second.arrays.trans first.arrays
  dictionaries := second.dictionaries.trans first.dictionaries
  functions := second.functions.trans first.functions

/-- Which scopes are emptied decides the store. -/
theorem Empties.unique (h : s.Empties gone t) (h' : s.Empties gone u) : t = u := by
  have scopes : t.scopes = u.scopes := by
    refine Array.ext (h.size.trans h'.size.symm) fun i inT inU => ?_
    have same : t.scope ⟨i⟩ = u.scope ⟨i⟩ := by
      by_cases now : gone ⟨i⟩
      · rw [h.emptied _ now, h'.emptied _ now]
      · rw [h.kept _ now, h'.kept _ now]
    simpa [scope, inT, inU] using same
  obtain ⟨_, _, _, _, _⟩ := t
  obtain ⟨_, _, _, _, _⟩ := u
  obtain rfl := scopes
  obtain rfl := h.lists.trans h'.lists.symm
  obtain rfl := h.arrays.trans h'.arrays.symm
  obtain rfl := h.dictionaries.trans h'.dictionaries.symm
  obtain rfl := h.functions.trans h'.functions.symm
  rfl

/-! ## Reachable scopes -/

/-- What is read of a changed scope, where the change leaves a place of no scope as it is. -/
theorem scope_modifyScope_of_default {change : Scope → Scope} (none : change default = default)
    (s : Store) (r q : ScopeRef) :
    (s.modifyScope r change).scope q = if r = q then change (s.scope q) else s.scope q := by
  by_cases same : r = q
  · subst same
    rw [if_pos rfl]
    simp only [modifyScope, scope, Array.getElem?_modify, if_true]
    cases s.scopes[r.index]? with
    | none => exact none.symm
    | some scope => rfl
  · rw [if_neg same]
    exact (scope_modifyScope_or s r q change).resolve_right fun here => same here.1

/-- Whether a store is another one in which a scope names nothing. -/
structure Unlinks (s : Store) (r : ScopeRef) (t : Store) : Prop where
  here : (t.scope r).scopes = .empty
  others : ∀ q, q ≠ r → (t.scope q).scopes = (s.scope q).scopes

theorem unlinks_modifyScope {change : Scope → Scope} (none : change default = default)
    (empties : ∀ scope, (change scope).scopes = .empty) (s : Store) (r : ScopeRef) :
    s.Unlinks r (s.modifyScope r change) where
  here := by rw [scope_modifyScope_of_default none, if_pos rfl, empties]
  others q other := by rw [scope_modifyScope_of_default none, if_neg (Ne.symm other)]

theorem Declares.trans (first : s.Declares r p) (second : s.Declares p q) : s.Declares r q := by
  induction first with
  | here => exact second
  | inner member _ ih => exact .inner member (ih second)

/-- What leads only to places of its own leads nowhere else. -/
theorem Declares.of_closed {within : ScopeRef → Prop}
    (closed : ∀ p next, within p → next ∈ (s.scope p).scopes.values → within next)
    (declares : s.Declares p q) (start : within p) : within q := by
  induction declares with
  | here => exact start
  | inner member _ ih => exact ih (closed _ _ start member)

theorem Declares.of_unlinks (unlinks : s.Unlinks r t) (declares : t.Declares p q) :
    s.Declares p q := by
  induction declares with
  | here => exact .here _
  | @inner p _ _ member _ ih =>
    by_cases same : p = r
    · rw [same, unlinks.here] at member
      cases member
    · rw [unlinks.others p same] at member
      exact .inner member ih

/-- A way that leads through a scope goes on from a scope that it names. -/
theorem Declares.unlinked (unlinks : s.Unlinks r t) (declares : s.Declares p q) :
    t.Declares p q ∨ q = r ∨ ∃ sub ∈ (s.scope r).scopes.values, t.Declares sub q := by
  induction declares with
  | here p => exact .inl (.here p)
  | @inner p next q member _ ih =>
    rcases ih with direct | through
    · by_cases same : p = r
      · rw [same] at member
        exact .inr (.inr ⟨next, member, direct⟩)
      · rw [← unlinks.others p same] at member
        exact .inl (.inner member direct)
    · exact .inr through

/-- What is reached from a scope, or from others, is it or is reached without its names from what it
names, or from the others. -/
theorem declares_iff_unlinked (unlinks : s.Unlinks r t) :
    (∃ p ∈ r :: rest, s.Declares p q) ↔
      q = r ∨ ∃ p ∈ (s.scope r).scopes.values ++ rest, t.Declares p q := by
  constructor
  · rintro ⟨p, member, declares⟩
    rcases declares.unlinked unlinks with direct | same | ⟨sub, named, direct⟩
    · rcases List.mem_cons.1 member with rfl | other
      · cases direct with
        | here => exact .inl rfl
        | inner named =>
          rw [unlinks.here] at named
          cases named
      · exact .inr ⟨p, List.mem_append_right _ other, direct⟩
    · exact .inl same
    · exact .inr ⟨sub, List.mem_append_left _ named, direct⟩
  · rintro (rfl | ⟨p, member, direct⟩)
    · exact ⟨q, List.mem_cons_self, .here q⟩
    · have declares := direct.of_unlinks unlinks
      rcases List.mem_append.1 member with named | other
      · exact ⟨r, List.mem_cons_self, .inner named declares⟩
      · exact ⟨p, List.mem_cons_of_mem _ other, declares⟩

theorem Declares.of_empties (empties : s.Empties gone t) (declares : t.Declares p q) :
    s.Declares p q := by
  induction declares with
  | here => exact .here _
  | @inner p _ _ member _ ih =>
    by_cases now : gone p
    · rw [empties.emptied p now] at member
      cases member
    · rw [empties.kept p now] at member
      exact .inner member ih

/-- A way that meets nothing that has been emptied is still there. -/
theorem Declares.of_emptied (empties : s.Empties (s.Declares r) t) (declares : s.Declares p q) :
    s.Declares r q ∨ t.Declares p q := by
  induction declares with
  | here p => exact .inr (.here p)
  | @inner p next q member way ih =>
    by_cases gone : s.Declares r p
    · exact .inl (gone.trans (.inner member way))
    · rw [← empties.kept p gone] at member
      exact ih.imp_right (.inner member)

/-- Where all that a scope leads to has been emptied, the others lead to the rest of what they led
to before. -/
theorem declares_iff_of_empties (empties : s.Empties (s.Declares r) t) :
    (∃ p ∈ r :: rest, s.Declares p q) ↔ s.Declares r q ∨ ∃ p ∈ rest, t.Declares p q := by
  constructor
  · rintro ⟨p, member, declares⟩
    rcases List.mem_cons.1 member with rfl | other
    · exact .inl declares
    · exact (declares.of_emptied empties).imp_right fun direct => ⟨p, other, direct⟩
  · rintro (declares | ⟨p, member, declares⟩)
    · exact ⟨r, List.mem_cons_self, declares⟩
    · exact ⟨p, List.mem_cons_of_mem _ member, declares.of_empties empties⟩

/-! ## What the recursion leaves -/

theorem unlinks_unlinked (s : Store) (r : ScopeRef) :
    s.Unlinks r (s.modifyScope r Scope.unlinked) :=
  unlinks_modifyScope rfl (fun _ => rfl) s r

theorem unlinks_cleared (s : Store) (r : ScopeRef) :
    s.Unlinks r (s.modifyScope r Scope.cleared) :=
  unlinks_modifyScope rfl (fun _ => rfl) s r

theorem empties_cleared (s : Store) (r : ScopeRef) :
    s.Empties (· = r) (s.modifyScope r Scope.cleared) where
  emptied q same := by rw [scope_modifyScope_of_default rfl, if_pos same.symm]
  kept q other := by rw [scope_modifyScope_of_default rfl, if_neg (Ne.symm other)]
  size := Array.size_modify
  lists := rfl
  arrays := rfl
  dictionaries := rfl
  functions := rfl

/-- The names of a scope are taken first and the rest of it last. -/
theorem Empties.vacated (empties : (s.modifyScope r Scope.unlinked).Empties gone t) :
    s.Empties (fun q => q = r ∨ gone q) (t.modifyScope r Scope.vacated) where
  emptied q now := by
    rw [scope_modifyScope_of_default rfl]
    by_cases same : r = q
    · subst same
      rw [if_pos rfl]
      by_cases gone : gone r
      · rw [empties.emptied r gone, scope_modifyScope_of_default rfl, if_pos rfl]
        rfl
      · rw [empties.kept r gone, scope_modifyScope_of_default rfl, if_pos rfl]
        rfl
    · rw [if_neg same, empties.emptied q (now.resolve_left (Ne.symm same)),
        scope_modifyScope_of_default rfl, if_neg same]
  kept q not := by
    have other : ¬ r = q := fun same => not (.inl same.symm)
    rw [scope_modifyScope_of_default rfl, if_neg other, empties.kept q fun now => not (.inr now),
      scope_modifyScope_of_default rfl, if_neg other]
  size := Array.size_modify.trans (empties.size.trans Array.size_modify)
  lists := empties.lists
  arrays := empties.arrays
  dictionaries := empties.dictionaries
  functions := empties.functions

/-- The recursion empties what it is started on and all that is reached from there. -/
theorem TearsDown.empties {order : VisitOrder} (tears : TearsDown order s pending t) :
    s.Empties (fun q => ∃ p ∈ pending, s.Declares p q) t := by
  induction tears with
  | done => exact .none fun _ ⟨_, never, _⟩ => by cases never
  | @visit s t u r rest _ _ inside others =>
    have one : s.Empties (s.Declares r) (t.modifyScope r Scope.vacated) := by
      refine inside.vacated.congr fun q => ?_
      have unlinked : (∃ p ∈ [r], s.Declares p q) ↔ q = r ∨ ∃ p ∈ (s.scope r).scopes.values ++ [],
          (s.modifyScope r Scope.unlinked).Declares p q :=
        declares_iff_unlinked (unlinks_unlinked s r)
      simp only [List.mem_singleton, exists_eq_left, List.append_nil] at unlinked
      simp only [unlinked, (order.perm s r).mem_iff]
    exact (one.trans others).congr fun q => (declares_iff_of_empties one).symm

/-! ## The recursion ends -/

theorem length_flatMap_modify {α β : Type} [Inhabited α] (links : α → List β) {change : α → α}
    (none : links default = []) (none' : links (change default) = []) (table : List α) (i : Nat) :
    ((table.modify i change).flatMap links).length + (links (table[i]?.getD default)).length =
      (table.flatMap links).length + (links (change (table[i]?.getD default))).length := by
  induction table generalizing i with
  | nil => simp [none, none']
  | cons a table ih =>
    cases i with
    | zero =>
      simp
      omega
    | succ i =>
      have later := ih i
      simp at later ⊢
      omega

/-- A changed scope gives up its links for those that it has after the change. -/
theorem namedLinks_modifyScope (change : Scope → Scope) (none : (change default).scopes = .empty)
    (s : Store) (r : ScopeRef) :
    (s.modifyScope r change).namedLinks + (s.scope r).scopes.values.length =
      s.namedLinks + (change (s.scope r)).scopes.values.length := by
  have links : (change default).scopes.values = [] := by rw [none]; rfl
  have changed := length_flatMap_modify (·.scopes.values) rfl links s.scopes.toList r.index
  simpa [namedLinks, modifyScope, scope] using changed

/-- The recursion ends, and no links come back on its way. -/
theorem exists_tearsDown (order : VisitOrder) (s : Store) (pending : List ScopeRef) :
    ∃ t, TearsDown order s pending t ∧ t.namedLinks ≤ s.namedLinks := by
  induction links : s.namedLinks using Nat.strongRecOn generalizing s pending with
  | ind n ih =>
    induction pending generalizing s with
    | nil => exact ⟨s, .done, Nat.le_of_eq links⟩
    | cons r rest ihRest =>
      have unlinked := namedLinks_modifyScope Scope.unlinked rfl s r
      have none : (Scope.unlinked (s.scope r)).scopes.values.length = 0 := rfl
      have visits := (order.perm s r).length_eq
      -- the sub-scopes are visited with fewer links, unless there are none of them
      obtain ⟨t, inside, fewer⟩ : ∃ t, TearsDown order (s.modifyScope r Scope.unlinked)
          (order.visits s r) t ∧ t.namedLinks ≤ n := by
        by_cases some : (s.scope r).scopes.values.length = 0
        · rw [List.length_eq_zero_iff.1 (visits.trans some)]
          exact ⟨_, .done, by omega⟩
        · obtain ⟨t, inside, fewer⟩ := ih (s.modifyScope r Scope.unlinked).namedLinks (by omega)
            (s.modifyScope r Scope.unlinked) (order.visits s r) rfl
          exact ⟨t, inside, by omega⟩
      have vacated := namedLinks_modifyScope Scope.vacated rfl t r
      have same : (Scope.vacated (t.scope r)).scopes = (t.scope r).scopes := rfl
      rw [same] at vacated
      obtain ⟨u, others, fewer'⟩ : ∃ u, TearsDown order (t.modifyScope r Scope.vacated) rest u ∧
          u.namedLinks ≤ n := by
        by_cases all : (t.modifyScope r Scope.vacated).namedLinks = n
        · exact ihRest _ all
        · obtain ⟨u, others, fewer'⟩ := ih (t.modifyScope r Scope.vacated).namedLinks (by omega)
            (t.modifyScope r Scope.vacated) rest rfl
          exact ⟨u, others, by omega⟩
      exact ⟨u, .visit inside others, fewer'⟩

/-! ## The work list -/

/-- A work list that has a step for each scope in it and for each link empties what it leads to. -/
theorem empties_teardownWithin {fuel : Nat} (enough : s.namedLinks + pending.length ≤ fuel) :
    s.Empties (fun q => ∃ p ∈ pending, s.Declares p q) (s.teardownWithin fuel pending) := by
  induction fuel generalizing s pending with
  | zero =>
    obtain rfl : pending = [] := List.length_eq_zero_iff.1 (by omega)
    exact .none fun _ ⟨_, never, _⟩ => by cases never
  | succ fuel ih =>
    cases pending with
    | nil => exact .none fun _ ⟨_, never, _⟩ => by cases never
    | cons r rest =>
      have cleared := namedLinks_modifyScope Scope.cleared rfl s r
      have none : (Scope.cleared (s.scope r)).scopes.values.length = 0 := rfl
      rw [List.length_cons] at enough
      have enough' : (s.modifyScope r Scope.cleared).namedLinks +
          ((s.scope r).scopes.values ++ rest).length ≤ fuel := by
        rw [List.length_append]
        omega
      exact ((empties_cleared s r).trans (ih enough')).congr fun q =>
        (declares_iff_unlinked (unlinks_cleared s r)).symm

theorem empties_teardown (s : Store) (r : ScopeRef) : s.Empties (s.Declares r) (s.teardown r) := by
  unfold teardown
  split
  · next empty =>
    refine (empties_cleared s r).congr fun q => ⟨fun same => same ▸ .here q, fun declares => ?_⟩
    cases declares with
    | here => rfl
    | inner named =>
      rw [OrderedMap.isEmpty, List.isEmpty_iff] at empty
      rw [OrderedMap.values, empty] at named
      cases named
  · have enough : s.namedLinks + [r].length ≤ s.namedLinks + 1 := Nat.le_refl _
    exact (empties_teardownWithin enough).congr fun q => by simp

/-- Emptying a scope comes to an end, however its sub-scopes are linked and in whatever order they
are visited, and always with the same store: the scopes that could be reached from it by names are
empty, and all others are as they were. -/
theorem tearsDown_iff (order : VisitOrder) (s : Store) (r : ScopeRef) :
    (∀ t, TearsDown order s [r] t ↔ t = s.teardown r) ∧
      (∀ q, s.Declares r q → (s.teardown r).scope q = (s.scope q).cleared) ∧
      (∀ q, ¬ s.Declares r q → (s.teardown r).scope q = s.scope q) := by
  have empties := empties_teardown s r
  have result {t : Store} (tears : TearsDown order s [r] t) : t = s.teardown r :=
    (tears.empties.congr fun q => by simp).unique empties
  refine ⟨fun t => ⟨result, ?_⟩, empties.emptied, empties.kept⟩
  rintro rfl
  obtain ⟨t, tears, -⟩ := exists_tearsDown order s [r]
  rwa [result tears] at tears

/-- The order of the names. -/
def VisitOrder.byName : VisitOrder where
  visits s r := (s.scope r).scopes.values
  perm _ _ := .refl _

/-- A scope that names itself and another one, which names it twice, and a scope that names both. -/
def circle : Store :=
  (⟨#[], #[], #[], #[], #[.new "a" none false, .new "b" none false, .new "c" none false]⟩ : Store)
    |>.setVariable ⟨0⟩ "x" (.int 1) |>.setVariable ⟨1⟩ "y" (.int 2) |>.setVariable ⟨2⟩ "z" (.int 3)
    |>.addScope ⟨0⟩ "self" ⟨0⟩ |>.addScope ⟨0⟩ "b" ⟨1⟩ |>.addScope ⟨1⟩ "a" ⟨0⟩
    |>.addScope ⟨1⟩ "again" ⟨0⟩ |>.addScope ⟨2⟩ "a" ⟨0⟩ |>.addScope ⟨2⟩ "b" ⟨1⟩

/-- The theorem at a circle: the visits end, and the scope outside keeps its names. -/
theorem tearsDown_circle :
    TearsDown .byName circle [⟨0⟩] (circle.teardown ⟨0⟩) ∧
      (circle.teardown ⟨0⟩).scope ⟨0⟩ = .new "a" none false ∧
      (circle.teardown ⟨0⟩).scope ⟨1⟩ = .new "b" none false ∧
      (circle.teardown ⟨0⟩).scope ⟨2⟩ = circle.scope ⟨2⟩ := by
  obtain ⟨ends, emptied, kept⟩ := tearsDown_iff .byName circle ⟨0⟩
  have named : circle.Declares ⟨0⟩ ⟨1⟩ := .inner (by decide) (.here _)
  -- each of the two scopes names no scope but the two
  have inside : ∀ p next, p ≠ ⟨2⟩ → next ∈ (circle.scope p).scopes.values → next ≠ ⟨2⟩ := by
    intro p next other member
    obtain ⟨_ | _ | _ | n⟩ := p
    · have two : next ∈ [⟨1⟩, ⟨0⟩] := member
      rintro rfl
      exact absurd two (by decide)
    · have two : next ∈ [⟨0⟩, ⟨0⟩] := member
      rintro rfl
      exact absurd two (by decide)
    · exact absurd rfl other
    · cases member
  have outside : ¬ circle.Declares ⟨0⟩ ⟨2⟩ := fun declares =>
    declares.of_closed inside (by decide) rfl
  exact ⟨(ends _).2 rfl, emptied _ (.here _), emptied _ named, kept _ outside⟩

end Store

end Scriptlet
