import Scriptlet.Proofs.Store.Counting
import Scriptlet.Proofs.Store.Scopes

/-!
# Scopes that are needed

A scope is needed if something refers to it besides the functions and the named sub-scopes that
are its own, or if something refers to one of its functions. In a sound store this is what the
counts say that decide on it (`Store.Sound.isNeeded_iff`).
-/

namespace Scriptlet.Store

variable {s t : Store} {held : List Value} {r q : ScopeRef} {n m : Node}

/-- Whether an object is a function or a named sub-scope of a scope, and stands inside it. -/
def Owns (s : Store) (r : ScopeRef) : Node → Prop
  | .function f => f ∈ (s.scope r).functions.values ∧ (s.function f).environment = some r
  | .scope q => q ∈ (s.scope r).scopes.values ∧ (s.scope q).parent = some r
  | _ => False

/-- What an object refers to, without the names that a scope gives to functions and scopes. -/
def unnamedReferents (s : Store) (r : ScopeRef) (n : Node) : List Node :=
  if n = .scope r then
    (s.scope r).parent.toList.map .scope ++ (s.scope r).vars.values.flatMap Value.referents
  else s.referents n

/-- What a scope is needed for, where `held` are the values in use without the scope itself. -/
inductive Needed (s : Store) (held : List Value) (r : ScopeRef) : Prop where
  | used (inUse : .scope r ∈ held.flatMap Value.referents)
  | referred (m : Node) (present : ¬ s.Gone (.object r :: held) m) (foreign : ¬ s.Owns r m)
      (refers : .scope r ∈ s.referents m)
  | functionUsed (f : FunctionRef) (own : f ∈ (s.scope r).functions.values)
      (inUse : .function f ∈ held.flatMap Value.referents)
  | functionReferred (f : FunctionRef) (own : f ∈ (s.scope r).functions.values) (m : Node)
      (present : ¬ s.Gone (.object r :: held) m)
      (refers : .function f ∈ s.unnamedReferents r m)

/-- The values that may be in use: valid ones, and the scopes that evaluation is in. -/
def Usable (s : Store) (v : Value) : Prop := s.Valid v ∨ ∃ r, v = .object r ∧ s.HasScope r

theorem Usable.hasNode {v : Value} (usable : s.Usable v) (h : n ∈ v.referents) : s.HasNode n := by
  rcases usable with valid | ⟨r, rfl, here⟩
  · exact valid.hasNode h
  · rw [List.mem_singleton.1 h]
    exact here

theorem Usable.grows (grows : s.Grows t) {v : Value} (usable : s.Usable v) : t.Usable v := by
  rcases usable with valid | ⟨r, rfl, here⟩
  · exact .inl (valid.grows grows)
  · exact .inr ⟨r, rfl, here.grows grows⟩

/-! ## What refers to a scope -/

/-- A value refers only to class scopes. -/
theorem Valid.isClass {v : Value} (valid : s.Valid v) (h : .scope r ∈ v.referents) :
    (s.scope r).isClass = true := by
  induction v with
  | member collection key ihc ihk =>
    rcases List.mem_append.1 h with left | right
    · exact ihc valid.1 left
    · exact ihk valid.2 right
  | object o =>
    obtain rfl : r = o := by simpa [Value.referents] using h
    exact valid.2
  | _ => simp [Value.referents] at h

theorem isClass_of_flatMap {values : List Value} (valid : ∀ v ∈ values, s.Valid v)
    (h : .scope r ∈ values.flatMap Value.referents) : (s.scope r).isClass = true := by
  obtain ⟨v, member, refers⟩ := List.mem_flatMap.1 h
  exact (valid v member).isClass refers

theorem Sound.vars (sound : s.Sound) (r : ScopeRef) : ∀ v ∈ (s.scope r).vars.values, s.Valid v := by
  intro v member
  obtain ⟨e, entry, rfl⟩ := List.mem_map.1 member
  exact (sound.scope r).vars e entry

/-- What refers to a scope that belongs to no class: the functions defined in it and the scopes
inside it. -/
theorem Sound.referrer (sound : s.Sound) (plain : (s.scope r).isClass = false)
    (h : .scope r ∈ s.referents n) :
    (∃ f, n = .function f ∧ (s.function f).environment = some r) ∨
      ∃ q, n = .scope q ∧ (s.scope q).parent = some r := by
  have noClass : (s.scope r).isClass ≠ true := by simp [plain]
  cases n with
  | list l => exact absurd (isClass_of_flatMap (sound.list l) h) noClass
  | array a => exact absurd (isClass_of_flatMap (sound.array a) h) noClass
  | dictionary d =>
    obtain ⟨e, member, refers⟩ := List.mem_flatMap.1 h
    obtain ⟨entry, here, rfl⟩ := List.mem_map.1 member
    obtain ⟨key, value⟩ := sound.dictionary d entry here
    rcases List.mem_append.1 refers with left | right
    · exact absurd (key.isClass left) noClass
    · exact absurd (value.isClass right) noClass
  | function f =>
    refine .inl ⟨f, rfl, ?_⟩
    obtain ⟨q, member, same⟩ := List.mem_map.1 h
    obtain rfl : q = r := by simpa using same
    unfold Function.scopes at member
    split at member
    · rename_i template body
      rcases List.mem_cons.1 member with rfl | environment
      · exact absurd ((sound.function f).template q body).2 noClass
      · exact Option.mem_toList.1 environment
    · exact Option.mem_toList.1 member
  | scope q =>
    refine .inr ⟨q, rfl, ?_⟩
    simp only [referents, List.mem_append, List.mem_map] at h
    rcases h with ((⟨p, member, same⟩ | member) | ⟨f, _, same⟩) | ⟨p, member, same⟩
    · obtain rfl : p = r := by simpa using same
      exact Option.mem_toList.1 member
    · exact absurd (isClass_of_flatMap (sound.vars q) member) noClass
    · cases same
    · obtain rfl : p = r := by simpa using same
      obtain ⟨e, entry, rfl⟩ := List.mem_map.1 member
      exact absurd ((sound.scope q).scopes e entry).2.1 noClass

/-- A scope that belongs to no class is referred to once by each object that refers to it. -/
theorem Sound.count_referrer (sound : s.Sound) (plain : (s.scope r).isClass = false)
    (h : .scope r ∈ s.referents n) : (s.referents n).count (.scope r) = 1 := by
  have noClass : (s.scope r).isClass ≠ true := by simp [plain]
  rcases sound.referrer plain h with ⟨f, rfl, environment⟩ | ⟨q, rfl, parent⟩
  · simp only [referents, Function.scopes, environment]
    split
    · rename_i template body
      have other : template ≠ r := fun same =>
        noClass (same ▸ ((sound.function f).template template body).2)
      simp [other]
    · simp
  · have vars : ((s.scope q).vars.values.flatMap Value.referents).count (.scope r) = 0 :=
      List.count_eq_zero.2 fun member => noClass (isClass_of_flatMap (sound.vars q) member)
    have functions : ((s.scope q).functions.values.map Node.function).count (.scope r) = 0 :=
      List.count_eq_zero.2 (by simp)
    have scopes : ((s.scope q).scopes.values.map Node.scope).count (.scope r) = 0 := by
      refine List.count_eq_zero.2 fun member => ?_
      obtain ⟨p, here, same⟩ := List.mem_map.1 member
      obtain rfl : p = r := by simpa using same
      obtain ⟨e, entry, rfl⟩ := List.mem_map.1 here
      exact noClass ((sound.scope q).scopes e entry).2.1
    simp only [referents, parent, List.count_append, vars, functions, scopes]
    simp

/-! ## What is registered in a scope -/

theorem nodup_keys {κ β : Type} [Ord κ] [Std.TransOrd κ] (m : OrderedMap κ β) : m.keys.Nodup := by
  refine List.pairwise_map.2 (m.ascending.imp fun {a b} before same => ?_)
  have self : compare b.1 b.1 = .eq := Std.ReflCmp.compare_self
  rw [same, self] at before
  cases before

/-- A function is registered once, since it is registered under its own name. -/
theorem Sound.nodup_functions (sound : s.Sound) (r : ScopeRef) :
    (s.scope r).functions.values.Nodup := by
  refine List.Nodup.of_map (fun f => (s.function f).name) ?_
  have names : (s.scope r).functions.values.map (fun f => (s.function f).name) =
      (s.scope r).functions.keys := by
    rw [OrderedMap.values, OrderedMap.keys, List.map_map]
    exact List.map_congr_left fun e entry => ((sound.scope r).functions e entry).2
  rw [names]
  exact nodup_keys _

theorem Sound.nodup_scopes (sound : s.Sound) (r : ScopeRef) :
    (s.scope r).scopes.values.Nodup := by
  refine List.Nodup.of_map (fun q => (s.scope q).name) ?_
  have names : (s.scope r).scopes.values.map (fun q => (s.scope q).name) =
      (s.scope r).scopes.keys := by
    rw [OrderedMap.values, OrderedMap.keys, List.map_map]
    exact List.map_congr_left fun e entry => ((sound.scope r).scopes e entry).2.2
  rw [names]
  exact nodup_keys _

/-- The functions and the named sub-scopes that a scope owns. -/
def owned (s : Store) (r : ScopeRef) : List Node :=
  ((s.scope r).functions.values.filter fun f => (s.function f).environment = some r).map .function ++
    ((s.scope r).scopes.values.filter fun q => (s.scope q).parent = some r).map .scope

theorem length_owned (s : Store) (r : ScopeRef) : (s.owned r).length = s.selfReferences r := by
  simp [owned, selfReferences]

theorem mem_owned : n ∈ s.owned r ↔ s.Owns r n := by
  cases n <;> simp [owned, Owns]

theorem Sound.nodup_owned (sound : s.Sound) (r : ScopeRef) : (s.owned r).Nodup := by
  rw [owned, List.nodup_append]
  refine ⟨?_, ?_, ?_⟩
  · exact ((sound.nodup_functions r).filter _).map fun f g same => by simpa using same
  · exact ((sound.nodup_scopes r).filter _).map fun p q same => by simpa using same
  · rintro a first b second rfl
    obtain ⟨f, -, rfl⟩ := List.mem_map.1 first
    simp at second

theorem Owns.refers (owns : s.Owns r n) : .scope r ∈ s.referents n := by
  cases n with
  | function f =>
    obtain ⟨-, environment⟩ := owns
    simp only [referents, Function.scopes, environment]
    split <;> simp
  | scope q =>
    obtain ⟨-, parent⟩ := owns
    simp [referents, parent]
  | list _ | array _ | dictionary _ => exact owns.elim

theorem Owns.referred (owns : s.Owns r n) : n ∈ s.referents (.scope r) := by
  cases n with
  | function f => simp [referents, owns.1]
  | scope q => simp [referents, owns.1]
  | list _ | array _ | dictionary _ => exact owns.elim

/-! ## What the counts say -/

theorem count_flatMap_pos {nodes : List Node} {f : Node → List Node} :
    0 < (nodes.flatMap f).count n ↔ ∃ m ∈ nodes, n ∈ f m := by
  rw [List.count_pos_iff, List.mem_flatMap]

/-- What is owned, and the rest. -/
theorem Sound.perm_owned (sound : s.Sound) {present : List Node} (nodup : present.Nodup)
    (within : ∀ n, s.Owns r n → n ∈ present) :
    (s.owned r ++ present.filter fun n => !decide (n ∈ s.owned r)).Perm present := by
  have same : (s.owned r).Perm (present.filter fun n => decide (n ∈ s.owned r)) := by
    refine (List.perm_ext_iff_of_nodup (sound.nodup_owned r) (nodup.filter _)).2 fun n => ?_
    simp only [List.mem_filter, decide_eq_true_eq]
    exact ⟨fun own => ⟨within n (mem_owned.1 own), own⟩, fun both => both.2⟩
  exact (same.append_right _).trans (List.filter_append_perm _ present)

/-- A scope that belongs to no class is referred to once by each object that it owns. -/
theorem Sound.count_owned (sound : s.Sound) (plain : (s.scope r).isClass = false) :
    ((s.owned r).flatMap s.referents).count (.scope r) = s.selfReferences r := by
  have once : ∀ n ∈ s.owned r, (List.count (.scope r) ∘ s.referents) n = 1 := fun n own =>
    sound.count_referrer plain (mem_owned.1 own).refers
  rw [List.count_flatMap, List.map_congr_left once, List.map_const', List.sum_replicate_nat,
    length_owned, Nat.mul_one]

/-- The count that decides on a scope: more than the scope itself and its own refer to it. -/
theorem Sound.count_scope (sound : s.Sound) (plain : (s.scope r).isClass = false)
    {present : List Node} (nodup : present.Nodup) (within : ∀ n, s.Owns r n → n ∈ present) :
    1 + s.selfReferences r < (s.sources (.object r :: held) present).count (.scope r) ↔
      .scope r ∈ held.flatMap Value.referents ∨
        ∃ m ∈ present, ¬ s.Owns r m ∧ .scope r ∈ s.referents m := by
  have root : ((Value.object r :: held).flatMap Value.referents).count (.scope r) =
      1 + (held.flatMap Value.referents).count (.scope r) := by
    simp [Value.referents, Nat.add_comm]
  have parts := ((sound.perm_owned nodup within).flatMap_right s.referents).count_eq (.scope r)
  rw [List.flatMap_append, List.count_append, sound.count_owned plain] at parts
  have inUse := List.count_pos_iff (a := .scope r) (l := held.flatMap Value.referents)
  have others : 0 < ((present.filter fun n => !decide (n ∈ s.owned r)).flatMap s.referents).count
      (.scope r) ↔ ∃ m ∈ present, ¬ s.Owns r m ∧ .scope r ∈ s.referents m := by
    rw [count_flatMap_pos]
    simp only [List.mem_filter, Bool.not_eq_true', decide_eq_false_iff_not, mem_owned, and_assoc]
  rw [← inUse, ← others, sources, List.count_append, root, ← parts]
  omega

/-- The count that decides on a function of a scope: more than its name refers to it. -/
theorem Sound.count_function (sound : s.Sound) {present : List Node} (nodup : present.Nodup)
    (here : .scope r ∈ present) {f : FunctionRef} (own : f ∈ (s.scope r).functions.values) :
    1 < (s.sources (.object r :: held) present).count (.function f) ↔
      .function f ∈ held.flatMap Value.referents ∨
        ∃ m ∈ present, .function f ∈ s.unnamedReferents r m := by
  have root : ((Value.object r :: held).flatMap Value.referents).count (.function f) =
      (held.flatMap Value.referents).count (.function f) := by
    simp [Value.referents]
  have parts := ((List.perm_cons_erase here).flatMap_right s.referents).count_eq (.function f)
  have name : (s.referents (.scope r)).count (.function f) =
      (s.unnamedReferents r (.scope r)).count (.function f) + 1 := by
    have once : ((s.scope r).functions.values.map Node.function).count (.function f) = 1 := by
      have distinct : ((s.scope r).functions.values.map Node.function).Nodup :=
        (sound.nodup_functions r).map fun f g same => by simpa using same
      exact List.count_eq_one_of_mem distinct (List.mem_map.2 ⟨f, own, rfl⟩)
    have scopes : ((s.scope r).scopes.values.map Node.scope).count (.function f) = 0 :=
      List.count_eq_zero.2 (by simp)
    simp only [referents, unnamedReferents, List.count_append, once, scopes]
    simp
  have others : 0 < ((present.erase (.scope r)).flatMap s.referents).count (.function f) ↔
      ∃ m ∈ present, m ≠ .scope r ∧ .function f ∈ s.referents m := by
    rw [count_flatMap_pos]
    simp only [nodup.mem_erase_iff]
    exact exists_congr fun m => by rw [and_assoc, and_left_comm]
  have unnamed : (∃ m ∈ present, .function f ∈ s.unnamedReferents r m) ↔
      0 < (s.unnamedReferents r (.scope r)).count (.function f) ∨
        ∃ m ∈ present, m ≠ .scope r ∧ .function f ∈ s.referents m := by
    rw [List.count_pos_iff]
    constructor
    · rintro ⟨m, isIn, refers⟩
      by_cases same : m = .scope r
      · exact .inl (same ▸ refers)
      · rw [unnamedReferents, if_neg same] at refers
        exact .inr ⟨m, isIn, same, refers⟩
    · rintro (refers | ⟨m, isIn, other, refers⟩)
      · exact ⟨_, here, refers⟩
      · refine ⟨m, isIn, ?_⟩
        rwa [unnamedReferents, if_neg other]
  have inUse := List.count_pos_iff (a := .function f) (l := held.flatMap Value.referents)
  rw [← inUse, unnamed, ← others, sources, List.count_append, root, parts, List.flatMap_cons,
    List.count_append, name]
  omega

/-! ## What is needed -/

theorem hasNode_of_used (usable : ∀ v ∈ held, s.Usable v) (n : Node)
    (h : n ∈ held.flatMap Value.referents) : s.HasNode n := by
  obtain ⟨v, member, refers⟩ := List.mem_flatMap.1 h
  exact (usable v member).hasNode refers

/-- An object that is referred to is in the store. -/
theorem hasNode_of_mem_referents (h : m ∈ s.referents n) : s.HasNode n := by
  by_contra absent
  rw [referents_eq_nil absent] at h
  cases h

/-- Everything is counted that the census counts. -/
theorem count_sources_le {present : List Node} (nodup : present.Nodup)
    (here : ∀ n ∈ present, s.HasNode n) :
    (s.sources held present).count n ≤ (s.sources held s.nodes).count n := by
  have same : present.Perm (s.nodes.filter fun n => decide (n ∈ present)) := by
    refine (List.perm_ext_iff_of_nodup nodup ((nodup_nodes s).filter _)).2 fun n => ?_
    simp only [List.mem_filter, decide_eq_true_eq, mem_nodes]
    exact ⟨fun isIn => ⟨here n isIn, isIn⟩, fun both => both.2⟩
  have parts := (((same.append_right _).trans
    (List.filter_append_perm _ s.nodes)).flatMap_right s.referents).count_eq n
  rw [List.flatMap_append, List.count_append] at parts
  rw [sources, sources, List.count_append, List.count_append]
  omega

theorem not_gone_of_used (inUse : n ∈ held.flatMap Value.referents) : ¬ s.Gone held n := by
  rintro ⟨unused, -⟩
  exact unused inUse

theorem not_gone_of_referred (refers : n ∈ s.referents m) (present : ¬ s.Gone held m) :
    ¬ s.Gone held n := by
  rintro ⟨-, others⟩
  exact present (others m refers)

theorem isNeededBy_iff {c : Census} : s.isNeededBy c r = true ↔
    (∃ f ∈ (s.scope r).functions.values, 1 < s.countIn c (.function f)) ∨
      1 + s.selfReferences r < s.countIn c (.scope r) := by
  simp [isNeededBy]

/-- The counts need a scope that belongs to no class if it is needed. -/
theorem Sound.isNeeded_iff (sound : s.Sound) (usable : ∀ v ∈ held, s.Usable v)
    (here : s.HasScope r) (plain : (s.scope r).isClass = false) :
    s.isNeeded held r = true ↔ s.Needed held r := by
  have inStore : ∀ n ∈ (Value.object r :: held).flatMap Value.referents, s.HasNode n := by
    refine hasNode_of_used fun v member => ?_
    rcases List.mem_cons.1 member with rfl | member
    · exact .inr ⟨r, rfl, here⟩
    · exact usable v member
  obtain ⟨present, nodup, members, counts⟩ := sound.exists_present inStore
  obtain ⟨-, all⟩ := sound.references_spec inStore
  have root : ¬ s.Gone (.object r :: held) (.scope r) :=
    not_gone_of_used (by simp [Value.referents])
  have rootPresent : .scope r ∈ present := (members _).2 ⟨here, root⟩
  have within : ∀ n, s.Owns r n → n ∈ present := fun n own =>
    (members n).2 ⟨sound.hasNode own.referred, not_gone_of_referred own.referred root⟩
  have ownHere {f : FunctionRef} (own : f ∈ (s.scope r).functions.values) :
      s.HasNode (.function f) := by
    refine sound.hasNode (m := .scope r) ?_
    simp [referents, own]
  -- The first look counts more than the census does, so it never decides against a scope alone.
  have both : s.isNeeded held r = true ↔
      s.isNeededBy (s.census (s.references (.object r :: held))) r = true := by
    simp only [isNeeded, Bool.and_eq_true, and_iff_right_iff_imp, isNeededBy_iff]
    have less {n : Node} (there : s.HasNode n) :
        s.countIn (s.census (s.references (.object r :: held))) n ≤
          s.countIn (s.references (.object r :: held)) n := by
      rw [counts n there, all n there]
      exact count_sources_le nodup fun n isIn => ((members n).1 isIn).1
    rintro (⟨f, own, many⟩ | many)
    · exact .inl ⟨f, own, Nat.lt_of_lt_of_le many (less (ownHere own))⟩
    · exact .inr (Nat.lt_of_lt_of_le many (less (n := .scope r) here))
  rw [both, isNeededBy_iff, counts (.scope r) here, sound.count_scope plain nodup within]
  constructor
  · rintro (⟨f, own, many⟩ | inUse | ⟨m, isIn, foreign, refers⟩)
    · rw [counts _ (ownHere own), sound.count_function nodup rootPresent own] at many
      rcases many with inUse | ⟨m, isIn, refers⟩
      · exact .functionUsed f own inUse
      · exact .functionReferred f own m ((members m).1 isIn).2 refers
    · exact .used inUse
    · exact .referred m ((members m).1 isIn).2 foreign refers
  · have unnamed {f : FunctionRef} (own : f ∈ (s.scope r).functions.values)
        (many : .function f ∈ held.flatMap Value.referents ∨
          ∃ m ∈ present, .function f ∈ s.unnamedReferents r m) :
        1 < s.countIn (s.census (s.references (.object r :: held))) (.function f) := by
      rw [counts _ (ownHere own)]
      exact (sound.count_function nodup rootPresent own).2 many
    rintro (inUse | ⟨m, notGone, foreign, refers⟩ | ⟨f, own, inUse⟩ |
      ⟨f, own, m, notGone, refers⟩)
    · exact .inr (.inl inUse)
    · have isIn := (members m).2 ⟨hasNode_of_mem_referents refers, notGone⟩
      exact .inr (.inr ⟨m, isIn, foreign, refers⟩)
    · exact .inl ⟨f, own, unnamed own (.inl inUse)⟩
    · refine .inl ⟨f, own, unnamed own (.inr ⟨m, (members m).2 ⟨?_, notGone⟩, refers⟩)⟩
      by_cases same : m = .scope r
      · exact same ▸ here
      · rw [unnamedReferents, if_neg same] at refers
        exact hasNode_of_mem_referents refers

end Scriptlet.Store
