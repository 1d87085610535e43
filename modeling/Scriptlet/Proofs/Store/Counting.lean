import Mathlib.Data.List.Nodup
import Scriptlet.Proofs.Store.Soundness

/-!
# What the census counts

In a sound store the census is exact: it counts the references from the values in use and from
the objects that are not gone (`Store.exists_present`), where an object is gone once nothing in
use refers to it and all that refers to it is gone.
-/

namespace Scriptlet.Store

variable {s : Store} {held : List Value} {n m : Node}

/-- Whether an object is in the store. -/
def HasNode (s : Store) : Node → Prop
  | .list l => l.index < s.lists.size
  | .array a => a.index < s.arrays.size
  | .dictionary d => d.index < s.dictionaries.size
  | .function f => f.index < s.functions.size
  | .scope r => r.index < s.scopes.size

/-- The objects to which nothing refers, and those to which only objects refer that are gone. -/
inductive Gone (s : Store) (held : List Value) : Node → Prop where
  | unreferred {n : Node} (unused : n ∉ held.flatMap Value.referents)
      (others : ∀ m, n ∈ s.referents m → s.Gone held m) : Gone s held n

/-- What values in use and some objects refer to, as often as they do. -/
def sources (s : Store) (held : List Value) (nodes : List Node) : List Node :=
  held.flatMap Value.referents ++ nodes.flatMap s.referents

/-! ## Places -/

theorem mem_nodes : n ∈ s.nodes ↔ s.HasNode n := by
  rcases n with ⟨⟨i⟩⟩ | ⟨⟨i⟩⟩ | ⟨⟨i⟩⟩ | ⟨⟨i⟩⟩ | ⟨⟨i⟩⟩ <;> simp [nodes, HasNode]

theorem length_nodes (s : Store) : s.nodes.length =
    s.lists.size + s.arrays.size + s.dictionaries.size + s.functions.size + s.scopes.size := by
  simp [nodes, Nat.add_assoc]

theorem place_lt (here : s.HasNode n) : s.place n < s.nodes.length := by
  rw [length_nodes]
  cases n <;> simp only [HasNode, place] at * <;> omega

theorem place_injective (first : s.HasNode n) (second : s.HasNode m)
    (same : s.place n = s.place m) : n = m := by
  rcases n with ⟨⟨i⟩⟩ | ⟨⟨i⟩⟩ | ⟨⟨i⟩⟩ | ⟨⟨i⟩⟩ | ⟨⟨i⟩⟩ <;>
    rcases m with ⟨⟨j⟩⟩ | ⟨⟨j⟩⟩ | ⟨⟨j⟩⟩ | ⟨⟨j⟩⟩ | ⟨⟨j⟩⟩ <;>
    simp only [HasNode, place] at first second same <;>
    first
    | omega
    | obtain rfl : i = j := by omega
      rfl

theorem nodup_nodes (s : Store) : s.nodes.Nodup := by
  refine List.Nodup.of_map s.place ?_
  have places : s.nodes.map s.place = List.range s.nodes.length := by
    simp [nodes, place, List.range_add, Function.comp_def, Nat.add_assoc]
  rw [places]
  exact List.nodup_range

/-! ## What a sound store refers to -/

theorem Valid.hasNode {v : Value} (valid : s.Valid v) (h : n ∈ v.referents) : s.HasNode n := by
  induction v with
  | member collection key ihc ihk =>
    rcases List.mem_append.1 h with left | right
    · exact ihc valid.1 left
    · exact ihk valid.2 right
  | function f | array a | list l | dictionary d =>
    rw [List.mem_singleton.1 h]
    exact valid
  | object o =>
    rw [List.mem_singleton.1 h]
    exact valid.1
  | null | int _ | float _ | vec3 _ | pointer _ | string _ => cases h

theorem hasNode_flatMap {values : List Value} (valid : ∀ v ∈ values, s.Valid v)
    (h : n ∈ values.flatMap Value.referents) : s.HasNode n := by
  obtain ⟨v, member, refers⟩ := List.mem_flatMap.1 h
  exact (valid v member).hasNode refers

/-- What is not in the store refers to nothing. -/
theorem referents_eq_nil (absent : ¬ s.HasNode n) : s.referents n = [] := by
  cases n with
  | list l =>
    have none : s.lists[l.index]? = none := Array.getElem?_eq_none (Nat.le_of_not_lt absent)
    simp [referents, Store.list, none]
  | array a =>
    have none : s.arrays[a.index]? = none := Array.getElem?_eq_none (Nat.le_of_not_lt absent)
    simp [referents, Store.array, none, TypedArray.empty, TypedArray.emptyOf]
  | dictionary d =>
    have none : s.dictionaries[d.index]? = none :=
      Array.getElem?_eq_none (Nat.le_of_not_lt absent)
    simp [referents, Store.dictionary, none, OrderedMap.values, OrderedMap.empty]
  | function f =>
    have none : s.functions[f.index]? = none := Array.getElem?_eq_none (Nat.le_of_not_lt absent)
    simp [referents, Store.function, none, default, Function.scopes]
  | scope r =>
    have none : s.scopes[r.index]? = none := Array.getElem?_eq_none (Nat.le_of_not_lt absent)
    simp [referents, Store.scope, none, default, Scope.new, OrderedMap.values, OrderedMap.empty]

theorem Sound.hasNode (sound : s.Sound) (h : n ∈ s.referents m) : s.HasNode n := by
  cases m with
  | list l => exact hasNode_flatMap (sound.list l) h
  | array a => exact hasNode_flatMap (sound.array a) h
  | dictionary d =>
    obtain ⟨e, member, refers⟩ := List.mem_flatMap.1 h
    obtain ⟨entry, here, rfl⟩ := List.mem_map.1 member
    obtain ⟨key, value⟩ := sound.dictionary d entry here
    rcases List.mem_append.1 refers with left | right
    · exact key.hasNode left
    · exact value.hasNode right
  | function f =>
    obtain ⟨r, member, rfl⟩ := List.mem_map.1 h
    have valid := sound.function f
    unfold Function.scopes at member
    split at member
    · rename_i template body
      rcases List.mem_cons.1 member with rfl | environment
      · exact (valid.template r body).1
      · exact valid.environment r (Option.mem_toList.1 environment)
    · exact valid.environment r (Option.mem_toList.1 member)
  | scope r =>
    by_cases here : s.HasNode (.scope r)
    · have valid := sound.scope r
      simp only [referents, List.mem_append, List.mem_map, List.mem_flatMap] at h
      rcases h with ((⟨p, member, rfl⟩ | ⟨v, member, refers⟩) | ⟨f, member, rfl⟩) | ⟨q, member, rfl⟩
      · exact Nat.lt_trans (valid.parent p (Option.mem_toList.1 member)) here
      · obtain ⟨e, entry, rfl⟩ := List.mem_map.1 member
        exact (valid.vars e entry).hasNode refers
      · obtain ⟨e, entry, rfl⟩ := List.mem_map.1 member
        exact (valid.functions e entry).1
      · obtain ⟨e, entry, rfl⟩ := List.mem_map.1 member
        exact (valid.scopes e entry).1
    · rw [referents_eq_nil here] at h
      cases h

/-! ## Counting -/

variable {c : Census}

/-- What a census says after the count of one object has changed. -/
theorem countIn_modify (size : c.size = s.nodes.length) (change : Nat → Nat) (here : s.HasNode n)
    (there : s.HasNode m) : s.countIn (c.modify (s.place n) change) m =
      if m = n then change (s.countIn c m) else s.countIn c m := by
  have bound : s.place m < c.size := size ▸ place_lt there
  by_cases same : m = n
  · subst same
    simp [countIn, bound, Array.getElem_modify_self]
  · have apart : s.place n ≠ s.place m := fun h => same (place_injective here there h).symm
    simp [countIn, same, apart, Array.getElem?_modify]

theorem size_gained (s : Store) (c : Census) (l : List Node) : (s.gained c l).size = c.size := by
  induction l generalizing c with
  | nil => rfl
  | cons n rest ih => exact (ih _).trans (by simp)

theorem countIn_gained (size : c.size = s.nodes.length) {l : List Node}
    (here : ∀ n ∈ l, s.HasNode n) (there : s.HasNode m) :
    s.countIn (s.gained c l) m = s.countIn c m + l.count m := by
  induction l generalizing c with
  | nil => rfl
  | cons n rest ih =>
    have later : ∀ k ∈ rest, s.HasNode k := fun k member => here k (List.mem_cons_of_mem _ member)
    have first := countIn_modify size (· + 1) (here n List.mem_cons_self) there
    refine (ih (by simpa using size) later).trans ?_
    rw [first, List.count_cons]
    by_cases same : m = n
    · simp [same]
      omega
    · simp [same, Ne.symm same]

/-- All references are those from the values in use and from all objects. -/
theorem Sound.references_spec (sound : s.Sound)
    (inStore : ∀ n ∈ held.flatMap Value.referents, s.HasNode n) :
    (s.references held).size = s.nodes.length ∧
      ∀ m, s.HasNode m → s.countIn (s.references held) m = (s.sources held s.nodes).count m := by
  have zeros : (Array.replicate s.nodes.length 0 : Census).size = s.nodes.length := by simp
  have zero (m : Node) : s.countIn (Array.replicate s.nodes.length 0) m = 0 := by
    unfold countIn
    rw [Array.getElem?_replicate]
    split <;> rfl
  have all (l : List Node) (c : Census) (size : c.size = s.nodes.length) :
      (l.foldl (fun c n => s.gained c (s.referents n)) c).size = s.nodes.length ∧
        ∀ m, s.HasNode m → s.countIn (l.foldl (fun c n => s.gained c (s.referents n)) c) m =
          s.countIn c m + (l.flatMap s.referents).count m := by
    induction l generalizing c with
    | nil => exact ⟨size, fun _ _ => rfl⟩
    | cons n rest ih =>
      obtain ⟨sizes, later⟩ := ih _ ((size_gained s c (s.referents n)).trans size)
      refine ⟨sizes, fun m there => ?_⟩
      rw [List.foldl_cons, later m there, countIn_gained size (fun k => sound.hasNode) there,
        List.flatMap_cons, List.count_append, Nat.add_assoc]
  obtain ⟨sizes, counts⟩ := all s.nodes _
    ((size_gained s _ (held.flatMap Value.referents)).trans zeros)
  refine ⟨sizes, fun m there => ?_⟩
  rw [references, counts m there, countIn_gained zeros inStore there, zero, sources,
    List.count_append, Nat.zero_add]

/-! ## Losing references -/

/-- The first reference that is lost counts for what is lost after it. -/
theorem lost_cons (s : Store) (c : Census) (n : Node) (rest : List Node) :
    s.lost c (n :: rest) =
      ((s.lost (c.modify (s.place n) (· - 1)) rest).1,
        (s.lost (c.modify (s.place n) (· - 1)) rest).2 ++
          if s.countIn (c.modify (s.place n) (· - 1)) n = 0 then [n] else []) := by
  let step (found : Census × List Node) (n : Node) : Census × List Node :=
    let c := found.1.modify (s.place n) (· - 1)
    (c, if s.countIn c n = 0 then n :: found.2 else found.2)
  -- the objects found so far stay at the end of the list
  have ends (l : List Node) (c : Census) (gone : List Node) :
      l.foldl step (c, gone) = ((s.lost c l).1, (s.lost c l).2 ++ gone) := by
    induction l generalizing c gone with
    | nil => rfl
    | cons m rest ih =>
      have here : s.lost c (m :: rest) = rest.foldl step (step (c, []) m) := rfl
      rw [List.foldl_cons, here, ih, ih]
      dsimp only [step]
      split <;> simp
  have here : s.lost c (n :: rest) = rest.foldl step (step (c, []) n) := rfl
  rw [here, ends]

theorem size_lost (s : Store) (c : Census) (l : List Node) : (s.lost c l).1.size = c.size := by
  induction l generalizing c with
  | nil => rfl
  | cons n rest ih => simp [lost_cons, ih]

theorem countIn_lost (size : c.size = s.nodes.length) {l : List Node}
    (here : ∀ n ∈ l, s.HasNode n) (there : s.HasNode m) :
    s.countIn (s.lost c l).1 m = s.countIn c m - l.count m := by
  induction l generalizing c with
  | nil => rfl
  | cons n rest ih =>
    have later : ∀ k ∈ rest, s.HasNode k := fun k member => here k (List.mem_cons_of_mem _ member)
    have first := countIn_modify size (· - 1) (here n List.mem_cons_self) there
    rw [lost_cons, ih (by simpa using size) later, first, List.count_cons]
    by_cases same : m = n
    · simp [same]
      omega
    · simp [same, Ne.symm same]

/-- The objects that lose their last reference, if none loses more than it has. -/
theorem lost_spec (size : c.size = s.nodes.length) {l : List Node}
    (here : ∀ n ∈ l, s.HasNode n) (enough : ∀ m, s.HasNode m → l.count m ≤ s.countIn c m) :
    (s.lost c l).2.Nodup ∧ ∀ m, m ∈ (s.lost c l).2 ↔ m ∈ l ∧ s.countIn c m = l.count m := by
  induction l generalizing c with
  | nil => exact ⟨.nil, by simp [lost]⟩
  | cons n rest ih =>
    have first := here n List.mem_cons_self
    have later : ∀ m ∈ rest, s.HasNode m := fun m member => here m (List.mem_cons_of_mem _ member)
    have some := enough n first
    rw [List.count_cons_self] at some
    have less : s.countIn (c.modify (s.place n) (· - 1)) n = s.countIn c n - 1 := by
      rw [countIn_modify size _ first first, if_pos rfl]
    have equal {m : Node} (there : s.HasNode m) (other : m ≠ n) :
        s.countIn (c.modify (s.place n) (· - 1)) m = s.countIn c m := by
      rw [countIn_modify size _ first there, if_neg other]
    have left : ∀ m, s.HasNode m →
        rest.count m ≤ s.countIn (c.modify (s.place n) (· - 1)) m := by
      intro m there
      by_cases same : m = n
      · subst same
        omega
      · have bound := enough m there
        rw [List.count_cons_of_ne (Ne.symm same)] at bound
        rwa [equal there same]
    obtain ⟨nodup, members⟩ := ih (by simpa using size) later left
    have others {m : Node} (other : m ≠ n) :
        m ∈ (s.lost (c.modify (s.place n) (· - 1)) rest).2 ↔
          m ∈ n :: rest ∧ s.countIn c m = (n :: rest).count m := by
      rw [members m, List.count_cons_of_ne (Ne.symm other), List.mem_cons]
      refine ⟨fun ⟨isIn, counted⟩ => ⟨.inr isIn, ?_⟩, fun ⟨isIn, counted⟩ => ?_⟩
      · rwa [equal (later m isIn) other] at counted
      · have isIn := isIn.resolve_left other
        exact ⟨isIn, (equal (later m isIn) other).trans counted⟩
    rw [lost_cons]
    by_cases last : s.countIn (c.modify (s.place n) (· - 1)) n = 0
    · have absent : n ∉ rest := by
        intro isIn
        have := List.count_pos_iff.2 isIn
        omega
      have apart : n ∉ (s.lost (c.modify (s.place n) (· - 1)) rest).2 := fun isIn =>
        absent ((members n).1 isIn).1
      rw [if_pos last]
      refine ⟨?_, fun m => ?_⟩
      · rw [List.nodup_append]
        refine ⟨nodup, by simp, ?_⟩
        rintro a isIn b single rfl
        exact apart (List.mem_singleton.1 single ▸ isIn)
      · by_cases same : m = n
        · subst same
          have none := List.count_eq_zero.2 absent
          simp [none]
          omega
        · simp [others same, same]
    · rw [if_neg last, List.append_nil]
      refine ⟨nodup, fun m => ?_⟩
      by_cases same : m = n
      · subst same
        rw [members m, less, List.count_cons_self]
        constructor
        · rintro ⟨-, counted⟩
          exact ⟨List.mem_cons_self, by omega⟩
        · rintro ⟨-, counted⟩
          have isIn : m ∈ rest := List.count_pos_iff.1 (by omega)
          exact ⟨isIn, by omega⟩
      · exact others same

/-! ## Objects that go -/

/-- What holds while objects go: the census counts the references from what is in use and from
the objects that are left, and those without references are on the way out. -/
structure Releasing (s : Store) (held : List Value) (left gone : List Node) (c : Census) :
    Prop where
  size : c.size = s.nodes.length
  count : ∀ m, s.HasNode m → s.countIn c m = (s.sources held left).count m
  nodup : left.Nodup
  here : ∀ n ∈ left, s.HasNode n
  distinct : gone.Nodup
  leaving : ∀ n, n ∈ gone ↔ n ∈ left ∧ s.countIn c n = 0
  unused : ∀ n, s.HasNode n → n ∉ left → s.countIn c n = 0 ∧ s.Gone held n

theorem count_sources_erase {left : List Node} (member : n ∈ left) (m : Node) :
    (s.sources held left).count m =
      (s.referents n).count m + (s.sources held (left.erase n)).count m := by
  have swap : (left.flatMap s.referents).Perm ((n :: left.erase n).flatMap s.referents) :=
    (List.perm_cons_erase member).flatMap_right _
  simp only [sources, List.count_append, swap.count_eq, List.flatMap_cons]
  omega

/-- What the census does not count, and what only gone objects refer to, is gone. -/
theorem gone_of_count_eq_zero {left : List Node}
    (others : ∀ m, s.HasNode m → m ∉ left → s.Gone held m)
    (none : (s.sources held left).count n = 0) : s.Gone held n := by
  rw [sources, List.count_append] at none
  refine .unreferred (List.count_eq_zero.1 (by omega)) fun m refers => ?_
  have here : s.HasNode m := by
    by_contra absent
    rw [referents_eq_nil absent] at refers
    cases refers
  refine others m here fun member => ?_
  have unreferred : n ∉ left.flatMap s.referents := List.count_eq_zero.1 (by omega)
  exact unreferred (List.mem_flatMap.2 ⟨m, member, refers⟩)

/-- One more object goes. -/
theorem Releasing.step (sound : s.Sound) {left gone : List Node}
    (releasing : s.Releasing held left (n :: gone) c) :
    s.Releasing held (left.erase n) ((s.lost c (s.referents n)).2 ++ gone)
      (s.lost c (s.referents n)).1 := by
  obtain ⟨size, count, nodup, here, distinct, leaving, unused⟩ := releasing
  obtain ⟨member, zero⟩ := (leaving n).1 List.mem_cons_self
  have refers : ∀ m ∈ s.referents n, s.HasNode m := fun m => sound.hasNode
  have enough : ∀ m, s.HasNode m → (s.referents n).count m ≤ s.countIn c m := by
    intro m there
    rw [count m there, count_sources_erase member m]
    omega
  obtain ⟨lostDistinct, lost⟩ := lost_spec size refers enough
  have counts (m : Node) (there : s.HasNode m) :
      s.countIn (s.lost c (s.referents n)).1 m = s.countIn c m - (s.referents n).count m :=
    countIn_lost size refers there
  have counted : ∀ m, s.HasNode m →
      s.countIn (s.lost c (s.referents n)).1 m = (s.sources held (left.erase n)).count m := by
    intro m there
    rw [counts m there, count m there, count_sources_erase member m]
    omega
  have lostCount {m : Node} (isLost : m ∈ (s.lost c (s.referents n)).2) : 0 < s.countIn c m := by
    obtain ⟨referred, same⟩ := (lost m).1 isLost
    rw [same]
    exact List.count_pos_iff.2 referred
  have outside : ∀ m, s.HasNode m → m ∉ left.erase n → s.countIn c m = 0 ∧ s.Gone held m := by
    intro m there absent
    by_cases same : m = n
    · subst same
      refine ⟨zero, gone_of_count_eq_zero (fun k isIn out => (unused k isIn out).2) ?_⟩
      rw [← count m there, zero]
    · exact unused m there fun isIn => absent ((List.mem_erase_of_ne same).2 isIn)
  refine ⟨(size_lost s c _).trans size, counted, nodup.erase n,
    fun m isIn => here m (List.mem_of_mem_erase isIn), ?_, fun m => ?_, fun m there absent => ?_⟩
  · -- What was on the way out before had no reference to lose.
    rw [List.nodup_append]
    refine ⟨lostDistinct, (List.nodup_cons.1 distinct).2, ?_⟩
    rintro a isLost b isGone rfl
    have := ((leaving a).1 (List.mem_cons_of_mem _ isGone)).2
    have := lostCount isLost
    omega
  · -- On the way out are those that lose their last reference here and those that were before.
    constructor
    · intro isIn
      rcases List.mem_append.1 isIn with isLost | isGone
      · obtain ⟨referred, same⟩ := (lost m).1 isLost
        have there := refers m referred
        refine ⟨?_, ?_⟩
        · by_contra absent
          have := (outside m there absent).1
          have := lostCount isLost
          omega
        · rw [counts m there, same]
          omega
      · obtain ⟨isLeft, none⟩ := (leaving m).1 (List.mem_cons_of_mem _ isGone)
        have other : m ≠ n := fun same => (List.nodup_cons.1 distinct).1 (same ▸ isGone)
        refine ⟨(List.mem_erase_of_ne other).2 isLeft, ?_⟩
        rw [counts m (here m isLeft), none]
        omega
    · rintro ⟨isLeft, none⟩
      have there := here m (List.mem_of_mem_erase isLeft)
      rw [counts m there] at none
      have bound := enough m there
      by_cases already : s.countIn c m = 0
      · have isGone := (leaving m).2 ⟨List.mem_of_mem_erase isLeft, already⟩
        have other : m ≠ n := fun same => (nodup.mem_erase_iff.1 isLeft).1 same
        exact List.mem_append_right _ ((List.mem_cons.1 isGone).resolve_left other)
      · refine List.mem_append_left _ ((lost m).2 ⟨?_, ?_⟩)
        · exact List.count_pos_iff.1 (by omega)
        · omega
  · obtain ⟨none, isGone⟩ := outside m there absent
    rw [counts m there, none]
    exact ⟨by omega, isGone⟩

/-- All that can go has gone when the steps are used up. -/
theorem Releasing.release (sound : s.Sound) {fuel : Nat} {left gone : List Node}
    (enough : left.length ≤ fuel) (releasing : s.Releasing held left gone c) :
    ∃ left, s.Releasing held left [] (s.release fuel gone c) := by
  induction fuel generalizing left gone c with
  | zero =>
    cases gone with
    | nil => exact ⟨left, releasing⟩
    | cons n gone =>
      have member := ((releasing.leaving n).1 List.mem_cons_self).1
      rw [List.eq_nil_of_length_eq_zero (Nat.le_zero.1 enough)] at member
      cases member
  | succ fuel ih =>
    cases gone with
    | nil => exact ⟨left, releasing⟩
    | cons n gone =>
      have member := ((releasing.leaving n).1 List.mem_cons_self).1
      have shorter := List.length_erase_of_mem member
      exact ih (by omega) (releasing.step sound)

/-- The census of a sound store counts the references from the values in use and from the objects
that are not gone. -/
theorem Sound.exists_present (sound : s.Sound)
    (inStore : ∀ n ∈ held.flatMap Value.referents, s.HasNode n) :
    ∃ present : List Node, present.Nodup ∧
      (∀ n, n ∈ present ↔ s.HasNode n ∧ ¬ s.Gone held n) ∧
      ∀ m, s.HasNode m →
        s.countIn (s.census (s.references held)) m = (s.sources held present).count m := by
  obtain ⟨size, count⟩ := sound.references_spec inStore
  have start : s.Releasing held s.nodes
      (s.nodes.filter fun n => s.countIn (s.references held) n = 0) (s.references held) := by
    refine ⟨size, count, nodup_nodes s, fun n => mem_nodes.1, (nodup_nodes s).filter _, ?_, ?_⟩
    · intro n
      simp
    · intro n here absent
      exact absurd (mem_nodes.2 here) absent
  obtain ⟨left, releasing⟩ := start.release sound (Nat.le_refl _)
  refine ⟨left, releasing.nodup,
    fun n => ⟨fun member => ⟨releasing.here n member, fun gone => ?_⟩, ?_⟩, releasing.count⟩
  · -- With nothing on the way out, all that is left is counted.
    have stays : ∀ m, s.Gone held m → m ∉ left := by
      intro m gone
      induction gone with
      | @unreferred m unused others ih =>
        intro member
        have none : s.countIn (s.census (s.references held)) m = 0 := by
          rw [census, releasing.count m (releasing.here m member), sources, List.count_append,
            List.count_eq_zero.2 unused, Nat.zero_add, List.count_eq_zero]
          intro refers
          obtain ⟨k, isIn, referred⟩ := List.mem_flatMap.1 refers
          exact ih k referred isIn
        have := (releasing.leaving m).2 ⟨member, none⟩
        cases this
    exact stays n gone member
  · rintro ⟨here, present⟩
    by_contra absent
    exact present (releasing.unused n here absent).2

end Scriptlet.Store
