import Mathlib.Data.List.Forall2
import Mathlib.Logic.Relation
import Scriptlet.Proofs.Dictionary
import Scriptlet.Proofs.Number
import Scriptlet.Proofs.Store.Appending

/-!
# Equality

Equality is symmetric and transitive, since one step of a comparison is if the comparison of what
collections hold is. For dictionaries this is a matter of counting: as many keys on both sides, each
of the left one also on the right, are the same keys (`entriesEqual_iff`). A value that has no float
inside is equal to itself.

Within a value without cycles the comparison never ends for want of fuel: the collections on a path
into it are all different (`within_of_path`), so that `equal` is the function that compares what
collections hold with itself (`equal_eq`).
-/

namespace Scriptlet

namespace Store

variable {equal : Value → Value → Bool}

/-- Two dictionaries are equal if they have the same keys, and equal values under each. -/
theorem entriesEqual_iff {a b : Dictionary} : entriesEqual equal a b = true ↔
    (∀ k, k ∈ a.keys ↔ k ∈ b.keys) ∧
      ∀ k e f, a.get? k = some e → b.get? k = some f → equal f.value e.value = true := by
  have checked : entriesEqual equal a b = true ↔ a.size = b.size ∧
      ∀ k e, a.get? k = some e → ∃ f, b.get? k = some f ∧ equal f.value e.value = true := by
    simp only [entriesEqual, Bool.and_eq_true, decide_eq_true_iff, List.all_eq_true,
      Option.any_eq_true, Prod.forall, OrderedMap.mem_entries_iff]
  rw [checked]
  constructor
  · rintro ⟨size, found⟩
    have inside : a.keys ⊆ b.keys := fun k member => by
      obtain ⟨e, here⟩ := OrderedMap.mem_keys_iff.1 member
      obtain ⟨f, there, -⟩ := found k e here
      exact OrderedMap.mem_keys_iff.2 ⟨f, there⟩
    refine ⟨fun k => ⟨@inside k, OrderedMap.mem_keys_of_subset size inside⟩, ?_⟩
    intro k e f here there
    obtain ⟨g, found, same⟩ := found k e here
    obtain rfl := Option.some.inj (there.symm.trans found)
    exact same
  · rintro ⟨keys, same⟩
    refine ⟨OrderedMap.size_eq_of_keys keys, fun k e here => ?_⟩
    obtain ⟨f, there⟩ := OrderedMap.mem_keys_iff.1 ((keys k).1 (OrderedMap.mem_keys_iff.2 ⟨e, here⟩))
    exact ⟨f, there, same k e f here there⟩

/-! ## One step of a comparison -/

section Step

variable {s : Store} {u v w : Value}

theorem allEqual_iff {a b : List Value} :
    allEqual equal a b = true ↔ List.Forall₂ (fun v w => equal v w = true) a b := by
  simp [allEqual, List.forall₂_iff_zip]

theorem allEqual_comm (comm : ∀ v w, equal v w = equal w v) (a b : List Value) :
    allEqual equal a b = allEqual equal b a := by
  have turned {a b : List Value} (same : allEqual equal a b = true) : allEqual equal b a = true :=
    allEqual_iff.2 (((allEqual_iff.1 same).imp fun v w same => (comm w v).trans same).flip)
  exact Bool.eq_iff_iff.2 ⟨turned, turned⟩

theorem allEqual_trans (trans : ∀ u v w, equal u v = true → equal v w = true → equal u w = true)
    {a b c : List Value} (first : allEqual equal a b = true) (second : allEqual equal b c = true) :
    allEqual equal a c = true := by
  rw [allEqual_iff] at *
  induction first generalizing c with
  | nil => exact second
  | cons same _ ih =>
    cases second with
    | cons next rest => exact .cons (trans _ _ _ same next) (ih rest)

theorem entriesEqual_comm (comm : ∀ v w, equal v w = equal w v) (a b : Dictionary) :
    entriesEqual equal a b = entriesEqual equal b a := by
  have turned {a b : Dictionary} (same : entriesEqual equal a b = true) :
      entriesEqual equal b a = true := by
    obtain ⟨keys, values⟩ := entriesEqual_iff.1 same
    exact entriesEqual_iff.2 ⟨fun k => (keys k).symm, fun k e f here there =>
      (comm _ _).trans (values k f e there here)⟩
  exact Bool.eq_iff_iff.2 ⟨turned, turned⟩

theorem entriesEqual_trans
    (trans : ∀ u v w, equal u v = true → equal v w = true → equal u w = true) {a b c : Dictionary}
    (first : entriesEqual equal a b = true) (second : entriesEqual equal b c = true) :
    entriesEqual equal a c = true := by
  obtain ⟨keys, values⟩ := entriesEqual_iff.1 first
  obtain ⟨keys', values'⟩ := entriesEqual_iff.1 second
  refine entriesEqual_iff.2 ⟨fun k => (keys k).trans (keys' k), fun k e g here there => ?_⟩
  obtain ⟨f, between⟩ := OrderedMap.mem_keys_iff.1
    ((keys k).1 (OrderedMap.mem_keys_iff.2 ⟨e, here⟩))
  exact trans _ _ _ (values' k f g between there) (values k e f here between)

theorem kind_of_contentsEqual (same : s.contentsEqual equal v w = true) : v.kind = w.kind := by
  unfold contentsEqual at same
  split at same
  case h_6 => rw [of_decide_eq_true same]
  all_goals rfl

theorem contentsEqual_array {a b : ArrayRef} :
    s.contentsEqual equal (.array a) (.array b) = true ↔ a = b ∨
      (s.array a).element = (s.array b).element ∧
        allEqual equal (s.array a).items (s.array b).items = true := by
  simp [contentsEqual]

theorem contentsEqual_list {l m : ListRef} : s.contentsEqual equal (.list l) (.list m) = true ↔
    l = m ∨ allEqual equal (s.list l) (s.list m) = true := by
  simp [contentsEqual]

theorem contentsEqual_dictionary {d e : DictionaryRef} :
    s.contentsEqual equal (.dictionary d) (.dictionary e) = true ↔
      d = e ∨ entriesEqual equal (s.dictionary d) (s.dictionary e) = true := by
  simp [contentsEqual]

theorem contentsEqual_comm (comm : ∀ v w, equal v w = equal w v) (v w : Value) :
    s.contentsEqual equal v w = s.contentsEqual equal w v := by
  have turned {v w : Value} (same : s.contentsEqual equal v w = true) :
      s.contentsEqual equal w v = true := by
    have whole := same
    unfold contentsEqual at same
    split at same
    case h_1 x y => exact (Number.beq_comm y x).trans same
    case h_2 x y => exact (Vec3.equal_comm y x).trans same
    case h_3 a b =>
      exact contentsEqual_array.2 ((contentsEqual_array.1 whole).imp Eq.symm fun both =>
        ⟨both.1.symm, (allEqual_comm comm _ _).trans both.2⟩)
    case h_4 l m =>
      exact contentsEqual_list.2 ((contentsEqual_list.1 whole).imp Eq.symm
        (allEqual_comm comm _ _).trans)
    case h_5 d e =>
      exact contentsEqual_dictionary.2 ((contentsEqual_dictionary.1 whole).imp Eq.symm
        (entriesEqual_comm comm _ _).trans)
    case h_6 =>
      obtain rfl := of_decide_eq_true same
      exact whole
  exact Bool.eq_iff_iff.2 ⟨turned, turned⟩

theorem contentsEqual_trans
    (trans : ∀ u v w, equal u v = true → equal v w = true → equal u w = true)
    (first : s.contentsEqual equal u v = true) (second : s.contentsEqual equal v w = true) :
    s.contentsEqual equal u w = true := by
  -- What is one and the same or related is so over two steps, if it is related over two steps.
  have either {α : Type} {R : α → α → Prop} {a b c : α} (compose : R a b → R b c → R a c) :
      a = b ∨ R a b → b = c ∨ R b c → a = c ∨ R a c := by
    rintro (rfl | first) (rfl | second)
    · exact .inl rfl
    · exact .inr second
    · exact .inr first
    · exact .inr (compose first second)
  have kinds := kind_of_contentsEqual second
  have whole := first
  unfold contentsEqual at first
  split at first
  case h_1 x y =>
    cases w <;> cases kinds
    exact (Number.beq_congr first _).trans second
  case h_2 x y =>
    cases w <;> cases kinds
    exact (Vec3.equal_congr first _).trans second
  case h_3 a b =>
    cases w <;> cases kinds
    rw [contentsEqual_array] at *
    exact either (R := fun a b => (s.array a).element = (s.array b).element ∧
        allEqual equal (s.array a).items (s.array b).items = true)
      (fun one other => ⟨one.1.trans other.1, allEqual_trans trans one.2 other.2⟩) whole second
  case h_4 l m =>
    cases w <;> cases kinds
    rw [contentsEqual_list] at *
    exact either (R := fun l m => allEqual equal (s.list l) (s.list m) = true)
      (allEqual_trans trans) whole second
  case h_5 d e =>
    cases w <;> cases kinds
    rw [contentsEqual_dictionary] at *
    exact either (R := fun d e => entriesEqual equal (s.dictionary d) (s.dictionary e) = true)
      (entriesEqual_trans trans) whole second
  case h_6 =>
    obtain rfl := of_decide_eq_true first
    exact second

end Step

/-! ## Handles -/

section Handles

variable {contents : Value → Value → Bool}

theorem equalBy_comm (comm : ∀ v w, contents v w = contents w v) (v w : Value) :
    Value.equalBy contents v w = Value.equalBy contents w v := by
  induction v generalizing w with
  | member c k first second =>
    cases w with
    | member c' k' => rw [Value.equalBy, Value.equalBy, first, second]
    | _ => exact comm _ _
  | _ => cases w <;> exact comm _ _

theorem kind_of_equalBy (kinds : ∀ {v w}, contents v w = true → v.kind = w.kind) {v w : Value}
    (same : Value.equalBy contents v w = true) : v.kind = w.kind := by
  unfold Value.equalBy at same
  split at same
  · rfl
  · exact kinds same

theorem equalBy_trans
    (trans : ∀ u v w, contents u v = true → contents v w = true → contents u w = true)
    (kinds : ∀ {v w}, contents v w = true → v.kind = w.kind) {u v w : Value}
    (first : Value.equalBy contents u v = true) (second : Value.equalBy contents v w = true) :
    Value.equalBy contents u w = true := by
  induction u generalizing v w with
  | member c k collection key =>
    cases v <;> cases kind_of_equalBy kinds first
    cases w <;> cases kind_of_equalBy kinds second
    simp only [Value.equalBy, Bool.and_eq_true] at *
    exact ⟨collection first.1 second.1, key first.2 second.2⟩
  | _ =>
    cases v <;> cases kind_of_equalBy kinds first
    cases w <;> cases kind_of_equalBy kinds second
    exact trans _ _ _ first second

end Handles

/-! ## Values -/

variable {s : Store} {n m m' : Nat} {u v w : Value}

theorem equalWithin_comm (n : Nat) (v w : Value) : s.equalWithin n v w = s.equalWithin n w v := by
  induction n generalizing v w with
  | zero => rfl
  | succ n ih => exact equalBy_comm (contentsEqual_comm ih) v w

theorem equalWithin_trans (first : s.equalWithin n u v = true) (second : s.equalWithin n v w = true) :
    s.equalWithin n u w = true := by
  induction n generalizing u v w with
  | zero => cases first
  | succ n ih =>
    have composes : ∀ u v w, s.contentsEqual (s.equalWithin n) u v = true →
        s.contentsEqual (s.equalWithin n) v w = true → s.contentsEqual (s.equalWithin n) u w = true :=
      fun _ _ _ => contentsEqual_trans fun _ _ _ => ih
    exact equalBy_trans composes kind_of_contentsEqual first second

theorem equal_comm (v w : Value) : s.equal v w = s.equal w v := equalWithin_comm _ v w

theorem equal_trans (first : s.equal u v = true) (second : s.equal v w = true) :
    s.equal u w = true :=
  equalWithin_trans first second

theorem equal_self (v : Value) : s.equal v v = v.isSelfEqual := equalWithin_self s _ v

/-! ## What a comparison looks into -/

/-- What a comparison of a value goes on to compare: the parts of a handle and what collections hold. -/
def parts (s : Store) : Value → List Value
  | .member collection key => [collection, key]
  | .array a => (s.array a).items
  | .list l => s.list l
  | .dictionary d => (s.dictionary d).storedValues
  | _ => []

/-- Whether one value is inside another one, or is that value. -/
def Contained (s : Store) (w v : Value) : Prop :=
  Relation.ReflTransGen (fun v w => w ∈ s.parts v) v w

/-- Whether a value can be met again on the way into it. -/
def ContainsItself (s : Store) (v : Value) : Prop :=
  Relation.TransGen (fun v w => w ∈ s.parts v) v v

/-- Whether nothing in a value is inside itself. -/
def Acyclic (s : Store) (v : Value) : Prop := ∀ w, s.Contained w v → ¬ s.ContainsItself w

/-- Whether no float and no vector, which is made of floats, is inside a value. -/
def FloatFree (s : Store) (v : Value) : Prop :=
  ∀ w, s.Contained w v → w.kind ≠ .float ∧ w.kind ≠ .vec3

theorem Acyclic.part (acyclic : s.Acyclic v) (inside : w ∈ s.parts v) : s.Acyclic w :=
  fun x deeper => acyclic x (deeper.head inside)

theorem FloatFree.part (free : s.FloatFree v) (inside : w ∈ s.parts v) : s.FloatFree w :=
  fun x deeper => free x (deeper.head inside)

/-- A value whose parts have no cycles has none. -/
theorem acyclic_of_parts (parts : ∀ w ∈ s.parts v, s.Acyclic w) : s.Acyclic v := by
  intro x inside cycle
  rcases inside.cases_head with rfl | ⟨w, part, deeper⟩
  · -- The cycle leads through a part, in which it is a cycle as well.
    obtain ⟨w, part, back⟩ := Relation.TransGen.head'_iff.1 cycle
    exact parts w part v back cycle
  · exact parts w part x deeper cycle

theorem floatFree_of_parts (here : v.kind ≠ .float ∧ v.kind ≠ .vec3)
    (parts : ∀ w ∈ s.parts v, s.FloatFree w) : s.FloatFree v := by
  intro x inside
  rcases inside.cases_head with rfl | ⟨w, part, deeper⟩
  · exact here
  · exact parts w part x deeper

theorem FloatFree.isSelfEqual (free : s.FloatFree v) : v.isSelfEqual = true := by
  have here := free v .refl
  induction v with
  | float x => exact absurd rfl here.1
  | vec3 u => exact absurd rfl here.2
  | member c k collection key =>
    have left : s.FloatFree c := free.part List.mem_cons_self
    have right : s.FloatFree k := free.part (List.mem_cons_of_mem _ List.mem_cons_self)
    exact Bool.and_eq_true_iff.2 ⟨collection left (left c .refl), key right (right k .refl)⟩
  | _ => rfl

/-! ## Fuel -/

/-- Whether each path into a value leads through fewer collections than fuel is there. -/
inductive Within (s : Store) : (fuel : Nat) → Value → Prop where
  | handle {n : Nat} {collection key : Value} (collections : Within s n collection)
      (keys : Within s n key) : Within s n (.member collection key)
  | content {n : Nat} {v : Value} (other : v.kind ≠ .member) (parts : ∀ w ∈ s.parts v, Within s n w) :
      Within s (n + 1) v

theorem Within.pos (within : s.Within n v) : 0 < n := by
  induction within with
  | handle _ _ left _ => exact left
  | content => exact Nat.succ_pos _

theorem equalBy_of_kind {contents : Value → Value → Bool} (other : v.kind ≠ .member) (w : Value) :
    Value.equalBy contents v w = contents v w := by
  cases v with
  | member _ _ => exact absurd rfl other
  | _ => rfl

section Congruence

variable {equal' : Value → Value → Bool}

theorem allEqual_congr {a : List Value} (same : ∀ x ∈ a, ∀ y, equal x y = equal' x y) (b : List Value) :
    allEqual equal a b = allEqual equal' a b := by
  have each : ∀ p ∈ a.zip b, equal p.1 p.2 = equal' p.1 p.2 := fun p inside =>
    same _ (List.of_mem_zip inside).1 _
  rw [Bool.eq_iff_iff]
  simp +contextual [allEqual, each]

theorem entriesEqual_congr {a : Dictionary}
    (same : ∀ x ∈ a.storedValues, ∀ y, equal y x = equal' y x) (b : Dictionary) :
    entriesEqual equal a b = entriesEqual equal' a b := by
  have each : ∀ e ∈ a.entries, ∀ y, equal y e.2.value = equal' y e.2.value := fun e here =>
    same _ (List.mem_map_of_mem (List.mem_map_of_mem here))
  rw [Bool.eq_iff_iff]
  simp +contextual [entriesEqual, each]

theorem contentsEqual_congr (same : ∀ x ∈ s.parts v, ∀ y, equal x y = equal' x y)
    (turned : ∀ x ∈ s.parts v, ∀ y, equal y x = equal' y x) (w : Value) :
    s.contentsEqual equal v w = s.contentsEqual equal' v w := by
  cases v <;> cases w <;> try rfl
  case array.array a b =>
    rw [contentsEqual, contentsEqual, allEqual_congr (a := (s.array a).items) same]
  case list.list l m => rw [contentsEqual, contentsEqual, allEqual_congr (a := s.list l) same]
  case dictionary.dictionary d e => rw [contentsEqual, contentsEqual, entriesEqual_congr turned]

end Congruence

/-- More fuel than a value needs makes no difference. -/
theorem equalWithin_of_within (within : s.Within n v) (enough : n ≤ m) (enough' : n ≤ m') (w : Value) :
    s.equalWithin m v w = s.equalWithin m' v w := by
  induction within generalizing m m' w with
  | handle left _ collection key =>
    obtain ⟨i, rfl⟩ := Nat.exists_eq_add_of_lt (Nat.lt_of_lt_of_le left.pos enough)
    obtain ⟨j, rfl⟩ := Nat.exists_eq_add_of_lt (Nat.lt_of_lt_of_le left.pos enough')
    cases w with
    | member c k => exact congrArg₂ (· && ·) (collection enough enough' c) (key enough enough' k)
    | _ => rfl
  | @content n v other _ parts =>
    obtain ⟨i, rfl⟩ := Nat.exists_eq_add_of_le' enough
    obtain ⟨j, rfl⟩ := Nat.exists_eq_add_of_le' enough'
    have same : ∀ x ∈ s.parts v, ∀ y, s.equalWithin (i + n) x y = s.equalWithin (j + n) x y :=
      fun x inside => parts x inside (Nat.le_add_left n i) (Nat.le_add_left n j)
    rw [← Nat.add_assoc, ← Nat.add_assoc, equalWithin, equalWithin, equalBy_of_kind other,
      equalBy_of_kind other]
    refine contentsEqual_congr same (fun x inside y => ?_) w
    rw [equalWithin_comm, same x inside, equalWithin_comm]

/-- Every list and dictionary of a store. -/
def cells (s : Store) : List Value :=
  (List.range s.lists.size).map (fun i => .list ⟨i⟩) ++
    (List.range s.dictionaries.size).map fun i => .dictionary ⟨i⟩

theorem length_cells (s : Store) : s.cells.length = s.lists.size + s.dictionaries.size := by
  simp [cells]

/-- Values that are neither handles nor lists or dictionaries of the store hold scalars at most. -/
theorem mem_cells_or_parts (other : v.kind ≠ .member) :
    v ∈ s.cells ∨ ∀ w ∈ s.parts v, s.parts w = [] := by
  cases v with
  | member _ _ => exact absurd rfl other
  | list l =>
    by_cases here : l.index < s.lists.size
    · exact .inl (List.mem_append_left _ (List.mem_map.2 ⟨_, List.mem_range.2 here, rfl⟩))
    · refine .inr fun w inside => ?_
      simp [parts, Store.list, here] at inside
  | dictionary d =>
    by_cases here : d.index < s.dictionaries.size
    · exact .inl (List.mem_append_right _ (List.mem_map.2 ⟨_, List.mem_range.2 here, rfl⟩))
    · refine .inr fun w inside => ?_
      simp [parts, Store.dictionary, here, OrderedMap.empty, Dictionary.storedValues,
        OrderedMap.values] at inside
  | array a =>
    refine .inr fun w inside => ?_
    have element : w.kind.isElement = true := (s.array a).uniform w inside ▸ (s.array a).isElement
    cases w <;> first | rfl | cases element
  | _ => exact .inr fun w inside => absurd inside List.not_mem_nil

theorem within_of_parts_nil (nothing : s.parts v = []) : s.Within (n + 1) v := by
  refine .content ?_ fun w inside => ?_
  · cases v with
    | member _ _ => cases nothing
    | _ => nofun
  · rw [nothing] at inside
    cases inside

/-- The collections on a path into a value without cycles are all different, so that such a path ends
once it has led through all of them. -/
theorem within_of_path {path : List Value} (nodup : path.Nodup) (cells : path ⊆ s.cells)
    (leads : ∀ c ∈ path, Relation.TransGen (fun v w => w ∈ s.parts v) c v) (acyclic : s.Acyclic v)
    (room : s.cells.length + 2 ≤ path.length + n) : s.Within n v := by
  induction n generalizing path v with
  | zero =>
    have short := (nodup.subperm cells).length_le
    omega
  | succ n ih =>
    have content (v : Value) (other : v.kind ≠ .member)
        (leads : ∀ c ∈ path, Relation.TransGen (fun v w => w ∈ s.parts v) c v)
        (acyclic : s.Acyclic v) : s.Within (n + 1) v := by
      refine .content other fun w inside => ?_
      rcases mem_cells_or_parts other with cell | scalars
      · have new : v ∉ path := fun member => acyclic v .refl (leads v member)
        refine ih (List.nodup_cons.2 ⟨new, nodup⟩) (List.cons_subset.2 ⟨cell, cells⟩) ?_
          (acyclic.part inside) ?_
        · intro c member
          rcases List.mem_cons.1 member with rfl | before
          · exact .single inside
          · exact (leads c before).tail inside
        · rw [List.length_cons]
          omega
      · have short := (nodup.subperm cells).length_le
        obtain ⟨k, rfl⟩ := Nat.exists_eq_add_of_le' (by omega : 1 ≤ n)
        exact within_of_parts_nil (scalars w inside)
    induction v with
    | member c k left right =>
      have first : c ∈ s.parts (.member c k) := List.mem_cons_self
      have second : k ∈ s.parts (.member c k) := List.mem_cons_of_mem _ List.mem_cons_self
      exact .handle (left (fun x member => (leads x member).tail first) (acyclic.part first))
        (right (fun x member => (leads x member).tail second) (acyclic.part second))
    | _ => exact content _ nofun leads acyclic

theorem Acyclic.within (acyclic : s.Acyclic v) :
    s.Within (s.lists.size + s.dictionaries.size + 2) v := by
  refine within_of_path List.nodup_nil (List.nil_subset _) (by simp) acyclic (Nat.le_of_eq ?_)
  rw [length_cells, List.length_nil, Nat.zero_add]

/-- The comparison of a value without cycles compares what collections hold with itself. -/
theorem equal_eq (acyclic : s.Acyclic v) (w : Value) :
    s.equal v w = Value.equalBy (s.contentsEqual s.equal) v w :=
  equalWithin_of_within acyclic.within (Nat.le_refl _) (Nat.le_succ _) w

/-! ## Copies -/

theorem allEqual_self {a : List Value} (same : ∀ x ∈ a, equal x x = true) :
    allEqual equal a a = true :=
  allEqual_iff.2 (List.forall₂_same.2 same)

/-- Values with the same contents are equal if what is in them is equal to itself. -/
theorem equal_of_sameContents (alike : s.SameContents v s w) (here : v.isSelfEqual = true)
    (parts : ∀ x ∈ s.parts v, x.isSelfEqual = true) : s.equal v w = true := by
  have inner : ∀ x ∈ s.parts v, s.equalWithin (s.lists.size + s.dictionaries.size + 1) x x = true :=
    fun x inside => (equalWithin_self s _ x).trans (parts x inside)
  unfold SameContents at alike
  split at alike
  case h_1 l m => exact contentsEqual_list.2 (.inr (alike ▸ allEqual_self inner))
  case h_2 a b =>
    exact contentsEqual_array.2 (.inr ⟨congrArg _ alike, alike ▸ allEqual_self inner⟩)
  case h_3 d e =>
    refine contentsEqual_dictionary.2 (.inr ?_)
    rw [← alike, entriesEqual_self]
    exact List.all_eq_true.2 inner
  case h_4 =>
    obtain rfl := alike
    exact (equal_self v).trans here

/-- A copy leaves the value as it was and has the same contents. -/
theorem sameContents_duplicate (s : Store) (v : Value) :
    (s.duplicate v).2.SameContents v (s.duplicate v).2 (s.duplicate v).1 ∧
      (s.duplicate v).2.parts v = s.parts v := by
  cases v with
  | list l =>
    have kept : (s.newList (s.list l)).2.list l = s.list l :=
      getD_push_self s.lists _ l.index
    exact ⟨kept.trans (list_newList _ _).symm, kept⟩
  | array a =>
    have kept : (s.newArray (s.array a)).2.array a = s.array a :=
      getD_push_self s.arrays _ a.index
    exact ⟨kept.trans (array_newArray _).symm, congrArg TypedArray.items kept⟩
  | dictionary d =>
    have kept : (s.newDictionary (s.dictionary d)).2.dictionary d = s.dictionary d :=
      getD_push_self s.dictionaries _ d.index
    exact ⟨kept.trans (dictionary_newDictionary _).symm, congrArg Dictionary.storedValues kept⟩
  | _ => exact ⟨rfl, rfl⟩

theorem FloatFree.equal_duplicate (free : s.FloatFree v) :
    (s.duplicate v).2.equal v (s.duplicate v).1 = true := by
  obtain ⟨alike, parts⟩ := sameContents_duplicate s v
  refine equal_of_sameContents alike free.isSelfEqual fun x inside => ?_
  rw [parts] at inside
  exact (free.part inside).isSelfEqual

/-- Equality is the function that compares what collections hold with itself, and an equivalence on
the values without cycles and floats, each of which is equal to its copy. So is the comparison of
dictionaries, which looks for the entries of the left one only. -/
theorem equal_equivalence (s : Store) :
    (∀ v w, s.Acyclic v → s.equal v w = Value.equalBy (s.contentsEqual s.equal) v w) ∧
      Equivalence (fun v w : { v // s.Acyclic v ∧ s.FloatFree v } => s.equal v w = true) ∧
      (∀ v, s.Acyclic v → s.FloatFree v → (s.duplicate v).2.equal v (s.duplicate v).1 = true) ∧
      (∀ d e, entriesEqual s.equal d e = entriesEqual s.equal e d) ∧
      ∀ d e f, entriesEqual s.equal d e = true → entriesEqual s.equal e f = true →
        entriesEqual s.equal d f = true := by
  have composes : ∀ u v w, s.equal u v = true → s.equal v w = true → s.equal u w = true :=
    fun _ _ _ => equal_trans
  refine ⟨fun v w acyclic => equal_eq acyclic w, ⟨?_, ?_, ?_⟩, fun v _ free => free.equal_duplicate,
    entriesEqual_comm equal_comm, fun d e f => entriesEqual_trans composes⟩
  · exact fun v => (equal_self _).trans v.2.2.isSelfEqual
  · exact fun {v w} same => (equal_comm _ _).trans same
  · exact fun {u v w} first second => composes _ _ _ first second

/-- Dictionaries of nested lists: one equal to another one that shares a list with it, and to its
copy. -/
theorem equal_equivalence_nested :
    let s : Store :=
      { Store.empty with
        lists := #[[.int 1, .string "a"], [.list ⟨0⟩, .list ⟨0⟩], [.list ⟨3⟩, .list ⟨0⟩],
          [.int 1, .string "a"]]
        dictionaries := #[Dictionary.ofItems [.list ⟨1⟩], Dictionary.ofItems [.list ⟨2⟩]] }
    s.equal (.dictionary ⟨1⟩) (.dictionary ⟨0⟩) = true ∧
      (s.duplicate (.dictionary ⟨1⟩)).2.equal (.dictionary ⟨1⟩)
        (s.duplicate (.dictionary ⟨1⟩)).1 = true := by
  intro s
  have within {v : Value} (here : v.kind ≠ .float ∧ v.kind ≠ .vec3)
      (parts : ∀ w ∈ s.parts v, s.Acyclic w ∧ s.FloatFree w) : s.Acyclic v ∧ s.FloatFree v :=
    ⟨acyclic_of_parts fun w inside => (parts w inside).1,
      floatFree_of_parts here fun w inside => (parts w inside).2⟩
  have scalars : ∀ v ∈ [Value.int 1, .string "a"], s.Acyclic v ∧ s.FloatFree v := by
    simp [within (v := .int 1) ⟨nofun, nofun⟩ nofun, within (v := .string "a") ⟨nofun, nofun⟩ nofun]
  have first : s.Acyclic (.list ⟨0⟩) ∧ s.FloatFree (.list ⟨0⟩) := within ⟨nofun, nofun⟩ scalars
  have last : s.Acyclic (.list ⟨3⟩) ∧ s.FloatFree (.list ⟨3⟩) := within ⟨nofun, nofun⟩ scalars
  have one : s.Acyclic (.list ⟨1⟩) ∧ s.FloatFree (.list ⟨1⟩) :=
    within ⟨nofun, nofun⟩ (List.forall_mem_cons.2 ⟨first, List.forall_mem_singleton.2 first⟩)
  have other : s.Acyclic (.list ⟨2⟩) ∧ s.FloatFree (.list ⟨2⟩) :=
    within ⟨nofun, nofun⟩ (List.forall_mem_cons.2 ⟨last, List.forall_mem_singleton.2 first⟩)
  have left : s.Acyclic (.dictionary ⟨0⟩) ∧ s.FloatFree (.dictionary ⟨0⟩) :=
    within ⟨nofun, nofun⟩ (List.forall_mem_singleton.2 one)
  have right : s.Acyclic (.dictionary ⟨1⟩) ∧ s.FloatFree (.dictionary ⟨1⟩) :=
    within ⟨nofun, nofun⟩ (List.forall_mem_singleton.2 other)
  obtain ⟨-, ⟨-, symm, -⟩, copies, -⟩ := equal_equivalence s
  have same : s.equal (.dictionary ⟨0⟩) (.dictionary ⟨1⟩) = true := by decide
  exact ⟨symm (x := ⟨_, left⟩) (y := ⟨_, right⟩) same, copies _ right.1 right.2⟩

end Store

end Scriptlet
