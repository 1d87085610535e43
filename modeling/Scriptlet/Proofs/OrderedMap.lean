import Mathlib.Data.List.Perm.Subperm
import Scriptlet.Proofs.Store.Operations

/-!
# Maps by what they hold

A map is known by the values of its keys: maps in which every key has the same value are equal
(`ext_get?`), and a later value of a key takes the place of an earlier one.
-/

namespace Scriptlet.OrderedMap

variable {κ β : Type} [Ord κ] [Std.TransOrd κ]

/-- The value of a key in entries that are placed one after another, later ones over earlier ones. -/
theorem get?_foldl_insert {l : List (κ × β)}
    (ascending : l.Pairwise fun a b => compare a.1 b.1 = .lt) (m : OrderedMap κ β) (k : κ) :
    (l.foldl (fun m e => m.insert e.1 e.2) m).get? k = (find k l).or (m.get? k) := by
  induction ascending generalizing m with
  | nil => simp [find]
  | @cons a rest first _ ih =>
    rw [List.foldl_cons, ih, get?_insert, find]
    cases here : compare k a.1 with
    | lt =>
      have before : ∀ e ∈ rest, compare k e.1 = .lt := fun e member =>
        Std.TransCmp.lt_trans here (first e member)
      simp [find_of_lt before]
    | eq =>
      have before : ∀ e ∈ rest, compare k e.1 = .lt := fun e member =>
        Std.TransCmp.lt_of_eq_of_lt here (first e member)
      simp [find_of_lt before]
    | gt => simp

theorem get?_merge (m other : OrderedMap κ β) (k : κ) :
    (m.merge other).get? k = (other.get? k).or (m.get? k) :=
  get?_foldl_insert other.ascending m k

theorem get?_of_mem {m : OrderedMap κ β} {e : κ × β} (member : e ∈ m.entries) :
    m.get? e.1 = some e.2 := by
  have all {l : List (κ × β)} (ascending : l.Pairwise fun a b => compare a.1 b.1 = .lt)
      (member : e ∈ l) : find e.1 l = some e.2 := by
    induction ascending with
    | nil => cases member
    | @cons a rest first _ ih =>
      have self : compare e.1 e.1 = .eq := Std.ReflCmp.compare_self
      rw [find]
      rcases List.mem_cons.1 member with rfl | later
      · rw [self]
      · rw [Std.OrientedCmp.gt_of_lt (first e later)]
        exact ih later
  exact all m.ascending member

/-- A key after all others is put at the end. -/
theorem entries_insert_last {m : OrderedMap κ β} {k : κ}
    (last : ∀ e ∈ m.entries, compare e.1 k = .lt) (v : β) :
    (m.insert k v).entries = m.entries ++ [(k, v)] := by
  have all {l : List (κ × β)} (last : ∀ e ∈ l, compare e.1 k = .lt) :
      place k v l = l ++ [(k, v)] := by
    induction l with
    | nil => rfl
    | cons a rest ih =>
      rw [place, Std.OrientedCmp.gt_of_lt (last a List.mem_cons_self)]
      exact congrArg (a :: ·) (ih fun e member => last e (List.mem_cons_of_mem _ member))
  exact all last

/-! ## Keys -/

theorem nodup_keys (m : OrderedMap κ β) : m.keys.Nodup := by
  rw [keys, List.Nodup, List.pairwise_map]
  refine m.ascending.imp fun {a b} less same => ?_
  have self : compare b.1 b.1 = .eq := Std.ReflCmp.compare_self
  rw [same, self] at less
  cases less

omit [Std.TransOrd κ] in
theorem length_keys (m : OrderedMap κ β) : m.keys.length = m.size := List.length_map _

/-- As many keys, each of which the other map has too, are all that the other map has. -/
theorem mem_keys_of_subset {m n : OrderedMap κ β} {k : κ} (same : m.size = n.size)
    (inside : m.keys ⊆ n.keys) (member : k ∈ n.keys) : k ∈ m.keys := by
  have lengths : n.keys.length = m.keys.length := by rw [length_keys, length_keys, same]
  have all : m.keys.Perm n.keys :=
    (m.nodup_keys.subperm inside).perm_of_length_le (Nat.le_of_eq lengths)
  exact all.mem_iff.2 member

theorem size_eq_of_keys {m n : OrderedMap κ β} (same : ∀ k, k ∈ m.keys ↔ k ∈ n.keys) :
    m.size = n.size := by
  rw [← length_keys, ← length_keys]
  exact ((List.perm_ext_iff_of_nodup m.nodup_keys n.nodup_keys).2 same).length_eq

variable [Std.LawfulEqOrd κ]

omit [Std.TransOrd κ] in
theorem mem_entries_of_get? {m : OrderedMap κ β} {k : κ} {v : β} (found : m.get? k = some v) :
    (k, v) ∈ m.entries := by
  have all {l : List (κ × β)} {k : κ} (found : find k l = some v) : (k, v) ∈ l := by
    induction l with
    | nil => cases found
    | cons a rest ih =>
      rw [find] at found
      split at found
      · cases found
      · next same =>
        obtain rfl := Std.LawfulEqOrd.eq_of_compare same
        cases found
        exact List.mem_cons_self
      · exact List.mem_cons_of_mem _ (ih found)
  exact all found

theorem mem_entries_iff {m : OrderedMap κ β} {e : κ × β} :
    e ∈ m.entries ↔ m.get? e.1 = some e.2 :=
  ⟨get?_of_mem, mem_entries_of_get?⟩

theorem mem_keys_iff {m : OrderedMap κ β} {k : κ} : k ∈ m.keys ↔ ∃ v, m.get? k = some v := by
  rw [keys, List.mem_map]
  constructor
  · rintro ⟨⟨k, v⟩, member, rfl⟩
    exact ⟨v, get?_of_mem member⟩
  · rintro ⟨v, found⟩
    exact ⟨(k, v), mem_entries_of_get? found, rfl⟩

/-- Maps that hold the same are equal, since their entries stand in the order of the keys. -/
theorem ext_get? {m n : OrderedMap κ β} (same : ∀ k, m.get? k = n.get? k) : m = n := by
  have nodup (m : OrderedMap κ β) : m.entries.Nodup := m.ascending.imp fun {a b} before equal => by
    have self : compare b.1 b.1 = .eq := Std.ReflCmp.compare_self
    rw [equal, self] at before
    cases before
  have perm : m.entries.Perm n.entries := by
    refine (List.perm_ext_iff_of_nodup (nodup m) (nodup n)).2 fun e => ?_
    rw [mem_entries_iff, mem_entries_iff, same]
  have entries : m.entries = n.entries := by
    refine perm.eq_of_pairwise (fun a b _ _ first second => ?_) m.ascending n.ascending
    rw [Std.OrientedCmp.gt_of_lt first] at second
    cases second
  obtain ⟨l, first⟩ := m
  obtain ⟨l', second⟩ := n
  obtain rfl := entries
  rfl

theorem insert_insert (m : OrderedMap κ β) (k : κ) (v w : β) :
    (m.insert k v).insert k w = m.insert k w := by
  refine ext_get? fun j => ?_
  rw [get?_insert, get?_insert, get?_insert]
  split <;> rfl

theorem merge_self (m : OrderedMap κ β) : m.merge m = m := by
  refine ext_get? fun k => ?_
  rw [get?_merge, Option.or_self]

end Scriptlet.OrderedMap
