/-!
# Maps kept in key order

A finite map is the list of its entries in strictly ascending key order, so that two
maps with the same entries are equal. `get?` after `insert` and `erase` is described by
`get?_insert` and `get?_erase`.
-/

namespace Scriptlet

/-- Entries in strictly ascending order of their keys. -/
structure OrderedMap (κ β : Type) [Ord κ] where
  entries : List (κ × β)
  ascending : entries.Pairwise fun a b => compare a.1 b.1 = .lt

namespace OrderedMap

variable {κ β : Type} [Ord κ]

/-- The map without entries. -/
def empty : OrderedMap κ β := ⟨[], .nil⟩

instance : Inhabited (OrderedMap κ β) := ⟨empty⟩

/-- The number of entries. -/
def size (m : OrderedMap κ β) : Nat := m.entries.length

/-- Whether there are no entries. -/
def isEmpty (m : OrderedMap κ β) : Bool := m.entries.isEmpty

/-- The keys in order. -/
def keys (m : OrderedMap κ β) : List κ := m.entries.map (·.1)

/-- The values in the order of their keys. -/
def values (m : OrderedMap κ β) : List β := m.entries.map (·.2)

/-- The value of a key in a list of entries in key order. -/
def find (k : κ) : List (κ × β) → Option β
  | [] => none
  | (key, value) :: rest =>
    match compare k key with
    | .lt => none
    | .eq => some value
    | .gt => find k rest

/-- The value of a key. -/
def get? (m : OrderedMap κ β) (k : κ) : Option β := find k m.entries

/-- Whether a key has a value. -/
def contains (m : OrderedMap κ β) (k : κ) : Bool := (m.get? k).isSome

/-- Entries in key order with one more entry, which replaces the one of an equal key. -/
def place (k : κ) (v : β) : List (κ × β) → List (κ × β)
  | [] => [(k, v)]
  | (key, value) :: rest =>
    match compare k key with
    | .lt => (k, v) :: (key, value) :: rest
    | .eq => (k, v) :: rest
    | .gt => (key, value) :: place k v rest

/-- Entries in key order without the one of a key. -/
def strike (k : κ) : List (κ × β) → List (κ × β)
  | [] => []
  | (key, value) :: rest =>
    match compare k key with
    | .lt => (key, value) :: rest
    | .eq => rest
    | .gt => (key, value) :: strike k rest

theorem mem_place {k : κ} {v : β} {e : κ × β} {l : List (κ × β)} (h : e ∈ place k v l) :
    e = (k, v) ∨ e ∈ l := by
  induction l with
  | nil => simpa [place] using h
  | cons a rest ih =>
    simp only [place] at h
    split at h
    · simpa using h
    · rcases List.mem_cons.1 h with rfl | hr
      · exact .inl rfl
      · exact .inr (List.mem_cons_of_mem _ hr)
    · rcases List.mem_cons.1 h with rfl | hr
      · exact .inr List.mem_cons_self
      · exact (ih hr).imp_right (List.mem_cons_of_mem _)

theorem ascending_place [Std.TransOrd κ] (k : κ) (v : β) {l : List (κ × β)}
    (h : l.Pairwise fun a b => compare a.1 b.1 = .lt) :
    (place k v l).Pairwise fun a b => compare a.1 b.1 = .lt := by
  induction h with
  | nil => simp [place]
  | @cons a rest first _ ih =>
    simp only [place]
    split
    · rename_i before
      refine .cons (fun b hb => ?_) (.cons first ‹_›)
      rcases List.mem_cons.1 hb with rfl | hb
      · exact before
      · exact Std.TransCmp.lt_trans before (first b hb)
    · rename_i same
      exact .cons (fun b hb => Std.TransCmp.lt_of_eq_of_lt same (first b hb)) ‹_›
    · rename_i after
      refine .cons (fun b hb => ?_) ih
      rcases mem_place hb with rfl | hb
      · exact Std.OrientedCmp.lt_of_gt after
      · exact first b hb

theorem strike_sublist (k : κ) (l : List (κ × β)) : (strike k l).Sublist l := by
  induction l with
  | nil => exact .slnil
  | cons a rest ih =>
    simp only [strike]
    split
    · exact .refl _
    · exact List.sublist_cons_self _ _
    · exact ih.cons_cons a

/-- The map in which a key has a value. -/
def insert [Std.TransOrd κ] (m : OrderedMap κ β) (k : κ) (v : β) : OrderedMap κ β :=
  ⟨place k v m.entries, ascending_place k v m.ascending⟩

/-- The map in which a key has no value. -/
def erase (m : OrderedMap κ β) (k : κ) : OrderedMap κ β :=
  ⟨strike k m.entries, m.ascending.sublist (strike_sublist k m.entries)⟩

/-- The map with every entry of another one, which wins on common keys. -/
def merge [Std.TransOrd κ] (m other : OrderedMap κ β) : OrderedMap κ β :=
  other.entries.foldl (fun m e => m.insert e.1 e.2) m

/-! ## What is found after a change -/

theorem find_place [Std.TransOrd κ] (k j : κ) (v : β) {l : List (κ × β)}
    (h : l.Pairwise fun a b => compare a.1 b.1 = .lt) :
    find j (place k v l) = if compare j k = .eq then some v else find j l := by
  induction h with
  | nil => cases hj : compare j k <;> simp [place, find, hj]
  | @cons a rest first _ ih =>
    obtain ⟨key, value⟩ := a
    simp only [place]
    cases hk : compare k key with
    | lt =>
      cases hj : compare j k with
      | lt => simp [find, hj, Std.TransCmp.lt_trans hj hk]
      | eq => simp [find, hj]
      | gt => simp [find, hj]
    | eq =>
      have same : compare j k = compare j key := Std.TransCmp.congr_right hk
      cases hj : compare j k <;> simp [find, hj, ← same]
    | gt =>
      cases hj : compare j key with
      | lt =>
        have : compare j k = .lt := Std.TransCmp.lt_trans hj (Std.OrientedCmp.lt_of_gt hk)
        simp [find, hj, this]
      | eq =>
        have : compare j k = .lt :=
          Std.TransCmp.lt_of_eq_of_lt hj (Std.OrientedCmp.lt_of_gt hk)
        simp [find, hj, this]
      | gt => simp [find, hj, ih]

theorem get?_insert [Std.TransOrd κ] (m : OrderedMap κ β) (k j : κ) (v : β) :
    (m.insert k v).get? j = if compare j k = .eq then some v else m.get? j :=
  find_place k j v m.ascending

theorem find_of_lt [Std.TransOrd κ] {k : κ} {l : List (κ × β)}
    (h : ∀ e ∈ l, compare k e.1 = .lt) : find k l = none := by
  cases l with
  | nil => rfl
  | cons a rest => simp [find, h a List.mem_cons_self]

theorem find_strike [Std.TransOrd κ] (k j : κ) {l : List (κ × β)}
    (h : l.Pairwise fun a b => compare a.1 b.1 = .lt) :
    find j (strike k l) = if compare j k = .eq then none else find j l := by
  induction h with
  | nil => simp [strike, find]
  | @cons a rest first _ ih =>
    obtain ⟨key, value⟩ := a
    simp only [strike]
    cases hk : compare k key with
    | lt =>
      cases hj : compare j k with
      | eq => simp [find, Std.TransCmp.lt_of_eq_of_lt hj hk]
      | lt => simp
      | gt => simp
    | eq =>
      have same : compare j k = compare j key := Std.TransCmp.congr_right hk
      cases hj : compare j k with
      | lt =>
        have before : ∀ e ∈ rest, compare j e.1 = .lt := fun e he =>
          Std.TransCmp.lt_trans (same ▸ hj) (first e he)
        simp [find, ← same, hj, find_of_lt before]
      | eq =>
        have before : ∀ e ∈ rest, compare j e.1 = .lt := fun e he =>
          Std.TransCmp.lt_of_eq_of_lt (same ▸ hj) (first e he)
        simp [find_of_lt before]
      | gt => simp [find, ← same, hj]
    | gt =>
      cases hj : compare j key with
      | lt =>
        have : compare j k = .lt := Std.TransCmp.lt_trans hj (Std.OrientedCmp.lt_of_gt hk)
        simp [find, hj, this]
      | eq =>
        have : compare j k = .lt :=
          Std.TransCmp.lt_of_eq_of_lt hj (Std.OrientedCmp.lt_of_gt hk)
        simp [find, hj, this]
      | gt => simp [find, hj, ih]

theorem get?_erase [Std.TransOrd κ] (m : OrderedMap κ β) (k j : κ) :
    (m.erase k).get? j = if compare j k = .eq then none else m.get? j :=
  find_strike k j m.ascending

end OrderedMap

end Scriptlet
