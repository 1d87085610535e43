import Scriptlet.Proofs.Store.Elements

/-!
# Shared storage and storage of one's own

Addition gives its collections storage of their own, appending gives the target or something new
(`append_touches`), and a copy has storage of its own with the same contents. So whatever is appended
or written through the copy, the original does not change, nor the other way around
(`Changes.apart`).
-/

namespace Scriptlet

theorem TypedArray.exists_extend_self (a : TypedArray) (line : Line) :
    ∃ b, a.extend a line = .ok b ∧ b.element = a.element ∧ b.items = a.items ++ a.items := by
  have succeeds := Change.succeeds_extend a a line
  cases extended : a.extend a line with
  | ok b =>
    rw [extended] at succeeds
    by_cases none : a.items = []
    · have same : b = a := by simpa [Change.Makes, none] using succeeds.2
      exact ⟨b, rfl, congrArg element same, by simp [same, none]⟩
    · obtain ⟨element, items⟩ : b.element = a.element ∧ b.items = a.items ++ a.items := by
        simpa [Change.Makes, none] using succeeds.2
      exact ⟨b, rfl, element, items⟩
  | error e =>
    rw [extended] at succeeds
    exact absurd (.inr (.inr rfl)) succeeds

namespace Store

variable {s t u : Store} {a b c d e o v w : Value} {line : Line}

/-- Whether a value is a collection whose storage a store does not have. -/
def Fresh (s : Store) : Value → Prop
  | .list l => s.lists.size ≤ l.index
  | .array x => s.arrays.size ≤ x.index
  | .dictionary d => s.dictionaries.size ≤ d.index
  | _ => False

/-- Whether the result of an operation that leads from one store to another is new: no collection, or
one with storage of its own. -/
def New (s t : Store) (w : Value) : Prop := w.isScalar = true ∨ s.Fresh w ∧ t.Valid w

theorem Fresh.isCollection (fresh : s.Fresh w) : w.isCollection = true := by
  cases w <;> first | rfl | cases fresh

theorem Fresh.of_intact (intact : s.Intact t) (fresh : t.Fresh w) : s.Fresh w := by
  cases w with
  | list l => exact Nat.le_trans intact.lists fresh
  | array x => exact Nat.le_trans intact.arrays fresh
  | dictionary d => exact Nat.le_trans intact.dictionaries fresh
  | _ => cases fresh

theorem Fresh.ne (fresh : s.Fresh w) (valid : s.Valid v) : w ≠ v := by
  rintro rfl
  cases w with
  | list l => exact Nat.lt_irrefl _ (Nat.lt_of_lt_of_le valid fresh)
  | array x => exact Nat.lt_irrefl _ (Nat.lt_of_lt_of_le valid fresh)
  | dictionary d => exact Nat.lt_irrefl _ (Nat.lt_of_lt_of_le valid fresh)
  | _ => cases fresh

theorem New.of_intact (intact : s.Intact t) (new : t.New u w) : s.New u w :=
  new.imp_right fun ⟨fresh, valid⟩ => ⟨fresh.of_intact intact, valid⟩

theorem kind_of_plain (plain : w.isScalar = true ∨ w.isCollection = true) :
    w.kind ≠ .member := by
  cases w with
  | member _ _ => rcases plain with never | never <;> cases never
  | _ => exact (nomatch ·)

theorem ne_object_of_plain (plain : w.isScalar = true ∨ w.isCollection = true) (r : ScopeRef) :
    w ≠ .object r := by
  rintro rfl
  rcases plain with never | never <;> cases never

theorem New.isScalar_or (new : s.New t w) : w.isScalar = true ∨ w.isCollection = true :=
  new.imp_right fun ⟨fresh, _⟩ => fresh.isCollection

theorem New.fresh (new : s.New t w) (collected : w.isCollection = true) : s.Fresh w := by
  rcases new with scalar | ⟨fresh, -⟩
  · cases w with
    | list _ | array _ | dictionary _ => cases scalar
    | _ => cases collected
  · exact fresh

theorem New.ne (new : s.New t w) (valid : s.Valid o) (collected : o.isCollection = true) :
    w ≠ o := by
  rintro rfl
  exact (new.fresh collected).ne valid rfl

theorem new_newList (s : Store) (items : List Value) :
    s.New (s.newList items).2 (s.newList items).1 :=
  .inr ⟨Nat.le_refl _, by simp [newList, Valid]⟩

theorem new_newArray (s : Store) (items : TypedArray) :
    s.New (s.newArray items).2 (s.newArray items).1 :=
  .inr ⟨Nat.le_refl _, by simp [newArray, Valid]⟩

theorem new_newDictionary (s : Store) (entries : Dictionary) :
    s.New (s.newDictionary entries).2 (s.newDictionary entries).1 :=
  .inr ⟨Nat.le_refl _, by simp [newDictionary, Valid]⟩

/-! ## Addition and appending -/

theorem isScalar_of_arithmetic {op : BinaryOperator}
    (h : s.arithmetic op a b line = .ok (w, u)) : w.isScalar = true := by
  obtain ⟨⟨⟨x, y⟩, t⟩, -, h⟩ := bind_eq_ok_iff.1 h
  dsimp only at h
  split at h
  · obtain ⟨i, -, h⟩ := bind_eq_ok_iff.1 h
    cases h
    rfl
  · obtain ⟨i, -, h⟩ := bind_eq_ok_iff.1 h
    cases h
    rfl
  · cases h
    rfl
  · cases h
    rfl
  · cases h

/-- A sum is new. -/
theorem new_of_addition (h : s.addition a b line = .ok (w, u)) : s.New u w := by
  unfold addition at h
  split at h
  · cases h
    exact new_newArray s _
  · split at h
    · exact .inl (isScalar_of_arithmetic h)
    · obtain ⟨⟨⟨x, y⟩, t⟩, unified, h⟩ := bind_eq_ok_iff.1 h
      refine New.of_intact (.unify unified) ?_
      dsimp only at h
      split at h
      · cases h
        exact .inl rfl
      · obtain ⟨items, -, h⟩ := bind_eq_ok_iff.1 h
        cases h
        exact new_newArray t _
      · cases h
        exact new_newList t _
      · cases h
        exact new_newDictionary t _
      · cases h

/-- Appending touches the storage of its target and gives the target, or touches nothing and gives
something new. -/
theorem append_touches (h : s.append a b line = .ok (w, u)) :
    w = a ∧ a.isCollection = true ∧ s.IntactBut a u ∨ s.New u w ∧ s.Intact u := by
  obtain ⟨x, -, h⟩ := bind_eq_ok_iff.1 h
  cases a with
  | list l =>
    dsimp only at h
    split at h
    · cases h
      exact .inr ⟨new_newArray s _, .newArray s _⟩
    · cases h
      exact .inl ⟨rfl, rfl, .setList s l _⟩
  | array y =>
    dsimp only at h
    split at h
    · obtain ⟨items, -, h⟩ := bind_eq_ok_iff.1 h
      cases h
      exact .inl ⟨rfl, rfl, .setArray s y items⟩
    · split at h
      · obtain ⟨items, -, h⟩ := bind_eq_ok_iff.1 h
        cases h
        exact .inl ⟨rfl, rfl, .setArray s y items⟩
      · exact .inr ⟨new_of_addition h, .addition h⟩
  | dictionary d =>
    obtain ⟨⟨y, t⟩, converted, h⟩ := bind_eq_ok_iff.1 h
    have first := Intact.upconvert converted
    dsimp only at h
    split at h
    · cases h
      exact .inl ⟨rfl, rfl, (first.but _).trans (.setDictionary t d _)⟩
    · exact .inr ⟨New.of_intact first (new_of_addition h), first.trans (.addition h)⟩
  | _ => exact .inr ⟨new_of_addition h, .addition h⟩

/-- The storage that appending may touch, and what it gives. -/
theorem intactBut_append (h : s.append a b line = .ok (w, u)) :
    s.IntactBut a u ∧ (w = a ∨ s.New u w) := by
  rcases append_touches h with ⟨same, -, intact⟩ | ⟨new, intact⟩
  · exact ⟨intact, .inl same⟩
  · exact ⟨intact.but a, .inr new⟩

/-- Whether the storage of a collection has its contents twice, which for a dictionary is once. -/
def Twice (s t : Store) : Value → Prop
  | .list l => t.list l = s.list l ++ s.list l
  | .array x => (t.array x).element = (s.array x).element ∧
      (t.array x).items = (s.array x).items ++ (s.array x).items
  | .dictionary d => t.dictionary d = s.dictionary d
  | _ => False

/-- A collection that is appended to itself. -/
theorem append_self (valid : s.Valid a) (collected : a.isCollection = true) (line : Line) :
    ∃ u, s.append a a line = .ok (a, u) ∧ s.IntactBut a u ∧ Twice s u a := by
  cases a with
  | list l =>
    refine ⟨_, append_list rfl (by simp [Value.kind]), .setList s l _, ?_⟩
    show (s.setList l _).list l = _
    rw [list_setList s l l _ valid, if_pos rfl]
    rfl
  | array x =>
    obtain ⟨items, extended, element, contents⟩ := TypedArray.exists_extend_self (s.array x) line
    refine ⟨_, by rw [append_array, extended]; rfl, .setArray s x items, ?_⟩
    simp only [Twice, array_setArray s x x items valid, if_true]
    exact ⟨element, contents⟩
  | dictionary d =>
    refine ⟨_, rfl, .setDictionary s d _, ?_⟩
    show (s.setDictionary d _).dictionary d = _
    rw [dictionary_setDictionary s d d _ valid, if_pos rfl, OrderedMap.merge_self]
  | _ => cases collected

/-! ## Copies -/

/-- A copy of a collection has storage of its own, with the same contents. -/
structure Copies (s : Store) (a c : Value) (t : Store) : Prop where
  intact : s.Intact t
  fresh : s.Fresh c
  valid : t.Valid c
  contents : SameContents s a t c

theorem copies_duplicate (s : Store) (collected : a.isCollection = true) :
    s.Copies a (s.duplicate a).1 (s.duplicate a).2 := by
  cases a with
  | list l =>
    exact ⟨.newList s _, Nat.le_refl _, by simp [duplicate, newList, Valid], (list_newList s _).symm⟩
  | array x =>
    exact ⟨.newArray s _, Nat.le_refl _, by simp [duplicate, newArray, Valid],
      (array_newArray _).symm⟩
  | dictionary d =>
    exact ⟨.newDictionary s _, Nat.le_refl _, by simp [duplicate, newDictionary, Valid],
      (dictionary_newDictionary _).symm⟩
  | _ => cases collected

/-- The stores and values that come of changing a collection: values are appended, after which one
goes on with the target or with the result, and elements are set. In between other things may come to
be. -/
inductive Changes (s : Store) (c : Value) : Store → Value → Prop where
  | none : Changes s c s c
  | grow {t u : Store} {d : Value} (before : Changes s c t d) (intact : t.Intact u) :
      Changes s c u d
  | append {t u : Store} {d b w e : Value} {line : Line} (before : Changes s c t d)
      (appends : t.append d b line = .ok (w, u)) (goesOn : e = d ∨ e = w) : Changes s c u e
  | set {t u : Store} {d key v : Value} {line : Line} (before : Changes s c t d)
      (sets : t.setElement d key v line = .ok u) : Changes s c u d

theorem IntactBut.valid (intact : s.IntactBut a t) (collected : o.isCollection = true)
    (valid : s.Valid o) : t.Valid o := by
  cases o with
  | list l => exact Nat.lt_of_lt_of_le valid intact.lists
  | array x => exact Nat.lt_of_lt_of_le valid intact.arrays
  | dictionary d => exact Nat.lt_of_lt_of_le valid intact.dictionaries
  | _ => cases collected

theorem SameStorage.refl (s : Store) (o : Value) : SameStorage s s o := by
  cases o <;> first | rfl | trivial

theorem SameStorage.trans (first : SameStorage s t o) (second : SameStorage t u o) :
    SameStorage s u o := by
  cases o with
  | list l => exact Eq.trans second first
  | array x => exact Eq.trans second first
  | dictionary d => exact Eq.trans second first
  | object r => exact Eq.trans second first
  | _ => trivial

/-- Whether one store has the collections of another one, each with the same contents but for one. -/
def Spares (s : Store) (a : Value) (t : Store) : Prop :=
  ∀ o, o.isCollection = true → s.Valid o → o ≠ a → SameStorage s t o ∧ t.Valid o

theorem IntactBut.spares (intact : s.IntactBut a t) : s.Spares a t :=
  fun _ collected valid other => ⟨intact.sameStorage valid other, intact.valid collected valid⟩

/-- What holds of another collection while one is changed: its storage is as it was, and changes do
not lead to it. -/
structure Apart (s : Store) (o : Value) (t : Store) (d : Value) : Prop where
  same : SameStorage s t o
  valid : t.Valid o
  other : d ≠ o
  plain : d.isScalar = true ∨ d.isCollection = true

/-- A step of changes that touches only the storage of what is changed, and leads to the same or to
something new. -/
theorem Apart.step (apart : s.Apart o t d) (collected : o.isCollection = true)
    (spares : t.Spares d u) (leads : w = d ∨ t.New u w) : s.Apart o u w := by
  obtain ⟨same, valid⟩ := spares o collected apart.valid apart.other.symm
  refine ⟨apart.same.trans same, valid, ?_, ?_⟩
  · rcases leads with rfl | new
    · exact apart.other
    · exact new.ne apart.valid collected
  · rcases leads with rfl | new
    · exact apart.plain
    · exact new.isScalar_or

/-- Changes of one collection leave every other one as it is. -/
theorem Changes.apart (changes : Changes s c t d) (here : c.isCollection = true)
    (valid : s.Valid o) (collected : o.isCollection = true) (other : c ≠ o) : s.Apart o t d := by
  induction changes with
  | none => exact ⟨.refl s o, valid, other, .inr here⟩
  | grow _ intact ih => exact ih.step collected (intact.but _).spares (.inl rfl)
  | append _ appends goesOn ih =>
    obtain ⟨intact, result⟩ := intactBut_append appends
    refine ih.step collected intact.spares ?_
    rcases goesOn with rfl | rfl
    · exact .inl rfl
    · exact result
  | set _ sets ih =>
    have intact := intactBut_setElement (kind_of_plain ih.plain) sets
    exact ih.step collected intact.spares (.inl rfl)

end Store

end Scriptlet
