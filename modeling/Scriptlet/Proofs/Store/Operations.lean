import Scriptlet.Builtin.Value
import Scriptlet.Place
import Scriptlet.Proofs.Store.Validity
import Scriptlet.Store.Class

/-!
# Operations on sound stores

Reading a valid value gives a valid value, and every operation on valid values leads to a sound
store, whatever the operation is and whether it works in place or makes new collections. That holds
for every lawful notion of what is valid.
-/

namespace Scriptlet

namespace OrderedMap

variable {κ β : Type} [Ord κ] [Std.TransOrd κ]

theorem mem_insert {m : OrderedMap κ β} {k : κ} {v : β} {e : κ × β}
    (h : e ∈ (m.insert k v).entries) : e = (k, v) ∨ e ∈ m.entries := mem_place h

theorem mem_merge {m other : OrderedMap κ β} {e : κ × β} (h : e ∈ (m.merge other).entries) :
    e ∈ m.entries ∨ e ∈ other.entries := by
  have all (l : List (κ × β)) (m : OrderedMap κ β)
      (h : e ∈ (l.foldl (fun m e => m.insert e.1 e.2) m).entries) : e ∈ m.entries ∨ e ∈ l := by
    induction l generalizing m with
    | nil => exact .inl h
    | cons a rest ih =>
      rcases ih (m.insert a.1 a.2) h with earlier | later
      · rcases mem_insert earlier with rfl | old
        · exact .inr List.mem_cons_self
        · exact .inl old
      · exact .inr (List.mem_cons_of_mem _ later)
  exact all other.entries m h

omit [Std.TransOrd κ] in
theorem mem_of_find {k : κ} {v : β} {l : List (κ × β)} (h : find k l = some v) :
    ∃ key, (key, v) ∈ l := by
  induction l with
  | nil => simp [find] at h
  | cons a rest ih =>
    simp only [find] at h
    split at h
    · cases h
    · cases h
      exact ⟨_, List.mem_cons_self⟩
    · obtain ⟨key, found⟩ := ih h
      exact ⟨key, List.mem_cons_of_mem _ found⟩

omit [Std.TransOrd κ] in
theorem mem_of_get? {m : OrderedMap κ β} {k : κ} {v : β} (h : m.get? k = some v) :
    ∃ key, (key, v) ∈ m.entries := mem_of_find h

end OrderedMap

namespace Validity

variable {I : Validity} {s t u : Store} {line : Line} {v w : Value}

/-! ## Contents of collections -/

theorem validEntry {d : Dictionary} (sound : I.ValidDictionary s d) {k : Key} {e : Entry}
    (h : d.get? k = some e) : I.Valid s e.value := by
  obtain ⟨key, here⟩ := OrderedMap.mem_of_get? h
  exact (sound _ here).2

theorem validDictionary_insert {d : Dictionary} (sound : I.ValidDictionary s d) (k : Key)
    {e : Entry} (key : I.Valid s e.key) (value : I.Valid s e.value) :
    I.ValidDictionary s (d.insert k e) := by
  intro entry member
  rcases OrderedMap.mem_insert member with rfl | old
  · exact ⟨key, value⟩
  · exact sound entry old

theorem validDictionary_merge {d e : Dictionary} (first : I.ValidDictionary s d)
    (second : I.ValidDictionary s e) : I.ValidDictionary s (d.merge e) := by
  intro entry member
  rcases OrderedMap.mem_merge member with left | right
  · exact first entry left
  · exact second entry right

theorem valid_storedValues {d : Dictionary} (sound : I.ValidDictionary s d) :
    ∀ v ∈ d.storedValues, I.Valid s v := by
  intro v member
  obtain ⟨e, stored, rfl⟩ := List.mem_map.1 member
  obtain ⟨entry, here, rfl⟩ := List.mem_map.1 stored
  exact (sound entry here).2

theorem valid_keyValues {d : Dictionary} (sound : I.ValidDictionary s d) :
    ∀ v ∈ d.keyValues, I.Valid s v := by
  intro v member
  obtain ⟨e, stored, rfl⟩ := List.mem_map.1 member
  obtain ⟨entry, here, rfl⟩ := List.mem_map.1 stored
  exact (sound entry here).1

theorem validDictionary_empty : I.ValidDictionary s .empty := by
  intro e member
  cases member

theorem valid_extend {a b c : TypedArray} (first : ∀ v ∈ a.items, I.Valid s v)
    (second : ∀ v ∈ b.items, I.Valid s v) (h : a.extend b line = .ok c) :
    ∀ v ∈ c.items, I.Valid s v := by
  unfold TypedArray.extend at h
  split at h
  · cases h
    exact first
  · split at h
    · cases h
      exact second
    · split at h
      · cases h
        intro u hu
        rcases List.mem_append.1 hu with left | right
        · exact first u left
        · exact second u right
      · cases h

theorem valid_seed? {items : TypedArray} (valid : I.Valid s w) (h : s.seed? v w = some items) :
    ∀ u ∈ items.items, I.Valid s u := by
  unfold Store.seed? at h
  split at h
  · split at h
    · split at h
      · cases h
        simpa [TypedArray.singleton] using valid
      · cases h
    · cases h
  · cases h

namespace Lawful

variable (lawful : I.Lawful)
include lawful

/-! ## Changes -/

theorem unchanged (sound : I.Sound s) : I.Becomes s s := ⟨lawful.refl s, sound⟩

theorem andThen (first : I.Becomes s t) (second : I.Becomes t u) : I.Becomes s u :=
  ⟨lawful.trans first.grows second.grows, second.sound⟩

theorem after (becomes : I.Becomes s t) {r : Value × Store} (gives : I.Gives t r) : I.Gives s r :=
  ⟨lawful.andThen becomes gives.becomes, gives.valid⟩

theorem gives (sound : I.Sound s) (valid : I.Valid s v) : I.Gives s (v, s) :=
  ⟨lawful.unchanged sound, valid⟩

theorem keeps (becomes : I.Becomes s t) (valid : I.Valid s v) : I.Gives s (v, t) :=
  ⟨becomes, lawful.grows becomes.grows valid⟩

theorem null : I.Valid s .null := lawful.scalar rfl

/-! ## Elements -/

theorem valueAt? (sound : I.Sound s) {r : ScopeRef} {name : String}
    (h : s.valueAt? r name = some v) : I.Valid s v := by
  unfold Store.valueAt? at h
  split at h
  · rename_i found
    cases h
    obtain ⟨key, here⟩ := OrderedMap.mem_of_get? found
    exact lawful.vars sound r _ here
  · obtain ⟨f, found, rfl⟩ := Option.map_eq_some_iff.1 h
    obtain ⟨key, here⟩ := OrderedMap.mem_of_get? found
    exact lawful.functions sound r _ here

/-- What is read where there may be nothing is valid if what is there is. -/
theorem valid_elim {α : Type} {found : Option α} {f : α → Value}
    (valid : ∀ a, found = some a → I.Valid s (f a)) : I.Valid s (found.elim .null f) := by
  cases found with
  | none => exact lawful.scalar rfl
  | some a => exact valid a rfl

theorem valid_getD {found : Option Value} (valid : ∀ v, found = some v → I.Valid s v) :
    I.Valid s (found.getD .null) := by
  cases found with
  | none => exact lawful.scalar rfl
  | some v => exact valid v rfl

theorem elementBy (sound : I.Sound s) {settle : Value → Except RuntimeError Value}
    (settles : ∀ v w, I.Valid s v → settle v = .ok w → I.Valid s w) {collection key : Value}
    (valid : I.Valid s collection) (h : Store.elementBy settle s collection key line = .ok v) :
    I.Valid s v := by
  obtain ⟨settled, found, h⟩ := bind_eq_ok_iff.1 h
  have settledValid := settles collection settled valid found
  cases settled with
  | array a =>
    obtain ⟨k, -, h⟩ := bind_eq_ok_iff.1 h
    obtain ⟨i, -, h⟩ := bind_eq_ok_iff.1 h
    cases h
    exact lawful.valid_getD fun v here => lawful.array sound a v (List.mem_of_getElem? here)
  | list l =>
    obtain ⟨k, -, h⟩ := bind_eq_ok_iff.1 h
    obtain ⟨i, -, h⟩ := bind_eq_ok_iff.1 h
    cases h
    exact lawful.valid_getD fun v here => lawful.list sound l v (List.mem_of_getElem? here)
  | string text =>
    obtain ⟨k, -, h⟩ := bind_eq_ok_iff.1 h
    obtain ⟨i, -, h⟩ := bind_eq_ok_iff.1 h
    cases h
    exact lawful.valid_elim fun _ _ => lawful.scalar rfl
  | vec3 u =>
    obtain ⟨i, -, h⟩ := bind_eq_ok_iff.1 h
    cases h
    exact lawful.valid_elim fun _ _ => lawful.scalar rfl
  | dictionary d =>
    obtain ⟨k, -, h⟩ := bind_eq_ok_iff.1 h
    obtain ⟨k, -, h⟩ := bind_eq_ok_iff.1 h
    cases h
    exact lawful.valid_elim fun e here => validEntry (lawful.dictionary sound d) here
  | object o =>
    obtain ⟨name, -, h⟩ := bind_eq_ok_iff.1 h
    cases member : s.valueAt? o name with
    | none =>
      simp only [member] at h
      cases h
    | some u =>
      simp only [member] at h
      cases h
      exact lawful.valueAt? sound member
  | _ => cases h

theorem settleWithin (sound : I.Sound s) (fuel : Nat) (v w : Value) (valid : I.Valid s v)
    (h : s.settleWithin line fuel v = .ok w) : I.Valid s w := by
  induction fuel generalizing v w with
  | zero =>
    cases h
    exact valid
  | succ fuel ih =>
    cases v with
    | member collection key =>
      obtain ⟨element, found, h⟩ := bind_eq_ok_iff.1 h
      exact ih element w (lawful.elementBy sound ih (lawful.member valid).1 found) h
    | _ =>
      cases h
      exact valid

theorem settle (sound : I.Sound s) (valid : I.Valid s v) (h : s.settle line v = .ok w) :
    I.Valid s w := by
  unfold Store.settle at h
  split at h
  · exact lawful.settleWithin sound _ _ w valid h
  · cases h
    exact valid

theorem element (sound : I.Sound s) {collection key : Value} (valid : I.Valid s collection)
    (h : s.element collection key line = .ok v) : I.Valid s v :=
  lawful.elementBy sound (fun _ _ => lawful.settle sound) valid h

theorem resolved (sound : I.Sound s) (valid : I.Valid s v) (h : s.resolved v line = .ok w) :
    I.Valid s w := by
  unfold Store.resolved at h
  split at h
  · exact lawful.element sound (lawful.member valid).1 h
  · cases h
    exact valid

/-! ## Writing elements -/

theorem withEntry (sound : I.Sound s) {d e : Dictionary} {key : Value}
    (valid : I.ValidDictionary s d) (validKey : I.Valid s key) (validValue : I.Valid s v)
    (h : s.withEntry d key v line = .ok e) : I.ValidDictionary s e := by
  obtain ⟨k, resolved, h⟩ := bind_eq_ok_iff.1 h
  obtain ⟨hash, -, h⟩ := bind_eq_ok_iff.1 h
  cases h
  exact validDictionary_insert valid hash (lawful.resolved sound validKey resolved) validValue

theorem valid_widen? {k : Kind} (h : v.widen? k = some w) : I.Valid s w := by
  unfold Value.widen? at h
  split at h <;> cases h <;> exact lawful.scalar rfl

theorem valid_adopt {a : TypedArray} {w : { w : Value // w.kind = a.element }} (valid : I.Valid s v)
    (h : a.adopt v line = .ok w) : I.Valid s w.1 := by
  unfold TypedArray.adopt at h
  split at h
  · cases h
    exact valid
  · split at h
    · rename_i widened
      cases h
      exact lawful.valid_widen? widened
    · cases h

theorem valid_push {a b : TypedArray} (items : ∀ v ∈ a.items, I.Valid s v) (valid : I.Valid s v)
    (h : a.push v line = .ok b) : ∀ v ∈ b.items, I.Valid s v := by
  unfold TypedArray.push at h
  split at h
  · split at h
    · cases h
      intro u hu
      rw [List.mem_singleton.1 hu]
      exact valid
    · cases h
  · obtain ⟨w, adopted, h⟩ := bind_eq_ok_iff.1 h
    cases h
    intro u hu
    rcases List.mem_append.1 hu with old | new
    · exact items u old
    · rw [List.mem_singleton.1 new]
      exact lawful.valid_adopt valid adopted

theorem valid_set {a b : TypedArray} {i : Nat} (items : ∀ v ∈ a.items, I.Valid s v)
    (valid : I.Valid s v) (h : a.set i v line = .ok b) : ∀ v ∈ b.items, I.Valid s v := by
  obtain ⟨w, adopted, h⟩ := bind_eq_ok_iff.1 h
  dsimp only at h
  split at h
  · cases h
    intro u hu
    rcases List.mem_or_eq_of_mem_set hu with old | rfl
    · exact items u old
    · exact lawful.valid_adopt valid adopted
  · cases h

theorem setElement (sound : I.Sound s) {collection key : Value}
    (validCollection : I.Valid s collection) (validKey : I.Valid s key)
    (valid : I.Valid s v) (h : s.setElement collection key v line = .ok t) : I.Becomes s t := by
  obtain ⟨settled, found, h⟩ := bind_eq_ok_iff.1 h
  cases settled with
  | array a =>
    obtain ⟨k, -, h⟩ := bind_eq_ok_iff.1 h
    obtain ⟨i, -, h⟩ := bind_eq_ok_iff.1 h
    obtain ⟨items, set, h⟩ := bind_eq_ok_iff.1 h
    cases h
    exact lawful.setArray sound a (lawful.valid_set (lawful.array sound a) valid set)
  | list l =>
    obtain ⟨k, -, h⟩ := bind_eq_ok_iff.1 h
    obtain ⟨i, -, h⟩ := bind_eq_ok_iff.1 h
    cases h
    refine lawful.setList sound l fun u hu => ?_
    rcases List.mem_or_eq_of_mem_set hu with old | rfl
    · exact lawful.list sound l u old
    · exact valid
  | dictionary d =>
    obtain ⟨entries, set, h⟩ := bind_eq_ok_iff.1 h
    cases h
    have entries := lawful.withEntry sound (lawful.dictionary sound d) validKey valid set
    exact lawful.setDictionary sound d entries
  | object o =>
    obtain ⟨name, -, h⟩ := bind_eq_ok_iff.1 h
    cases h
    exact lawful.setMember sound (lawful.settle sound validCollection found) name valid
  | _ => cases h

/-! ## Conversions -/

theorem validDictionary_ofItems {items : List Value} (valid : ∀ v ∈ items, I.Valid s v) :
    I.ValidDictionary s (.ofItems items) := by
  have all (l : List (Value × Nat)) (d : Dictionary) (sound : I.ValidDictionary s d)
      (valid : ∀ e ∈ l, I.Valid s e.1) :
      I.ValidDictionary s (l.foldl
        (fun d e => d.insert (.int (Int64.ofNat e.2)) ⟨.ofLength e.2, e.1⟩) d) := by
    induction l generalizing d with
    | nil => exact sound
    | cons e rest ih =>
      have first := valid e List.mem_cons_self
      refine ih _ (validDictionary_insert sound _ (lawful.scalar rfl) first) fun e member => ?_
      exact valid e (List.mem_cons_of_mem _ member)
  refine all _ _ validDictionary_empty fun e member => valid e.1 ?_
  obtain ⟨v, i⟩ := e
  exact List.fst_mem_of_mem_zipIdx member

theorem ofConstant (sound : I.Sound s) (c : Constant) : I.Gives s (s.ofConstant c) := by
  cases c with
  | array items =>
    exact lawful.newArray sound fun v member => lawful.scalar (items.isScalar v member)
  | null | int _ | float _ | string _ => exact lawful.gives sound (lawful.scalar rfl)

theorem upconvert (sound : I.Sound s) (valid : I.Valid s v) {target : Kind} {r : Value × Store}
    (h : s.upconvert v target line = .ok r) : I.Gives s r := by
  obtain ⟨u, settled, h⟩ := bind_eq_ok_iff.1 h
  have settledValid : I.Valid s u := lawful.settle sound valid settled
  dsimp only at h
  split at h
  · cases h
    exact lawful.gives sound settledValid
  · split at h
    · cases h
    · split at h
      · rename_i widened
        cases h
        exact lawful.gives sound (lawful.valid_widen? widened)
      · split at h
        · cases h
          exact lawful.gives sound (lawful.scalar rfl)
        · cases h
          exact lawful.newArray sound (by simp [TypedArray.empty, TypedArray.emptyOf])
        · cases h
          exact lawful.newList sound (by simp)
        · cases h
          exact lawful.newDictionary sound validDictionary_empty
        · cases h
          exact lawful.newList sound (lawful.array sound _)
        · cases h
          exact lawful.newDictionary sound (lawful.validDictionary_ofItems (lawful.array sound _))
        · cases h
          exact lawful.newDictionary sound (lawful.validDictionary_ofItems (lawful.list sound _))
        · split at h
          · cases h
            exact lawful.newArray sound (by simpa [TypedArray.singleton] using settledValid)
          · cases h
        · split at h
          · cases h
            exact lawful.newList sound (by simpa using settledValid)
          · cases h
        · split at h
          · cases h
            have entries : I.ValidDictionary s (.ofItems [u]) :=
              lawful.validDictionary_ofItems (by simpa using settledValid)
            exact lawful.newDictionary sound entries
          · cases h
        · cases h

theorem unify (sound : I.Sound s) (first : I.Valid s v) (second : I.Valid s w)
    {r : (Value × Value) × Store} (h : s.unify v w line = .ok r) :
    I.Becomes s r.2 ∧ I.Valid r.2 r.1.1 ∧ I.Valid r.2 r.1.2 := by
  obtain ⟨⟨a, t⟩, left, h⟩ := bind_eq_ok_iff.1 h
  obtain ⟨⟨b, u⟩, right, h⟩ := bind_eq_ok_iff.1 h
  cases h
  have makesFirst := lawful.upconvert sound first left
  have makesSecond := lawful.upconvert makesFirst.becomes.sound
    (lawful.grows makesFirst.becomes.grows second) right
  exact ⟨lawful.andThen makesFirst.becomes makesSecond.becomes,
    lawful.grows makesSecond.becomes.grows makesFirst.valid, makesSecond.valid⟩

theorem hardconvert (sound : I.Sound s) (valid : I.Valid s v) {target : Kind}
    {r : Value × Store} (h : s.hardconvert v target line = .ok r) : I.Gives s r := by
  obtain ⟨u, settled, h⟩ := bind_eq_ok_iff.1 h
  have settledValid : I.Valid s u := lawful.settle sound valid settled
  split at h
  · cases h
    exact lawful.gives sound (lawful.scalar rfl)
  · cases h
    exact lawful.gives sound (lawful.scalar rfl)
  · cases h
    exact lawful.gives sound (lawful.scalar rfl)
  · obtain ⟨x, -, h⟩ := bind_eq_ok_iff.1 h
    cases h
    exact lawful.gives sound (lawful.scalar rfl)
  · cases h
    exact lawful.gives sound (lawful.scalar rfl)
  · obtain ⟨items, made, h⟩ := bind_eq_ok_iff.1 h
    cases h
    refine lawful.newArray sound ?_
    rw [TypedArray.items_ofValues made]
    exact lawful.list sound _
  · obtain ⟨items, made, h⟩ := bind_eq_ok_iff.1 h
    cases h
    refine lawful.newArray sound ?_
    rw [TypedArray.items_ofValues made]
    exact valid_storedValues (lawful.dictionary sound _)
  · cases h
    exact lawful.newList sound (valid_storedValues (lawful.dictionary sound _))
  · exact lawful.upconvert sound settledValid h

theorem duplicate (sound : I.Sound s) (valid : I.Valid s v) : I.Gives s (s.duplicate v) := by
  cases v with
  | array a => exact lawful.newArray sound (lawful.array sound a)
  | list l => exact lawful.newList sound (lawful.list sound l)
  | dictionary d => exact lawful.newDictionary sound (lawful.dictionary sound d)
  | _ => exact lawful.gives sound valid

/-- Variables that are copied to a scope whose variables may be set. -/
theorem copyVariables {r : ScopeRef} {entries : List (String × Value)}
    (sets : ∀ {s v}, I.Sound s → ∀ name, I.Valid s v → I.Becomes s (s.setVariable r name v))
    (sound : I.Sound s) (valid : ∀ e ∈ entries, I.Valid s e.2) :
    I.Becomes s (s.copyVariables r entries) := by
  induction entries generalizing s with
  | nil => exact lawful.unchanged sound
  | cons e rest ih =>
    have copy := lawful.duplicate sound (valid e List.mem_cons_self)
    have first := lawful.andThen copy.becomes (sets copy.becomes.sound e.1 copy.valid)
    refine lawful.andThen first (ih first.sound fun e member => ?_)
    exact lawful.grows first.grows (valid e (List.mem_cons_of_mem _ member))

/-- What base classes define, in a template of which something holds that stays so. -/
theorem inheritAll {P : Store → Prop} {current template : ScopeRef} {bases : List String}
    (inherits : ∀ {s}, I.Sound s → P s → ∀ base,
      I.Becomes s (s.inherit template base) ∧ P (s.inherit template base))
    (sound : I.Sound s) (holds : P s)
    (h : s.inheritAll current template line bases = .ok t) : I.Becomes s t := by
  induction bases generalizing s with
  | nil =>
    cases h
    exact lawful.unchanged sound
  | cons base rest ih =>
    unfold Store.inheritAll at h
    split at h
    · cases h
    · rename_i found _
      obtain ⟨first, still⟩ := inherits sound holds found
      exact lawful.andThen first (ih first.sound still h)

/-! ## Operators -/

theorem arithmetic (sound : I.Sound s) (first : I.Valid s v) (second : I.Valid s w)
    {op : BinaryOperator} {r : Value × Store} (h : s.arithmetic op v w line = .ok r) :
    I.Gives s r := by
  obtain ⟨⟨⟨a, b⟩, t⟩, unified, h⟩ := bind_eq_ok_iff.1 h
  have becomes := (lawful.unify sound first second unified).1
  dsimp only at h
  split at h
  · obtain ⟨i, -, h⟩ := bind_eq_ok_iff.1 h
    cases h
    exact ⟨becomes, lawful.scalar rfl⟩
  · obtain ⟨i, -, h⟩ := bind_eq_ok_iff.1 h
    cases h
    exact ⟨becomes, lawful.scalar rfl⟩
  · cases h
    exact ⟨becomes, lawful.scalar rfl⟩
  · cases h
    exact ⟨becomes, lawful.scalar rfl⟩
  · cases h

theorem addition (sound : I.Sound s) (first : I.Valid s v) (second : I.Valid s w)
    {r : Value × Store} (h : s.addition v w line = .ok r) : I.Gives s r := by
  unfold Store.addition at h
  split at h
  · rename_i items seeded
    cases h
    exact lawful.newArray sound (valid_seed? second seeded)
  · split at h
    · exact lawful.arithmetic sound first second h
    · obtain ⟨⟨⟨a, b⟩, t⟩, unified, h⟩ := bind_eq_ok_iff.1 h
      have becomes := (lawful.unify sound first second unified).1
      have sound := becomes.sound
      dsimp only at h
      split at h
      · cases h
        exact ⟨becomes, lawful.scalar rfl⟩
      · obtain ⟨items, extended, h⟩ := bind_eq_ok_iff.1 h
        cases h
        have valid := valid_extend (lawful.array sound _) (lawful.array sound _) extended
        exact lawful.after becomes (lawful.newArray sound valid)
      · cases h
        refine lawful.after becomes (lawful.newList sound fun u hu => ?_)
        rcases List.mem_append.1 hu with left | right
        · exact lawful.list sound _ u left
        · exact lawful.list sound _ u right
      · cases h
        exact lawful.after becomes
          (lawful.newDictionary sound
            (validDictionary_merge (lawful.dictionary sound _) (lawful.dictionary sound _)))
      · cases h

theorem tail (sound : I.Sound s) (valid : I.Valid s v) : ∀ u ∈ s.tail v, I.Valid s u := by
  cases v with
  | list l => exact lawful.list sound l
  | array a => exact lawful.array sound a
  | _ => simpa [Store.tail] using valid

theorem append (sound : I.Sound s) (first : I.Valid s v) (second : I.Valid s w)
    {r : Value × Store} (h : s.append v w line = .ok r) : I.Gives s r := by
  obtain ⟨u, found, h⟩ := bind_eq_ok_iff.1 h
  have added : I.Valid s u := lawful.resolved sound second found
  cases v with
  | list l =>
    dsimp only at h
    split at h
    · rename_i items seeded
      cases h
      exact lawful.newArray sound (valid_seed? added seeded)
    · cases h
      refine lawful.keeps (lawful.setList sound l fun x hx => ?_) first
      rcases List.mem_append.1 hx with old | new
      · exact lawful.list sound l x old
      · exact lawful.tail sound added x new
  | array a =>
    dsimp only at h
    split at h
    · obtain ⟨items, extended, h⟩ := bind_eq_ok_iff.1 h
      cases h
      have items := valid_extend (lawful.array sound a) (lawful.array sound _) extended
      exact lawful.keeps (lawful.setArray sound a items) first
    · split at h
      · obtain ⟨items, pushed, h⟩ := bind_eq_ok_iff.1 h
        cases h
        have items := lawful.valid_push (lawful.array sound a) added pushed
        exact lawful.keeps (lawful.setArray sound a items) first
      · exact lawful.addition sound first added h
  | dictionary d =>
    obtain ⟨⟨x, t⟩, converted, h⟩ := bind_eq_ok_iff.1 h
    have makes := lawful.upconvert sound added converted
    have sound := makes.becomes.sound
    have first := lawful.grows makes.becomes.grows first
    have added := lawful.grows makes.becomes.grows added
    dsimp only at h
    split at h
    · cases h
      refine lawful.after makes.becomes (lawful.keeps (lawful.setDictionary sound d ?_) first)
      exact validDictionary_merge (lawful.dictionary sound d) (lawful.dictionary sound _)
    · exact lawful.after makes.becomes (lawful.addition sound first added h)
  | _ => exact lawful.addition sound first added h

theorem comparison (sound : I.Sound s) (first : I.Valid s v) (second : I.Valid s w)
    {op : BinaryOperator} {r : Value × Store} (h : s.comparison op v w line = .ok r) :
    I.Gives s r := by
  unfold Store.comparison at h
  split at h
  · split at h
    · cases h
      exact lawful.gives sound (lawful.scalar rfl)
    · cases h
  · cases h
  · rename_i a b t unified
    have becomes : I.Becomes s t := by
      unfold Store.unifyForCompare at unified
      split at unified
      · exact (lawful.unify sound first second unified).1
      · cases unified
    split at h
    · cases h
      exact ⟨becomes, lawful.scalar rfl⟩
    · cases h

theorem binary (sound : I.Sound s) (first : I.Valid s v) (second : I.Valid s w)
    {op : BinaryOperator} {r : Value × Store} (h : s.binary op v w line = .ok r) : I.Gives s r := by
  obtain ⟨a, left, h⟩ := bind_eq_ok_iff.1 h
  obtain ⟨b, right, h⟩ := bind_eq_ok_iff.1 h
  have first : I.Valid s a := lawful.resolved sound first left
  have second : I.Valid s b := lawful.resolved sound second right
  cases op with
  | add => exact lawful.addition sound first second h
  | sub | mul | div | mod => exact lawful.arithmetic sound first second h
  | equal | notEqual | less | greater | lessEqual | greaterEqual =>
    exact lawful.comparison sound first second h
  | and | or =>
    cases h
    exact lawful.gives sound (lawful.scalar rfl)

theorem valid_unary {op : UnaryOperator} (h : s.unary op v line = .ok w) : I.Valid s w := by
  obtain ⟨u, -, h⟩ := bind_eq_ok_iff.1 h
  cases op with
  | not =>
    cases h
    exact lawful.scalar rfl
  | negate =>
    dsimp only at h
    unfold Store.negate at h
    split at h
    · cases h
      exact lawful.scalar rfl
    · rename_i i
      cases fits : Number.fit (-i.toInt) with
      | none =>
        simp only [fits] at h
        cases h
      | some j =>
        simp only [fits] at h
        cases h
        exact lawful.scalar rfl
    · cases h
      exact lawful.scalar rfl
    · cases h
      exact lawful.scalar rfl
    · cases h

/-! ## Builtin functions -/

theorem collectionFrom (sound : I.Sound s) (valid : I.Valid s v) {target : Kind}
    {r : Value × Store} (h : s.collectionFrom v target line = .ok r) : I.Gives s r := by
  obtain ⟨⟨w, t⟩, converted, h⟩ := bind_eq_ok_iff.1 h
  cases h
  have makes := lawful.hardconvert sound valid converted
  exact lawful.after makes.becomes (lawful.duplicate makes.becomes.sound makes.valid)

theorem keys? (sound : I.Sound s) {values : List Value} (h : s.keys? v = some values) :
    ∀ u ∈ values, I.Valid s u := by
  cases v with
  | dictionary d =>
    cases h
    exact valid_keyValues (lawful.dictionary sound d)
  | object o =>
    cases h
    intro u hu
    obtain ⟨name, -, rfl⟩ := List.mem_map.1 hu
    exact lawful.scalar rfl
  | list l =>
    cases h
    intro u hu
    obtain ⟨i, -, rfl⟩ := List.mem_map.1 hu
    exact lawful.scalar rfl
  | array a =>
    cases h
    intro u hu
    obtain ⟨i, -, rfl⟩ := List.mem_map.1 hu
    exact lawful.scalar rfl
  | _ => cases h

theorem newSequence (sound : I.Sound s) {values : List Value}
    (valid : ∀ u ∈ values, I.Valid s u) : I.Gives s (s.newSequence values) := by
  unfold Store.newSequence
  split
  · rename_i items made
    refine lawful.newArray sound ?_
    rw [TypedArray.items_ofValues made]
    exact valid
  · exact lawful.newList sound valid

theorem builtinValue (sound : I.Sound s) {b : Builtin} {arguments : List Value}
    (valid : ∀ u ∈ arguments, I.Valid s u) {r : Value × Store}
    (h : b.value s arguments line = .ok r) : I.Gives s r := by
  unfold Builtin.value at h
  split at h
  · exact lawful.binary sound (valid _ (by simp)) (valid _ (by simp)) h
  · obtain ⟨w, negated, rfl⟩ := map_eq_ok_iff.1 h
    exact lawful.gives sound (lawful.valid_unary negated)
  · exact lawful.binary sound (valid _ (by simp)) (valid _ (by simp)) h
  · obtain ⟨w, negated, rfl⟩ := map_eq_ok_iff.1 h
    exact lawful.gives sound (lawful.valid_unary negated)
  · obtain ⟨w, found, rfl⟩ := map_eq_ok_iff.1 h
    exact lawful.gives sound (lawful.element sound (valid _ (by simp)) found)
  · split at h
    · cases h
      exact lawful.gives sound (lawful.scalar rfl)
    · cases h
  · cases h
    exact lawful.gives sound (lawful.scalar rfl)
  · split at h
    · cases h
      exact lawful.gives sound (valid _ (by simp))
    · cases h
  · cases h
    refine lawful.gives sound (lawful.valid_getD fun v first => valid v (List.mem_of_mem_head? first))
  · exact lawful.hardconvert sound (valid _ (by simp)) h
  · exact lawful.hardconvert sound (valid _ (by simp)) h
  · exact lawful.hardconvert sound (valid _ (by simp)) h
  · exact lawful.hardconvert sound (valid _ (by simp)) h
  · obtain ⟨u, -, rfl⟩ := map_eq_ok_iff.1 h
    exact lawful.gives sound (lawful.scalar rfl)
  · cases h
    exact lawful.newArray sound (by simp [TypedArray.empty, TypedArray.emptyOf])
  · exact lawful.collectionFrom sound (valid _ (by simp)) h
  · obtain ⟨items, made, rfl⟩ := map_eq_ok_iff.1 h
    refine lawful.newArray sound ?_
    rw [TypedArray.items_ofValues made]
    exact valid
  · exact lawful.collectionFrom sound (valid _ (by simp)) h
  · cases h
    exact lawful.newList sound valid
  · cases h
    exact lawful.newDictionary sound validDictionary_empty
  · exact lawful.collectionFrom sound (valid _ (by simp)) h
  · split at h
    · rename_i keys
      cases h
      exact lawful.newSequence sound (lawful.keys? sound keys)
    · cases h
  · cases h

theorem builtinCall (sound : I.Sound s) {b : Builtin} {arguments : List Value}
    (valid : ∀ u ∈ arguments, I.Valid s u) {r : Value × Store}
    (h : b.call s arguments line = .ok r) : I.Gives s r := by
  unfold Builtin.call at h
  split at h
  · exact lawful.builtinValue sound valid h
  · cases h

end Validity.Lawful

end Scriptlet
