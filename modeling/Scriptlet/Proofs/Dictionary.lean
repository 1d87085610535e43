import Scriptlet.Proofs.InPlace
import Scriptlet.Proofs.OrderedMap
import Scriptlet.Store.Display
import Scriptlet.Store.Equality

/-!
# Dictionaries as maps

A dictionary holds under the key of a value what was last put there, whatever the steps were that
made it (`Reflects`), and it lists what it holds in the order of the keys. So what a script sees of a
dictionary depends on what it holds and not on how it came about (`Store.alike_of_eq`); only a value
that is not equal to itself makes two such dictionaries differ.
-/

namespace Scriptlet

/-! ## The order of keys -/

theorem Key.compare_eq (j k : Key) : compare j k =
    ((compare j.tag k.tag).then (compare j.numbers k.numbers)).then (compare j.text k.text) := by
  show compareLex (compareOn tag) (compareLex (compareOn numbers) (compareOn text)) j k = _
  simp only [compareLex, compareOn, Ordering.then_assoc]

instance : Std.LawfulEqOrd Key where
  eq_of_compare {j k} same := by
    rw [Key.compare_eq] at same
    simp only [Ordering.then_eq_eq, Std.LawfulEqOrd.compare_eq_iff_eq] at same
    obtain ⟨⟨tag, numbers⟩, text⟩ := same
    -- Keys with one tag are of one kind; what is left of them is in the numbers or in the text.
    cases j <;> cases k <;> cases tag
    case null.null => rfl
    case int.int => exact congrArg Key.int (Int64.toInt_inj.1 (by simpa [Key.numbers] using numbers))
    case float.float => simpa [Key.numbers] using numbers
    case vec3.vec3 => simpa [Key.numbers] using numbers
    case function.function f g =>
      obtain ⟨i⟩ := f
      obtain ⟨j⟩ := g
      have index : (i : Int) = j := by simpa [Key.numbers] using numbers
      rw [Int.ofNat_inj.1 index]
    case pointer.pointer p q =>
      obtain ⟨a⟩ := p
      obtain ⟨b⟩ := q
      simpa [Key.text] using text
    case string.string => exact congrArg Key.string text

/-- Whether a value is null, an integer or a string. -/
def Value.isPlainKey : Value → Bool
  | .null | .int _ | .string _ => true
  | _ => false

/-- Whether a value is a collection or a class instance, which cannot be keys. -/
def Value.isUnhashable : Value → Bool
  | .array _ | .list _ | .dictionary _ | .object _ => true
  | _ => false

/-- The order of null, integers and strings: by the ranks of their kinds, then by content. -/
def Value.Precedes : Value → Value → Prop
  | .int i, .int j => i.toInt < j.toInt
  | .string a, .string b => a < b
  | k, j => k.kind.rank < j.kind.rank

/-- The null, integer or string that a key is made of. -/
def Key.value? : Key → Option Value
  | null => some .null
  | int i => some (.int i)
  | string text => some (.string text)
  | _ => none

theorem Key.ofValue?_of_value? {K : Key} {k : Value} (made : K.value? = some k) :
    ofValue? k = some K ∧ k.isPlainKey = true := by
  cases K <;> cases made <;> exact ⟨rfl, rfl⟩

theorem Key.exists_of_isPlainKey {k : Value} (plain : k.isPlainKey = true) :
    ∃ K, ofValue? k = some K ∧ K.value? = some k := by
  cases k <;> first | exact ⟨_, rfl, rfl⟩ | cases plain

theorem Key.compare_singleton (a b : Int) : compare [a] [b] = compare a b := by
  show List.compareLex compare [a] [b] = compare a b
  rw [List.compareLex]
  cases compare a b <;> rfl

/-- Keys stand in the order of the values that they are made of. -/
theorem Key.precedes_of_lt {J K : Key} {j k : Value} (first : J.value? = some j)
    (second : K.value? = some k) (less : compare J K = .lt) : j.Precedes k := by
  rw [compare_eq] at less
  cases J <;> cases first <;> cases K <;> cases second
  case int.refl.int.refl i j =>
    have less : compare [i.toInt] [j.toInt] = .lt := by simpa [tag, numbers, text] using less
    rw [compare_singleton] at less
    exact compareOfLessAndEq_eq_lt.1 less
  case string.refl.string.refl a b =>
    have less : compare a b = .lt := by simpa [tag, numbers, text] using less
    exact compareOfLessAndEq_eq_lt.1 less
  case null.refl.null.refl => cases less
  all_goals first | (simp [Value.Precedes, Value.kind, Kind.rank]; done) | cases less

theorem Value.Precedes.ne {j k : Value} (before : j.Precedes k) : j ≠ k := by
  rintro rfl
  cases j <;> first | exact Int.lt_irrefl _ before | exact String.lt_irrefl _ before |
    exact Nat.lt_irrefl _ before

theorem Key.value?_inj {J K : Key} {k : Value} (first : J.value? = some k)
    (second : K.value? = some k) : J = K :=
  Option.some.inj ((ofValue?_of_value? first).1.symm.trans (ofValue?_of_value? second).1)

theorem Key.value?_of_not_isPlainKey {K : Key} {k : Value} (made : ofValue? k = some K)
    (other : ¬ k.isPlainKey = true) : K.value? = none := by
  cases k <;> first | exact absurd rfl other | cases made
  all_goals rfl

namespace Dictionary

variable {d e : Dictionary} {f g : Value → Option Value} {s : Store} {key k v : Value} {line : Line}

/-! ## Changing in place -/

/-- Puts a value under a key; a handle as the key gives way to its element first. -/
def insertInPlace (s : Store) (key v : Value) (line : Line) : InPlace Dictionary Unit := do
  let key ← InPlace.lift (s.resolved key line)
  let hash ← InPlace.lift (s.keyOf key line)
  let d ← get
  InPlace.write (d.insert hash ⟨key, v⟩)

/-- Takes the value under a key away. -/
def removeInPlace (s : Store) (key : Value) (line : Line) : InPlace Dictionary (Option Value) := do
  let hash ← InPlace.lift (s.keyOf key line)
  let d ← get
  InPlace.write (d.erase hash)
  return (d.get? hash).map Entry.value

/-- Reads the value under a key. -/
def getInPlace (s : Store) (key : Value) (line : Line) : InPlace Dictionary (Option Value) :=
  .look fun d => s.entry? d key line

/-- Putting a value under a key is all or nothing. -/
theorem on_insertInPlace (s : Store) (d : Dictionary) (key v : Value) (line : Line) :
    (insertInPlace s key v line).on d = InPlace.settled d (s.withEntry d key v line) := by
  rw [insertInPlace, Store.withEntry]
  refine InPlace.on_lift_bind fun key => InPlace.on_lift_bind fun hash => ?_
  rfl

/-- Taking a value away gives what was under the key, or changes nothing. -/
theorem on_removeInPlace (s : Store) (d : Dictionary) (key : Value) (line : Line) :
    (removeInPlace s key line).on d =
      (s.entry? d key line, (s.withoutEntry d key line).toOption.getD d) := by
  rw [removeInPlace, InPlace.on_bind, InPlace.on_lift, Store.entry?, Store.withoutEntry]
  cases s.keyOf key line <;> rfl

/-! ## What a dictionary holds -/

/-- Whether a dictionary holds exactly the values that a map gives to null, integers and strings,
each beside its own key. -/
def Reflects (d : Dictionary) (f : Value → Option Value) : Prop :=
  ∀ K, d.get? K = K.value?.bind fun k => (f k).map (Entry.mk k)

theorem Reflects.congr (reflects : d.Reflects f) (same : ∀ k, k.isPlainKey = true → f k = g k) :
    d.Reflects g := by
  intro K
  rw [reflects K]
  cases made : K.value? with
  | none => rfl
  | some k => rw [Option.bind_some, Option.bind_some, same k (Key.ofValue?_of_value? made).2]

theorem reflects_empty : Reflects .empty fun _ => none := by
  intro K
  cases K.value? <;> rfl

theorem Reflects.insert {K : Key} (reflects : d.Reflects f) (made : K.value? = some k) (v : Value) :
    Reflects (d.insert K ⟨k, v⟩) fun j => if j = k then some v else f j := by
  intro J
  rw [OrderedMap.get?_insert, reflects J]
  by_cases same : J = K
  · simp [same, made]
  · rw [if_neg (by simpa using same)]
    cases other : J.value? with
    | none => rfl
    | some j =>
      have differs : j ≠ k := fun equal => same (Key.value?_inj (equal ▸ other) made)
      simp [differs]

theorem Reflects.erase {K : Key} (reflects : d.Reflects f) (made : K.value? = some k) :
    Reflects (d.erase K) fun j => if j = k then none else f j := by
  intro J
  rw [OrderedMap.get?_erase, reflects J]
  by_cases same : J = K
  · simp [same, made]
  · rw [if_neg (by simpa using same)]
    cases other : J.value? with
    | none => rfl
    | some j =>
      have differs : j ≠ k := fun equal => same (Key.value?_inj (equal ▸ other) made)
      simp [differs]

theorem Reflects.merge (first : d.Reflects f) (second : e.Reflects g) :
    Reflects (d.merge e) fun k => (g k).or (f k) := by
  intro K
  rw [OrderedMap.get?_merge, first K, second K]
  cases K.value? with
  | none => rfl
  | some k => cases held : g k <;> simp [held]

/-- Dictionaries that hold the same values under the same keys are equal. -/
theorem Reflects.eq (first : d.Reflects f) (second : e.Reflects g)
    (same : ∀ k, k.isPlainKey = true → f k = g k) : d = e :=
  OrderedMap.ext_get? fun K => ((first.congr same) K).trans (second K).symm

/-! ## Keys of dictionaries -/

theorem keyOf_of_settle {K : Key} (stands : s.settle line key = .ok k)
    (made : Key.ofValue? k = some K) : s.keyOf key line = .ok K := by
  rw [Store.keyOf, stands, ok_bind, Key.ofValue, made]
  rfl

theorem keyOf_of_isUnhashable (stands : s.settle line key = .ok k)
    (unhashable : k.isUnhashable = true) :
    s.keyOf key line = .error (.unhashableKey k.kind line) := by
  rw [Store.keyOf, stands, ok_bind]
  cases k <;> first | rfl | cases unhashable

/-- A key that has given way to a value that can or cannot be one stands for that value. -/
theorem settle_of_isPlainKey_or {k : Value} (known : k.isPlainKey = true ∨ k.isUnhashable = true) :
    s.settle line k = .ok k := by
  cases k <;> first | rfl | simp [Value.isPlainKey, Value.isUnhashable] at known

theorem withEntry_of_isPlainKey {K : Key} (gives : s.resolved key line = .ok k)
    (made : K.value? = some k) : s.withEntry d key v line = .ok (d.insert K ⟨k, v⟩) := by
  obtain ⟨made, plain⟩ := Key.ofValue?_of_value? made
  rw [Store.withEntry, gives, ok_bind, keyOf_of_settle (settle_of_isPlainKey_or (.inl plain)) made]
  rfl

theorem withEntry_of_isUnhashable (gives : s.resolved key line = .ok k)
    (unhashable : k.isUnhashable = true) :
    s.withEntry d key v line = .error (.unhashableKey k.kind line) := by
  rw [Store.withEntry, gives, ok_bind,
    keyOf_of_isUnhashable (settle_of_isPlainKey_or (.inr unhashable)) unhashable]
  rfl

/-! ## Histories -/

/-- How a dictionary came about: by steps on a new one, where merging takes in a dictionary that came
about in its own way. Each step looks up its key in the store as it is then. -/
inductive History where
  | new
  | insert (before : History) (s : Store) (key v : Value) (line : Line)
  | remove (before : History) (s : Store) (key : Value) (line : Line)
  | get (before : History) (s : Store) (key : Value) (line : Line)
  | merge (before other : History)

namespace History

/-- The dictionary after all steps. A step that fails stops no other one. -/
def run : History → Dictionary
  | new => .empty
  | insert before s key v line => ((insertInPlace s key v line).on before.run).2
  | remove before s key line => ((removeInPlace s key line).on before.run).2
  | get before s key line => ((getInPlace s key line).on before.run).2
  | merge before other => before.run.merge other.run

/-- The value that the steps leave under a key: the one that was last put or merged there. -/
def left : History → Value → Option Value
  | new, _ => none
  | insert before s key v line, k =>
    if k.isPlainKey = true ∧ (s.resolved key line).toOption = some k then some v else before.left k
  | remove before s key line, k =>
    if (s.settle line key).toOption = some k then none else before.left k
  | get before _ _ _, k => before.left k
  | merge before other, k => (other.left k).or (before.left k)

/-- Whether all keys of the steps are null, integers, strings, or values that cannot be keys. -/
def Plain : History → Prop
  | new => True
  | insert before s key _ line =>
    before.Plain ∧ ∀ k, s.resolved key line = .ok k → k.isPlainKey = true ∨ k.isUnhashable = true
  | remove before s key line | get before s key line =>
    before.Plain ∧ ∀ k, s.settle line key = .ok k → k.isPlainKey = true ∨ k.isUnhashable = true
  | merge before other => before.Plain ∧ other.Plain

theorem left_of_not_isPlainKey (h : History) (other : ¬ k.isPlainKey = true) : h.left k = none := by
  induction h with
  | new => rfl
  | insert before s key v line ih => rw [left, if_neg (fun both => other both.1), ih]
  | remove before s key line ih => rw [left, ih, ite_self]
  | get before s key line ih => exact ih
  | merge before merged ih ih' => rw [left, ih, ih']; rfl

/-- One step of the history: putting a value under a key. -/
theorem reflects_insert (reflects : d.Reflects f) (s : Store) (key v : Value) (line : Line)
    (known : ∀ k, s.resolved key line = .ok k → k.isPlainKey = true ∨ k.isUnhashable = true) :
    Reflects ((insertInPlace s key v line).on d).2 fun k =>
      if k.isPlainKey = true ∧ (s.resolved key line).toOption = some k then some v else f k := by
  rw [on_insertInPlace]
  cases gives : s.resolved key line with
  | error e =>
    rw [Store.withEntry, gives]
    exact reflects.congr fun k _ => by simp [Except.toOption]
  | ok j =>
    by_cases plain : j.isPlainKey = true
    · obtain ⟨K, -, made⟩ := Key.exists_of_isPlainKey plain
      rw [withEntry_of_isPlainKey gives made]
      refine (reflects.insert made v).congr fun k isPlain => ?_
      simp [Except.toOption, isPlain, eq_comm]
    · rw [withEntry_of_isUnhashable gives ((known j gives).resolve_left plain)]
      refine reflects.congr fun k isPlain => ?_
      have differs : j ≠ k := fun equal => plain (equal ▸ isPlain)
      simp [Except.toOption, differs]

/-- One step of the history: taking away the value under a key. -/
theorem reflects_remove (reflects : d.Reflects f) (s : Store) (key : Value) (line : Line)
    (known : ∀ k, s.settle line key = .ok k → k.isPlainKey = true ∨ k.isUnhashable = true) :
    Reflects ((removeInPlace s key line).on d).2 fun k =>
      if (s.settle line key).toOption = some k then none else f k := by
  rw [on_removeInPlace, Store.withoutEntry]
  cases stands : s.settle line key with
  | error e =>
    rw [Store.keyOf, stands]
    exact reflects.congr fun k _ => by simp [Except.toOption]
  | ok j =>
    by_cases plain : j.isPlainKey = true
    · obtain ⟨K, hashes, made⟩ := Key.exists_of_isPlainKey plain
      rw [keyOf_of_settle stands hashes]
      refine (reflects.erase made).congr fun k _ => ?_
      simp [Except.toOption, eq_comm]
    · rw [keyOf_of_isUnhashable stands ((known j stands).resolve_left plain)]
      refine reflects.congr fun k isPlain => ?_
      have differs : j ≠ k := fun equal => plain (equal ▸ isPlain)
      simp [Except.toOption, differs]

/-- A dictionary holds what its history leaves. -/
theorem reflects_run (h : History) (plain : h.Plain) : h.run.Reflects h.left := by
  induction h with
  | new => exact reflects_empty
  | insert before s key v line ih => exact reflects_insert (ih plain.1) s key v line plain.2
  | remove before s key line ih => exact reflects_remove (ih plain.1) s key line plain.2
  | get before s key line ih => exact ih plain.1
  | merge before other ih ih' => exact (ih plain.1).merge (ih' plain.2)

end History

/-! ## What a dictionary that reflects a map does -/

/-- What an entry is of which map. -/
theorem Reflects.of_mem (reflects : d.Reflects f) {K : Key} {x : Entry} (member : (K, x) ∈ d.entries) :
    K.value? = some x.key ∧ f x.key = some x.value := by
  have found : d.get? K = some x := OrderedMap.get?_of_mem member
  rw [reflects K] at found
  obtain ⟨k, made, held⟩ := Option.bind_eq_some_iff.1 found
  obtain ⟨v, here, rfl⟩ := Option.map_eq_some_iff.1 held
  exact ⟨made, here⟩

theorem Reflects.mem_keyValues (reflects : d.Reflects f)
    (nothing : ∀ k, ¬ k.isPlainKey = true → f k = none) :
    k ∈ d.keyValues ↔ (f k).isSome = true := by
  constructor
  · intro member
    simp only [keyValues, OrderedMap.values, List.map_map, List.mem_map] at member
    obtain ⟨⟨K, x⟩, member, rfl⟩ := member
    exact Option.isSome_iff_exists.2 ⟨x.value, (reflects.of_mem member).2⟩
  · intro held
    obtain ⟨v, held⟩ := Option.isSome_iff_exists.1 held
    have plain : k.isPlainKey = true := Classical.byContradiction fun other => by
      rw [nothing k other] at held
      cases held
    obtain ⟨K, -, made⟩ := Key.exists_of_isPlainKey plain
    have found : d.get? K = some ⟨k, v⟩ := by rw [reflects K, made, Option.bind_some, held]; rfl
    simp only [keyValues, OrderedMap.values, List.map_map, List.mem_map]
    exact ⟨(K, ⟨k, v⟩), OrderedMap.mem_entries_of_get? found, rfl⟩

theorem Reflects.ascending (reflects : d.Reflects f) : d.keyValues.Pairwise Value.Precedes := by
  rw [keyValues, OrderedMap.values, List.map_map, List.pairwise_map]
  exact (OrderedMap.ascending d).imp_of_mem fun {a b} first second less =>
    Key.precedes_of_lt (reflects.of_mem first).1 (reflects.of_mem second).1 less

theorem Reflects.aligned (reflects : d.Reflects f) : d.storedValues.map some = d.keyValues.map f := by
  simp only [storedValues, keyValues, OrderedMap.values, List.map_map]
  exact List.map_congr_left fun x member => (reflects.of_mem member).2.symm

theorem Reflects.entry? (reflects : d.Reflects f) (nothing : ∀ k, ¬ k.isPlainKey = true → f k = none)
    {K : Key} (stands : s.settle line key = .ok k) (hashes : Key.ofValue? k = some K) :
    s.entry? d key line = .ok (f k) := by
  rw [Store.entry?, keyOf_of_settle stands hashes, ok_bind, reflects K]
  by_cases plain : k.isPlainKey = true
  · obtain ⟨J, made, gives⟩ := Key.exists_of_isPlainKey plain
    obtain rfl : K = J := Option.some.inj (hashes.symm.trans made)
    rw [gives]
    cases held : f k <;> simp [held] <;> rfl
  · rw [Key.value?_of_not_isPlainKey hashes plain, nothing k plain]
    rfl

/-- What scripts and the host see of a dictionary that refines a map. -/
structure Refines (d : Dictionary) (f : Value → Option Value) : Prop where
  /-- Reading gives what the map gives to the value that the key stands for. -/
  gets : ∀ s key line k, s.settle line key = .ok k → (Key.ofValue? k).isSome = true →
    (getInPlace s key line).on d = (.ok (f k), d)
  /-- Taking away gives the same. -/
  removes : ∀ s key line k, s.settle line key = .ok k → (Key.ofValue? k).isSome = true →
    ((removeInPlace s key line).on d).1 = .ok (f k)
  /-- A value can be put under each key that can be one. -/
  inserts : ∀ s key v line k, s.resolved key line = .ok k → k.isPlainKey = true →
    ((insertInPlace s key v line).on d).1 = .ok ()
  /-- Each key is stored in its own slot. -/
  slots : ∀ K x, (K, x) ∈ d.entries → Key.ofValue? x.key = some K
  mem_keys : ∀ k, k ∈ d.keyValues ↔ (f k).isSome = true
  /-- The length is the number of keys, of which no two are the same. -/
  length : d.size = d.keyValues.length ∧ d.keyValues.Nodup
  ascending : d.keyValues.Pairwise Value.Precedes
  /-- The values stand in the order of their keys. -/
  aligned : d.storedValues.map some = d.keyValues.map f
  /-- What cannot be a key is refused by each step, which changes nothing. -/
  refuses_get : ∀ s key line k, s.settle line key = .ok k → k.isUnhashable = true →
    (getInPlace s key line).on d = (.error (.unhashableKey k.kind line), d)
  refuses_remove : ∀ s key line k, s.settle line key = .ok k → k.isUnhashable = true →
    (removeInPlace s key line).on d = (.error (.unhashableKey k.kind line), d)
  refuses_insert : ∀ s key v line k, s.resolved key line = .ok k → k.isUnhashable = true →
    (insertInPlace s key v line).on d = (.error (.unhashableKey k.kind line), d)

theorem Reflects.refines (reflects : d.Reflects f)
    (nothing : ∀ k, ¬ k.isPlainKey = true → f k = none) : d.Refines f where
  gets s key line k stands hashable := by
    obtain ⟨K, hashes⟩ := Option.isSome_iff_exists.1 hashable
    rw [getInPlace, InPlace.on_look, reflects.entry? nothing stands hashes]
  removes s key line k stands hashable := by
    obtain ⟨K, hashes⟩ := Option.isSome_iff_exists.1 hashable
    rw [on_removeInPlace, reflects.entry? nothing stands hashes]
  inserts s key v line k gives plain := by
    obtain ⟨K, -, made⟩ := Key.exists_of_isPlainKey plain
    rw [on_insertInPlace, withEntry_of_isPlainKey gives made]
    rfl
  slots K x member := (Key.ofValue?_of_value? (reflects.of_mem member).1).1
  mem_keys k := reflects.mem_keyValues nothing
  length := by
    refine ⟨?_, reflects.ascending.imp Value.Precedes.ne⟩
    simp only [OrderedMap.size, keyValues, OrderedMap.values, List.length_map]
  ascending := reflects.ascending
  aligned := reflects.aligned
  refuses_get s key line k stands unhashable := by
    rw [getInPlace, InPlace.on_look, Store.entry?, keyOf_of_isUnhashable stands unhashable]
    rfl
  refuses_remove s key line k stands unhashable := by
    rw [on_removeInPlace, Store.entry?, Store.withoutEntry, keyOf_of_isUnhashable stands unhashable]
    rfl
  refuses_insert s key v line k gives unhashable := by
    rw [on_insertInPlace, withEntry_of_isUnhashable gives unhashable]
    rfl

end Dictionary

/-! ## Equality -/

/-- Whether a value is equal to itself. What is not a number is not, nor is a vector or a handle with
a part that is not. -/
def Value.isSelfEqual : Value → Bool
  | .float x => x == x
  | .vec3 u => u.equal u
  | .member collection key => collection.isSelfEqual && key.isSelfEqual
  | _ => true

namespace Store

/-- Collections are equal to themselves, whatever they hold. -/
theorem equalWithin_self (s : Store) (fuel : Nat) (v : Value) :
    s.equalWithin (fuel + 1) v v = v.isSelfEqual := by
  rw [equalWithin]
  induction v with
  | member collection key first second => rw [Value.equalBy, first, second]; rfl
  | _ => simp [Value.equalBy, contentsEqual, Value.isSelfEqual]

/-- What two handles to dictionaries have in common where they give the same to all that sees them:
only values that are not equal to themselves can make them differ. -/
structure Alike (s : Store) (d e : DictionaryRef) : Prop where
  keys : (s.dictionary d).keyValues = (s.dictionary e).keyValues
  values : (s.dictionary d).storedValues = (s.dictionary e).storedValues
  display : s.display (.dictionary d) = s.display (.dictionary e)
  equal : s.equal (.dictionary d) (.dictionary e) =
    (d = e || (s.dictionary d).storedValues.all Value.isSelfEqual)

theorem entriesEqual_self (equal : Value → Value → Bool) (d : Dictionary) :
    entriesEqual equal d d = d.storedValues.all fun v => equal v v := by
  rw [entriesEqual, decide_eq_true rfl, Bool.true_and, Dictionary.storedValues, OrderedMap.values,
    List.map_map, List.all_map, Bool.eq_iff_iff, List.all_eq_true, List.all_eq_true]
  refine forall_congr' fun x => forall_congr' fun member => ?_
  dsimp only
  rw [OrderedMap.get?_of_mem member]
  rfl

theorem displayWithin_dictionary {s : Store} {d e : DictionaryRef}
    (same : s.dictionary d = s.dictionary e) (levels : Nat) :
    s.displayWithin levels (.dictionary d) = s.displayWithin levels (.dictionary e) := by
  cases levels with
  | zero => rfl
  | succ levels => simp only [displayWithin, settle, same]

theorem alike_of_eq {s : Store} {d e : DictionaryRef} (same : s.dictionary d = s.dictionary e) :
    s.Alike d e where
  keys := by rw [same]
  values := by rw [same]
  display := displayWithin_dictionary same displayLevels
  equal := by
    show s.contentsEqual _ (.dictionary d) (.dictionary e) = _
    simp only [contentsEqual, ← same, entriesEqual_self, equalWithin_self]

end Store

namespace Dictionary.History

/-- Dictionaries refine maps from null, integers and strings, whatever the steps were that made them;
and what is seen of them depends on the map alone. -/
theorem refines_run (h : History) (plain : h.Plain) :
    h.run.Refines h.left ∧
      ∀ other : History, other.Plain → (∀ k, k.isPlainKey = true → other.left k = h.left k) →
        ∀ (s : Store) (d e : DictionaryRef), s.dictionary d = h.run → s.dictionary e = other.run →
          s.Alike d e := by
  have reflects := reflects_run h plain
  refine ⟨reflects.refines fun k => left_of_not_isPlainKey h, ?_⟩
  intro other plain' same s d e first second
  have equal : h.run = other.run :=
    reflects.eq (reflects_run other plain') fun k isPlain => (same k isPlain).symm
  exact Store.alike_of_eq (first.trans (equal.trans second.symm))

/-- Two orders of the same insertions, with keys that only their kinds tell apart. -/
theorem refines_run_in_two_orders :
    let one : History :=
      .insert (.insert .new .empty (.int 1) (.float 1.5) 1) .empty (.string "1") .null 2
    let other : History :=
      .insert (.insert .new .empty (.string "1") .null 1) .empty (.int 1) (.float 1.5) 2
    one.run.Refines one.left ∧
      Store.Alike { Store.empty with dictionaries := #[one.run, other.run] } ⟨0⟩ ⟨1⟩ := by
  intro one other
  have known (key : Value) (plain : key.isPlainKey = true) (line : Line) (k : Value) :
      Store.empty.resolved key line = .ok k → k.isPlainKey = true ∨ k.isUnhashable = true := by
    cases key <;> first | (rintro ⟨⟩; exact .inl rfl) | cases plain
  have first : one.Plain := ⟨⟨trivial, known _ rfl 1⟩, known _ rfl 2⟩
  have second : other.Plain := ⟨⟨trivial, known _ rfl 1⟩, known _ rfl 2⟩
  have same : ∀ k, k.isPlainKey = true → other.left k = one.left k := by
    intro k plain
    by_cases number : k = .int 1
    · subst number
      decide
    · by_cases text : k = .string "1"
      · subst text
        decide
      · simp [one, other, left, Store.resolved, Except.toOption, Ne.symm number, Ne.symm text]
  have refines := refines_run one first
  exact ⟨refines.1, refines.2 other second same _ _ _ rfl rfl⟩

/-- What is not a number is not equal to itself, so neither are two dictionaries that hold it. -/
theorem not_equal_of_not_number :
    let h : History := .insert .new .empty (.int 1) (.float (0.0 / 0.0)) 1
    let s : Store := { Store.empty with dictionaries := #[h.run, h.run] }
    h.Plain ∧ s.equal (.dictionary ⟨0⟩) (.dictionary ⟨1⟩) = false := by
  refine ⟨⟨trivial, ?_⟩, by decide⟩
  rintro k ⟨⟩
  exact .inl rfl

end Dictionary.History

end Scriptlet
