import Mathlib.Algebra.Group.Nat.Defs
import Mathlib.Data.List.Induction
import Scriptlet.Proofs.Dictionary
import Scriptlet.Proofs.Store.Appending
import Scriptlet.Proofs.Token.Texts
import Scriptlet.Proofs.TypedArray

/-!
# Conversions that lose nothing

An integer is read back from its text. The keys of the dictionary that a list becomes are the places
of its elements, which stand in the order of their numbers and not in that of their digits; so the
list comes back as it was, and so does a typed array (`Store.hardconvert_thereAndBack`).
-/

namespace Scriptlet

/-! ## Numbers and their texts -/

/-- Text without white space is trimmed already. -/
theorem Text.trim_of_plain {text : List Char} (plain : ∀ c ∈ text, isBlank c = false) :
    trim text = text := by
  have keeps {l : List Char} (plain : ∀ c ∈ l, isBlank c = false) : l.dropWhile isBlank = l := by
    cases l with
    | nil => rfl
    | cons c rest => rw [List.dropWhile_cons, plain c List.mem_cons_self]; rfl
  rw [trim, keeps plain, keeps fun c member => plain c (List.mem_reverse.1 member),
    List.reverse_reverse]

namespace Number

theorem isBlank_of_isDigit {c : Char} (digit : c.isDigit = true) : Text.isBlank c = false := by
  have bounds : 48 ≤ c.toNat ∧ c.toNat ≤ 57 := by simpa [Char.isDigit, UInt32.le_iff_toNat_le] using digit
  simp only [Text.isBlank, Text.inRanges, Text.blankRanges, List.any_cons, List.any_nil]
  simp
  omega

/-- The text of an integer is that of its absolute value, after a minus if it has one. -/
theorem toList_toString (i : Int) :
    (toString i).toList = (if i < 0 then ['-'] else []) ++ (toString i.natAbs).toList := by
  cases i with
  | ofNat n => rfl
  | negSucc n => rw [if_pos (Int.negSucc_lt_zero n)]; exact String.toList_append

theorem splitSign_toString (i : Int) :
    splitSign (toString i).toList = (decide (i < 0), (toString i.natAbs).toList) := by
  rw [toList_toString]
  split
  · next negative => rw [decide_eq_true negative]; rfl
  · next positive =>
    obtain ⟨c, digits, written, first, -⟩ := Lexer.exists_digits i.natAbs
    have minus : c ≠ '-' := by rintro rfl; exact absurd first (by decide)
    have plus : c ≠ '+' := by rintro rfl; exact absurd first (by decide)
    rw [List.nil_append, decide_eq_false positive, written]
    simp [splitSign, minus, plus]

theorem unsigned?_toString (n : Nat) : unsigned? (toString n).toList = some n := by
  obtain ⟨c, digits, written, first, all, value⟩ := Lexer.exists_digits n
  rw [written, unsigned?, value, if_pos]
  simpa [first] using all

theorem int?_toString (i : Int64) : int? (toString i.toInt).toList = some i := by
  have signed : (if decide (i.toInt < 0) = true then -(i.toInt.natAbs : Int) else i.toInt.natAbs) =
      i.toInt := by
    by_cases negative : i.toInt < 0
    · rw [if_pos (decide_eq_true negative)]
      omega
    · rw [if_neg (by rw [decide_eq_true_eq]; exact negative)]
      omega
  rw [int?, splitSign_toString]
  dsimp only
  rw [unsigned?_toString, Option.bind_some, signed, Lexer.fit_toInt]

theorem isBlank_of_mem_toString {i : Int} {c : Char} (member : c ∈ (toString i).toList) :
    Text.isBlank c = false := by
  obtain ⟨d, rest, written, first, all, -⟩ := Lexer.exists_digits i.natAbs
  have digit : ∀ c ∈ d :: rest, c.isDigit = true := by simpa [first] using all
  rw [toList_toString, written] at member
  rcases List.mem_append.1 member with sign | digits
  · split at sign
    · obtain rfl := List.mem_singleton.1 sign
      decide
    · cases sign
  · exact isBlank_of_isDigit (digit c digits)

/-- An integer is what its text stands for. -/
theorem lossyInt_toString (i : Int64) : lossyInt (toString i.toInt) = i := by
  rw [lossyInt, Text.trim_of_plain fun c => isBlank_of_mem_toString, int?_toString]
  rfl

end Number

/-! ## Places as keys -/

/-- Whether the places of all items are 64-bit integers, as they are of all that fits into memory. -/
def Indexable (items : List Value) : Prop := items.length ≤ 2 ^ 63

instance (items : List Value) : Decidable (Indexable items) :=
  inferInstanceAs (Decidable (_ ≤ _))

theorem Key.compare_int (i j : Int64) : compare (int i) (int j) = compare i.toInt j.toInt := by
  rw [compare_eq]
  simp [tag, numbers, text]

theorem Key.compare_places {i j : Nat} (less : i < j) (bound : j < 2 ^ 63) :
    compare (int (Int64.ofNat i)) (int (Int64.ofNat j)) = .lt := by
  rw [compare_int, Int64.toInt_ofNat_of_lt (less.trans bound), Int64.toInt_ofNat_of_lt bound]
  exact compareOfLessAndEq_eq_lt.2 (Int.ofNat_lt.2 less)

/-- The entry of an item under its place. -/
def Dictionary.placed (item : Value × Nat) : Key × Entry :=
  (.int (Int64.ofNat item.2), ⟨.ofLength item.2, item.1⟩)

/-- The entries of a dictionary that is made of items stand in the order of the items. -/
theorem Dictionary.entries_ofItems {items : List Value} (indexable : Indexable items) :
    (ofItems items).entries = items.zipIdx.map placed := by
  induction items using List.reverseRecOn with
  | nil => rfl
  | append_singleton front last ih =>
    have bound : front.length < 2 ^ 63 := by
      rw [Indexable, List.length_append, List.length_singleton] at indexable
      omega
    have before := ih (Nat.le_of_lt bound)
    have grown : ofItems (front ++ [last]) =
        (ofItems front).insert (.int (Int64.ofNat front.length)) ⟨.ofLength front.length, last⟩ := by
      simp [ofItems, List.zipIdx_append, List.foldl_append]
    rw [grown, OrderedMap.entries_insert_last, before]
    · simp [List.zipIdx_append, placed]
    · intro e member
      rw [before] at member
      obtain ⟨⟨v, i⟩, place, rfl⟩ := List.mem_map.1 member
      exact Key.compare_places (by simpa using List.snd_lt_of_mem_zipIdx place) bound

theorem Dictionary.storedValues_ofItems {items : List Value} (indexable : Indexable items) :
    (ofItems items).storedValues = items := by
  rw [storedValues, OrderedMap.values, entries_ofItems indexable, List.map_map, List.map_map]
  exact List.zipIdx_map_fst 0 items

/-! ## There and back -/

namespace TypedArray

/-- The elements of an array make the array again. -/
theorem ofValues_items {a : TypedArray} (elements : a.items ≠ []) (line : Line) :
    ofValues a.items line = .ok a := by
  obtain ⟨element, items, isElement, uniform⟩ := a
  cases items with
  | nil => exact absurd rfl elements
  | cons first rest =>
    obtain rfl : first.kind = element := uniform first List.mem_cons_self
    rw [ofValues, dif_pos isElement, dif_pos uniform]

end TypedArray

namespace Store

variable {s : Store} {l : ListRef} {a : ArrayRef} {d : DictionaryRef} {line : Line}

theorem hardconvert_list_dictionary : s.hardconvert (.list l) .dictionary line =
    .ok (s.newDictionary (.ofItems (s.list l))) := rfl

theorem hardconvert_array_dictionary : s.hardconvert (.array a) .dictionary line =
    .ok (s.newDictionary (.ofItems (s.array a).items)) := rfl

theorem hardconvert_array_list : s.hardconvert (.array a) .list line =
    .ok (s.newList (s.array a).items) := rfl

theorem hardconvert_dictionary_list : s.hardconvert (.dictionary d) .list line =
    .ok (s.newList (s.dictionary d).storedValues) := rfl

theorem hardconvert_list_array : s.hardconvert (.list l) .array line =
    (TypedArray.ofValues (s.list l) line).map s.newArray := by
  have made : s.hardconvert (.list l) .array line =
    TypedArray.ofValues (s.list l) line >>= fun items => .ok (s.newArray items) := rfl
  rw [made]
  cases TypedArray.ofValues (s.list l) line <;> rfl

theorem hardconvert_dictionary_array : s.hardconvert (.dictionary d) .array line =
    (TypedArray.ofValues (s.dictionary d).storedValues line).map s.newArray := by
  have made : s.hardconvert (.dictionary d) .array line =
    TypedArray.ofValues (s.dictionary d).storedValues line >>= fun items =>
      .ok (s.newArray items) := rfl
  rw [made]
  cases TypedArray.ofValues (s.dictionary d).storedValues line <;> rfl

/-- A list becomes an array exactly if one kind that arrays can hold is that of all its elements. -/
theorem exists_hardconvert_array_iff : (∃ r, s.hardconvert (.list l) .array line = .ok r) ↔
    s.list l = [] ∨ ∃ k : Kind, k.isElement = true ∧ ∀ v ∈ s.list l, v.kind = k := by
  have made := TypedArray.Change.succeeds_ofValues .empty (s.list l) line
  rw [hardconvert_list_array]
  cases found : TypedArray.ofValues (s.list l) line with
  | ok items =>
    rw [found] at made
    exact ⟨fun _ => .inr made.1, fun _ => ⟨_, rfl⟩⟩
  | error e =>
    rw [found] at made
    constructor
    · rintro ⟨_, never⟩
      cases never
    · rintro (nothing | uniform)
      · exact absurd ⟨.int, rfl, by simp [nothing]⟩ made
      · exact absurd uniform made

/-- What a list becomes where an array is asked for is an array with the elements of the list. -/
theorem array_of_hardconvert {w : Value} {t : Store}
    (made : s.hardconvert (.list l) .array line = .ok (w, t)) :
    ∃ b, w = .array b ∧ (t.array b).items = s.list l := by
  rw [hardconvert_list_array] at made
  cases found : TypedArray.ofValues (s.list l) line with
  | error e =>
    rw [found] at made
    cases made
  | ok items =>
    rw [found] at made
    obtain ⟨rfl, rfl⟩ := Prod.mk.inj (Except.ok.inj made)
    exact ⟨_, rfl,
      (congrArg TypedArray.items (array_newArray _)).trans (TypedArray.items_ofValues found)⟩

/-- A value becomes one of the kind asked for, and this becomes `back` where the kind of the first
value is asked for. -/
def ComesBack (s : Store) (v : Value) (through : Kind) (line : Line) (back : Value) (u : Store) :
    Prop :=
  ∃ w t, s.hardconvert v through line = .ok (w, t) ∧ w.kind = through ∧
    t.hardconvert w v.kind line = .ok (back, u)

theorem comesBack_int (i : Int64) : s.ComesBack (.int i) .string line (.int i) s := by
  refine ⟨.string (toString i.toInt), s, rfl, rfl, ?_⟩
  have read : s.hardconvert (.string (toString i.toInt)) .int line =
      .ok (.int (Number.lossyInt (toString i.toInt)), s) := rfl
  exact read.trans (by rw [Number.lossyInt_toString])

theorem comesBack_list (indexable : Indexable (s.list l)) :
    ∃ m u, s.ComesBack (.list l) .dictionary line (.list m) u ∧ u.list m = s.list l := by
  have back : (s.newDictionary (.ofItems (s.list l))).2.hardconvert (.dictionary ⟨s.dictionaries.size⟩)
      .list line = .ok ((s.newDictionary (.ofItems (s.list l))).2.newList (s.list l)) := by
    rw [hardconvert_dictionary_list, dictionary_newDictionary,
      Dictionary.storedValues_ofItems indexable]
  exact ⟨_, _, ⟨_, _, hardconvert_list_dictionary, rfl, back⟩, list_newList _ _⟩

theorem comesBack_array (elements : (s.array a).items ≠ []) :
    ∃ b u, s.ComesBack (.array a) .list line (.array b) u ∧ u.array b = s.array a := by
  have back : (s.newList (s.array a).items).2.hardconvert (.list ⟨s.lists.size⟩) .array line =
      .ok ((s.newList (s.array a).items).2.newArray (s.array a)) := by
    rw [hardconvert_list_array, list_newList, TypedArray.ofValues_items elements]
    rfl
  exact ⟨_, _, ⟨_, _, hardconvert_array_list, rfl, back⟩, array_newArray _⟩

theorem comesBack_array_dictionary (elements : (s.array a).items ≠ [])
    (indexable : Indexable (s.array a).items) :
    ∃ b u, s.ComesBack (.array a) .dictionary line (.array b) u ∧ u.array b = s.array a := by
  have back : (s.newDictionary (.ofItems (s.array a).items)).2.hardconvert
      (.dictionary ⟨s.dictionaries.size⟩) .array line =
        .ok ((s.newDictionary (.ofItems (s.array a).items)).2.newArray (s.array a)) := by
    rw [hardconvert_dictionary_array, dictionary_newDictionary,
      Dictionary.storedValues_ofItems indexable, TypedArray.ofValues_items elements]
    rfl
  exact ⟨_, _, ⟨_, _, hardconvert_array_dictionary, rfl, back⟩, array_newArray _⟩

/-- Integers come back from their texts, lists from dictionaries, and typed arrays with their element
kind from lists and from dictionaries. A list becomes an array exactly if it has no elements or one
kind that arrays can hold is that of all of them, and the array has the elements of the list. -/
theorem hardconvert_thereAndBack (s : Store) (line : Line) :
    (∀ i, s.ComesBack (.int i) .string line (.int i) s) ∧
      (∀ l, Indexable (s.list l) →
        ∃ m u, s.ComesBack (.list l) .dictionary line (.list m) u ∧ u.list m = s.list l) ∧
      (∀ a, (s.array a).items ≠ [] →
        (∃ b u, s.ComesBack (.array a) .list line (.array b) u ∧ u.array b = s.array a) ∧
        (Indexable (s.array a).items →
          ∃ b u, s.ComesBack (.array a) .dictionary line (.array b) u ∧
            u.array b = s.array a)) ∧
      ∀ l, ((∃ r, s.hardconvert (.list l) .array line = .ok r) ↔
          s.list l = [] ∨ ∃ k : Kind, k.isElement = true ∧ ∀ v ∈ s.list l, v.kind = k) ∧
        ∀ w t, s.hardconvert (.list l) .array line = .ok (w, t) →
          ∃ b, w = .array b ∧ (t.array b).items = s.list l :=
  ⟨comesBack_int, fun _ => comesBack_list,
    fun _ elements => ⟨comesBack_array elements, comesBack_array_dictionary elements⟩,
    fun _ => ⟨exists_hardconvert_array_iff, fun _ _ => array_of_hardconvert⟩⟩

/-- Twelve places are more than one digit can name. -/
theorem thereAndBack_twelve :
    let s : Store :=
      { Store.empty with
        lists := #[(List.range 12).map .ofLength]
        arrays := #[⟨.string, List.replicate 12 (.string "a"), rfl, by simp [Value.kind]⟩] }
    (∃ m u, s.ComesBack (.list ⟨0⟩) .dictionary 1 (.list m) u ∧
        u.list m = (List.range 12).map .ofLength) ∧
      (∃ b u, s.ComesBack (.array ⟨0⟩) .list 1 (.array b) u ∧
        (u.array b).items = List.replicate 12 (.string "a")) ∧
      (∃ b u, s.ComesBack (.array ⟨0⟩) .dictionary 1 (.array b) u ∧
        (u.array b).items = List.replicate 12 (.string "a")) ∧
      ∃ b t, s.hardconvert (.list ⟨0⟩) .array 1 = .ok (.array b, t) ∧
        (t.array b).items = (List.range 12).map .ofLength := by
  intro s
  have few : Indexable ((List.range 12).map .ofLength) := by decide
  have texts : Indexable (List.replicate 12 (.string "a")) := by decide
  obtain ⟨-, lists, arrays, makes⟩ := hardconvert_thereAndBack s 1
  obtain ⟨⟨b, t, back, same⟩, others⟩ := arrays ⟨0⟩ (List.cons_ne_nil _ _)
  obtain ⟨c, u, around, alike⟩ := others texts
  obtain ⟨⟨w, v⟩, made⟩ := (makes ⟨0⟩).1.2 (.inr ⟨.int, rfl, by decide⟩)
  obtain ⟨e, rfl, elements⟩ := (makes ⟨0⟩).2 w v made
  exact ⟨lists ⟨0⟩ few, ⟨b, t, back, congrArg TypedArray.items same⟩,
    ⟨c, u, around, congrArg TypedArray.items alike⟩, ⟨e, v, made, elements⟩⟩

end Store

end Scriptlet
