import Scriptlet.Proofs.Expr.Rendering
import Scriptlet.Proofs.Token.Texts
import Scriptlet.Store.Display

/-!
# The text of values without cycles

A value that leads to no function, instance or float and not back to itself is a `Datum`, whatever
places of a store it takes up. The text that it is displayed with is laid out from tokens: those of
the list literal that makes it again.
-/

namespace Scriptlet

/-- The two sorts of sequences. -/
inductive Sequence where
  | array
  | list
  deriving DecidableEq

/-- What a value without cycles holds. -/
inductive Datum where
  | null
  | int (i : Int64)
  | string (text : String)
  | sequence (sort : Sequence) (items : List Datum)

namespace Store

mutual

/-- Whether a value holds a datum in a store. -/
def Holds (s : Store) : Datum → Value → Prop
  | .null, v => v = .null
  | .int i, v => v = .int i
  | .string text, v => v = .string text
  | .sequence .array items, v =>
    ∃ a : ArrayRef, v = .array a ∧ a.index < s.arrays.size ∧ HoldsAll s items (s.array a).items
  | .sequence .list items, v =>
    ∃ l : ListRef, v = .list l ∧ l.index < s.lists.size ∧ HoldsAll s items (s.list l)

/-- Whether values hold data, one after another. -/
def HoldsAll (s : Store) : List Datum → List Value → Prop
  | [], vs => vs = []
  | d :: ds, vs => ∃ v rest, vs = v :: rest ∧ Holds s d v ∧ HoldsAll s ds rest

end

/-- Whether a store has the lists and arrays of another one, with what they hold there. -/
structure Extends (s t : Store) : Prop where
  lists : s.lists.size ≤ t.lists.size
  arrays : s.arrays.size ≤ t.arrays.size
  list : ∀ l, l.index < s.lists.size → t.list l = s.list l
  array : ∀ a, a.index < s.arrays.size → t.array a = s.array a

namespace Extends

variable {s t u : Store}

theorem refl (s : Store) : s.Extends s :=
  ⟨le_refl _, le_refl _, fun _ _ => rfl, fun _ _ => rfl⟩

theorem trans (first : s.Extends t) (second : t.Extends u) : s.Extends u where
  lists := first.lists.trans second.lists
  arrays := first.arrays.trans second.arrays
  list l inside := (second.list l (inside.trans_le first.lists)).trans (first.list l inside)
  array a inside := (second.array a (inside.trans_le first.arrays)).trans (first.array a inside)

theorem newList (s : Store) (items : List Value) : s.Extends (s.newList items).2 where
  lists := by simp [Store.newList]
  arrays := le_refl _
  list l inside := by
    simp only [Store.list, Store.newList]
    rw [Array.getElem?_push_lt inside, Array.getElem?_eq_getElem inside]
  array _ _ := rfl

theorem newArray (s : Store) (items : TypedArray) : s.Extends (s.newArray items).2 where
  lists := le_refl _
  arrays := by simp [Store.newArray]
  list _ _ := rfl
  array a inside := by
    simp only [Store.array, Store.newArray]
    rw [Array.getElem?_push_lt inside, Array.getElem?_eq_getElem inside]

end Extends

mutual

/-- What a value holds stays when lists and arrays are added. -/
theorem Holds.extends {s t : Store} (later : s.Extends t) :
    ∀ {d : Datum} {v : Value}, s.Holds d v → t.Holds d v
  | .null, v, holds | .int _, v, holds | .string _, v, holds => by
    rw [Holds] at holds ⊢
    exact holds
  | .sequence .array items, v, holds => by
    rw [Holds] at holds ⊢
    obtain ⟨a, rfl, inside, each⟩ := holds
    exact ⟨a, rfl, inside.trans_le later.arrays, by
      rw [later.array a inside]; exact each.extends later⟩
  | .sequence .list items, v, holds => by
    rw [Holds] at holds ⊢
    obtain ⟨l, rfl, inside, each⟩ := holds
    exact ⟨l, rfl, inside.trans_le later.lists, by
      rw [later.list l inside]; exact each.extends later⟩

theorem HoldsAll.extends {s t : Store} (later : s.Extends t) :
    ∀ {ds : List Datum} {vs : List Value}, s.HoldsAll ds vs → t.HoldsAll ds vs
  | [], vs, holds => by
    rw [HoldsAll] at holds ⊢
    exact holds
  | d :: ds, vs, holds => by
    rw [HoldsAll] at holds ⊢
    obtain ⟨v, rest, rfl, first, others⟩ := holds
    exact ⟨v, rest, rfl, first.extends later, others.extends later⟩

end

end Store

namespace Datum

/-- Whether data are all integers or all strings, as the items of an array are. -/
def Uniform (items : List Datum) : Prop :=
  (∀ d ∈ items, ∃ i, d = .int i) ∨ ∀ d ∈ items, ∃ text, d = .string text

/-- Whether a datum with at most so many levels below it is made again by its text: strings are
legible, and a sequence is an array exactly if it has items and they are uniform. -/
inductive Legible : (levels : Nat) → Datum → Prop where
  | null {n : Nat} : Legible n .null
  | int {n : Nat} {i : Int64} : Legible n (.int i)
  | string {n : Nat} {text : String} : (∀ c ∈ text.toList, Lexer.isLegible c = true) →
      Legible n (.string text)
  | empty {n : Nat} : Legible n (.sequence .list [])
  | array {n : Nat} {items : List Datum} : items ≠ [] → Uniform items →
      (∀ d ∈ items, Legible n d) → Legible (n + 1) (.sequence .array items)
  | list {n : Nat} {items : List Datum} : ¬ Uniform items → (∀ d ∈ items, Legible n d) →
      Legible (n + 1) (.sequence .list items)

mutual

/-- The literal that makes a datum. -/
def expr : Datum → Expr
  | null => .constant .null 0
  | int i => .constant (.int i) 0
  | string text => .constant (.string text) 0
  | sequence _ items => .ofElements (exprs items) 0

/-- The literals that make data. -/
def exprs : List Datum → List Expr
  | [] => []
  | d :: ds => d.expr :: exprs ds

end

theorem exprs_eq_map (ds : List Datum) : exprs ds = ds.map expr := by
  induction ds with
  | nil => rfl
  | cons d ds ih => rw [exprs, ih, List.map_cons]

/-- The tokens of the literal that makes a datum. -/
def tokens (d : Datum) : List Token := d.expr.tokens

/-! ## Tokens of a sequence -/

open Scriptlet.Expr (brackets commas)

theorem tokens_of_scalar? {e : Expr} {v : Value} (scalar : e.scalar? = some v) :
    e.tokens = [Expr.elementToken v] := by
  cases e with
  | constant c line =>
    cases c with
    | array a => cases scalar
    | _ =>
      obtain rfl := Option.some.inj scalar
      rfl
  | _ => cases scalar

theorem map_tokens_of_mapM {es : List Expr} {vs : List Value}
    (scalars : es.mapM Expr.scalar? = some vs) :
    es.map Expr.tokens = vs.map fun v => [Expr.elementToken v] := by
  induction es generalizing vs with
  | nil =>
    obtain rfl : [] = vs := by simpa using scalars
    rfl
  | cons e es ih =>
    rw [List.mapM_cons, Option.bind_eq_bind, Option.bind_eq_some_iff] at scalars
    obtain ⟨v, first, rest⟩ := scalars
    rw [Option.bind_eq_bind, Option.bind_eq_some_iff] at rest
    obtain ⟨ws, later, same⟩ := rest
    obtain rfl : v :: ws = vs := Option.some.inj same
    rw [List.map_cons, List.map_cons, tokens_of_scalar? first, ih later]

theorem exists_mapM_of_collapse {es : List Expr} {a : ConstantArray}
    (collapsed : Expr.collapse es = some a) : es.mapM Expr.scalar? = some a.items := by
  unfold Expr.collapse at collapsed
  split at collapsed
  · cases collapsed
  · cases collapsed
  · next values scalars =>
    rw [ConstantArray.items_ofValues? collapsed]
    exact scalars

/-- An array has the tokens of its list literal. -/
theorem tokens_ofElements (es : List Expr) (line : Line) :
    (Expr.ofElements es line).tokens = brackets (commas (es.map Expr.tokens)) := by
  unfold Expr.ofElements
  split
  · next a collapsed =>
    rw [map_tokens_of_mapM (exists_mapM_of_collapse collapsed)]
    rfl
  · rw [Expr.tokens, Expr.tokensAll_eq_map]

theorem tokens_sequence (sort : Sequence) (items : List Datum) :
    (sequence sort items).tokens = brackets (commas (items.map tokens)) := by
  rw [tokens, expr, tokens_ofElements, exprs_eq_map, List.map_map]
  rfl

/-! ## The layout of a literal -/

open Scriptlet.Lexer (layout)

/-- Tokens with a space after each comma. -/
def withSpaces : (afterComma : Bool) → List Token → List (Bool × Token)
  | _, [] => []
  | afterComma, t :: ts => (afterComma, t) :: withSpaces (t = .mark .comma) ts

/-- The text of a datum. -/
def text (d : Datum) : List Char := layout (withSpaces false d.tokens)

theorem map_withSpaces (afterComma : Bool) (ts : List Token) :
    (withSpaces afterComma ts).map (·.2) = ts := by
  induction ts generalizing afterComma with
  | nil => rfl
  | cons t ts ih => rw [withSpaces, List.map_cons, ih]

/-- Words that do not end with a comma. -/
def Ended (w : List Token) : Prop := ∃ t, w.getLast? = some t ∧ t ≠ .mark .comma

theorem withSpaces_append {w : List Token} (ended : Ended w) (v : List Token) (afterComma : Bool) :
    withSpaces afterComma (w ++ v) = withSpaces afterComma w ++ withSpaces false v := by
  induction w generalizing afterComma with
  | nil =>
    obtain ⟨t, last, -⟩ := ended
    cases last
  | cons t w ih =>
    obtain ⟨u, last, other⟩ := ended
    cases w with
    | nil =>
      obtain rfl : t = u := Option.some.inj last
      simp [withSpaces, other]
    | cons t' w =>
      rw [List.getLast?_cons_cons] at last
      rw [List.cons_append, withSpaces, ih ⟨u, last, other⟩ (t = .mark .comma), withSpaces]
      rfl

theorem layout_append (ts us : List (Bool × Token)) : layout (ts ++ us) = layout ts ++ layout us := by
  induction ts with
  | nil => rfl
  | cons p ts ih => simp only [List.cons_append, layout, ih, List.append_assoc]

/-- Words with commas between them are laid out with commas and spaces between them. -/
theorem layout_commas {ws : List (List Token)} (ended : ∀ w ∈ ws, Ended w) :
    layout (withSpaces false (commas ws)) =
      List.intercalate [',', ' '] (ws.map fun w => layout (withSpaces false w)) := by
  induction ws with
  | nil => rfl
  | cons w ws ih =>
    have first := ended w List.mem_cons_self
    have later := ih fun v member => ended v (List.mem_cons_of_mem _ member)
    cases ws with
    | nil => simp [commas, Expr.separated]
    | cons v ws =>
      have next : layout (withSpaces true (commas (v :: ws))) =
          ' ' :: layout (withSpaces false (commas (v :: ws))) := by
        obtain ⟨t, v, rfl⟩ : ∃ t v', v = t :: v' := by
          obtain ⟨t, last, -⟩ := ended v (by simp)
          cases v with
          | nil => cases last
          | cons t v => exact ⟨t, v, rfl⟩
        cases ws <;> rfl
      have split : commas (w :: v :: ws) = w ++ .mark .comma :: commas (v :: ws) := rfl
      rw [split, withSpaces_append first, layout_append, withSpaces, layout]
      simp only [decide_true, next, later, List.map_cons, List.intercalate_cons_cons]
      simp [Token.text, Mark.char]

theorem ended_singleton {t : Token} (other : t ≠ .mark .comma) : Ended [t] := ⟨t, rfl, other⟩

theorem ended_brackets (w : List Token) : Ended (brackets w) := by
  refine ⟨.mark .rightBracket, ?_, by simp⟩
  rw [brackets, ← List.cons_append, List.getLast?_append]
  rfl

theorem ended_tokens (d : Datum) : Ended d.tokens := by
  cases d with
  | null | int | string => exact ended_singleton (by simp)
  | sequence sort items =>
    rw [tokens_sequence]
    exact ended_brackets _

theorem layout_brackets {w : List Token} (ended : w = [] ∨ Ended w) :
    layout (withSpaces false (brackets w)) = '[' :: (layout (withSpaces false w) ++ [']']) := by
  have opening : withSpaces false (brackets w) =
      (false, .mark .leftBracket) :: withSpaces false (w ++ [.mark .rightBracket]) := rfl
  have closing : layout (withSpaces false [.mark .rightBracket]) = [']'] := rfl
  have inside : layout (withSpaces false (w ++ [.mark .rightBracket])) =
      layout (withSpaces false w) ++ [']'] := by
    rcases ended with rfl | ended
    · rfl
    · rw [withSpaces_append ended, layout_append, closing]
  rw [opening, layout, inside]
  rfl

theorem ended_commas {ws : List (List Token)} (ended : ∀ w ∈ ws, Ended w) :
    commas ws = [] ∨ Ended (commas ws) := by
  induction ws with
  | nil => exact .inl rfl
  | cons w ws ih =>
    right
    cases ws with
    | nil => exact ended w List.mem_cons_self
    | cons v ws =>
      have split : commas (w :: v :: ws) = w ++ .mark .comma :: commas (v :: ws) := rfl
      have later := ih fun u member => ended u (List.mem_cons_of_mem _ member)
      obtain ⟨t, last, other⟩ := later.resolve_left (by
        obtain ⟨t, last, -⟩ := ended v (by simp)
        cases v with
        | nil => cases last
        | cons t v => cases ws <;> simp [commas, Expr.separated])
      exact ⟨t, by rw [split, List.getLast?_append, List.getLast?_cons, last]; rfl, other⟩

theorem text_sequence (sort : Sequence) (items : List Datum) :
    (sequence sort items).text =
      '[' :: (List.intercalate [',', ' '] (items.map text) ++ [']']) := by
  have ended : ∀ w ∈ items.map tokens, Ended w := by
    intro w member
    obtain ⟨d, -, rfl⟩ := List.mem_map.1 member
    exact ended_tokens d
  rw [text, tokens_sequence, layout_brackets (ended_commas ended), layout_commas ended, List.map_map]
  rfl

end Datum

/-! ## What is displayed -/

namespace Store

open Datum (Legible)

variable {s : Store} {v : Value} {d : Datum}

/-- The text of an item of a collection, where strings are quoted. -/
def nestedText (s : Store) (levels : Nat) : Value → String
  | .string text => Text.Quoted.quote text
  | v => s.displayWithin levels v

theorem nestedText_array (s : Store) (levels : Nat) (a : ArrayRef) :
    s.nestedText (levels + 1) (.array a) =
      enclosed "[" "]" ((s.array a).items.map (s.nestedText levels)) := rfl

theorem nestedText_list (s : Store) (levels : Nat) (l : ListRef) :
    s.nestedText (levels + 1) (.list l) =
      enclosed "[" "]" ((s.list l).map (s.nestedText levels)) := rfl

theorem toList_enclosed (parts : List String) : (enclosed "[" "]" parts).toList =
    '[' :: (List.intercalate [',', ' '] (parts.map String.toList) ++ [']']) := by
  rw [enclosed, String.toList_append, String.toList_append, String.toList_intercalate]
  rfl

theorem map_of_holdsAll {s : Store} {f : Value → String} {ds : List Datum} {vs : List Value}
    (holds : HoldsAll s ds vs) (each : ∀ d ∈ ds, ∀ v, s.Holds d v → (f v).toList = d.text) :
    (vs.map f).map String.toList = ds.map Datum.text := by
  induction ds generalizing vs with
  | nil =>
    rw [HoldsAll] at holds
    rw [holds]
    rfl
  | cons d ds ih =>
    rw [HoldsAll] at holds
    obtain ⟨v, rest, rfl, first, later⟩ := holds
    rw [List.map_cons, List.map_cons, List.map_cons, each d List.mem_cons_self v first,
      ih later fun d' member => each d' (List.mem_cons_of_mem _ member)]

/-- A value that holds a datum is displayed as the text of the datum; a string is quoted inside a
collection. -/
theorem toList_nestedText {levels : Nat} (legible : d.Legible levels) (holds : s.Holds d v) :
    (s.nestedText (levels + 1) v).toList = d.text := by
  induction legible generalizing v with
  | null =>
    rw [Holds] at holds
    rw [holds]
    exact (List.append_nil _).symm
  | int =>
    rw [Holds] at holds
    rw [holds]
    exact (List.append_nil _).symm
  | string =>
    rw [Holds] at holds
    rw [holds]
    exact (List.append_nil _).symm
  | empty =>
    rw [Holds] at holds
    obtain ⟨l, rfl, -, none⟩ := holds
    rw [HoldsAll] at none
    rw [nestedText_list, none, toList_enclosed, Datum.text_sequence]
    rfl
  | @array n items _ _ _ ih =>
    rw [Holds] at holds
    obtain ⟨a, rfl, -, holds⟩ := holds
    rw [nestedText_array, toList_enclosed, Datum.text_sequence,
      map_of_holdsAll holds fun d member v first => ih d member first]
  | @list n items _ _ ih =>
    rw [Holds] at holds
    obtain ⟨l, rfl, -, holds⟩ := holds
    rw [nestedText_list, toList_enclosed, Datum.text_sequence,
      map_of_holdsAll holds fun d member v first => ih d member first]

/-- A value is displayed as the text of the datum that it holds, if it is no string and no more than
the levels that are written out lie below it. -/
theorem display_of_holds (legible : d.Legible 32) (holds : s.Holds d v)
    (notString : ∀ text, d ≠ .string text) : s.display v = String.ofList d.text := by
  have nested : s.nestedText 33 v = s.display v := by
    cases d with
    | null | int => rw [Holds] at holds; rw [holds]; rfl
    | string text => exact absurd rfl (notString text)
    | sequence sort items =>
      cases sort with
      | array => rw [Holds] at holds; obtain ⟨a, rfl, -⟩ := holds; rfl
      | list => rw [Holds] at holds; obtain ⟨l, rfl, -⟩ := holds; rfl
  rw [← nested, ← toList_nestedText legible holds, String.ofList_toList]

end Store

end Scriptlet
