import Mathlib.Data.List.Forall2
import Scriptlet.Proofs.Evaluation.Expressions
import Scriptlet.Proofs.Store.Displayed
import Scriptlet.Session

/-!
# Displayed values read back

The text of a value without cycles is a list literal. It has the tokens that it was laid out from,
it reads as the literal, and evaluating the literal makes a value that holds the same datum.
-/

namespace Scriptlet

open Scriptlet.Expr (Reads brackets commas)
open Scriptlet.Lexer (layout placed takesSign isBreak)

namespace Datum

/-! ## The tokens of the text -/

/-- What may follow an item: it is read back after any token, and the item ends before it. -/
structure Follows (v : List Token) : Prop where
  readable : ∀ previous, Lexer.Readable previous (withSpaces false v)
  breaks : ∀ c ∈ (layout (withSpaces false v)).head?, isBreak c = true

theorem follows_nil : Follows [] := ⟨fun _ => trivial, fun _ never => by cases never⟩

theorem follows_closing {v : List Token} (follows : Follows v) :
    Follows (.mark .rightBracket :: v) := by
  refine ⟨fun previous => ⟨trivial, .inr ⟨_, rfl, by decide⟩, fun signed => ?_, follows.readable _⟩, ?_⟩
  · cases signed
  · intro c front
    obtain rfl := Option.some.inj front
    rfl

/-- Whether the tokens of an item are read back wherever an item may stand. -/
def ItemReadable (w : List Token) : Prop :=
  ∀ {previous : Option Token} {afterComma : Bool} {v : List Token}, takesSign previous = true →
    Follows v → Lexer.Readable previous (withSpaces afterComma (w ++ v))

theorem itemReadable_literal {t : Token} (spelled : Lexer.Spelled t) (other : t ≠ .mark .comma) :
    ItemReadable [t] := by
  intro previous afterComma v opens follows
  have later : withSpaces afterComma ([t] ++ v) = (afterComma, t) :: withSpaces false v := by
    simp [withSpaces, other]
  rw [later]
  exact ⟨spelled, .inl follows.breaks, fun _ => opens, follows.readable _⟩

theorem readable_commas {ws : List (List Token)} (items : ∀ w ∈ ws, ItemReadable w)
    {previous : Option Token} {afterComma : Bool} {v : List Token} (opens : takesSign previous = true)
    (follows : Follows v) (apart : ws = [] → afterComma = false) :
    Lexer.Readable previous (withSpaces afterComma (commas ws ++ v)) := by
  induction ws generalizing previous afterComma with
  | nil =>
    rw [apart rfl]
    exact follows.readable previous
  | cons w ws ih =>
    cases ws with
    | nil => exact items w List.mem_cons_self opens follows
    | cons u ws =>
      have rest : ∀ previous, takesSign previous = true →
          Lexer.Readable previous (withSpaces true (commas (u :: ws) ++ v)) := fun previous opens =>
        ih (fun x member => items x (List.mem_cons_of_mem _ member)) opens (fun never => by cases never)
      have follows : Follows (.mark .comma :: (commas (u :: ws) ++ v)) := by
        refine ⟨fun previous => ⟨trivial, .inr ⟨_, rfl, by decide⟩, fun signed => ?_, ?_⟩, ?_⟩
        · cases signed
        · exact rest _ rfl
        · intro c front
          obtain rfl := Option.some.inj front
          rfl
      have split : commas (w :: u :: ws) ++ v = w ++ .mark .comma :: (commas (u :: ws) ++ v) := by
        show (w ++ .mark .comma :: commas (u :: ws)) ++ v = _
        rw [List.append_assoc, List.cons_append]
      rw [split]
      exact items w List.mem_cons_self opens follows

theorem itemReadable_brackets {ws : List (List Token)} (items : ∀ w ∈ ws, ItemReadable w) :
    ItemReadable (brackets (commas ws)) := by
  intro previous afterComma v opens follows
  have split : withSpaces afterComma (brackets (commas ws) ++ v) =
      (afterComma, .mark .leftBracket) ::
        withSpaces false (commas ws ++ .mark .rightBracket :: v) := by
    rw [brackets, List.cons_append, List.append_assoc]
    rfl
  rw [split]
  refine ⟨trivial, .inr ⟨_, rfl, by decide⟩, fun signed => ?_, ?_⟩
  · cases signed
  · exact readable_commas items rfl (follows_closing follows) fun _ => rfl

theorem itemReadable_tokens {d : Datum} {n : Nat} (legible : d.Legible n) :
    ItemReadable d.tokens := by
  induction legible with
  | null => exact itemReadable_literal (t := .keyword .nullWord) trivial (by simp)
  | @int n i => exact itemReadable_literal (t := .int i) trivial (by simp)
  | @string n text legible => exact itemReadable_literal (t := .string text) legible (by simp)
  | empty =>
    rw [tokens_sequence]
    exact itemReadable_brackets (by simp)
  | array _ _ _ ih | list _ _ ih =>
    rw [tokens_sequence]
    refine itemReadable_brackets fun w member => ?_
    obtain ⟨d, within, rfl⟩ := List.mem_map.1 member
    exact ih d within

/-- The text of a datum has the tokens of its literal. -/
theorem tokenize_text {d : Datum} {n : Nat} (legible : d.Legible n) :
    Lexer.tokenize (String.ofList d.text) 1 = .ok (placed 1 d.tokens) := by
  have readable : Lexer.Readable none (withSpaces false (d.tokens ++ [])) :=
    itemReadable_tokens legible rfl follows_nil
  rw [List.append_nil] at readable
  rw [text, Lexer.tokenize_layout readable, map_withSpaces]

/-! ## The literal -/

theorem collapsed_expr {d : Datum} {n : Nat} (legible : d.Legible n) : d.expr.Collapsed := by
  have sequence {sort : Sequence} {items : List Datum} (all : ∀ d ∈ items, d.expr.Collapsed) :
      (sequence sort items).expr.Collapsed := by
    refine Expr.collapsed_ofElements fun e member => ?_
    rw [exprs_eq_map] at member
    obtain ⟨d, within, rfl⟩ := List.mem_map.1 member
    exact all d within
  induction legible with
  | null | int | string => exact .constant (by simp)
  | empty => exact sequence (by simp)
  | array _ _ _ ih | list _ _ ih => exact sequence ih

theorem word_placed (w : List Token) : Grammar.word (placed 1 w) = w := by
  rw [placed, Grammar.word, List.map_map]
  exact List.map_id w

/-- The text of a datum reads as its literal. -/
theorem exists_reads {d : Datum} {n : Nat} (legible : d.Legible n) :
    ∃ e, Reads (.expr e) (placed 1 d.tokens) ∧ e.bare = d.expr.bare :=
  (collapsed_expr legible).readsBack _ (word_placed d.tokens)

theorem head_tokens (d : Datum) :
    ∀ t ∈ (placed 1 d.tokens).head?, t.token ≠ .keyword .varWord := by
  intro t front
  cases d with
  | null | int | string =>
    obtain rfl := Option.some.inj front
    simp
  | sequence sort items =>
    rw [tokens_sequence] at front
    obtain rfl := Option.some.inj front
    simp

/-! ## Which sequences are arrays -/

/-- The value of a datum that is no sequence. -/
def scalar? : Datum → Option Value
  | null => some .null
  | int i => some (.int i)
  | string text => some (.string text)
  | sequence _ _ => none

theorem scalar?_expr (d : Datum) : d.expr.scalar? = d.scalar? := by
  cases d with
  | null | int | string => rfl
  | sequence sort items =>
    show (Expr.ofElements (exprs items) 0).scalar? = none
    unfold Expr.ofElements
    split <;> rfl

theorem mapM_scalar? (items : List Datum) :
    (exprs items).mapM Expr.scalar? = items.mapM scalar? := by
  rw [exprs_eq_map, List.mapM_map]
  congr 1
  funext d
  exact scalar?_expr d

/-- The values of data, none of which is a sequence. -/
theorem mapM_eq_some_iff {items : List Datum} {vs : List Value} :
    items.mapM scalar? = some vs ↔ List.Forall₂ (fun d v => d.scalar? = some v) items vs := by
  constructor
  · intro scalars
    induction items generalizing vs with
    | nil =>
      obtain rfl : [] = vs := by simpa using scalars
      exact .nil
    | cons d items ih =>
      rw [List.mapM_cons, Option.bind_eq_bind, Option.bind_eq_some_iff] at scalars
      obtain ⟨v, first, rest⟩ := scalars
      rw [Option.bind_eq_bind, Option.bind_eq_some_iff] at rest
      obtain ⟨ws, later, same⟩ := rest
      obtain rfl : v :: ws = vs := Option.some.inj same
      exact .cons first (ih later)
  · intro each
    induction each with
    | nil => rfl
    | cons first _ ih => rw [List.mapM_cons, first, ih]; rfl

theorem isScalar_of_scalar? {d : Datum} {v : Value} (scalar : d.scalar? = some v) :
    v.isScalar = true := by
  cases d with
  | sequence sort items => cases scalar
  | _ => obtain rfl := Option.some.inj scalar; rfl

/-- Items of one kind have values of this kind. -/
theorem exists_values {items : List Datum} {k : Kind}
    (each : ∀ d ∈ items, ∃ v, d.scalar? = some v ∧ v.kind = k) :
    ∃ vs, List.Forall₂ (fun d v => d.scalar? = some v) items vs ∧
      ∀ v ∈ vs, v.kind = k ∧ v.isScalar = true := by
  induction items with
  | nil => exact ⟨[], .nil, by simp⟩
  | cons d items ih =>
    obtain ⟨v, scalar, kind⟩ := each d List.mem_cons_self
    obtain ⟨vs, later, kinds⟩ := ih fun d' member => each d' (List.mem_cons_of_mem _ member)
    refine ⟨v :: vs, .cons scalar later, fun w member => ?_⟩
    rcases List.mem_cons.1 member with rfl | member
    · exact ⟨kind, isScalar_of_scalar? scalar⟩
    · exact kinds w member

theorem exists_ofValues? {vs : List Value} {k : Kind} (some : vs ≠ []) (element : k.isElement = true)
    (kinds : ∀ v ∈ vs, v.kind = k ∧ v.isScalar = true) :
    ∃ a, ConstantArray.ofValues? vs = .some a := by
  obtain ⟨v, rest, rfl⟩ := List.exists_cons_of_ne_nil some
  have first : v.kind = k := (kinds v List.mem_cons_self).1
  have isElement : v.kind.isElement = true := by rw [first, element]
  have uniform : ∀ w ∈ v :: rest, w.kind = v.kind := fun w member => by
    rw [first, (kinds w member).1]
  have made : TypedArray.ofValues (v :: rest) 0 = .ok ⟨v.kind, v :: rest, isElement, uniform⟩ := by
    rw [TypedArray.ofValues, dif_pos isElement, dif_pos uniform]
  have isScalar : ∀ w ∈ v :: rest, w.isScalar = true := fun w member => (kinds w member).2
  refine ⟨⟨⟨v.kind, v :: rest, isElement, uniform⟩, isScalar⟩, ?_⟩
  rw [ConstantArray.ofValues?, made]
  exact dif_pos isScalar

theorem kinds_of_uniform {items : List Datum} (uniform : Uniform items) :
    ∃ k : Kind, k.isElement = true ∧ ∀ d ∈ items, ∃ v, d.scalar? = some v ∧ v.kind = k := by
  rcases uniform with ints | strings
  · refine ⟨.int, rfl, fun d member => ?_⟩
    obtain ⟨i, rfl⟩ := ints d member
    exact ⟨.int i, rfl, rfl⟩
  · refine ⟨.string, rfl, fun d member => ?_⟩
    obtain ⟨text, rfl⟩ := strings d member
    exact ⟨.string text, rfl, rfl⟩

/-- Uniform items, if there are any, make an array of their values. -/
theorem collapse_of_uniform {items : List Datum} (nonempty : items ≠ []) (uniform : Uniform items) :
    ∃ a : ConstantArray, Expr.collapse (exprs items) = some a := by
  obtain ⟨k, element, each⟩ := kinds_of_uniform uniform
  obtain ⟨vs, values, kinds⟩ := exists_values each
  have some : vs ≠ [] := by
    rintro rfl
    cases values
    exact nonempty rfl
  obtain ⟨a, made⟩ := exists_ofValues? some element kinds
  obtain ⟨v, rest, rfl⟩ := List.exists_cons_of_ne_nil some
  refine ⟨a, ?_⟩
  rw [Expr.collapse, mapM_scalar?, mapM_eq_some_iff.2 values]
  exact made

/-- An array holds the values of the items that it is made of. -/
theorem forall₂_of_collapse {items : List Datum} {a : ConstantArray}
    (collapsed : Expr.collapse (exprs items) = some a) :
    List.Forall₂ (fun d v => d.scalar? = some v) items a.items := by
  have scalars := exists_mapM_of_collapse collapsed
  rw [mapM_scalar?] at scalars
  exact mapM_eq_some_iff.1 scalars

theorem exists_of_kind_int {d : Datum} {v : Value} (scalar : d.scalar? = some v)
    (kind : v.kind = .int) : ∃ i, d = .int i := by
  cases d with
  | int i => exact ⟨i, rfl⟩
  | sequence => cases scalar
  | _ => obtain rfl := Option.some.inj scalar; cases kind

theorem exists_of_kind_string {d : Datum} {v : Value} (scalar : d.scalar? = some v)
    (kind : v.kind = .string) : ∃ text, d = .string text := by
  cases d with
  | string text => exact ⟨text, rfl⟩
  | sequence => cases scalar
  | _ => obtain rfl := Option.some.inj scalar; cases kind

/-- Items that make an array are uniform. -/
theorem uniform_of_collapse {items : List Datum} {a : ConstantArray}
    (collapsed : Expr.collapse (exprs items) = some a) : Uniform items := by
  have values := forall₂_of_collapse collapsed
  have kinds := a.uniform
  have element := a.isElement
  generalize a.items = vs at values kinds
  generalize a.element = k at kinds element
  have each : ∀ d ∈ items, ∃ v, d.scalar? = some v ∧ v.kind = k := by
    intro d member
    clear collapsed
    induction values with
    | nil => cases member
    | @cons d' v items vs first _ ih =>
      rcases List.mem_cons.1 member with rfl | member
      · exact ⟨v, first, kinds v List.mem_cons_self⟩
      · exact ih (fun w within => kinds w (List.mem_cons_of_mem _ within)) member
  cases k with
  | int =>
    left
    intro d member
    obtain ⟨v, scalar, kind⟩ := each d member
    exact exists_of_kind_int scalar kind
  | string =>
    right
    intro d member
    obtain ⟨v, scalar, kind⟩ := each d member
    exact exists_of_kind_string scalar kind
  | null => cases element
  | _ =>
    -- no datum has a value of another kind that arrays hold
    left
    intro d member
    obtain ⟨v, scalar, kind⟩ := each d member
    cases d with
    | sequence => cases scalar
    | int i => exact ⟨i, rfl⟩
    | null | string =>
      obtain rfl := Option.some.inj scalar
      cases kind

/-! ## Evaluation of the literal -/

open Scriptlet.Evaluator
open Scriptlet.Expr (bareAll)

/-- A value that holds a datum is no handle of an element. -/
theorem resolved_of_holds {s t : Store} {d : Datum} {v : Value} (holds : s.Holds d v) (line : Line) :
    t.resolved v line = .ok v := by
  cases d with
  | null | int | string =>
    rw [Store.Holds] at holds
    rw [holds]
    rfl
  | sequence sort items =>
    cases sort with
    | array =>
      rw [Store.Holds] at holds
      obtain ⟨a, rfl, -⟩ := holds
      rfl
    | list =>
      rw [Store.Holds] at holds
      obtain ⟨l, rfl, -⟩ := holds
      rfl

/-- Whether an expression makes a value of a datum, whatever the machine, and only adds to the
lists and arrays. -/
def MadeBy (e : Expr) (d : Datum) : Prop :=
  ∀ m : Machine, ∃ fuel v s,
    (∀ setting, (eval fuel e).Exits setting m [] (.ok v) { m with store := s }) ∧
      m.store.Extends s ∧ s.Holds d v

/-- Whether arguments make values of data. -/
def AllMadeBy (es : List Expr) (ds : List Datum) : Prop :=
  ∀ m : Machine, ∃ fuel vs s,
    (∀ setting, (arguments fuel es).Exits setting m [] (.ok vs) { m with store := s }) ∧
      m.store.Extends s ∧ s.HoldsAll ds vs

theorem allMadeBy_nil : AllMadeBy [] [] := by
  intro m
  refine ⟨1, [], m.store, fun _ => exits_arguments_nil, .refl _, ?_⟩
  rw [Store.HoldsAll]

theorem MadeBy.cons {e : Expr} {d : Datum} {es : List Expr} {ds : List Datum} (first : MadeBy e d)
    (rest : AllMadeBy es ds) : AllMadeBy (e :: es) (d :: ds) := by
  intro m
  obtain ⟨a, v, s, evaluated, extends₁, holds⟩ := first m
  obtain ⟨b, vs, t, others, extends₂, holdsAll⟩ := rest { m with store := s }
  refine ⟨max a b + 1, v :: vs, t, fun setting => ?_, extends₁.trans extends₂, ?_⟩
  · exact exits_arguments_cons ((endsIn (Nat.le_max_left a b)).eval e (evaluated setting))
      (resolved_of_holds holds e.line)
      ((endsIn (Nat.le_max_right a b)).arguments es (others (setting.hold [v])))
  · rw [Store.HoldsAll]
    exact ⟨v, vs, rfl, holds.extends extends₂, holdsAll⟩

theorem exists_constant {e : Expr} {c : Constant} (same : e.bare = .constant c 0) :
    ∃ line, e = .constant c line := by
  cases e with
  | constant c' line =>
    obtain ⟨rfl, -⟩ := Expr.constant.inj same
    exact ⟨line, rfl⟩
  | _ => cases same

/-- A constant that is a value by itself makes it. -/
theorem madeBy_constant {c : Constant} {d : Datum} {v : Value} {line : Line}
    (value : ∀ s : Store, s.ofConstant c = (v, s)) (holds : ∀ s : Store, s.Holds d v) :
    MadeBy (.constant c line) d := by
  intro m
  refine ⟨1, v, m.store, fun setting => ?_, .refl _, holds _⟩
  rw [eval]
  show Outcome.Exits (Eval.change (·.ofConstant c) setting m) _ _ _
  rw [Eval.change, value]
  exact .value

theorem holdsAll_of_forall₂ {s : Store} {ds : List Datum} {vs : List Value}
    (values : List.Forall₂ (fun d v => d.scalar? = some v) ds vs) : s.HoldsAll ds vs := by
  induction values with
  | nil => rw [Store.HoldsAll]
  | @cons d v ds vs first _ ih =>
    rw [Store.HoldsAll]
    refine ⟨v, vs, rfl, ?_, ih⟩
    cases d with
    | sequence => cases first
    | _ =>
      obtain rfl := Option.some.inj first
      rw [Store.Holds]

/-- A constant array makes a new array each time. -/
theorem madeBy_array {items : List Datum} {a : ConstantArray} {line : Line}
    (values : List.Forall₂ (fun d v => d.scalar? = some v) items a.items) :
    MadeBy (.constant (.array a) line) (.sequence .array items) := by
  intro m
  refine ⟨1, .array ⟨m.store.arrays.size⟩, (m.store.newArray a.toTypedArray).2, fun setting => ?_,
    .newArray _ _, ?_⟩
  · rw [eval]
    exact .value
  · have made : (m.store.newArray a.toTypedArray).2.array ⟨m.store.arrays.size⟩ =
        a.toTypedArray := by
      simp [Store.newArray, Store.array]
    rw [Store.Holds]
    refine ⟨_, rfl, by simp [Store.newArray], ?_⟩
    rw [made]
    exact holdsAll_of_forall₂ values

theorem AllMadeBy.list {es : List Expr} {items : List Datum} {line : Line}
    (each : AllMadeBy es items) : MadeBy (.list es line) (.sequence .list items) := by
  intro m
  obtain ⟨fuel, vs, s, evaluated, extends₁, holds⟩ := each m
  have extends₂ := Store.Extends.newList s vs
  refine ⟨fuel + 1, .list ⟨s.lists.size⟩, (s.newList vs).2, fun setting => ?_,
    extends₁.trans extends₂, ?_⟩
  · rw [eval]
    exact Eval.Exits.bind_nil (evaluated setting) .value
  · rw [Store.Holds]
    refine ⟨_, rfl, by simp [Store.newList], ?_⟩
    rw [Store.list_newList]
    exact holds.extends extends₂

/-- What each item makes, all of them make. -/
theorem allMadeBy {es : List Expr} {items : List Datum} (same : bareAll es = bareAll (exprs items))
    (each : ∀ d ∈ items, ∀ e : Expr, e.bare = d.expr.bare → MadeBy e d) : AllMadeBy es items := by
  induction items generalizing es with
  | nil =>
    cases es with
    | nil => exact allMadeBy_nil
    | cons e es => cases same
  | cons d items ih =>
    cases es with
    | nil => cases same
    | cons e es =>
      obtain ⟨first, rest⟩ := List.cons.inj same
      exact (each d List.mem_cons_self e first).cons
        (ih rest fun d' member => each d' (List.mem_cons_of_mem _ member))

/-- A list of items that make no array is evaluated from them. -/
theorem madeBy_list {items : List Datum} {e : Expr}
    (apart : Expr.collapse (exprs items) = none)
    (same : e.bare = (Datum.sequence .list items).expr.bare)
    (each : ∀ d ∈ items, ∀ e : Expr, e.bare = d.expr.bare → MadeBy e d) :
    MadeBy e (.sequence .list items) := by
  rw [expr, Expr.ofElements, apart] at same
  cases e with
  | list es line => exact (allMadeBy (Expr.list.inj same).1 each).list
  | _ => cases same

/-- The literal of a datum, on whatever lines it stands, makes a value of the datum. -/
theorem madeBy_expr {d : Datum} {n : Nat} (legible : d.Legible n) {e : Expr}
    (same : e.bare = d.expr.bare) : MadeBy e d := by
  induction legible generalizing e with
  | null | int | string =>
    obtain ⟨line, rfl⟩ := exists_constant same
    exact madeBy_constant (fun _ => rfl) fun _ => by rw [Store.Holds]
  | empty => exact madeBy_list rfl same (by simp)
  | @array n items nonempty uniform _ _ =>
    obtain ⟨a, collapsed⟩ := collapse_of_uniform nonempty uniform
    rw [expr, Expr.ofElements, collapsed] at same
    obtain ⟨line, rfl⟩ := exists_constant same
    exact madeBy_array (forall₂_of_collapse collapsed)
  | @list n items mixed _ ih =>
    have apart : Expr.collapse (exprs items) = none := by
      cases collapsed : Expr.collapse (exprs items) with
      | none => rfl
      | some a => exact absurd (uniform_of_collapse collapsed) mixed
    exact madeBy_list apart same fun d member e same => ih d member same

/-! ## Running the text -/

/-- Running the text that a value without cycles is displayed with, unless it is a string, ends in
a value that holds the same. -/
theorem run_display (importRoot : String) {s : Store} {d : Datum} {v : Value}
    (legible : d.Legible 32) (holds : s.Holds d v) (notString : ∀ text, d ≠ .string text) :
    ∃ fuel w n, run fuel (s.display v) ⟨#[], importRoot, []⟩ Machine.new = .value (.ok w) n ∧
      n.store.Holds d w := by
  obtain ⟨e, reads, same⟩ := exists_reads legible
  obtain ⟨fuel, w, t, evaluated, -, made⟩ := madeBy_expr legible same Machine.new
  have ran := run_value (tokenize_text legible) reads (head_tokens d)
    (evaluated ⟨#[], importRoot, []⟩).eq_value
  rw [Store.display_of_holds legible holds notString]
  exact ⟨_, w, _, ran, made⟩

/-- An array of strings in a list beside null, an integer, an empty list and a string. -/
def mixedStore : Store :=
  { Store.empty with
    lists := #[[.null, .int (-5), .list ⟨1⟩, .array ⟨0⟩, .string "\\\t"], []]
    arrays := #[⟨.string, [.string "say \"hi\"\n", .string ""], rfl, by simp [Value.kind]⟩] }

/-- What the list of `mixedStore` holds. -/
def mixedDatum : Datum :=
  sequence .list [null, int (-5), sequence .list [],
    sequence .array [string "say \"hi\"\n", string ""], string "\\\t"]

/-- A list with an array of strings in it is displayed and made again. -/
theorem run_display_mixed :
    mixedStore.display (.list ⟨0⟩) = "[null, -5, [], [\"say \\\"hi\\\"\\n\", \"\"], \"\\\\\\t\"]" ∧
    mixedDatum.Legible 32 ∧ mixedStore.Holds mixedDatum (.list ⟨0⟩) ∧
    ∃ fuel w n, run fuel (mixedStore.display (.list ⟨0⟩)) ⟨#[], ".", []⟩ Machine.new =
      .value (.ok w) n ∧ n.store.Holds mixedDatum w := by
  have strings : Legible 31 (sequence .array [string "say \"hi\"\n", string ""]) := by
    refine .array (by simp) (.inr (by simp)) fun d member => ?_
    rcases List.mem_cons.1 member with rfl | member
    · exact .string (List.all_eq_true.1 (by decide))
    · obtain rfl := List.mem_singleton.1 member
      exact .string (List.all_eq_true.1 (by decide))
  have legible : mixedDatum.Legible 32 := by
    refine .list (by simp [Uniform]) fun d member => ?_
    simp only [List.mem_cons, List.not_mem_nil, or_false] at member
    rcases member with rfl | rfl | rfl | rfl | rfl
    · exact .null
    · exact .int
    · exact .empty
    · exact strings
    · exact .string (List.all_eq_true.1 (by decide))
  have holds : mixedStore.Holds mixedDatum (.list ⟨0⟩) := by
    simp [mixedStore, mixedDatum, Store.Holds, Store.HoldsAll, Store.list, Store.array]
  exact ⟨by decide, legible, holds, run_display "." legible holds (by simp [mixedDatum])⟩

end Datum

end Scriptlet
