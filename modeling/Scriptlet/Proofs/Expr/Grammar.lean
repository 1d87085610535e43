import Scriptlet.Proofs.Expr.Reading

/-!
# The grammar of expressions

The grammar derives words of tokens and knows neither lines nor trees. The builder makes an
expression of a run exactly when the tokens of the run are a derivable word. Between the two
stands `Reads`: the grammar lets a name before a parenthesis be an operand of its own that is
then called, and a reading takes the two together as a call.
-/

namespace Scriptlet.Grammar

open Scriptlet.Expr
open Scriptlet.Bracket (enclosed_append)

inductive Nonterminal where
  | expr
  /-- Operators, each with an operand after it. -/
  | operations
  | operand | atom
  | trailers | trailer
  | arguments
  /-- Commas, each with an expression after it. -/
  | moreArguments

/-- The tokens that are values by themselves. -/
inductive Literal : Token → Prop
  | int (i : Int64) : Literal (.int i)
  | float (x : Float) : Literal (.float x)
  | string (s : String) : Literal (.string s)
  | bool (b : Bool) : Literal (.bool b)
  | null : Literal (.keyword .nullWord)

/-- The words that the grammar derives. -/
inductive Derives : Nonterminal → List Token → Prop
  | expr {u v : List Token} :
      Derives .operand u → Derives .operations v → Derives .expr (u ++ v)
  | noOperations : Derives .operations []
  | operations {s : Symbol} {u v : List Token} :
      s ∉ [.not, .increment, .decrement] → Derives .operand u → Derives .operations v →
        Derives .operations (.symbol s :: (u ++ v))
  | leading {s : Symbol} {u : List Token} :
      s ∈ [.minus, .not, .increment, .decrement] → Derives .operand u →
        Derives .operand (.symbol s :: u)
  | operand {u v : List Token} : Derives .atom u → Derives .trailers v → Derives .operand (u ++ v)
  | literal {t : Token} : Literal t → Derives .atom [t]
  | define (n : String) : Derives .atom [.keyword .varWord, .name n]
  | call (n : String) {u : List Token} :
      Derives .arguments u →
        Derives .atom (.name n :: .mark .leftParen :: (u ++ [.mark .rightParen]))
  | name (n : String) : Derives .atom [.name n]
  | group {u : List Token} :
      Derives .expr u → Derives .atom (.mark .leftParen :: (u ++ [.mark .rightParen]))
  | list {u : List Token} :
      Derives .arguments u → Derives .atom (.mark .leftBracket :: (u ++ [.mark .rightBracket]))
  | noTrailers : Derives .trailers []
  | trailers {u v : List Token} :
      Derives .trailer u → Derives .trailers v → Derives .trailers (u ++ v)
  | apply {u : List Token} :
      Derives .arguments u → Derives .trailer (.mark .leftParen :: (u ++ [.mark .rightParen]))
  | index {u : List Token} :
      Derives .expr u → Derives .trailer (.mark .leftBracket :: (u ++ [.mark .rightBracket]))
  | memberCall (n : String) {u : List Token} :
      Derives .arguments u →
        Derives .trailer
          (.mark .dot :: .name n :: .mark .leftParen :: (u ++ [.mark .rightParen]))
  | member (n : String) : Derives .trailer [.mark .dot, .name n]
  | step {s : Symbol} : s ∈ [.increment, .decrement] → Derives .trailer [.symbol s]
  | noArguments : Derives .arguments []
  | arguments {u v : List Token} :
      Derives .expr u → Derives .moreArguments v → Derives .arguments (u ++ v)
  | noMore : Derives .moreArguments []
  | more {u v : List Token} :
      Derives .expr u → Derives .moreArguments v → Derives .moreArguments (.mark .comma :: (u ++ v))

theorem literal_iff {t : Token} : Literal t ↔ ∃ c, literal? t = some c := by
  constructor
  · rintro ⟨⟩ <;> exact ⟨_, rfl⟩
  · rintro ⟨c, h⟩
    cases t with
    | int i => exact .int i
    | float x => exact .float x
    | string s => exact .string s
    | bool b => exact .bool b
    | keyword w =>
      cases w with
      | nullWord => exact .null
      | _ => cases h
    | _ => cases h

theorem isBinary_iff {s : Symbol} : s.isBinary = true ↔ s ∉ [.not, .increment, .decrement] := by
  cases s <;> decide

theorem isLeading_iff {s : Symbol} :
    s.isLeading = true ↔ s ∈ [.minus, .not, .increment, .decrement] := by
  cases s <;> decide

theorem isTrailing_iff {s : Symbol} : s.isTrailing = true ↔ s ∈ [.increment, .decrement] := by
  cases s <;> decide

/-- The word of a run. -/
def word (ts : List PlacedToken) : List Token := ts.map (·.token)

@[simp] theorem word_nil : word [] = [] := rfl

@[simp] theorem word_cons (t : PlacedToken) (ts : List PlacedToken) :
    word (t :: ts) = t.token :: word ts := rfl

@[simp] theorem word_append (us vs : List PlacedToken) : word (us ++ vs) = word us ++ word vs :=
  List.map_append

/-! ## Readings are derivable -/

theorem Derives.argumentsOfMore {w : List Token}
    (h : Derives .moreArguments (.mark .comma :: w)) : Derives .arguments w := by
  cases h with
  | more first others => exact .arguments first others

theorem Derives.trailersOf (opening : List Token) {u v : List Token} {closing : Token}
    (first : Derives .trailer (opening ++ (u ++ [closing]))) (others : Derives .trailers v) :
    Derives .trailers (opening ++ (u ++ closing :: v)) := by
  have both := first.trailers others
  simpa using both

theorem Derives.operandOf (opening : List Token) {u v : List Token} {closing : Token}
    (first : Derives .atom (opening ++ (u ++ [closing]))) (others : Derives .trailers v) :
    Derives .operand (opening ++ (u ++ closing :: v)) := by
  have both := first.operand others
  simpa using both

/-- The nonterminal of a phrase; items are derived as what follows a comma. -/
def Derived (ts : List PlacedToken) : Phrase → Prop
  | .expr _ => Derives .expr (word ts)
  | .operators _ _ => Derives .operations (word ts)
  | .operand _ => Derives .operand (word ts)
  | .trailing _ _ => Derives .trailers (word ts)
  | .arguments _ => Derives .arguments (word ts)
  | .items _ => Derives .moreArguments (.mark .comma :: word ts)

theorem derived_of_reads {p : Phrase} {ts : List PlacedToken} (h : Reads p ts) : Derived ts p := by
  induction h with
  | expr _ _ operand operators =>
    have whole := operand.expr operators
    rwa [← word_append] at whole
  | done => exact .noOperations
  | operator binary _ _ operand operators =>
    have whole := Derives.operations (isBinary_iff.1 binary) operand operators
    rwa [← word_append] at whole
  | leading isLeading _ operand => exact .leading (isLeading_iff.1 isLeading) operand
  | literal value _ rest => exact (Derives.literal (literal_iff.2 ⟨_, value⟩)).operand rest
  | define _ rest => exact (Derives.define _).operand rest
  | named _ _ rest => exact (Derives.name _).operand rest
  | @call n l _ _ _ _ inside tail _ _ arguments rest =>
    have whole := (Derives.call n arguments).operandOf [_, _] rest
    simpa [Derived] using whole
  | group _ _ inner rest =>
    have whole := inner.group.operandOf [_] rest
    simpa [Derived] using whole
  | list _ _ arguments rest =>
    have whole := arguments.list.operandOf [_] rest
    simpa [Derived] using whole
  | plain => exact .noTrailers
  | apply _ _ arguments rest =>
    have whole := arguments.apply.trailersOf [_] rest
    simpa [Derived] using whole
  | index _ _ inner rest =>
    have whole := inner.index.trailersOf [_] rest
    simpa [Derived] using whole
  | @memberCall n _ _ _ _ _ _ _ _ _ _ _ arguments rest =>
    have whole := (Derives.memberCall n arguments).trailersOf [_, _, _] rest
    simpa [Derived] using whole
  | @member n _ _ _ _ _ _ _ rest => exact (Derives.member n).trailers rest
  | step isTrailing _ rest => exact (Derives.step (isTrailing_iff.1 isTrailing)).trailers rest
  | none => exact .noArguments
  | some _ items => exact items.argumentsOfMore
  | last _ whole =>
    have alone := whole.more .noMore
    rwa [List.append_nil] at alone
  | more _ _ first others =>
    have whole := first.more others
    simpa [Derived] using whole

/-! ## Derivable runs are read -/

/-- A run that can trail an operand; which operand does not matter. -/
def Trails (ts : List PlacedToken) : Prop := ∀ tree, ∃ e, Reads (.trailing tree e) ts

theorem trails_of_reads {p : Phrase} {ts : List PlacedToken} (h : Reads p ts) :
    match p with
    | .trailing _ _ => Trails ts
    | _ => True := by
  induction h with
  | plain => exact fun tree => ⟨tree, .plain⟩
  | apply arguments _ _ rest =>
    intro tree
    obtain ⟨e, read⟩ := rest _
    exact ⟨e, .apply arguments read⟩
  | index inner _ _ rest =>
    intro tree
    obtain ⟨e, read⟩ := rest _
    exact ⟨e, .index inner read⟩
  | memberCall arguments _ _ rest =>
    intro tree
    obtain ⟨e, read⟩ := rest _
    exact ⟨e, .memberCall arguments read⟩
  | member uncalled _ rest =>
    intro tree
    obtain ⟨e, read⟩ := rest _
    exact ⟨e, .member uncalled read⟩
  | step isTrailing _ rest =>
    intro tree
    obtain ⟨e, read⟩ := rest _
    exact ⟨e, .step isTrailing read⟩
  | _ => trivial

/-- What trails an operand and starts with a parenthesis is the arguments of a call, and more
that trails. -/
theorem Trails.call {l : Line} {ts : List PlacedToken} (h : Trails (⟨.mark .leftParen, l⟩ :: ts)) :
    ∃ inside l' rest es, ts = inside ++ ⟨.mark .rightParen, l'⟩ :: rest ∧
      Reads (.arguments es) inside ∧ Trails rest := by
  obtain ⟨e, read⟩ := h (named "" 0)
  cases read with
  | @apply l l' tree e es inside rest arguments trailing =>
    exact ⟨inside, l', rest, es, rfl, arguments, trails_of_reads trailing⟩

/-- A name is an operand with whatever trails it; a parenthesis after it makes a call of it. -/
theorem exists_operand_name {n : String} {l : Line} {rest : List PlacedToken} (h : Trails rest) :
    ∃ e, Reads (.operand e) (⟨.name n, l⟩ :: rest) := by
  rcases startsCall_cases rest with uncalled | ⟨l₁, rest, rfl⟩
  · obtain ⟨e, read⟩ := h (named n l)
    exact ⟨e, .named uncalled read⟩
  · obtain ⟨inside, l₂, rest, es, rfl, arguments, trails⟩ := h.call
    obtain ⟨e, read⟩ := trails (.call n es .call l)
    exact ⟨e, .call arguments read⟩

/-- So does a parenthesis after a member. -/
theorem exists_trailing_member {n : String} {l l' : Line} {tree : Expr} {rest : List PlacedToken}
    (h : Trails rest) :
    ∃ e, Reads (.trailing tree e) (⟨.mark .dot, l⟩ :: ⟨.name n, l'⟩ :: rest) := by
  rcases startsCall_cases rest with uncalled | ⟨l₁, rest, rfl⟩
  · obtain ⟨e, read⟩ := h (.call "listindex" [tree, constant (.string n) l] .call l)
    exact ⟨e, .member uncalled read⟩
  · obtain ⟨inside, l₂, rest, es, rfl, arguments, trails⟩ := h.call
    obtain ⟨e, read⟩ :=
      trails (.call "applyfunction" (constant (.string n) l :: tree :: es) .call l)
    exact ⟨e, .memberCall arguments read⟩

theorem word_eq_cons {ts : List PlacedToken} {t : Token} {w : List Token} (h : word ts = t :: w) :
    ∃ l rest, ts = ⟨t, l⟩ :: rest ∧ word rest = w := by
  obtain ⟨⟨token, l⟩, rest, rfl, same, later⟩ := List.map_eq_cons_iff.1 h
  obtain rfl : token = t := same
  exact ⟨l, rest, rfl, later⟩

theorem word_eq_append {ts : List PlacedToken} {u v : List Token} (h : word ts = u ++ v) :
    ∃ us vs, ts = us ++ vs ∧ word us = u ∧ word vs = v := by
  obtain ⟨us, vs, rfl, hu, hv⟩ := List.map_eq_append_iff.1 h
  exact ⟨us, vs, rfl, hu, hv⟩

theorem word_eq_enclosed {ts : List PlacedToken} {opening closing : Token} {w : List Token}
    (h : word ts = opening :: (w ++ [closing])) :
    ∃ l inside l', ts = ⟨opening, l⟩ :: (inside ++ [⟨closing, l'⟩]) ∧ word inside = w := by
  obtain ⟨l, rest, rfl, hrest⟩ := word_eq_cons h
  obtain ⟨inside, last, rfl, hinside, hlast⟩ := word_eq_append hrest
  obtain ⟨l', _, rfl, hnil⟩ := word_eq_cons hlast
  obtain rfl := List.map_eq_nil_iff.1 hnil
  exact ⟨l, inside, l', rfl, hinside⟩

/-- What is read of a run with a derivable word. -/
def Readable (ts : List PlacedToken) : Nonterminal → Prop
  | .expr => ∃ e, Reads (.expr e) ts
  | .operations => ∀ tree, ∃ e, Reads (.operators tree e) ts
  | .operand => ∃ e, Reads (.operand e) ts
  | .atom => ∀ rest, Trails rest → ∃ e, Reads (.operand e) (ts ++ rest)
  | .trailers => Trails ts
  | .trailer => ∀ rest, Trails rest → Trails (ts ++ rest)
  | .arguments => ∃ es, Reads (.arguments es) ts
  | .moreArguments => ts = [] ∨
      ∃ l items es, ts = ⟨.mark .comma, l⟩ :: items ∧ Reads (.items es) items

/-- An expression and what follows it after commas. -/
theorem exists_items {e : Expr} {us vs : List PlacedToken} (first : Reads (.expr e) us)
    (others : Readable vs .moreArguments) : ∃ es, Reads (.items es) (us ++ vs) := by
  rcases others with rfl | ⟨l, items, es, rfl, later⟩
  · exact ⟨[e], by rw [List.append_nil]; exact .last first⟩
  · exact ⟨e :: es, .more first later⟩

theorem readable_of_derives {N : Nonterminal} {w : List Token} (h : Derives N w) :
    ∀ {ts : List PlacedToken}, word ts = w → Readable ts N := by
  induction h with
  | expr _ _ operand operations =>
    intro ts hts
    obtain ⟨us, vs, rfl, hu, hv⟩ := word_eq_append hts
    obtain ⟨tree, first⟩ := operand hu
    obtain ⟨e, later⟩ := operations hv tree
    exact ⟨e, .expr first later⟩
  | noOperations =>
    intro ts hts
    obtain rfl := List.map_eq_nil_iff.1 hts
    exact fun tree => ⟨tree, .done⟩
  | operations binary _ _ operand operations =>
    intro ts hts tree
    obtain ⟨l, rest, rfl, hrest⟩ := word_eq_cons hts
    obtain ⟨us, vs, rfl, hu, hv⟩ := word_eq_append hrest
    obtain ⟨right, first⟩ := operand hu
    obtain ⟨e, later⟩ := operations hv _
    exact ⟨e, .operator (isBinary_iff.2 binary) first later⟩
  | leading isLeading _ operand =>
    intro ts hts
    obtain ⟨l, rest, rfl, hrest⟩ := word_eq_cons hts
    obtain ⟨e, inner⟩ := operand hrest
    exact ⟨_, .leading (isLeading_iff.2 isLeading) inner⟩
  | operand _ _ atom trailers =>
    intro ts hts
    obtain ⟨us, vs, rfl, hu, hv⟩ := word_eq_append hts
    exact atom hu vs (trailers hv)
  | literal value =>
    intro ts hts rest trails
    obtain ⟨l, _, rfl, hnil⟩ := word_eq_cons hts
    obtain rfl := List.map_eq_nil_iff.1 hnil
    obtain ⟨c, hc⟩ := literal_iff.1 value
    obtain ⟨e, read⟩ := trails (constant c l)
    exact ⟨e, .literal hc read⟩
  | define n =>
    intro ts hts rest trails
    obtain ⟨l, _, rfl, hname⟩ := word_eq_cons hts
    obtain ⟨l', _, rfl, hnil⟩ := word_eq_cons hname
    obtain rfl := List.map_eq_nil_iff.1 hnil
    obtain ⟨e, read⟩ := trails (.define n l)
    exact ⟨e, .define read⟩
  | call n _ arguments =>
    intro ts hts rest trails
    obtain ⟨l, _, rfl, htail⟩ := word_eq_cons hts
    obtain ⟨l₁, inside, l₂, rfl, hinside⟩ := word_eq_enclosed htail
    obtain ⟨es, inner⟩ := arguments hinside
    obtain ⟨e, read⟩ := trails (.call n es .call l)
    refine ⟨e, ?_⟩
    rw [List.cons_append, enclosed_append]
    exact .call inner read
  | name n =>
    intro ts hts rest trails
    obtain ⟨l, _, rfl, hnil⟩ := word_eq_cons hts
    obtain rfl := List.map_eq_nil_iff.1 hnil
    exact exists_operand_name trails
  | group _ inner =>
    intro ts hts rest trails
    obtain ⟨l, inside, l', rfl, hinside⟩ := word_eq_enclosed hts
    obtain ⟨tree, whole⟩ := inner hinside
    obtain ⟨e, read⟩ := trails tree.grouped
    refine ⟨e, ?_⟩
    rw [enclosed_append]
    exact .group whole read
  | list _ arguments =>
    intro ts hts rest trails
    obtain ⟨l, inside, l', rfl, hinside⟩ := word_eq_enclosed hts
    obtain ⟨es, inner⟩ := arguments hinside
    obtain ⟨e, read⟩ := trails (ofElements es l)
    refine ⟨e, ?_⟩
    rw [enclosed_append]
    exact .list inner read
  | noTrailers =>
    intro ts hts
    obtain rfl := List.map_eq_nil_iff.1 hts
    exact fun tree => ⟨tree, .plain⟩
  | trailers _ _ first others =>
    intro ts hts
    obtain ⟨us, vs, rfl, hu, hv⟩ := word_eq_append hts
    exact first hu vs (others hv)
  | apply _ arguments =>
    intro ts hts rest trails tree
    obtain ⟨l, inside, l', rfl, hinside⟩ := word_eq_enclosed hts
    obtain ⟨es, inner⟩ := arguments hinside
    obtain ⟨e, read⟩ := trails (.call "applyfunction" (tree :: es) .call l)
    refine ⟨e, ?_⟩
    rw [enclosed_append]
    exact .apply inner read
  | index _ inner =>
    intro ts hts rest trails tree
    obtain ⟨l, inside, l', rfl, hinside⟩ := word_eq_enclosed hts
    obtain ⟨i, whole⟩ := inner hinside
    obtain ⟨e, read⟩ := trails (.call "listindex" [tree, i] .call l)
    refine ⟨e, ?_⟩
    rw [enclosed_append]
    exact .index whole read
  | memberCall n _ arguments =>
    intro ts hts rest trails tree
    obtain ⟨l, _, rfl, hname⟩ := word_eq_cons hts
    obtain ⟨l₁, _, rfl, htail⟩ := word_eq_cons hname
    obtain ⟨l₂, inside, l₃, rfl, hinside⟩ := word_eq_enclosed htail
    obtain ⟨es, inner⟩ := arguments hinside
    obtain ⟨e, read⟩ :=
      trails (.call "applyfunction" (constant (.string n) l :: tree :: es) .call l)
    refine ⟨e, ?_⟩
    rw [List.cons_append, List.cons_append, enclosed_append]
    exact .memberCall inner read
  | member n =>
    intro ts hts rest trails tree
    obtain ⟨l, _, rfl, hname⟩ := word_eq_cons hts
    obtain ⟨l', _, rfl, hnil⟩ := word_eq_cons hname
    obtain rfl := List.map_eq_nil_iff.1 hnil
    exact exists_trailing_member trails
  | step isTrailing =>
    intro ts hts rest trails tree
    obtain ⟨l, _, rfl, hnil⟩ := word_eq_cons hts
    obtain rfl := List.map_eq_nil_iff.1 hnil
    obtain ⟨e, read⟩ := trails (.call _ [tree] .call l)
    exact ⟨e, .step (isTrailing_iff.2 isTrailing) read⟩
  | noArguments =>
    intro ts hts
    obtain rfl := List.map_eq_nil_iff.1 hts
    exact ⟨[], .none⟩
  | arguments _ _ inner others =>
    intro ts hts
    obtain ⟨us, vs, rfl, hu, hv⟩ := word_eq_append hts
    obtain ⟨e, first⟩ := inner hu
    obtain ⟨es, items⟩ := exists_items first (others hv)
    exact ⟨es, .some items⟩
  | noMore =>
    intro ts hts
    exact .inl (List.map_eq_nil_iff.1 hts)
  | more _ _ inner others =>
    intro ts hts
    obtain ⟨l, rest, rfl, hrest⟩ := word_eq_cons hts
    obtain ⟨us, vs, rfl, hu, hv⟩ := word_eq_append hrest
    obtain ⟨e, first⟩ := inner hu
    obtain ⟨es, items⟩ := exists_items first (others hv)
    exact .inr ⟨l, us ++ vs, es, rfl, items⟩

/-- The builder makes an expression of a run of tokens exactly when the grammar derives its
word: nothing of an accepted run is left over, and nothing derivable is refused. -/
theorem ofTokens_ok_iff_derives (ts : List PlacedToken) :
    (∃ e, ofTokens ts = .ok e) ↔ Derives .expr (ts.map (·.token)) := by
  constructor
  · rintro ⟨e, built⟩
    exact derived_of_reads (ofTokens_eq_ok_iff.1 built)
  · intro derives
    obtain ⟨e, read⟩ := readable_of_derives derives rfl
    exact ⟨e, ofTokens_eq_ok_iff.2 read⟩

/-! ## What is in an expression -/

/-- The tokens that can stand in an expression: of the words only those for null and for a new
variable, and of the marks none that ends a statement or encloses others. -/
def OfExpression : Token → Prop
  | .keyword w => w = .nullWord ∨ w = .varWord
  | .mark m => m ≠ .semicolon ∧ m ≠ .leftBrace ∧ m ≠ .rightBrace
  | _ => True

theorem Literal.ofExpression {t : Token} (literal : Literal t) : OfExpression t := by
  cases literal with
  | null => exact .inl rfl
  | _ => trivial

theorem Derives.ofExpression {N : Nonterminal} {w : List Token} (h : Derives N w) :
    ∀ t ∈ w, OfExpression t := by
  induction h with
  | literal literal => simpa using literal.ofExpression
  | _ => simp_all [OfExpression, or_imp]

end Scriptlet.Grammar
