import Scriptlet.Proofs.Expr.Grammar

/-!
# Writing expressions

`tokens` writes an expression so that reading it gives the same tree, up to lines and binding
strengths (`bare`). Every operand of an operator stands in parentheses, so no operator moves
into another one when the run is read. Two kinds of trees could not be read back, a list whose
elements make an array and an array that no list of constants makes; the builder leaves
neither (`Collapsed`).
-/

namespace Scriptlet

open Scriptlet.Grammar (word word_eq_cons word_eq_append word_eq_enclosed)

/-! ## Trees without lines -/

namespace Expr

mutual

/-- An expression without its lines and binding strengths. -/
def bare : Expr → Expr
  | constant value _ => constant value 0
  | named name _ => named name 0
  | define name _ => define name 0
  | call function arguments _ _ => call function (bareAll arguments) .call 0
  | list elements _ => list (bareAll elements) 0

/-- Expressions without their lines and binding strengths. -/
def bareAll : List Expr → List Expr
  | [] => []
  | e :: es => e.bare :: bareAll es

end

theorem bareAll_eq_map (es : List Expr) : bareAll es = es.map bare := by
  induction es with
  | nil => rfl
  | cons e es ih => rw [bareAll, ih, List.map_cons]

@[simp] theorem bare_grouped (e : Expr) : e.grouped.bare = e.bare := by
  cases e <;> rfl

theorem scalar?_bare (e : Expr) : e.bare.scalar? = e.scalar? := by
  cases e <;> rfl

/-- Whether a list is an array does not depend on lines. -/
theorem collapse_congr {es fs : List Expr} (same : bareAll es = bareAll fs) :
    collapse es = collapse fs := by
  have scalars (gs : List Expr) : (bareAll gs).mapM scalar? = gs.mapM scalar? := by
    rw [bareAll_eq_map, List.mapM_map]
    congr 1
    funext e
    exact scalar?_bare e
  rw [collapse, collapse, ← scalars es, ← scalars fs, same]

/-! ## The tokens of an expression -/

/-- Words with a token between them. -/
def separated (separator : Token) : List (List Token) → List Token
  | [] => []
  | [w] => w
  | w :: v :: ws => w ++ separator :: separated separator (v :: ws)

/-- Words with commas between them. -/
def commas (ws : List (List Token)) : List Token := separated (.mark .comma) ws

/-- A word in parentheses. -/
def parens (w : List Token) : List Token := .mark .leftParen :: (w ++ [.mark .rightParen])

/-- A word in brackets. -/
def brackets (w : List Token) : List Token := .mark .leftBracket :: (w ++ [.mark .rightBracket])

/-- Whether a minus in front becomes part of an operand. -/
def takesMinus : Expr → Bool
  | constant (.int i) _ => (Number.fit (-i.toInt)).isSome
  | constant (.float _) _ => true
  | _ => false

/-- The ways to write a call. -/
inductive CallForm where
  /-- An operator between its operands. -/
  | between (s : Symbol)
  /-- An operator in front of its operand. -/
  | before (s : Symbol)
  /-- A tree that is called, with its arguments. -/
  | apply
  /-- A tree with an index. -/
  | index
  /-- A function by its name, with its arguments. -/
  | byName

/-- The way to write a call of a function. A function that has the name of an operator but not
its operands was called by name; so was a minus in front of a number, of which it would have
become part. -/
def callForm (function : String) : List Expr → CallForm
  | [] => .byName
  | [e] =>
    match Symbol.ofText? function with
    | some s => if s.isLeading && !(s = .minus && e.takesMinus) then .before s else .byName
    | none => if function = "applyfunction" then .apply else .byName
  | [_, _] =>
    match Symbol.ofText? function with
    | some s => if s.isBinary then .between s else .byName
    | none =>
      if function = "listindex" then .index
      else if function = "applyfunction" then .apply else .byName
  | _ => if function = "applyfunction" then .apply else .byName

/-- The tokens of a call whose arguments are words. -/
def callTokens (function : String) : CallForm → List (List Token) → List Token
  | .between s, [left, right] => parens left ++ .symbol s :: parens right
  | .before s, [operand] => .symbol s :: parens operand
  | .apply, callee :: arguments => parens callee ++ parens (commas arguments)
  | .index, [tree, key] => parens tree ++ brackets key
  | _, arguments => .name function :: parens (commas arguments)

/-- The expression of an element of an array. -/
def ofElement : Value → Expr
  | .int i => constant (.int i) 0
  | .float x => constant (.float x) 0
  | .string s => constant (.string s) 0
  | _ => constant .null 0

/-- The token of an element of an array. -/
def elementToken : Value → Token
  | .int i => .int i
  | .float x => .float x
  | .string s => .string s
  | _ => .keyword .nullWord

/-- The tokens of a constant. -/
def constantTokens : Constant → List Token
  | .null => [.keyword .nullWord]
  | .int i => [.int i]
  | .float x => [.float x]
  | .string s => [.string s]
  | .array a => brackets (commas (a.items.map fun v => [elementToken v]))

mutual

/-- The tokens that an expression is written with. -/
def tokens : Expr → List Token
  | constant value _ => constantTokens value
  | named name _ => [.name name]
  | define name _ => [.keyword .varWord, .name name]
  | call function arguments _ _ =>
    callTokens function (callForm function arguments) (tokensAll arguments)
  | list elements _ => brackets (commas (tokensAll elements))

/-- The tokens of each expression. -/
def tokensAll : List Expr → List (List Token)
  | [] => []
  | e :: es => e.tokens :: tokensAll es

end

theorem tokensAll_eq_map (es : List Expr) : tokensAll es = es.map tokens := by
  induction es with
  | nil => rfl
  | cons e es ih => rw [tokensAll, ih, List.map_cons]

/-! ## What the builder leaves -/

/-- The trees in which the arrays are the lists of constants of one kind. -/
inductive Collapsed : Expr → Prop
  | constant {c : Constant} {l : Line} :
      (∀ a, c = .array a → ∃ es, collapse es = some a) → Collapsed (constant c l)
  | named {n : String} {l : Line} : Collapsed (named n l)
  | define {n : String} {l : Line} : Collapsed (define n l)
  | call {f : String} {es : List Expr} {p : Precedence} {l : Line} :
      (∀ e ∈ es, Collapsed e) → Collapsed (call f es p l)
  | list {es : List Expr} {l : Line} :
      collapse es = none → (∀ e ∈ es, Collapsed e) → Collapsed (list es l)

theorem Collapsed.pair {f : String} {a b : Expr} {p : Precedence} {l : Line} (ha : Collapsed a)
    (hb : Collapsed b) : Collapsed (.call f [a, b] p l) := by
  refine .call ?_
  intro e he
  rcases List.mem_cons.1 he with rfl | he
  · exact ha
  · rw [List.mem_singleton.1 he]
    exact hb

theorem Collapsed.single {f : String} {a : Expr} {p : Precedence} {l : Line} (ha : Collapsed a) :
    Collapsed (.call f [a] p l) := by
  refine .call ?_
  intro e he
  rw [List.mem_singleton.1 he]
  exact ha

theorem collapsed_scalar {t : Token} {c : Constant} {l : Line} (h : literal? t = some c) :
    Collapsed (.constant c l) := by
  refine .constant ?_
  rintro a rfl
  cases t with
  | keyword w => cases w <;> cases h
  | _ => cases h

theorem collapsed_string (s : String) (l : Line) : Collapsed (.constant (.string s) l) :=
  collapsed_scalar (t := .string s) rfl

theorem collapsed_grouped {e : Expr} (h : Collapsed e) : Collapsed e.grouped := by
  cases h with
  | constant array => exact .constant array
  | named => exact .named
  | define => exact .define
  | call arguments => exact .call arguments
  | list plain elements => exact .list plain elements

theorem collapsed_leading {s : Symbol} {e : Expr} {l : Line} (h : Collapsed e) :
    Collapsed (leading s e l) := by
  unfold leading
  split
  · split
    · exact .constant (by simp)
    · exact h.single
  · exact .constant (by simp)
  · exact h.single

theorem collapsed_ofElements {es : List Expr} {l : Line} (h : ∀ e ∈ es, Collapsed e) :
    Collapsed (ofElements es l) := by
  unfold ofElements
  split
  · next a array =>
    refine .constant ?_
    rintro _ ⟨⟩
    exact ⟨es, array⟩
  · next plain => exact .list plain h

mutual

theorem collapsed_insertOperator {op : String} {operand : Expr} {l : Line}
    (right : Collapsed operand) :
    ∀ {tree : Expr}, Collapsed tree → Collapsed (insertOperator op operand l tree)
  | .call f es p l', h => by
    cases h with
    | call arguments =>
      rw [insertOperator]
      split
      · exact .call (collapsed_insertLast right arguments)
      · exact .pair (.call arguments) right
  | .constant _ _, h => h.pair right
  | .named _ _, h => h.pair right
  | .define _ _, h => h.pair right
  | .list _ _, h => h.pair right

theorem collapsed_insertLast {op : String} {operand : Expr} {l : Line} (right : Collapsed operand) :
    ∀ {es : List Expr}, (∀ e ∈ es, Collapsed e) →
      ∀ e ∈ insertLast op operand l es, Collapsed e
  | [], _ => by simp [insertLast]
  | [last], h => by
    intro e he
    rw [insertLast, List.mem_singleton] at he
    rw [he]
    exact collapsed_insertOperator right (h last List.mem_cons_self)
  | first :: next :: rest, h => by
    intro e he
    rw [insertLast] at he
    rcases List.mem_cons.1 he with rfl | he
    · exact h _ List.mem_cons_self
    · exact collapsed_insertLast right (fun e he => h e (List.mem_cons_of_mem _ he)) e he

end

/-- Reading keeps trees collapsed. -/
theorem collapsed_of_reads {p : Phrase} {ts : List PlacedToken} (h : Reads p ts) :
    match p with
    | .expr e | .operand e => Collapsed e
    | .operators tree e | .trailing tree e => Collapsed tree → Collapsed e
    | .arguments es | .items es => ∀ e ∈ es, Collapsed e := by
  induction h with
  | expr _ _ operand operators => exact operators operand
  | done | plain => exact fun tree => tree
  | operator _ _ _ operand operators =>
    exact fun tree => operators (collapsed_insertOperator operand tree)
  | leading _ _ operand => exact collapsed_leading operand
  | literal value _ trailing => exact trailing (collapsed_scalar value)
  | define _ trailing => exact trailing .define
  | named _ _ trailing => exact trailing .named
  | call _ _ arguments trailing => exact trailing (.call arguments)
  | group _ _ inner trailing => exact trailing (collapsed_grouped inner)
  | list _ _ elements trailing => exact trailing (collapsed_ofElements elements)
  | apply _ _ arguments trailing =>
    intro tree
    refine trailing (.call ?_)
    intro e he
    rcases List.mem_cons.1 he with rfl | he
    · exact tree
    · exact arguments e he
  | index _ _ key trailing => exact fun tree => trailing (tree.pair key)
  | memberCall _ _ arguments trailing =>
    intro tree
    refine trailing (.call ?_)
    intro e he
    rcases List.mem_cons.1 he with rfl | he
    · exact collapsed_string _ _
    · rcases List.mem_cons.1 he with rfl | he
      · exact tree
      · exact arguments e he
  | member _ _ trailing => exact fun tree => trailing (tree.pair (collapsed_string _ _))
  | step _ _ trailing => exact fun tree => trailing tree.single
  | none => intro e he; exact absurd he (by simp)
  | some _ items => exact items
  | last _ inner =>
    intro e he
    rw [List.mem_singleton.1 he]
    exact inner
  | more _ _ first others =>
    intro e he
    rcases List.mem_cons.1 he with rfl | he
    · exact first
    · exact others e he

/-! ## Reading back -/

theorem takesMinus_bare (e : Expr) : e.bare.takesMinus = e.takesMinus := by
  cases e with
  | constant c _ => cases c <;> rfl
  | _ => rfl

theorem takesMinus_congr {e e' : Expr} (same : e'.bare = e.bare) : e'.takesMinus = e.takesMinus := by
  rw [← takesMinus_bare, same, takesMinus_bare]

theorem leading_eq_call {s : Symbol} {e : Expr} {l : Line}
    (h : ¬ (s = .minus ∧ e.takesMinus = true)) : leading s e l = call s.text [e] .call l := by
  unfold leading
  split
  · next i l' =>
    cases fits : Number.fit (-i.toInt) with
    | none => rfl
    | some j => exact absurd ⟨rfl, by simp [takesMinus, fits]⟩ h
  · exact absurd ⟨rfl, rfl⟩ h
  · rfl

/-- An operator does not go into parentheses. -/
theorem insertOperator_grouped (op : String) (operand : Expr) (l : Line) (e : Expr) :
    insertOperator op operand l e.grouped = call op [e.grouped, operand] (.ofName op) l := by
  cases e with
  | call f es p l' =>
    have tightest : takesIn .call (.ofName op) = false := by
      cases Precedence.ofName op <;> rfl
    rw [grouped, insertOperator, tightest]
    rfl
  | _ => rfl

theorem text_of_ofText? {f : String} {s : Symbol} (h : Symbol.ofText? f = some s) : s.text = f := by
  have found := List.find?_some h
  simpa using found

/-- What a form says about the call that is written so. -/
inductive Fits : CallForm → String → List Expr → Prop
  | between {s : Symbol} {a b : Expr} : s.isBinary = true → Fits (.between s) s.text [a, b]
  | before {s : Symbol} {e : Expr} :
      s.isLeading = true → ¬ (s = .minus ∧ e.takesMinus = true) → Fits (.before s) s.text [e]
  | apply {callee : Expr} {arguments : List Expr} :
      Fits .apply "applyfunction" (callee :: arguments)
  | index {tree key : Expr} : Fits .index "listindex" [tree, key]
  | byName {f : String} {es : List Expr} : Fits .byName f es

theorem fits_callForm (f : String) (es : List Expr) : Fits (callForm f es) f es := by
  have called {callee : Expr} {arguments : List Expr} :
      Fits (if f = "applyfunction" then .apply else .byName) f (callee :: arguments) := by
    split
    · next same => rw [same]; exact .apply
    · exact .byName
  match es with
  | [] => exact .byName
  | [e] =>
    rw [callForm]
    split
    · next s known =>
      rw [← text_of_ofText? known]
      split
      · next leads =>
        simp only [Bool.and_eq_true, Bool.not_eq_true', ← Bool.not_eq_true, decide_eq_true_eq] at leads
        exact .before leads.1 leads.2
      · exact .byName
    · exact called
  | [a, b] =>
    rw [callForm]
    split
    · next s known =>
      rw [← text_of_ofText? known]
      split
      · next binary => exact .between binary
      · exact .byName
    · split
      · next same => rw [same]; exact .index
      · exact called
  | _ :: _ :: _ :: _ => exact called

/-- An expression is read back from its tokens. -/
def ReadsBack (e : Expr) : Prop :=
  ∀ ts, word ts = e.tokens → ∃ e', Reads (.expr e') ts ∧ e'.bare = e.bare

theorem word_eq_parens {ts : List PlacedToken} {w v : List Token} (h : word ts = parens w ++ v) :
    ∃ l inside l' rest, ts = ⟨.mark .leftParen, l⟩ :: (inside ++ ⟨.mark .rightParen, l'⟩ :: rest) ∧
      word inside = w ∧ word rest = v := by
  obtain ⟨us, rest, rfl, hus, hrest⟩ := word_eq_append h
  obtain ⟨l, inside, l', rfl, hinside⟩ := word_eq_enclosed hus
  exact ⟨l, inside, l', rest, Bracket.enclosed_append _ _ _ _, hinside, hrest⟩

theorem reads_alone {e : Expr} {ts : List PlacedToken} (h : Reads (.operand e) ts) :
    Reads (.expr e) ts := by
  have whole := Reads.expr h .done
  rwa [List.append_nil] at whole

theorem exists_items_commas {e : Expr} {es : List Expr} (back : ∀ d ∈ e :: es, ReadsBack d) :
    ∀ ts, word ts = commas (tokensAll (e :: es)) →
      ∃ ds, Reads (.items ds) ts ∧ bareAll ds = bareAll (e :: es) := by
  induction es generalizing e with
  | nil =>
    intro ts hts
    obtain ⟨d, read, same⟩ := back e List.mem_cons_self ts hts
    exact ⟨[d], .last read, by rw [bareAll, same]; rfl⟩
  | cons next rest ih =>
    intro ts hts
    obtain ⟨us, vs, rfl, hus, hvs⟩ := word_eq_append (show word ts = e.tokens ++ _ from hts)
    obtain ⟨l, later, rfl, hlater⟩ := word_eq_cons hvs
    obtain ⟨d, read, same⟩ := back e List.mem_cons_self us hus
    obtain ⟨ds, reads, sames⟩ := ih (fun d hd => back d (List.mem_cons_of_mem _ hd)) later hlater
    exact ⟨d :: ds, .more read reads, by rw [bareAll, same, sames]; rfl⟩

theorem exists_arguments_commas {es : List Expr} (back : ∀ e ∈ es, ReadsBack e)
    {ts : List PlacedToken} (hts : word ts = commas (tokensAll es)) :
    ∃ ds, Reads (.arguments ds) ts ∧ bareAll ds = bareAll es := by
  cases es with
  | nil =>
    obtain rfl := List.map_eq_nil_iff.1 hts
    exact ⟨[], .none, rfl⟩
  | cons e es =>
    obtain ⟨ds, read, same⟩ := exists_items_commas back ts hts
    exact ⟨ds, .some read, same⟩

theorem readsBack_token {e : Expr} {t : Token} (h : e.tokens = [t])
    (read : ∀ l, ∃ e', Reads (.operand e') [⟨t, l⟩] ∧ e'.bare = e.bare) : ReadsBack e := by
  intro ts hts
  rw [h] at hts
  obtain ⟨l, rest, rfl, hrest⟩ := word_eq_cons hts
  obtain rfl := List.map_eq_nil_iff.1 hrest
  obtain ⟨e', operand, same⟩ := read l
  exact ⟨e', reads_alone operand, same⟩

theorem readsBack_literal {c : Constant} {l : Line} {t : Token} (h : constantTokens c = [t])
    (value : literal? t = some c) : ReadsBack (constant c l) :=
  readsBack_token h fun l' => ⟨constant c l', .literal value .plain, rfl⟩

theorem readsBack_ofElement (v : Value) : ReadsBack (ofElement v) := by
  cases v <;> exact readsBack_literal rfl rfl

theorem tokensAll_ofElement (vs : List Value) :
    tokensAll (vs.map ofElement) = vs.map fun v => [elementToken v] := by
  rw [tokensAll_eq_map, List.map_map]
  congr 1
  funext v
  cases v <;> rfl

theorem scalar?_ofElement {e : Expr} {v : Value} (h : e.scalar? = some v) :
    (ofElement v).scalar? = some v := by
  cases e with
  | constant c _ =>
    cases c with
    | array _ => exact absurd h (by simp [scalar?, Constant.scalar?])
    | _ =>
      obtain rfl := Option.some.inj h
      rfl
  | _ => exact absurd h (by simp [scalar?])

theorem mapM_scalar?_ofElement {es : List Expr} {vs : List Value}
    (h : es.mapM scalar? = some vs) : (vs.map ofElement).mapM scalar? = some vs := by
  induction es generalizing vs with
  | nil =>
    obtain rfl : [] = vs := by simpa using h
    rfl
  | cons e es ih =>
    rw [List.mapM_cons, Option.bind_eq_bind, Option.bind_eq_some_iff] at h
    obtain ⟨v, hv, hrest⟩ := h
    rw [Option.bind_eq_bind, Option.bind_eq_some_iff] at hrest
    obtain ⟨ws, hws, hvs⟩ := hrest
    obtain rfl : v :: ws = vs := Option.some.inj hvs
    rw [List.map_cons, List.mapM_cons, scalar?_ofElement hv, ih hws]
    rfl

/-- The elements of an array that a list of constants makes make it again. -/
theorem collapse_ofElement {es : List Expr} {a : ConstantArray} (h : collapse es = some a) :
    collapse (a.items.map ofElement) = some a := by
  cases scalars : es.mapM scalar? with
  | none =>
    rw [collapse, scalars] at h
    exact absurd h (by simp)
  | some vs =>
    cases vs with
    | nil =>
      rw [collapse, scalars] at h
      exact absurd h (by simp)
    | cons v vs =>
      have made : ConstantArray.ofValues? (v :: vs) = some a := by
        rw [collapse, scalars] at h
        exact h
      rw [ConstantArray.items_ofValues? made, collapse, mapM_scalar?_ofElement scalars]
      exact made

theorem readsBack_array {a : ConstantArray} {l : Line} (h : ∃ es, collapse es = some a) :
    ReadsBack (constant (.array a) l) := by
  intro ts hts
  obtain ⟨es, array⟩ := h
  have elements : constantTokens (.array a) =
      brackets (commas (tokensAll (a.items.map ofElement))) := by
    rw [tokensAll_ofElement]
    rfl
  rw [tokens, elements] at hts
  obtain ⟨l₁, inside, l₂, rfl, hinside⟩ := word_eq_enclosed hts
  have back : ∀ e ∈ a.items.map ofElement, ReadsBack e := by
    intro e he
    obtain ⟨v, -, rfl⟩ := List.mem_map.1 he
    exact readsBack_ofElement v
  obtain ⟨ds, read, same⟩ := exists_arguments_commas back hinside
  refine ⟨ofElements ds l₁, reads_alone (.list read .plain), ?_⟩
  rw [ofElements, collapse_congr same, collapse_ofElement array]
  rfl

theorem readsBack_list {es : List Expr} {l : Line} (plain : collapse es = none)
    (back : ∀ e ∈ es, ReadsBack e) : ReadsBack (list es l) := by
  intro ts hts
  obtain ⟨l₁, inside, l₂, rfl, hinside⟩ := word_eq_enclosed hts
  obtain ⟨ds, read, same⟩ := exists_arguments_commas back hinside
  refine ⟨ofElements ds l₁, reads_alone (.list read .plain), ?_⟩
  rw [ofElements, collapse_congr same, plain]
  simp only [bare, same]

theorem readsBack_define {n : String} {l : Line} : ReadsBack (define n l) := by
  intro ts hts
  obtain ⟨l₁, rest, rfl, hname⟩ := word_eq_cons hts
  obtain ⟨l₂, rest, rfl, hnone⟩ := word_eq_cons hname
  obtain rfl := List.map_eq_nil_iff.1 hnone
  exact ⟨define n l₁, reads_alone (.define .plain), rfl⟩

theorem not_startsCall_nil : ¬ StartsCall [] := by
  rintro ⟨t, ht, -⟩
  exact absurd ht (by simp)

theorem readsBack_named {n : String} {l : Line} : ReadsBack (named n l) :=
  readsBack_token rfl fun l' => ⟨named n l', .named not_startsCall_nil .plain, rfl⟩

/-- An expression in parentheses is an operand whatever trails it. -/
theorem ReadsBack.inParens {e : Expr} (back : ReadsBack e) {ts : List PlacedToken} {v : List Token}
    (hts : word ts = parens e.tokens ++ v) :
    ∃ used rest, ∃ tree : Expr, ts = used ++ rest ∧ word rest = v ∧ tree.bare = e.bare ∧
      ∀ d trail, Reads (.trailing tree.grouped d) trail → Reads (.operand d) (used ++ trail) := by
  obtain ⟨l, inside, l', rest, rfl, hinside, hrest⟩ := word_eq_parens hts
  obtain ⟨tree, read, same⟩ := back inside hinside
  refine ⟨⟨.mark .leftParen, l⟩ :: (inside ++ [⟨.mark .rightParen, l'⟩]), rest, tree, ?_, hrest,
    same, ?_⟩
  · rw [Bracket.enclosed_append]
  · intro d trail trailing
    rw [Bracket.enclosed_append]
    exact .group read trailing

theorem bare_call {f : String} {es ds : List Expr} {p q : Precedence} {l l' : Line}
    (same : bareAll es = bareAll ds) : (call f es p l).bare = (call f ds q l').bare := by
  rw [bare, bare, same]

theorem readsBack_call {f : String} {es : List Expr} {p : Precedence} {l : Line}
    (back : ∀ e ∈ es, ReadsBack e) : ReadsBack (call f es p l) := by
  intro ts hts
  have fits := fits_callForm f es
  rw [tokens] at hts
  generalize callForm f es = form at fits hts
  cases fits with
  | @between s a b binary =>
    obtain ⟨used, rest, left, rfl, hrest, sameLeft, readLeft⟩ :=
      (back a (by simp)).inParens hts
    obtain ⟨l₁, later, rfl, hlater⟩ := word_eq_cons hrest
    rw [← List.append_nil (parens b.tokens)] at hlater
    obtain ⟨used', none, right, rfl, hnone, sameRight, readRight⟩ :=
      (back b (by simp)).inParens hlater
    obtain rfl := List.map_eq_nil_iff.1 hnone
    have first := readLeft _ _ .plain
    rw [List.append_nil] at first
    have second := readRight _ _ .plain
    rw [List.append_nil] at second
    refine ⟨_, .expr first (.operator binary second .done), ?_⟩
    rw [insertOperator_grouped]
    exact bare_call (by simp only [bareAll, bare_grouped, sameLeft, sameRight])
  | @before s e isLeading plain =>
    obtain ⟨l₁, rest, rfl, hrest⟩ := word_eq_cons hts
    rw [← List.append_nil (parens e.tokens)] at hrest
    obtain ⟨used, none, tree, rfl, hnone, same, read⟩ := (back e (by simp)).inParens hrest
    obtain rfl := List.map_eq_nil_iff.1 hnone
    refine ⟨_, reads_alone (.leading isLeading (read _ [] .plain)), ?_⟩
    have sameGrouped : tree.grouped.bare = e.bare := by rw [bare_grouped, same]
    rw [leading_eq_call (by rwa [takesMinus_congr sameGrouped])]
    exact bare_call (by simp only [bareAll, sameGrouped])
  | @apply callee arguments =>
    obtain ⟨used, rest, tree, rfl, hrest, same, read⟩ := (back callee (by simp)).inParens hts
    obtain ⟨l₁, inside, l₂, rfl, hinside⟩ := word_eq_enclosed hrest
    obtain ⟨ds, reads, sames⟩ := exists_arguments_commas
      (fun e he => back e (List.mem_cons_of_mem _ he)) hinside
    refine ⟨_, reads_alone (read _ _ (.apply reads .plain)), ?_⟩
    exact bare_call (by simp only [bareAll, bare_grouped, same, sames])
  | @index tree key =>
    obtain ⟨used, rest, tree', rfl, hrest, same, read⟩ := (back tree (by simp)).inParens hts
    obtain ⟨l₁, inside, l₂, rfl, hinside⟩ := word_eq_enclosed hrest
    obtain ⟨key', readKey, sameKey⟩ := back key (by simp) inside hinside
    refine ⟨_, reads_alone (read _ _ (.index readKey .plain)), ?_⟩
    exact bare_call (by simp only [bareAll, bare_grouped, same, sameKey])
  | byName =>
    obtain ⟨l₁, rest, rfl, hrest⟩ := word_eq_cons (show word ts = .name f :: parens _ from hts)
    obtain ⟨l₂, inside, l₃, rfl, hinside⟩ := word_eq_enclosed hrest
    obtain ⟨ds, reads, sames⟩ := exists_arguments_commas back hinside
    exact ⟨call f ds .call l₁, reads_alone (.call reads .plain), bare_call sames⟩

/-- What the builder leaves is read back from its tokens. -/
theorem Collapsed.readsBack {e : Expr} (h : Collapsed e) : ReadsBack e := by
  induction h with
  | @constant c l array =>
    cases c with
    | array a => exact readsBack_array (array a rfl)
    | _ => exact readsBack_literal rfl rfl
  | named => exact readsBack_named
  | define => exact readsBack_define
  | call _ back => exact readsBack_call back
  | list plain _ back => exact readsBack_list plain back

end Expr

end Scriptlet
