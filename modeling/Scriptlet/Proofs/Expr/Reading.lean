import Scriptlet.Expr.Builder
import Scriptlet.Proofs.Nesting

/-!
# What the builder reads

`Reads` says which runs of tokens are expressions, operands and arguments, and which trees
they make; it neither looks for brackets nor counts steps. The builder succeeds on a run
exactly when the run reads as an expression, and its result is the tree of that reading.
-/

namespace Scriptlet.Expr

open Scriptlet.Bracket

/-- What a run of tokens can be, with the tree that it makes. -/
inductive Phrase where
  | expr (e : Expr)
  /-- The operators and operands after a tree. -/
  | operators (tree e : Expr)
  | operand (e : Expr)
  /-- The calls, indices, members and steps after a tree. -/
  | trailing (tree e : Expr)
  /-- The expressions between two brackets. -/
  | arguments (es : List Expr)
  /-- One expression or more, with commas between them. -/
  | items (es : List Expr)

/-- Whether a run starts with an opening parenthesis. -/
def StartsCall (ts : List PlacedToken) : Prop := ∃ t ∈ ts.head?, t.token = .mark .leftParen

/-- Whether a token goes on with the operand before it. -/
def trails : Token → Bool
  | .mark .leftParen | .mark .leftBracket | .mark .dot => true
  | .symbol s => s.isTrailing
  | _ => false

/-- Whether an operand ends before a run. -/
def Ends (ts : List PlacedToken) : Prop := ∀ t ∈ ts.head?, trails t.token = false

/-- The runs of tokens that read as a phrase. -/
inductive Reads : Phrase → List PlacedToken → Prop
  | expr {tree e : Expr} {ts rest : List PlacedToken} :
      Reads (.operand tree) ts → Reads (.operators tree e) rest → Reads (.expr e) (ts ++ rest)
  | done {tree : Expr} : Reads (.operators tree tree) []
  | operator {s : Symbol} {l : Line} {tree right e : Expr} {ts rest : List PlacedToken} :
      s.isBinary = true → Reads (.operand right) ts →
        Reads (.operators (insertOperator s.text right l tree) e) rest →
        Reads (.operators tree e) (⟨.symbol s, l⟩ :: (ts ++ rest))
  | leading {s : Symbol} {l : Line} {e : Expr} {ts : List PlacedToken} :
      s.isLeading = true → Reads (.operand e) ts →
        Reads (.operand (leading s e l)) (⟨.symbol s, l⟩ :: ts)
  | literal {t : Token} {l : Line} {c : Constant} {e : Expr} {rest : List PlacedToken} :
      literal? t = some c → Reads (.trailing (constant c l) e) rest →
        Reads (.operand e) (⟨t, l⟩ :: rest)
  | define {n : String} {l l' : Line} {e : Expr} {rest : List PlacedToken} :
      Reads (.trailing (define n l) e) rest →
        Reads (.operand e) (⟨.keyword .varWord, l⟩ :: ⟨.name n, l'⟩ :: rest)
  | named {n : String} {l : Line} {e : Expr} {rest : List PlacedToken} :
      ¬ StartsCall rest → Reads (.trailing (named n l) e) rest →
        Reads (.operand e) (⟨.name n, l⟩ :: rest)
  | call {n : String} {l l₁ l₂ : Line} {es : List Expr} {e : Expr} {inside rest : List PlacedToken} :
      Reads (.arguments es) inside → Reads (.trailing (call n es .call l) e) rest →
        Reads (.operand e)
          (⟨.name n, l⟩ :: ⟨.mark .leftParen, l₁⟩ :: (inside ++ ⟨.mark .rightParen, l₂⟩ :: rest))
  | group {l l' : Line} {tree e : Expr} {inside rest : List PlacedToken} :
      Reads (.expr tree) inside → Reads (.trailing tree.grouped e) rest →
        Reads (.operand e) (⟨.mark .leftParen, l⟩ :: (inside ++ ⟨.mark .rightParen, l'⟩ :: rest))
  | list {l l' : Line} {es : List Expr} {e : Expr} {inside rest : List PlacedToken} :
      Reads (.arguments es) inside → Reads (.trailing (ofElements es l) e) rest →
        Reads (.operand e) (⟨.mark .leftBracket, l⟩ :: (inside ++ ⟨.mark .rightBracket, l'⟩ :: rest))
  | plain {tree : Expr} : Reads (.trailing tree tree) []
  | apply {l l' : Line} {tree e : Expr} {es : List Expr} {inside rest : List PlacedToken} :
      Reads (.arguments es) inside →
        Reads (.trailing (.call "applyfunction" (tree :: es) .call l) e) rest →
        Reads (.trailing tree e)
          (⟨.mark .leftParen, l⟩ :: (inside ++ ⟨.mark .rightParen, l'⟩ :: rest))
  | index {l l' : Line} {tree i e : Expr} {inside rest : List PlacedToken} :
      Reads (.expr i) inside → Reads (.trailing (.call "listindex" [tree, i] .call l) e) rest →
        Reads (.trailing tree e)
          (⟨.mark .leftBracket, l⟩ :: (inside ++ ⟨.mark .rightBracket, l'⟩ :: rest))
  | memberCall {n : String} {l l₁ l₂ l₃ : Line} {tree e : Expr} {es : List Expr}
      {inside rest : List PlacedToken} :
      Reads (.arguments es) inside →
        Reads (.trailing
          (.call "applyfunction" (constant (.string n) l :: tree :: es) .call l) e) rest →
        Reads (.trailing tree e)
          (⟨.mark .dot, l⟩ :: ⟨.name n, l₁⟩ :: ⟨.mark .leftParen, l₂⟩ ::
            (inside ++ ⟨.mark .rightParen, l₃⟩ :: rest))
  | member {n : String} {l l' : Line} {tree e : Expr} {rest : List PlacedToken} :
      ¬ StartsCall rest →
        Reads (.trailing (.call "listindex" [tree, constant (.string n) l] .call l) e) rest →
        Reads (.trailing tree e) (⟨.mark .dot, l⟩ :: ⟨.name n, l'⟩ :: rest)
  | step {s : Symbol} {l : Line} {tree e : Expr} {rest : List PlacedToken} :
      s.isTrailing = true → Reads (.trailing (.call s.text [tree] .call l) e) rest →
        Reads (.trailing tree e) (⟨.symbol s, l⟩ :: rest)
  | none : Reads (.arguments []) []
  | some {es : List Expr} {ts : List PlacedToken} : Reads (.items es) ts → Reads (.arguments es) ts
  | last {e : Expr} {ts : List PlacedToken} : Reads (.expr e) ts → Reads (.items [e]) ts
  | more {l : Line} {e : Expr} {es : List Expr} {ts rest : List PlacedToken} :
      Reads (.expr e) ts → Reads (.items es) rest →
        Reads (.items (e :: es)) (ts ++ ⟨.mark .comma, l⟩ :: rest)

/-! ## Brackets of a reading -/

theorem plain_of_literal? {t : Token} {c : Constant} (h : literal? t = some c) :
    t.opens? = none ∧ t.closes? = none ∧ t.isComma = false := by
  cases t with
  | int _ | float _ | string _ | bool _ | keyword _ => exact ⟨rfl, rfl, rfl⟩
  | _ => cases h

theorem solid_cons {t : Token} {l : Line} {rest : List PlacedToken}
    (h : t.opens? = none ∧ t.closes? = none ∧ t.isComma = false) (solid : Solid rest) :
    Solid (⟨t, l⟩ :: rest) := .other h.1 h.2.1 h.2.2 solid

theorem solid_parens {l l' : Line} {inside rest : List PlacedToken} (nested : Nested inside)
    (solid : Solid rest) :
    Solid (⟨.mark .leftParen, l⟩ :: (inside ++ ⟨.mark .rightParen, l'⟩ :: rest)) :=
  .bracket (b := .round) rfl nested rfl solid

theorem solid_brackets {l l' : Line} {inside rest : List PlacedToken} (nested : Nested inside)
    (solid : Solid rest) :
    Solid (⟨.mark .leftBracket, l⟩ :: (inside ++ ⟨.mark .rightBracket, l'⟩ :: rest)) :=
  .bracket (b := .square) rfl nested rfl solid

/-- Every reading is nested, and only lists of expressions have commas outside brackets. -/
theorem Reads.solid {p : Phrase} {ts : List PlacedToken} (h : Reads p ts) :
    match p with
    | .arguments _ | .items _ => Nested ts
    | _ => Solid ts := by
  induction h with
  | expr _ _ first rest => exact first.append rest
  | done | plain => exact .nil
  | none => exact .nil
  | operator _ _ _ right rest => exact solid_cons ⟨rfl, rfl, rfl⟩ (right.append rest)
  | leading _ _ inner => exact solid_cons ⟨rfl, rfl, rfl⟩ inner
  | literal value _ rest => exact solid_cons (plain_of_literal? value) rest
  | define _ rest | member _ _ rest =>
    exact solid_cons ⟨rfl, rfl, rfl⟩ (solid_cons ⟨rfl, rfl, rfl⟩ rest)
  | named _ _ rest | step _ _ rest => exact solid_cons ⟨rfl, rfl, rfl⟩ rest
  | call _ _ inside rest => exact solid_cons ⟨rfl, rfl, rfl⟩ (solid_parens inside rest)
  | group _ _ inside rest => exact solid_parens inside.nested rest
  | apply _ _ inside rest => exact solid_parens inside rest
  | list _ _ inside rest => exact solid_brackets inside rest
  | index _ _ inside rest => exact solid_brackets inside.nested rest
  | memberCall _ _ inside rest =>
    exact solid_cons ⟨rfl, rfl, rfl⟩ (solid_cons ⟨rfl, rfl, rfl⟩ (solid_parens inside rest))
  | some _ items => exact items
  | last _ e => exact e.nested
  | more _ _ e items => exact e.nested.append (.other rfl rfl items)

theorem Reads.nonempty {e : Expr} {ts : List PlacedToken} (h : Reads (.expr e) ts) : ts ≠ [] := by
  cases h with
  | expr first _ => cases first <;> simp

/-! ## Every reading is built -/

theorem ends_of_operators {tree e : Expr} {ts : List PlacedToken}
    (h : Reads (.operators tree e) ts) : Ends ts := by
  cases h with
  | done => intro t ht; simp at ht
  | @operator s _ _ _ _ _ _ binary =>
    intro t ht
    obtain rfl : _ = t := by simpa using ht
    cases s <;> first | rfl | exact absurd binary (by decide)

theorem trailing_of_ends {fuel : Nat} {tree : Expr} {ts : List PlacedToken} (h : Ends ts)
    (enough : 0 < fuel) : trailing fuel tree ts = .ok (tree, ts) := by
  obtain ⟨fuel, rfl⟩ : ∃ k, fuel = k + 1 := ⟨fuel - 1, by omega⟩
  cases ts with
  | nil => rfl
  | cons t rest =>
    obtain ⟨token, line⟩ := t
    have stops : trails token = false := h _ rfl
    cases token with
    | symbol s =>
      have ended : s.isTrailing = false := stops
      simp only [trailing, ended, Bool.false_eq_true, if_false]
    | mark m => cases m <;> first | rfl | exact absurd stops (by simp [trails])
    | _ => rfl

theorem not_startsCall_append {ts rest : List PlacedToken} (h : ¬ StartsCall ts) (ends : Ends rest) :
    ¬ StartsCall (ts ++ rest) := by
  rintro ⟨t, ht, isParen⟩
  cases ts with
  | nil =>
    have stops := ends t ht
    rw [isParen] at stops
    exact absurd stops (by simp [trails])
  | cons u _ => exact h ⟨t, ht, isParen⟩

theorem group_parens {inside : List PlacedToken} (nested : Nested inside) (l l' : Line)
    (rest : List PlacedToken) :
    group (⟨.mark .leftParen, l⟩ :: (inside ++ ⟨.mark .rightParen, l'⟩ :: rest)) =
      .ok (inside, rest) :=
  (group_eq_ok_iff (b := .round) rfl).2 ⟨_, rfl, nested, rfl⟩

theorem group_brackets {inside : List PlacedToken} (nested : Nested inside) (l l' : Line)
    (rest : List PlacedToken) :
    group (⟨.mark .leftBracket, l⟩ :: (inside ++ ⟨.mark .rightBracket, l'⟩ :: rest)) =
      .ok (inside, rest) :=
  (group_eq_ok_iff (b := .square) rfl).2 ⟨_, rfl, nested, rfl⟩

theorem mapM_build {fuel : Nat} {run : List PlacedToken} {runs : List (List PlacedToken)} {e : Expr}
    {es : List Expr} (first : build fuel run = .ok e) (others : runs.mapM (build fuel) = .ok es) :
    (run :: runs).mapM (build fuel) = .ok (e :: es) := by
  rw [List.mapM_cons, first, others]
  rfl

theorem operand_literal {fuel : Nat} {endLine l : Line} {t : Token} {c : Constant}
    {rest : List PlacedToken} (h : literal? t = some c) :
    operand (fuel + 1) endLine (⟨t, l⟩ :: rest) = trailing fuel (constant c l) rest := by
  cases t with
  | int _ | float _ | string _ | bool _ => obtain rfl := Option.some.inj h; rfl
  | keyword w =>
    cases w with
    | nullWord => obtain rfl := Option.some.inj h; rfl
    | _ => cases h
  | _ => cases h

theorem operand_named {fuel : Nat} {endLine l : Line} {n : String} {rest : List PlacedToken}
    (h : ¬ StartsCall rest) :
    operand (fuel + 1) endLine (⟨.name n, l⟩ :: rest) = trailing fuel (named n l) rest := by
  simp only [operand]
  split
  · exact absurd ⟨_, rfl, rfl⟩ h
  · rfl

theorem trailing_member {fuel : Nat} {l l' : Line} {n : String} {tree : Expr}
    {rest : List PlacedToken} (h : ¬ StartsCall rest) :
    trailing (fuel + 1) tree (⟨.mark .dot, l⟩ :: ⟨.name n, l'⟩ :: rest) =
      trailing fuel (.call "listindex" [tree, constant (.string n) l] .call l) rest := by
  simp only [trailing]
  split
  · exact absurd ⟨_, rfl, rfl⟩ h
  · rfl

/-- What the builder makes of a run that reads as a phrase, with steps in proportion to its
length. -/
def Built (ts : List PlacedToken) : Phrase → Prop
  | .expr e => ∀ fuel, 3 * ts.length + 3 ≤ fuel → build fuel ts = .ok e
  | .operators tree e =>
    ∀ fuel endLine, 3 * ts.length + 1 ≤ fuel → operators fuel endLine tree ts = .ok e
  | .operand e => ∀ fuel endLine rest, Ends rest → 3 * ts.length ≤ fuel →
      operand fuel endLine (ts ++ rest) = .ok (e, rest)
  | .trailing tree e => ∀ fuel rest, Ends rest → 3 * ts.length + 1 ≤ fuel →
      trailing fuel tree (ts ++ rest) = .ok (e, rest)
  | .arguments es => ∀ fuel, 3 * ts.length + 4 ≤ fuel → parts fuel ts = .ok es
  | .items es => ∃ runs, Joined ts runs ∧ (∀ run ∈ runs, Solid run) ∧
      ∀ fuel, 3 * ts.length + 3 ≤ fuel → runs.mapM (build fuel) = .ok es

theorem Reads.built {p : Phrase} {ts : List PlacedToken} (h : Reads p ts) : Built ts p := by
  induction h with
  | @expr tree e ts rest _ tail first later =>
    intro fuel enough
    obtain ⟨fuel, rfl⟩ : ∃ k, fuel = k + 1 := ⟨fuel - 1, by omega⟩
    rw [List.length_append] at enough
    rw [build, first fuel _ rest (ends_of_operators tail) (by omega)]
    exact later fuel _ (by omega)
  | done =>
    intro fuel endLine enough
    obtain ⟨fuel, rfl⟩ : ∃ k, fuel = k + 1 := ⟨fuel - 1, by omega⟩
    rfl
  | @operator s l tree right e ts rest binary _ tail operand later =>
    intro fuel endLine enough
    obtain ⟨fuel, rfl⟩ : ∃ k, fuel = k + 1 := ⟨fuel - 1, by omega⟩
    rw [List.length_cons, List.length_append] at enough
    simp only [operators, binary, if_true]
    rw [operand fuel endLine rest (ends_of_operators tail) (by omega)]
    exact later fuel endLine (by omega)
  | @leading s l e ts isLeading _ inner =>
    intro fuel endLine rest ends enough
    obtain ⟨fuel, rfl⟩ : ∃ k, fuel = k + 1 := ⟨fuel - 1, by simp at enough; omega⟩
    rw [List.length_cons] at enough
    simp only [List.cons_append, operand, isLeading, if_true]
    rw [inner fuel endLine rest ends (by omega)]
    rfl
  | @literal t l c e ts value _ tail =>
    intro fuel endLine rest ends enough
    obtain ⟨fuel, rfl⟩ : ∃ k, fuel = k + 1 := ⟨fuel - 1, by simp at enough; omega⟩
    rw [List.length_cons] at enough
    rw [List.cons_append, operand_literal value]
    exact tail fuel rest ends (by omega)
  | @define n l l' e ts _ tail =>
    intro fuel endLine rest ends enough
    obtain ⟨fuel, rfl⟩ : ∃ k, fuel = k + 1 := ⟨fuel - 1, by simp at enough; omega⟩
    simp only [List.length_cons] at enough
    exact tail fuel rest ends (by omega)
  | @named n l e ts uncalled _ tail =>
    intro fuel endLine rest ends enough
    obtain ⟨fuel, rfl⟩ : ∃ k, fuel = k + 1 := ⟨fuel - 1, by simp at enough; omega⟩
    simp only [List.length_cons] at enough
    rw [List.cons_append, operand_named (not_startsCall_append uncalled ends)]
    exact tail fuel rest ends (by omega)
  | @call n l l₁ l₂ es e inside ts inner _ arguments tail =>
    intro fuel endLine rest ends enough
    obtain ⟨fuel, rfl⟩ : ∃ k, fuel = k + 1 := ⟨fuel - 1, by simp at enough; omega⟩
    simp only [List.length_cons, List.length_append] at enough
    have found := group_parens inner.solid l₁ l₂ (ts ++ rest)
    simp only [List.cons_append, List.append_assoc, operand, found]
    rw [ok_bind, arguments fuel (by omega), ok_bind]
    exact tail fuel rest ends (by omega)
  | @group l l' tree e inside ts inner _ whole tail =>
    intro fuel endLine rest ends enough
    obtain ⟨fuel, rfl⟩ : ∃ k, fuel = k + 1 := ⟨fuel - 1, by simp at enough; omega⟩
    simp only [List.length_cons, List.length_append] at enough
    have found := group_parens inner.solid.nested l l' (ts ++ rest)
    simp only [List.cons_append, List.append_assoc, operand, found]
    rw [ok_bind, whole fuel (by omega), ok_bind]
    exact tail fuel rest ends (by omega)
  | @list l l' es e inside ts inner _ arguments tail =>
    intro fuel endLine rest ends enough
    obtain ⟨fuel, rfl⟩ : ∃ k, fuel = k + 1 := ⟨fuel - 1, by simp at enough; omega⟩
    simp only [List.length_cons, List.length_append] at enough
    have found := group_brackets inner.solid l l' (ts ++ rest)
    simp only [List.cons_append, List.append_assoc, operand, found]
    rw [ok_bind, arguments fuel (by omega), ok_bind]
    exact tail fuel rest ends (by omega)
  | plain =>
    intro fuel rest ends enough
    exact trailing_of_ends ends (by omega)
  | @apply l l' tree e es inside ts inner _ arguments tail =>
    intro fuel rest ends enough
    obtain ⟨fuel, rfl⟩ : ∃ k, fuel = k + 1 := ⟨fuel - 1, by omega⟩
    simp only [List.length_cons, List.length_append] at enough
    have found := group_parens inner.solid l l' (ts ++ rest)
    simp only [List.cons_append, List.append_assoc, trailing, found]
    rw [ok_bind, arguments fuel (by omega), ok_bind]
    exact tail fuel rest ends (by omega)
  | @index l l' tree i e inside ts inner _ whole tail =>
    intro fuel rest ends enough
    obtain ⟨fuel, rfl⟩ : ∃ k, fuel = k + 1 := ⟨fuel - 1, by omega⟩
    simp only [List.length_cons, List.length_append] at enough
    have found := group_brackets inner.solid.nested l l' (ts ++ rest)
    simp only [List.cons_append, List.append_assoc, trailing, found]
    rw [ok_bind, whole fuel (by omega), ok_bind]
    exact tail fuel rest ends (by omega)
  | @memberCall n l l₁ l₂ l₃ tree e es inside ts inner _ arguments tail =>
    intro fuel rest ends enough
    obtain ⟨fuel, rfl⟩ : ∃ k, fuel = k + 1 := ⟨fuel - 1, by omega⟩
    simp only [List.length_cons, List.length_append] at enough
    have found := group_parens inner.solid l₂ l₃ (ts ++ rest)
    simp only [List.cons_append, List.append_assoc, trailing, found]
    rw [ok_bind, arguments fuel (by omega), ok_bind]
    exact tail fuel rest ends (by omega)
  | @member n l l' tree e ts uncalled _ tail =>
    intro fuel rest ends enough
    obtain ⟨fuel, rfl⟩ : ∃ k, fuel = k + 1 := ⟨fuel - 1, by omega⟩
    simp only [List.length_cons] at enough
    rw [List.cons_append, List.cons_append, trailing_member (not_startsCall_append uncalled ends)]
    exact tail fuel rest ends (by omega)
  | @step s l tree e ts isTrailing _ tail =>
    intro fuel rest ends enough
    obtain ⟨fuel, rfl⟩ : ∃ k, fuel = k + 1 := ⟨fuel - 1, by omega⟩
    simp only [List.length_cons] at enough
    simp only [List.cons_append, trailing, isTrailing, if_true]
    exact tail fuel rest ends (by omega)
  | none =>
    intro fuel enough
    obtain ⟨fuel, rfl⟩ : ∃ k, fuel = k + 1 := ⟨fuel - 1, by omega⟩
    rfl
  | some _ items =>
    intro fuel enough
    obtain ⟨fuel, rfl⟩ : ∃ k, fuel = k + 1 := ⟨fuel - 1, by omega⟩
    obtain ⟨runs, joined, solid, built⟩ := items
    rw [parts, splitTopLevel_of_joined joined solid]
    exact built fuel (by omega)
  | @last e ts whole built =>
    refine ⟨[ts], .last whole.nonempty, ?_, ?_⟩
    · intro run hrun
      rw [List.mem_singleton.1 hrun]
      exact whole.solid
    · intro fuel enough
      exact mapM_build (built fuel enough) rfl
  | @more l e es ts rest whole _ built items =>
    obtain ⟨runs, joined, solid, others⟩ := items
    refine ⟨ts :: runs, .cons whole.nonempty rfl joined, ?_, ?_⟩
    · intro run hrun
      rcases List.mem_cons.1 hrun with rfl | hrun
      · exact whole.solid
      · exact solid run hrun
    · intro fuel enough
      simp only [List.length_append, List.length_cons] at enough
      exact mapM_build (built fuel (by omega)) (others fuel (by omega))

/-! ## What is built reads so -/

/-- What the results of the builder with some number of steps say about the tokens. -/
structure Sound (fuel : Nat) : Prop where
  expr : ∀ {ts e}, build fuel ts = .ok e → Reads (.expr e) ts
  operators : ∀ {endLine tree ts e},
    operators fuel endLine tree ts = .ok e → Reads (.operators tree e) ts
  operand : ∀ {endLine ts e rest}, operand fuel endLine ts = .ok (e, rest) →
    ∃ used, ts = used ++ rest ∧ Reads (.operand e) used ∧ Ends rest
  trailing : ∀ {tree ts e rest}, trailing fuel tree ts = .ok (e, rest) →
    ∃ used, ts = used ++ rest ∧ Reads (.trailing tree e) used ∧ Ends rest
  arguments : ∀ {ts es}, parts fuel ts = .ok es → Reads (.arguments es) ts

theorem StartsCall.append {ts : List PlacedToken} (h : StartsCall ts) (rest : List PlacedToken) :
    StartsCall (ts ++ rest) := by
  obtain ⟨t, ht, isParen⟩ := h
  cases ts with
  | nil => simp at ht
  | cons u _ => exact ⟨t, ht, isParen⟩

theorem Sound.build_succ {fuel : Nat} (ih : Sound fuel) {ts : List PlacedToken} {e : Expr}
    (h : build (fuel + 1) ts = .ok e) : Reads (.expr e) ts := by
  rw [build] at h
  obtain ⟨⟨first, rest⟩, hfirst, hrest⟩ := bind_eq_ok_iff.1 h
  obtain ⟨used, rfl, operand, -⟩ := ih.operand hfirst
  exact .expr operand (ih.operators hrest)

theorem Sound.operators_succ {fuel : Nat} (ih : Sound fuel) {endLine : Line} {tree e : Expr}
    {ts : List PlacedToken} (h : Expr.operators (fuel + 1) endLine tree ts = .ok e) :
    Reads (.operators tree e) ts := by
  match ts with
  | [] =>
    obtain rfl : tree = e := by simpa [Expr.operators] using h
    exact .done
  | ⟨token, l⟩ :: rest =>
    cases token with
    | symbol s =>
      simp only [Expr.operators] at h
      by_cases binary : s.isBinary = true
      · rw [if_pos binary] at h
        obtain ⟨⟨right, after⟩, hright, hafter⟩ := bind_eq_ok_iff.1 h
        obtain ⟨used, rfl, operand, -⟩ := ih.operand hright
        exact .operator binary operand (ih.operators hafter)
      · rw [if_neg binary] at h
        exact absurd h (by simp)
    | _ =>
      simp only [Expr.operators] at h
      split at h <;> exact absurd h (by simp)

/-- A group is followed by what it was cut from. -/
theorem exists_of_group {b : Bracket} {o : PlacedToken} {ts inside after : List PlacedToken}
    (opens : o.token.opens? = some b) (h : group (o :: ts) = .ok (inside, after)) :
    ∃ c, c.token.closes? = some b ∧ ts = inside ++ c :: after := by
  obtain ⟨c, closes, -, split⟩ := (group_eq_ok_iff opens).1 h
  exact ⟨c, closes, split⟩

theorem eq_rightParen {c : PlacedToken} (h : c.token.closes? = some .round) :
    c = ⟨.mark .rightParen, c.line⟩ := by
  obtain ⟨token, line⟩ := c
  cases token with
  | mark m => cases m <;> first | rfl | exact absurd h (by simp [Token.closes?])
  | _ => exact absurd h (by simp [Token.closes?])

theorem eq_rightBracket {c : PlacedToken} (h : c.token.closes? = some .square) :
    c = ⟨.mark .rightBracket, c.line⟩ := by
  obtain ⟨token, line⟩ := c
  cases token with
  | mark m => cases m <;> first | rfl | exact absurd h (by simp [Token.closes?])
  | _ => exact absurd h (by simp [Token.closes?])

/-- A call or a name, as the operand before and the member after a dot tell them apart. -/
theorem startsCall_cases (ts : List PlacedToken) :
    ¬ StartsCall ts ∨ ∃ l rest, ts = ⟨.mark .leftParen, l⟩ :: rest := by
  by_cases starts : StartsCall ts
  · obtain ⟨t, ht, isParen⟩ := starts
    cases ts with
    | nil => simp at ht
    | cons u rest =>
      obtain rfl : u = t := by simpa using ht
      obtain ⟨token, l⟩ := u
      obtain rfl : token = .mark .leftParen := isParen
      exact .inr ⟨l, rest, rfl⟩
  · exact .inl starts

/-- What the builder says of a run in front of what is left. -/
def Split (p : Phrase) (ts rest : List PlacedToken) : Prop :=
  ∃ used, ts = used ++ rest ∧ Reads p used ∧ Ends rest

theorem Split.stop {tree e : Expr} {t : PlacedToken} {ts rest : List PlacedToken}
    (stops : trails t.token = false)
    (same : Except.ok (tree, t :: ts) = (.ok (e, rest) : Except SyntaxError _)) :
    Split (.trailing tree e) (t :: ts) rest := by
  obtain ⟨rfl, rfl⟩ : tree = e ∧ t :: ts = rest := by simpa using same
  refine ⟨[], rfl, .plain, ?_⟩
  rintro u ⟨⟩
  exact stops

theorem not_startsCall_of_append {used rest : List PlacedToken} (h : ¬ StartsCall (used ++ rest)) :
    ¬ StartsCall used := fun starts => h (starts.append rest)

theorem Sound.trailing_succ {fuel : Nat} (ih : Sound fuel) {tree e : Expr}
    {ts rest : List PlacedToken} (h : Expr.trailing (fuel + 1) tree ts = .ok (e, rest)) :
    Split (.trailing tree e) ts rest := by
  match ts with
  | [] =>
    obtain ⟨rfl, rfl⟩ : tree = e ∧ [] = rest := by simpa [Expr.trailing] using h
    exact ⟨[], rfl, .plain, by intro t ht; simp at ht⟩
  | ⟨token, l⟩ :: tail =>
    cases token with
    | symbol s =>
      by_cases isTrailing : s.isTrailing = true
      · simp only [Expr.trailing, isTrailing, if_true] at h
        obtain ⟨used, rfl, read, ends⟩ := ih.trailing h
        exact ⟨_ :: used, rfl, .step isTrailing read, ends⟩
      · rw [Bool.not_eq_true] at isTrailing
        simp only [Expr.trailing, isTrailing, Bool.false_eq_true, if_false] at h
        exact .stop isTrailing h
    | mark m =>
      cases m with
      | leftParen =>
        simp only [Expr.trailing] at h
        obtain ⟨⟨inside, after⟩, hgroup, hcall⟩ := bind_eq_ok_iff.1 h
        obtain ⟨es, hes, htail⟩ := bind_eq_ok_iff.1 hcall
        obtain ⟨c, closes, rfl⟩ := exists_of_group rfl hgroup
        obtain ⟨used, rfl, read, ends⟩ := ih.trailing htail
        rw [eq_rightParen closes]
        exact ⟨⟨.mark .leftParen, l⟩ :: (inside ++ ⟨.mark .rightParen, c.line⟩ :: used), by simp,
          .apply (ih.arguments hes) read, ends⟩
      | leftBracket =>
        simp only [Expr.trailing] at h
        obtain ⟨⟨inside, after⟩, hgroup, hindex⟩ := bind_eq_ok_iff.1 h
        obtain ⟨i, hi, htail⟩ := bind_eq_ok_iff.1 hindex
        obtain ⟨c, closes, rfl⟩ := exists_of_group rfl hgroup
        obtain ⟨used, rfl, read, ends⟩ := ih.trailing htail
        rw [eq_rightBracket closes]
        exact ⟨⟨.mark .leftBracket, l⟩ :: (inside ++ ⟨.mark .rightBracket, c.line⟩ :: used), by simp,
          .index (ih.expr hi) read, ends⟩
      | dot =>
        match tail with
        | [] => simp [Expr.trailing] at h
        | ⟨.name n, l'⟩ :: tail =>
          rcases startsCall_cases tail with uncalled | ⟨l₂, tail, rfl⟩
          · rw [trailing_member uncalled] at h
            obtain ⟨used, rfl, read, ends⟩ := ih.trailing h
            exact ⟨_ :: _ :: used, rfl, .member (not_startsCall_of_append uncalled) read, ends⟩
          · simp only [Expr.trailing] at h
            obtain ⟨⟨inside, after⟩, hgroup, hcall⟩ := bind_eq_ok_iff.1 h
            obtain ⟨es, hes, htail⟩ := bind_eq_ok_iff.1 hcall
            obtain ⟨c, closes, rfl⟩ := exists_of_group rfl hgroup
            obtain ⟨used, rfl, read, ends⟩ := ih.trailing htail
            rw [eq_rightParen closes]
            exact ⟨⟨.mark .dot, l⟩ :: ⟨.name n, l'⟩ :: ⟨.mark .leftParen, l₂⟩ ::
              (inside ++ ⟨.mark .rightParen, c.line⟩ :: used), by simp,
              .memberCall (ih.arguments hes) read, ends⟩
        | ⟨.int _, _⟩ :: _ | ⟨.float _, _⟩ :: _ | ⟨.string _, _⟩ :: _ | ⟨.bool _, _⟩ :: _
        | ⟨.keyword _, _⟩ :: _ | ⟨.symbol _, _⟩ :: _ | ⟨.mark _, _⟩ :: _ =>
          simp [Expr.trailing] at h
      | _ => exact .stop rfl h
    | _ => exact .stop rfl h

theorem Sound.operand_succ {fuel : Nat} (ih : Sound fuel) {endLine : Line} {e : Expr}
    {ts rest : List PlacedToken} (h : Expr.operand (fuel + 1) endLine ts = .ok (e, rest)) :
    Split (.operand e) ts rest := by
  match ts with
  | [] => simp [Expr.operand] at h
  | ⟨token, l⟩ :: tail =>
    cases value : literal? token with
    | some c =>
      rw [operand_literal value] at h
      obtain ⟨used, rfl, read, ends⟩ := ih.trailing h
      exact ⟨_ :: used, rfl, .literal value read, ends⟩
    | none =>
      cases token with
      | symbol s =>
        by_cases isLeading : s.isLeading = true
        · simp only [Expr.operand, isLeading, if_true] at h
          obtain ⟨⟨inner, after⟩, hinner, hrest⟩ := bind_eq_ok_iff.1 h
          obtain ⟨used, rfl, read, ends⟩ := ih.operand hinner
          obtain ⟨rfl, rfl⟩ : leading s inner l = e ∧ after = rest := by
            simpa [pure, Except.pure] using hrest
          exact ⟨_ :: used, rfl, .leading isLeading read, ends⟩
        · simp [Expr.operand, isLeading] at h
      | keyword w =>
        cases w with
        | varWord =>
          match tail with
          | [] => simp [Expr.operand] at h
          | ⟨.name n, l'⟩ :: tail =>
            obtain ⟨used, rfl, read, ends⟩ := ih.trailing (show Expr.trailing _ _ _ = _ from h)
            exact ⟨_ :: _ :: used, rfl, .define read, ends⟩
          | ⟨.int _, _⟩ :: _ | ⟨.float _, _⟩ :: _ | ⟨.string _, _⟩ :: _ | ⟨.bool _, _⟩ :: _
          | ⟨.keyword _, _⟩ :: _ | ⟨.symbol _, _⟩ :: _ | ⟨.mark _, _⟩ :: _ =>
            simp [Expr.operand] at h
        | nullWord => cases value
        | _ => simp only [Expr.operand, value, reduceCtorEq] at h
      | name n =>
        rcases startsCall_cases tail with uncalled | ⟨l₁, tail, rfl⟩
        · rw [operand_named uncalled] at h
          obtain ⟨used, rfl, read, ends⟩ := ih.trailing h
          exact ⟨_ :: used, rfl, .named (not_startsCall_of_append uncalled) read, ends⟩
        · simp only [Expr.operand] at h
          obtain ⟨⟨inside, after⟩, hgroup, hcall⟩ := bind_eq_ok_iff.1 h
          obtain ⟨es, hes, htail⟩ := bind_eq_ok_iff.1 hcall
          obtain ⟨c, closes, rfl⟩ := exists_of_group rfl hgroup
          obtain ⟨used, rfl, read, ends⟩ := ih.trailing htail
          rw [eq_rightParen closes]
          exact ⟨⟨.name n, l⟩ :: ⟨.mark .leftParen, l₁⟩ ::
            (inside ++ ⟨.mark .rightParen, c.line⟩ :: used), by simp,
            .call (ih.arguments hes) read, ends⟩
      | mark m =>
        cases m with
        | leftParen =>
          simp only [Expr.operand] at h
          obtain ⟨⟨inside, after⟩, hgroup, hwhole⟩ := bind_eq_ok_iff.1 h
          obtain ⟨tree, htree, htail⟩ := bind_eq_ok_iff.1 hwhole
          obtain ⟨c, closes, rfl⟩ := exists_of_group rfl hgroup
          obtain ⟨used, rfl, read, ends⟩ := ih.trailing htail
          rw [eq_rightParen closes]
          exact ⟨⟨.mark .leftParen, l⟩ :: (inside ++ ⟨.mark .rightParen, c.line⟩ :: used), by simp,
            .group (ih.expr htree) read, ends⟩
        | leftBracket =>
          simp only [Expr.operand] at h
          obtain ⟨⟨inside, after⟩, hgroup, hlist⟩ := bind_eq_ok_iff.1 h
          obtain ⟨es, hes, htail⟩ := bind_eq_ok_iff.1 hlist
          obtain ⟨c, closes, rfl⟩ := exists_of_group rfl hgroup
          obtain ⟨used, rfl, read, ends⟩ := ih.trailing htail
          rw [eq_rightBracket closes]
          exact ⟨⟨.mark .leftBracket, l⟩ :: (inside ++ ⟨.mark .rightBracket, c.line⟩ :: used),
            by simp, .list (ih.arguments hes) read, ends⟩
        | _ => simp only [Expr.operand, value, reduceCtorEq] at h
      | _ => cases value

theorem Sound.items {fuel : Nat} (ih : Sound fuel) {ts : List PlacedToken}
    {runs : List (List PlacedToken)} (joined : Joined ts runs) {es : List Expr}
    (h : runs.mapM (build fuel) = .ok es) : Reads (.items es) ts := by
  induction joined generalizing es with
  | last _ =>
    rw [List.mapM_cons] at h
    obtain ⟨e, he, hes⟩ := bind_eq_ok_iff.1 h
    obtain rfl : [e] = es := by simpa [pure, Except.pure, bind, Except.bind] using hes
    exact .last (ih.expr he)
  | @cons part rest comma parts _ isComma _ others =>
    rw [List.mapM_cons] at h
    obtain ⟨e, he, hes⟩ := bind_eq_ok_iff.1 h
    obtain ⟨later, hlater, hes⟩ := bind_eq_ok_iff.1 hes
    obtain rfl : e :: later = es := by simpa [pure, Except.pure] using hes
    obtain ⟨token, l⟩ := comma
    obtain rfl : token = .mark .comma := by simpa [Token.isComma] using isComma
    exact .more (ih.expr he) (others hlater)

theorem Sound.parts_succ {fuel : Nat} (ih : Sound fuel) {ts : List PlacedToken} {es : List Expr}
    (h : parts (fuel + 1) ts = .ok es) : Reads (.arguments es) ts := by
  rw [parts] at h
  obtain ⟨runs, hruns, hes⟩ := bind_eq_ok_iff.1 h
  rcases joined_of_splitTopLevel hruns with ⟨rfl, rfl⟩ | joined
  · obtain rfl : [] = es := by simpa [pure, Except.pure] using hes
    exact .none
  · exact .some (ih.items joined hes)

theorem sound (fuel : Nat) : Sound fuel := by
  induction fuel with
  | zero => constructor <;> intros <;> simp_all [build, operators, operand, trailing, parts]
  | succ fuel ih =>
    exact ⟨ih.build_succ, ih.operators_succ, ih.operand_succ, ih.trailing_succ, ih.parts_succ⟩

/-- The builder makes a tree of a run of tokens exactly when the run reads as that tree. -/
theorem ofTokens_eq_ok_iff {ts : List PlacedToken} {e : Expr} :
    ofTokens ts = .ok e ↔ Reads (.expr e) ts :=
  ⟨(sound _).expr, fun h => h.built _ (Nat.le_refl _)⟩

end Scriptlet.Expr
