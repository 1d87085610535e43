import Scriptlet.Proofs.Expr.Reading
import Scriptlet.Proofs.Statement.Lines

/-!
# The lines of an expression

Every line in the tree of a run of tokens is the line of one of these tokens. The line of the tree
itself is that of the token that its root was made of, which is seldom the first token.
-/

namespace Scriptlet.Expr

variable {q : Line → Prop} {l : Line} {tree e : Expr}

theorem EachLine.single (inside : e.EachLine q) : ∀ u ∈ [e], u.EachLine q := by
  intro u member
  rw [List.mem_singleton.1 member]
  exact inside

theorem EachLine.cons (first : e.EachLine q) {es : List Expr} (rest : ∀ u ∈ es, u.EachLine q) :
    ∀ u ∈ e :: es, u.EachLine q := by
  intro u member
  rcases List.mem_cons.1 member with rfl | member
  · exact first
  · exact rest u member

theorem eachLine_grouped (inside : tree.EachLine q) : tree.grouped.EachLine q := by
  cases inside with
  | constant here => exact .constant here
  | named here => exact .named here
  | define here => exact .define here
  | call arguments here => exact .call arguments here
  | list elements here => exact .list elements here

theorem eachLine_leading (s : Symbol) (inside : e.EachLine q) (here : q l) :
    (leading s e l).EachLine q := by
  unfold leading
  split
  · split
    · exact .constant inside.line
    · exact .call inside.single here
  · exact .constant inside.line
  · exact .call inside.single here

theorem eachLine_ofElements {es : List Expr} (inside : ∀ e ∈ es, e.EachLine q) (here : q l) :
    (ofElements es l).EachLine q := by
  unfold ofElements
  split
  · exact .constant here
  · exact .list inside here

mutual

theorem eachLine_insertOperator {op : String} {operand : Expr} (right : operand.EachLine q)
    (here : q l) :
    ∀ {tree : Expr}, tree.EachLine q → (insertOperator op operand l tree).EachLine q
  | .call f es p l', h => by
    cases h with
    | call arguments there =>
      rw [insertOperator]
      split
      · exact .call (eachLine_insertLast right here arguments) there
      · exact .call ((EachLine.call arguments there).cons right.single) here
  | .constant _ _, h => .call (h.cons right.single) here
  | .named _ _, h => .call (h.cons right.single) here
  | .define _ _, h => .call (h.cons right.single) here
  | .list _ _, h => .call (h.cons right.single) here

theorem eachLine_insertLast {op : String} {operand : Expr} (right : operand.EachLine q)
    (here : q l) : ∀ {es : List Expr}, (∀ e ∈ es, e.EachLine q) →
      ∀ e ∈ insertLast op operand l es, e.EachLine q
  | [], _ => by simp [insertLast]
  | [last], h => by
    rw [insertLast]
    exact (eachLine_insertOperator right here (h last List.mem_cons_self)).single
  | first :: next :: rest, h => by
    rw [insertLast]
    exact (h first List.mem_cons_self).cons
      (eachLine_insertLast right here fun e member => h e (List.mem_cons_of_mem _ member))

end

/-- Reading makes trees of the lines of tokens, and of the lines of the tree before them if there
is one. -/
theorem Reads.eachLine {p : Phrase} {ts : List PlacedToken} (h : Reads p ts)
    (on : ∀ t ∈ ts, q t.line) :
    match p with
    | .expr e | .operand e => e.EachLine q
    | .operators tree e | .trailing tree e => tree.EachLine q → e.EachLine q
    | .arguments es | .items es => ∀ e ∈ es, e.EachLine q := by
  induction h with
  | expr _ _ first rest =>
    exact rest (fun t ht => on t (List.mem_append_right _ ht))
      (first fun t ht => on t (List.mem_append_left _ ht))
  | done | plain => exact id
  | operator _ _ _ right later =>
    have operand := right fun t ht => on t (by simp [ht])
    exact fun before => later (fun t ht => on t (by simp [ht]))
      (eachLine_insertOperator operand (on _ List.mem_cons_self) before)
  | leading _ _ inner =>
    exact eachLine_leading _ (inner fun t ht => on t (List.mem_cons_of_mem _ ht))
      (on _ List.mem_cons_self)
  | literal _ _ rest =>
    exact rest (fun t ht => on t (List.mem_cons_of_mem _ ht)) (.constant (on _ List.mem_cons_self))
  | define _ rest =>
    exact rest (fun t ht => on t (by simp [ht])) (.define (on _ List.mem_cons_self))
  | named _ _ rest =>
    exact rest (fun t ht => on t (List.mem_cons_of_mem _ ht)) (.named (on _ List.mem_cons_self))
  | call _ _ arguments rest =>
    exact rest (fun t ht => on t (by simp [ht]))
      (.call (arguments fun t ht => on t (by simp [ht])) (on _ List.mem_cons_self))
  | group _ _ inner rest =>
    exact rest (fun t ht => on t (by simp [ht]))
      (eachLine_grouped (inner fun t ht => on t (by simp [ht])))
  | list _ _ elements rest =>
    exact rest (fun t ht => on t (by simp [ht]))
      (eachLine_ofElements (elements fun t ht => on t (by simp [ht])) (on _ List.mem_cons_self))
  | apply _ _ arguments rest =>
    have operands := arguments fun t ht => on t (by simp [ht])
    exact fun before => rest (fun t ht => on t (by simp [ht]))
      (.call (before.cons operands) (on _ List.mem_cons_self))
  | index _ _ key rest =>
    have operand := key fun t ht => on t (by simp [ht])
    exact fun before => rest (fun t ht => on t (by simp [ht]))
      (.call (before.cons operand.single) (on _ List.mem_cons_self))
  | memberCall _ _ arguments rest =>
    have here := on _ List.mem_cons_self
    have operands := arguments fun t ht => on t (by simp [ht])
    exact fun before => rest (fun t ht => on t (by simp [ht]))
      (.call (EachLine.cons (.constant here) (before.cons operands)) here)
  | member _ _ rest =>
    have here := on _ List.mem_cons_self
    exact fun before => rest (fun t ht => on t (by simp [ht]))
      (.call (before.cons (EachLine.single (.constant here))) here)
  | step _ _ rest =>
    exact fun before => rest (fun t ht => on t (List.mem_cons_of_mem _ ht))
      (.call before.single (on _ List.mem_cons_self))
  | none =>
    intro e member
    cases member
  | some _ items => exact items on
  | last _ inner => exact (inner on).single
  | more _ _ first others =>
    exact (first fun t ht => on t (by simp [ht])).cons (others fun t ht => on t (by simp [ht]))

/-- What holds of the line of each token holds of the lines in the expression. -/
theorem eachLine_of_ofTokens {ts : List PlacedToken} (built : ofTokens ts = .ok e)
    (on : ∀ t ∈ ts, q t.line) : e.EachLine q :=
  (ofTokens_eq_ok_iff.1 built).eachLine on

/-- What holds of the line of each token holds of the line of the expression. -/
theorem line_of_ofTokens {ts : List PlacedToken} (built : ofTokens ts = .ok e)
    (on : ∀ t ∈ ts, q t.line) : q e.line :=
  (eachLine_of_ofTokens built on).line

end Scriptlet.Expr
