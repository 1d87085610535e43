import Scriptlet.Statement.Reader

/-!
# The lines in a tree

What is said of every line in an expression or a statement: of the line of each node, however deep
it lies in it. Statements of which it is said contain imports only if they may (`imports`).
-/

namespace Scriptlet

/-- Whether something holds of every line in an expression. -/
inductive Expr.EachLine (q : Line → Prop) : Expr → Prop where
  | constant {c : Constant} {l : Line} : q l → EachLine q (.constant c l)
  | named {name : String} {l : Line} : q l → EachLine q (.named name l)
  | define {name : String} {l : Line} : q l → EachLine q (.define name l)
  | call {f : String} {es : List Expr} {p : Precedence} {l : Line} :
      (∀ e ∈ es, EachLine q e) → q l → EachLine q (.call f es p l)
  | list {es : List Expr} {l : Line} : (∀ e ∈ es, EachLine q e) → q l → EachLine q (.list es l)

/-- Whether something holds of every line in a statement. -/
inductive Stmt.EachLine (q : Line → Prop) (imports : Prop) : Stmt → Prop where
  | expr {e : Expr} : e.EachLine q → EachLine q imports (.expr e)
  | define {name : String} {e : Expr} {l : Line} : e.EachLine q → q l →
      EachLine q imports (.define name e l)
  | function {name : String} {ps : List String} {body : List Stmt} {l : Line} :
      (∀ s ∈ body, EachLine q imports s) → q l → EachLine q imports (.function name ps body l)
  | classDef {name : String} {bases : List String} {body : List Stmt} {l : Line} :
      (∀ s ∈ body, EachLine q imports s) → q l → EachLine q imports (.classDef name bases body l)
  | block {body : List Stmt} {l : Line} : (∀ s ∈ body, EachLine q imports s) → q l →
      EachLine q imports (.block body l)
  | ret {value : Option Expr} {l : Line} : (∀ e ∈ value, e.EachLine q) → q l →
      EachLine q imports (.ret value l)
  | loop {init test iterate : Option Expr} {body : List Stmt} {l : Line} :
      (∀ e ∈ init, e.EachLine q) → (∀ e ∈ test, e.EachLine q) → (∀ e ∈ iterate, e.EachLine q) →
        (∀ s ∈ body, EachLine q imports s) → q l →
          EachLine q imports (.loop init test iterate body l)
  | foreach {name : String} {source : Expr} {body : List Stmt} {l : Line} : source.EachLine q →
      (∀ s ∈ body, EachLine q imports s) → q l → EachLine q imports (.foreach name source body l)
  | choice {branches : List Branch} {l : Line} : (∀ b ∈ branches, ∀ e ∈ b.test, e.EachLine q) →
      (∀ b ∈ branches, ∀ s ∈ b.body, EachLine q imports s) → q l →
        EachLine q imports (.choice branches l)
  | importFile {path : String} {l : Line} : imports → q l → EachLine q imports (.importFile path l)

variable {q : Line → Prop} {imports : Prop}

theorem Expr.EachLine.line {e : Expr} (h : e.EachLine q) : q e.line := by
  cases h with
  | constant here | named here | define here | call _ here | list _ here => exact here

/-- What holds of every line holds of those in an expression. -/
theorem Expr.eachLine_of_all (all : ∀ l, q l) : ∀ e : Expr, e.EachLine q
  | .constant _ l => .constant (all l)
  | .named _ l => .named (all l)
  | .define _ l => .define (all l)
  | .call _ es _ l => .call (fun e _ => eachLine_of_all all e) (all l)
  | .list es l => .list (fun e _ => eachLine_of_all all e) (all l)

theorem Branch.sizeOf_lt_of_mem {b : Branch} {s : Stmt} (inside : s ∈ b.body) :
    sizeOf s < sizeOf b := by
  obtain ⟨test, body, l⟩ := b
  have smaller : sizeOf s < sizeOf body := List.sizeOf_lt_of_mem inside
  simp only [Branch.mk.sizeOf_spec]
  omega

/-- What holds of every line holds of those in a statement. -/
theorem Stmt.eachLine_of_all (all : ∀ l, q l) (may : imports) : ∀ s : Stmt, s.EachLine q imports
  | .expr e => .expr (e.eachLine_of_all all)
  | .define _ e l => .define (e.eachLine_of_all all) (all l)
  | .function _ _ body l => .function (fun s _ => eachLine_of_all all may s) (all l)
  | .classDef _ _ body l => .classDef (fun s _ => eachLine_of_all all may s) (all l)
  | .block body l => .block (fun s _ => eachLine_of_all all may s) (all l)
  | .ret _ l => .ret (fun e _ => e.eachLine_of_all all) (all l)
  | .loop _ _ _ body l =>
    .loop (fun e _ => e.eachLine_of_all all) (fun e _ => e.eachLine_of_all all)
      (fun e _ => e.eachLine_of_all all) (fun s _ => eachLine_of_all all may s) (all l)
  | .foreach _ source body l =>
    .foreach (source.eachLine_of_all all) (fun s _ => eachLine_of_all all may s) (all l)
  | .choice branches l =>
    .choice (fun _ _ e _ => e.eachLine_of_all all)
      (fun b member s inside =>
        have _smaller : sizeOf s < sizeOf branches :=
          Nat.lt_trans (Branch.sizeOf_lt_of_mem inside) (List.sizeOf_lt_of_mem member)
        eachLine_of_all all may s) (all l)
  | .importFile _ l => .importFile may (all l)
termination_by s => sizeOf s
decreasing_by
  all_goals simp_wf
  all_goals first
    | omega
    | (have smaller := List.sizeOf_lt_of_mem ‹_ ∈ body›; omega)

end Scriptlet
