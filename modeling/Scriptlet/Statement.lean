import Scriptlet.Expr

/-!
# Statements

A script is a list of statements. Definitions, control flow and imports are statements
of their own; anything else is an expression.
-/

namespace Scriptlet

mutual

/-- Statements. -/
inductive Stmt where
  | expr (e : Expr)
  /-- A new variable of the current scope with a first value. -/
  | define (name : String) (initializer : Expr) (line : Line)
  | function (name : String) (parameters : List String) (body : List Stmt) (line : Line)
  | classDef (name : String) (bases : List String) (body : List Stmt) (line : Line)
  | block (body : List Stmt) (line : Line)
  | ret (value : Option Expr) (line : Line)
  | loop (init test iterate : Option Expr) (body : List Stmt) (line : Line)
  | foreach (name : String) (source : Expr) (body : List Stmt) (line : Line)
  | choice (branches : List Branch) (line : Line)
  | importFile (path : String) (line : Line)

/-- A branch of an `if` chain; a plain `else` has no test. -/
inductive Branch where
  | mk (test : Option Expr) (body : List Stmt) (line : Line)

end

/-- The test of a branch. -/
def Branch.test : Branch → Option Expr
  | mk test _ _ => test

/-- The statements of a branch. -/
def Branch.body : Branch → List Stmt
  | mk _ body _ => body

/-- The line of a branch. -/
def Branch.line : Branch → Line
  | mk _ _ line => line

/-- The line of a statement. -/
def Stmt.line : Stmt → Line
  | expr e => e.line
  | define _ _ line | function _ _ _ line | classDef _ _ _ line | block _ line | ret _ line
  | loop _ _ _ _ line | foreach _ _ _ line | choice _ line | importFile _ line => line

end Scriptlet
