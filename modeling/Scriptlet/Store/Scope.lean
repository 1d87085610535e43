import Scriptlet.Store

/-!
# Scopes in the store

Names are defined at one level and looked up along the chain of parents. A value is
looked for among the variables of a level before its functions, a function among the
functions before the variables that hold one.
-/

namespace Scriptlet.Store

/-! ## One level -/

/-- A variable defined at this level. -/
def variableAt? (s : Store) (r : ScopeRef) (name : String) : Option Value :=
  (s.scope r).vars.get? name

/-- A function registered at this level. -/
def functionAt? (s : Store) (r : ScopeRef) (name : String) : Option FunctionRef :=
  (s.scope r).functions.get? name

/-- A value of this level: a variable, else a function. -/
def valueAt? (s : Store) (r : ScopeRef) (name : String) : Option Value :=
  match s.variableAt? r name with
  | some v => some v
  | none => (s.functionAt? r name).map .function

/-- What can be called at this level: a function, else a variable that holds one. -/
def callableAt? (s : Store) (r : ScopeRef) (name : String) : Option FunctionRef :=
  match s.functionAt? r name, s.variableAt? r name with
  | some f, _ => some f
  | none, some (.function f) => some f
  | none, _ => none

/-- The store in which a variable is defined at a level. -/
def setVariable (s : Store) (r : ScopeRef) (name : String) (v : Value) : Store :=
  s.modifyScope r fun scope => { scope with vars := scope.vars.insert name v }

/-- The store in which a function is registered at a level under its own name. -/
def addFunction (s : Store) (r : ScopeRef) (f : FunctionRef) : Store :=
  let name := (s.function f).name
  s.modifyScope r fun scope => { scope with functions := scope.functions.insert name f }

/-- The store in which a scope is registered at a level under a name. -/
def addScope (s : Store) (r : ScopeRef) (name : String) (sub : ScopeRef) : Store :=
  s.modifyScope r fun scope => { scope with scopes := scope.scopes.insert name sub }

/-- A new scope inside another one. -/
def child (s : Store) (parent : ScopeRef) (name : String) (isClass : Bool) : ScopeRef × Store :=
  s.newScope (.new name (some parent) isClass)

/-! ## The chain of parents -/

/-- At most `fuel` scopes, from a scope outward. -/
def outward (s : Store) : (fuel : Nat) → ScopeRef → List ScopeRef
  | 0, _ => []
  | fuel + 1, r => r :: (s.scope r).parent.elim [] (s.outward fuel)

/-- A scope and those around it, innermost first; a scope is younger than its parent. -/
def chain (s : Store) (r : ScopeRef) : List ScopeRef := s.outward s.scopes.size r

/-- The value of a name. -/
def findValue? (s : Store) (r : ScopeRef) (name : String) : Option Value :=
  (s.chain r).findSome? (s.valueAt? · name)

/-- The nearest scope that defines a variable. -/
def findVariableScope? (s : Store) (r : ScopeRef) (name : String) : Option ScopeRef :=
  (s.chain r).find? fun r => (s.variableAt? r name).isSome

/-- The function that a call of a name runs. -/
def findFunction? (s : Store) (r : ScopeRef) (name : String) : Option FunctionRef :=
  (s.chain r).findSome? (s.callableAt? · name)

/-- The nearest scope registered under a name. -/
def findScope? (s : Store) (r : ScopeRef) (name : String) : Option ScopeRef :=
  (s.chain r).findSome? fun r => (s.scope r).scopes.get? name

/-- The nearest class scope, the scope itself included. -/
def nearestClassScope? (s : Store) (r : ScopeRef) : Option ScopeRef :=
  (s.chain r).find? fun r => (s.scope r).isClass

/-! ## Class instances -/

/-- A new instance: a class scope beside its template, with what the template holds. -/
def instantiate (s : Store) (name : String) (template : ScopeRef) : ScopeRef × Store :=
  let t := s.scope template
  s.newScope
    { Scope.new name t.parent true with vars := t.vars, functions := t.functions }

end Scriptlet.Store
