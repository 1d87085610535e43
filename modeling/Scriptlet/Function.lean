import Scriptlet.Builtin
import Scriptlet.OrderedMap
import Scriptlet.Statement

/-!
# Functions and scopes

A function is a value with an identity: what it is called, what runs when it is called,
and the scope it was defined in. A scope is a named environment of variables, functions
and sub-scopes; the parent links are the lexical lookup chain.
-/

namespace Scriptlet

/-- How a function relates to classes. -/
inductive FunctionKind where
  | free
  /-- The function that a class name stands for; a call builds an instance. -/
  | constructor
  /-- A function defined in a class body. -/
  | method
  deriving DecidableEq, Repr

/-- What a function of the host is given besides its arguments. -/
inductive HostStyle where
  /-- Nothing. -/
  | plain
  /-- The scope of the call. -/
  | scoped
  /-- The scope of the call and the class instance it is called on. -/
  | classAware
  deriving DecidableEq, Repr

/-- A function of the host, by its place in the host's table. -/
structure HostRef where
  index : Nat
  deriving DecidableEq, Repr

/-- What runs when a function is called. -/
inductive FunctionBody where
  | script (statements : List Stmt)
  | builtin (b : Builtin)
  /-- The builtin that applies a function, or the name of one, to arguments. -/
  | apply
  /-- What a constructor does with the template of its class. -/
  | construct (template : ScopeRef)
  | host (style : HostStyle) (code : HostRef)

/-- A function. -/
structure Function where
  name : String
  kind : FunctionKind
  parameters : List String
  body : FunctionBody
  /-- The scope of the definition. -/
  environment : Option ScopeRef

/-- The binding strength of a function, by its name. -/
def Function.precedence (f : Function) : Precedence := .ofName f.name

/-- The scopes that a function refers to. -/
def Function.scopes (f : Function) : List ScopeRef :=
  match f.body with
  | .construct template => template :: f.environment.toList
  | _ => f.environment.toList

/-- An environment. Class scopes are templates of classes and the member storage of instances. -/
structure Scope where
  name : String
  parent : Option ScopeRef
  isClass : Bool
  vars : OrderedMap String Value
  functions : OrderedMap String FunctionRef
  scopes : OrderedMap String ScopeRef

/-- A scope without contents. -/
def Scope.new (name : String) (parent : Option ScopeRef) (isClass : Bool) : Scope :=
  ⟨name, parent, isClass, .empty, .empty, .empty⟩

instance : Inhabited Scope := ⟨.new "" none false⟩

instance : Inhabited Function := ⟨⟨"", .free, [], .apply, none⟩⟩

end Scriptlet
