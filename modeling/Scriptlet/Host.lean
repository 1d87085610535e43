import Scriptlet.FileRequest
import Scriptlet.Store.Scope

/-!
# Functions of the host

What a host function does when it is called is an `Action`: a step of evaluation that it
asks for and what it does with the result, until it ends in a value or an error.
-/

namespace Scriptlet.Host

/-- A call of a host function. -/
structure Call where
  arguments : List Value
  /-- The class instance that it is called on. -/
  receiver : Option ScopeRef
  /-- The scope of the call. -/
  scope : ScopeRef
  line : Line

/-- What a host function does. -/
inductive Action where
  | finish (result : Except RuntimeError Value)
  /-- A look at the store. -/
  | look (next : Store → Action)
  | file (request : FileRequest) (next : FileAnswer → Action)
  /-- A variable set at the level of a scope. -/
  | assign (scope : ScopeRef) (name : String) (v : Value) (next : Action)
  | makeList (items : List Value) (next : Value → Action)
  | invoke (f : FunctionRef) (arguments : List Value) (receiver : Option ScopeRef) (line : Line)
      (next : Except RuntimeError Value → Action)
  | callMember (receiver : Value) (name : String) (arguments : List Value) (line : Line)
      (next : Except RuntimeError Value → Action)
  | runScript (source : String) (next : Except Error Value → Action)

/-- The end with a value. -/
def Action.value (v : Value) : Action := .finish (.ok v)

/-- The end with an error. -/
def Action.error (e : RuntimeError) : Action := .finish (.error e)

/-- What a host function does for a call. -/
abbrev Code := Call → Action

/-- The argument at a place, null if there is none. -/
def Call.argument (c : Call) (i : Nat) : Value := c.arguments[i]?.getD .null

end Scriptlet.Host
