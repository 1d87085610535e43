import Scriptlet.Store.Census
import Scriptlet.Store.Scope

/-!
# Closing scopes

A scope that evaluation has left is emptied unless something may still need it: a
function that was defined in it and is referred to from elsewhere, or any reference to
the scope itself. The links back to it from its own functions and named sub-scopes do
not count.
-/

namespace Scriptlet

/-- A scope without its contents. -/
def Scope.cleared (scope : Scope) : Scope :=
  { scope with vars := .empty, functions := .empty, scopes := .empty }

namespace Store

/-! ## Emptying -/

/-- The number of links to named sub-scopes. -/
def namedLinks (s : Store) : Nat := (s.scopes.toList.flatMap (·.scopes.values)).length

/-- The store with some scopes and all that they name emptied, at most `fuel` of them. -/
def teardownWithin (s : Store) : (fuel : Nat) → (pending : List ScopeRef) → Store
  | fuel + 1, r :: pending =>
    (s.modifyScope r Scope.cleared).teardownWithin fuel ((s.scope r).scopes.values ++ pending)
  | _, _ => s

/-- The store with a scope and all named sub-scopes below it emptied. Every link is followed
once, since the scope that holds it is emptied. -/
def teardown (s : Store) (r : ScopeRef) : Store :=
  if (s.scope r).scopes.isEmpty then s.modifyScope r Scope.cleared
  else s.teardownWithin (s.namedLinks + 1) [r]

/-! ## What a scope is needed for -/

/-- The number of links back to a scope from its own functions and named sub-scopes. -/
def selfReferences (s : Store) (r : ScopeRef) : Nat :=
  let scope := s.scope r
  (scope.functions.values.filter fun f => (s.function f).environment = some r).length +
    (scope.scopes.values.filter fun sub => (s.scope sub).parent = some r).length

/-- Whether a scope is needed by the references that a census counts. -/
def isNeededBy (s : Store) (c : Census) (r : ScopeRef) : Bool :=
  (s.scope r).functions.values.any (fun f => s.countIn c (.function f) > 1) ||
    s.countIn c (.scope r) > 1 + s.selfReferences r

/-- Whether a scope is needed after it has been left, where `held` are the values that are in
use, without the scope itself. What all references together do not need, no census does. -/
def isNeeded (s : Store) (held : List Value) (r : ScopeRef) : Bool :=
  let all := s.references (.object r :: held)
  s.isNeededBy all r && s.isNeededBy (s.census all) r

/-- Whether a scope is kept when it is closed, and the store after it. -/
def close (s : Store) (held : List Value) (r : ScopeRef) : Bool × Store :=
  if s.isNeeded held r then (true, s) else (false, s.teardown r)

/-! ## Leaving -/

/-- Whether a scope holds no functions or sub-scopes and nothing younger refers to it. -/
def isPlain (s : Store) (r : ScopeRef) : Bool :=
  let scope := s.scope r
  scope.functions.isEmpty && scope.scopes.isEmpty &&
    !s.functions.any (·.environment = some r) &&
    !s.scopes.any (·.parent = some r) r.index

/-- The store in which a scope that nothing refers to no longer refers to the one around it. -/
def forget (s : Store) (r : ScopeRef) : Store :=
  if s.isPlain r then s.modifyScope r fun scope => .new scope.name none scope.isClass else s

/-- Whether a scope that evaluation has opened is kept when evaluation leaves it for good, and
the store after it. What is not kept, nothing refers to but functions that are not in use either.
Evaluation names only the scopes of classes, so only younger objects and values in use can refer to
it, and a plain scope that is not in use is not needed. -/
def leave (s : Store) (held : List Value) (r : ScopeRef) : Bool × Store :=
  if s.isPlain r && !held.contains (.object r) then (false, s.forget r)
  else
    let (kept, s) := s.close held r
    (kept, if kept then s else s.forget r)

end Store

end Scriptlet
