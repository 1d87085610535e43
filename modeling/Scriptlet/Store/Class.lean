import Scriptlet.Store.Conversion

/-!
# Classes in the store

A class is a template scope, registered under its name, with a constructor of the same
name. A template starts with copies of what its base classes define.
-/

namespace Scriptlet.Store

/-- The store in which a scope also has copies of some variables. -/
def copyVariables (s : Store) (heir : ScopeRef) : List (String × Value) → Store
  | [] => s
  | (name, v) :: rest =>
    let (v, s) := s.duplicate v
    (s.setVariable heir name v).copyVariables heir rest

/-- The store in which a scope also has what another one defines, with collections of its own. -/
def inherit (s : Store) (template base : ScopeRef) : Store :=
  let b := s.scope base
  (s.copyVariables template b.vars.entries).modifyScope template fun scope =>
    { scope with functions := scope.functions.merge b.functions }

/-- The store in which a template has what base classes define; a later base replaces what an
earlier one defines under the same name. -/
def inheritAll (s : Store) (current template : ScopeRef) (line : Line) :
    List String → Except RuntimeError Store
  | [] => .ok s
  | name :: rest =>
    match s.findScope? current name with
    | none => .error (.unknownClass name line)
    | some base => (s.inherit template base).inheritAll current template line rest

/-- The store in which a scope has a function. -/
def defineFunction (s : Store) (r : ScopeRef) (f : Function) : Store :=
  let (ref, s) := s.newFunction f
  s.addFunction r ref

/-- The store in which a class with a template is registered at a level. -/
def defineClass (s : Store) (r : ScopeRef) (name : String) (template : ScopeRef) : Store :=
  (s.addScope r name template).defineFunction r ⟨name, .constructor, [], .construct template, none⟩

end Scriptlet.Store
