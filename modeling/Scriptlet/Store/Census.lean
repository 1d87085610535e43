import Scriptlet.Store

/-!
# Who refers to what

The objects of a store and the references between them. An object that nothing refers
to is gone, and with it the references that it held; the census counts the references to
each object that come from outside the store and from objects that are not gone. Objects
that refer to each other in a cycle are never gone.
-/

namespace Scriptlet

/-- An object of the store. -/
inductive Node where
  | list (l : ListRef)
  | array (a : ArrayRef)
  | dictionary (d : DictionaryRef)
  | function (f : FunctionRef)
  | scope (r : ScopeRef)
  deriving DecidableEq

/-- The objects that a value refers to, as often as it does. -/
def Value.referents : Value → List Node
  | .function f => [.function f]
  | .array a => [.array a]
  | .member collection key => collection.referents ++ key.referents
  | .list l => [.list l]
  | .dictionary d => [.dictionary d]
  | .object o => [.scope o]
  | _ => []

namespace Store

/-- The objects that an object refers to, as often as it does. -/
def referents (s : Store) : Node → List Node
  | .list l => (s.list l).flatMap Value.referents
  | .array a => (s.array a).items.flatMap Value.referents
  | .dictionary d => (s.dictionary d).values.flatMap fun e => e.key.referents ++ e.value.referents
  | .function f => (s.function f).scopes.map .scope
  | .scope r =>
    let scope := s.scope r
    scope.parent.toList.map .scope ++ scope.vars.values.flatMap Value.referents ++
      scope.functions.values.map .function ++ scope.scopes.values.map .scope

/-- Every object. -/
def nodes (s : Store) : List Node :=
  (List.range s.lists.size).map (.list ⟨·⟩) ++
    (List.range s.arrays.size).map (.array ⟨·⟩) ++
    (List.range s.dictionaries.size).map (.dictionary ⟨·⟩) ++
    (List.range s.functions.size).map (.function ⟨·⟩) ++
    (List.range s.scopes.size).map (.scope ⟨·⟩)

/-- The place of an object among all objects. -/
def place (s : Store) : Node → Nat
  | .list l => l.index
  | .array a => s.lists.size + a.index
  | .dictionary d => s.lists.size + s.arrays.size + d.index
  | .function f => s.lists.size + s.arrays.size + s.dictionaries.size + f.index
  | .scope r =>
    s.lists.size + s.arrays.size + s.dictionaries.size + s.functions.size + r.index

end Store

/-- How many references there are to each object, by its place. -/
abbrev Census := Array Nat

namespace Store

/-- The number of references to an object. -/
def countIn (s : Store) (counts : Census) (n : Node) : Nat := counts[s.place n]?.getD 0

/-- The census with one more reference to each of some objects. -/
def gained (s : Store) (c : Census) (nodes : List Node) : Census :=
  nodes.foldl (fun c n => c.modify (s.place n) (· + 1)) c

/-- The census with one reference less to each of some objects, and those that lost the last one. -/
def lost (s : Store) (c : Census) (nodes : List Node) : Census × List Node :=
  nodes.foldl
    (fun (c, gone) n =>
      let c := c.modify (s.place n) (· - 1)
      (c, if s.countIn c n = 0 then n :: gone else gone))
    (c, [])

/-- The census after objects that nothing refers to are gone; each of them goes once. -/
def release (s : Store) : (fuel : Nat) → (gone : List Node) → Census → Census
  | fuel + 1, n :: gone, c =>
    let (c, more) := s.lost c (s.referents n)
    s.release fuel (more ++ gone) c
  | _, _, c => c

/-- All references to each object, where `held` are the values that are in use. -/
def references (s : Store) (held : List Value) : Census :=
  s.nodes.foldl (fun c n => s.gained c (s.referents n))
    (s.gained (Array.replicate s.nodes.length 0) (held.flatMap Value.referents))

/-- The references to each object from what is not gone, out of all references. -/
def census (s : Store) (all : Census) : Census :=
  s.release s.nodes.length (s.nodes.filter fun n => s.countIn all n = 0) all

end Store

end Scriptlet
