import Scriptlet.Store.Element
import Scriptlet.Text.Quoted

/-!
# The text of values

Scalars are written as they are read back; strings inside collections are quoted. Only
so many levels of collections are written out, so that the text of a collection that
contains itself ends.
-/

namespace Scriptlet.Store

/-- The number of levels that are written out. -/
def displayLevels : Nat := 33

/-- Parts between an opening and a closing mark, with commas between them. -/
def enclosed (opening closing : String) (parts : List String) : String :=
  opening ++ String.intercalate ", " parts ++ closing

/-- The text of a value with at most `levels` levels of collections. -/
def displayWithin (s : Store) : (levels : Nat) → Value → String
  | 0, _ => "..."
  | levels + 1, v =>
    let nested (v : Value) : String :=
      match v with
      | .string text => Text.Quoted.quote text
      | v => s.displayWithin levels v
    match s.settle 0 v with
    | .error _ => "null"
    | .ok v =>
      match v with
      | .null | .member _ _ => "null"
      | .int i => toString i.toInt
      | .float x => Number.text x
      | .vec3 u => u.text
      | .function f => "<func " ++ (s.function f).name ++ ">"
      | .pointer p => "<pointer " ++ p.label ++ ">"
      | .string text => text
      | .array a => enclosed "[" "]" ((s.array a).items.map nested)
      | .list l => enclosed "[" "]" ((s.list l).map nested)
      | .dictionary d =>
        enclosed "\x7b" "\x7d"
          ((s.dictionary d).values.map fun e => nested e.key ++ ": " ++ nested e.value)
      | .object o =>
        enclosed ((s.scope o).name ++ " \x7b") "\x7d"
          ((s.scope o).vars.entries.map fun e => e.1 ++ ": " ++ nested e.2)

/-- The text of a value. -/
def display (s : Store) (v : Value) : String := s.displayWithin displayLevels v

end Scriptlet.Store
