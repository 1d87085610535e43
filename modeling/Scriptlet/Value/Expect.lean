import Scriptlet.Error
import Scriptlet.Value

/-!
# What a value must be

Uses of a value that only some values allow: an index, the name of a member, a text.
-/

namespace Scriptlet.Value

/-- The place that an index addresses in a collection of a length; floats are truncated. -/
def position (index : Value) (length : Nat) (line : Line) : Except RuntimeError Nat :=
  let within (i : Int64) : Except RuntimeError Nat :=
    if 0 ≤ i.toInt ∧ i.toInt < length then .ok i.toInt.toNat
    else .error (.indexOutOfBounds i.toInt length line)
  match index with
  | .int i => within i
  | .float x => within (Number.truncate x)
  | other => .error (.typeError ("index must be a number, found " ++ other.kind.name) line)

/-- The name of the member that a key addresses. -/
def memberName (key : Value) (line : Line) : Except RuntimeError String :=
  match key with
  | .string name => .ok name
  | other => .error (.typeError ("member names must be strings, found " ++ other.kind.name) line)

/-- The text of a value that must be a string; `what` says what it is for. -/
def expectString (v : Value) (what : String) (line : Line) : Except RuntimeError String :=
  match v with
  | .string text => .ok text
  | other =>
    .error (.typeError
      (what ++ " must be a " ++ Kind.string.name ++ ", found " ++ other.kind.name) line)

end Scriptlet.Value
