import Scriptlet.Store.Element

/-!
# Equality of values

Lists, arrays and dictionaries are equal by their contents, functions, pointers and
class instances only if they are the same. Floats are equal as numbers, so that what is
not a number differs from itself unless both sides are the same collection.
-/

namespace Scriptlet

/-- Whether two values are equal, where `contents` compares what is not a handle. -/
def Value.equalBy (contents : Value → Value → Bool) : Value → Value → Bool
  | .member c k, .member c' k' => equalBy contents c c' && equalBy contents k k'
  | v, w => contents v w

namespace Store

/-- Whether two lists of values are equal element by element. -/
def allEqual (equal : Value → Value → Bool) (a b : List Value) : Bool :=
  a.length = b.length && (a.zip b).all fun (v, w) => equal v w

/-- Whether two dictionaries have equal values under the same keys. -/
def entriesEqual (equal : Value → Value → Bool) (a b : Dictionary) : Bool :=
  a.size = b.size &&
    a.entries.all fun (k, e) => (b.get? k).any fun other => equal other.value e.value

/-- Whether values that are not handles are equal, where `equal` compares what collections hold. -/
def contentsEqual (s : Store) (equal : Value → Value → Bool) : Value → Value → Bool
  | .float x, .float y => x == y
  | .vec3 u, .vec3 v => u.equal v
  | .array a, .array b =>
    a = b || (s.array a).element = (s.array b).element &&
      allEqual equal (s.array a).items (s.array b).items
  | .list l, .list m => l = m || allEqual equal (s.list l) (s.list m)
  | .dictionary d, .dictionary e =>
    d = e || entriesEqual equal (s.dictionary d) (s.dictionary e)
  | v, w => v = w

/-- Whether two values are equal within `fuel` levels of collections. -/
def equalWithin (s : Store) : (fuel : Nat) → Value → Value → Bool
  | 0 => fun _ _ => false
  | fuel + 1 => Value.equalBy (s.contentsEqual (s.equalWithin fuel))

/-- Whether two values are equal. A path into a value without cycles meets every collection once. -/
def equal (s : Store) (v w : Value) : Bool :=
  s.equalWithin (s.lists.size + s.dictionaries.size + 2) v w

end Store

end Scriptlet
