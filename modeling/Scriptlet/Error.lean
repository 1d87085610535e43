import Scriptlet.Kind

/-!
# Errors

A `SyntaxError` stops reading, a `RuntimeError` stops evaluation, and an `Error` is what a
session reports. Each names the line it was raised on, and its text is given by `message`.
-/

namespace Scriptlet

/-- A line number of the source. -/
abbrev Line := Nat

/-- The text of an error with the line it was raised on. -/
def onLine (line : Line) (text : String) : String :=
  "Error on line " ++ toString line ++ ": " ++ text

/-- Causes that stop the reading of a script. -/
inductive SyntaxError where
  /-- A token that cannot stand where it stands. -/
  | unexpectedToken (token : String) (line : Line)
  /-- The input ends inside a construct. -/
  | unexpectedEnd (line : Line)
  /-- A string without its closing quote. -/
  | unterminatedString (line : Line)
  /-- Two values without an operator between them. -/
  | missingSeparator (token : String) (line : Line)
  /-- An `else` without an `if` to attach to. -/
  | danglingElse (line : Line)
  /-- An `else` followed by neither `if` nor an opening brace. -/
  | expectedAfterElse (token : String) (line : Line)
  /-- A header with the wrong number of clauses. -/
  | clauseCount (construct expected : String) (found : Nat) (line : Line)
  /-- A closing brace that closes nothing. -/
  | unbalancedBrace (line : Line)
  /-- An integer that does not fit in 64 bits. -/
  | literalTooLarge (line : Line)
  deriving DecidableEq, Repr

namespace SyntaxError

/-- The line an error was raised on. -/
def line : SyntaxError → Line
  | unexpectedToken _ line | unexpectedEnd line | unterminatedString line
  | missingSeparator _ line | danglingElse line | expectedAfterElse _ line
  | clauseCount _ _ _ line | unbalancedBrace line | literalTooLarge line => line

/-- What went wrong. -/
def details : SyntaxError → String
  | unexpectedToken token _ => "Unexpected token: " ++ token ++ "."
  | unexpectedEnd _ => "Unexpected end of input."
  | unterminatedString _ => "Unterminated string literal."
  | missingSeparator token _ => "Unexpected value '" ++ token ++ "', possible missing ','."
  | danglingElse _ => "'else' without a preceding 'if'."
  | expectedAfterElse token _ => "Expected 'if' or '\x7b' after 'else', found " ++ token ++ "."
  | clauseCount construct expected found _ =>
    "'" ++ construct ++ "' expects " ++ expected ++ " clauses but found " ++ toString found ++ "."
  | unbalancedBrace _ => "Unbalanced '\x7d'."
  | literalTooLarge _ => "Literal is too large."

/-- The text of an error. -/
def message (e : SyntaxError) : String := onLine e.line e.details

end SyntaxError

/-- Causes that stop evaluation. -/
inductive RuntimeError where
  /-- A call of a name that no scope defines as a function. -/
  | unknownFunction (name : String) (line : Line)
  /-- A call of a value that is not a function. -/
  | notCallable (found : Kind) (line : Line)
  /-- A base class that does not exist. -/
  | unknownClass (name : String) (line : Line)
  /-- A member that a value does not have. -/
  | unknownMember (name : String) (found : Kind) (line : Line)
  /-- A conversion that is not allowed. -/
  | invalidConversion (source target : Kind) (line : Line)
  /-- Elements of different kinds for one array. -/
  | heterogeneousArray (first second : Kind) (line : Line)
  /-- An index outside its collection. -/
  | indexOutOfBounds (index : Int) (length : Nat) (line : Line)
  /-- A comparison of values that have no common order. -/
  | incomparable (left right : Kind) (line : Line)
  /-- A value of an unexpected kind. -/
  | typeError (details : String) (line : Line)
  /-- An integer division by zero. -/
  | divisionByZero (line : Line)
  /-- An integer result that does not fit in 64 bits. -/
  | overflow (line : Line)
  /-- A number of arguments that a function does not accept. -/
  | argumentCount (name : String) (found : Nat) (line : Line)
  /-- An assignment to something that is not a place. -/
  | invalidTarget (line : Line)
  /-- A value that cannot be a dictionary key. -/
  | unhashableKey (found : Kind) (line : Line)
  /-- A host function that could not do its work. -/
  | nativeFailure (function reason : String) (line : Line)
  /-- An assertion of the script that does not hold. -/
  | assertionFailed (text : String) (line : Line)
  /-- An import that could not be read, parsed or evaluated. -/
  | importFailed (path reason : String) (line : Line)
  deriving DecidableEq, Repr

namespace RuntimeError

/-- The line an error was raised on. -/
def line : RuntimeError → Line
  | unknownFunction _ line | notCallable _ line | unknownClass _ line | unknownMember _ _ line
  | invalidConversion _ _ line | heterogeneousArray _ _ line | indexOutOfBounds _ _ line
  | incomparable _ _ line | typeError _ line | divisionByZero line | overflow line
  | argumentCount _ _ line | invalidTarget line | unhashableKey _ line
  | nativeFailure _ _ line | assertionFailed _ line | importFailed _ _ line => line

/-- What went wrong. -/
def details : RuntimeError → String
  | unknownFunction name _ => "Call to non-existent function '" ++ name ++ "'."
  | notCallable found _ => "Value of type " ++ found.name ++ " is not callable."
  | unknownClass name _ => "Unknown class '" ++ name ++ "'."
  | unknownMember name found _ => found.name ++ " has no member '" ++ name ++ "'."
  | invalidConversion source target _ =>
    "Cannot convert " ++ source.name ++ " to " ++ target.name ++ "."
  | heterogeneousArray first second _ =>
    "Cannot build an Array from elements of different types (" ++ first.name ++ " and " ++
      second.name ++ ")."
  | indexOutOfBounds index length _ =>
    "Index " ++ toString index ++ " out of bounds for collection of length " ++
      toString length ++ "."
  | incomparable left right _ => "Cannot compare " ++ left.name ++ " with " ++ right.name ++ "."
  | typeError details _ => "Type error: " ++ details ++ "."
  | divisionByZero _ => "Division by zero."
  | overflow _ => "Integer overflow while trying to compute result."
  | argumentCount name found _ =>
    "'" ++ name ++ "' does not accept " ++ toString found ++ " argument(s)."
  | invalidTarget _ => "Invalid assignment target."
  | unhashableKey found _ => found.name ++ " cannot be used as a dictionary key."
  | nativeFailure function reason _ => "'" ++ function ++ "' failed: " ++ reason
  | assertionFailed text _ => "Assertion failed: " ++ text
  | importFailed path reason _ => "Failed to import '" ++ path ++ "': " ++ reason

/-- The text of an error. -/
def message (e : RuntimeError) : String := onLine e.line e.details

end RuntimeError

/-- What a session reports. -/
inductive Error where
  | reading (e : SyntaxError)
  | running (e : RuntimeError)
  /-- A script file that could not be read. -/
  | file (path reason : String)
  deriving DecidableEq, Repr

namespace Error

/-- The line an error was raised on, zero for a file that could not be read. -/
def line : Error → Line
  | reading e => e.line
  | running e => e.line
  | file _ _ => 0

/-- The text of an error. -/
def message : Error → String
  | reading e => e.message
  | running e => e.message
  | file path reason => "Error reading '" ++ path ++ "': " ++ reason

end Error

theorem ok_bind {ε α β : Type} (a : α) (f : α → Except ε β) : (Except.ok a >>= f) = f a := rfl

/-- A step that may fail, followed by another one, succeeds if both do. -/
theorem bind_eq_ok_iff {ε α β : Type} {x : Except ε α} {f : α → Except ε β} {b : β} :
    (x >>= f) = .ok b ↔ ∃ a, x = .ok a ∧ f a = .ok b := by
  cases x <;> simp [bind, Except.bind]

/-- A step that may fail, followed by another one, fails if one of them does. -/
theorem bind_eq_error_iff {ε α β : Type} {x : Except ε α} {f : α → Except ε β} {e : ε} :
    (x >>= f) = .error e ↔ x = .error e ∨ ∃ a, x = .ok a ∧ f a = .error e := by
  cases x <;> simp [bind, Except.bind]

theorem map_eq_ok_iff {ε α β : Type} {x : Except ε α} {f : α → β} {b : β} :
    x.map f = .ok b ↔ ∃ a, x = .ok a ∧ f a = b := by
  cases x <;> simp [Except.map]

theorem map_eq_error_iff {ε α β : Type} {x : Except ε α} {f : α → β} {e : ε} :
    x.map f = .error e ↔ x = .error e := by
  cases x <;> simp [Except.map]

end Scriptlet
