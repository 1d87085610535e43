/-!
# Operators and their precedence

An operator is spelled by a `Symbol`. It binds with the strength of its `Precedence`,
and it means a `BinaryOperator`, an `AssignOperator` or a `UnaryOperator`.
-/

namespace Scriptlet

/-- The spellings of operators. -/
inductive Symbol where
  | equal | notEqual | lessEqual | greaterEqual | and | or
  | increment | decrement | addAssign | subAssign | mulAssign | divAssign
  | minus | plus | times | divide | modulo | less | greater | assign | not
  deriving DecidableEq, Repr

/-- Every symbol. -/
def Symbol.all : List Symbol :=
  [.equal, .notEqual, .lessEqual, .greaterEqual, .and, .or, .increment, .decrement, .addAssign,
    .subAssign, .mulAssign, .divAssign, .minus, .plus, .times, .divide, .modulo, .less, .greater,
    .assign, .not]

/-- The spelling of a symbol. -/
def Symbol.text : Symbol → String
  | .equal => "=="
  | .notEqual => "!="
  | .lessEqual => "<="
  | .greaterEqual => ">="
  | .and => "&&"
  | .or => "||"
  | .increment => "++"
  | .decrement => "--"
  | .addAssign => "+="
  | .subAssign => "-="
  | .mulAssign => "*="
  | .divAssign => "/="
  | .minus => "-"
  | .plus => "+"
  | .times => "*"
  | .divide => "/"
  | .modulo => "%"
  | .less => "<"
  | .greater => ">"
  | .assign => "="
  | .not => "!"

/-- The symbol with a spelling. -/
def Symbol.ofText? (text : String) : Option Symbol :=
  Symbol.all.find? (·.text == text)

/-- Binding strength, from loosest to tightest. -/
inductive Precedence where
  | assign | boolean | compare | addSub | mulDiv | incDec | call
  deriving DecidableEq, Repr

/-- The place of a precedence in the order of binding strength. -/
def Precedence.level : Precedence → Nat
  | .assign => 0
  | .boolean => 1
  | .compare => 2
  | .addSub => 3
  | .mulDiv => 4
  | .incDec => 5
  | .call => 6

/-- The binding strength of an operator. -/
def Symbol.precedence : Symbol → Precedence
  | .assign | .addAssign | .subAssign | .mulAssign | .divAssign => .assign
  | .and | .or => .boolean
  | .equal | .notEqual | .less | .greater | .lessEqual | .greaterEqual => .compare
  | .plus | .minus => .addSub
  | .times | .divide | .modulo => .mulDiv
  | .increment | .decrement | .not => .incDec

/-- The binding strength of a function, by its name; ordinary names bind tightest. -/
def Precedence.ofName (name : String) : Precedence :=
  ((Symbol.ofText? name).map Symbol.precedence).getD .call

/-- Operators on two values. -/
inductive BinaryOperator where
  | add | sub | mul | div | mod
  | equal | notEqual | less | greater | lessEqual | greaterEqual
  | and | or
  deriving DecidableEq, Repr

/-- The symbol of a binary operator. -/
def BinaryOperator.symbol : BinaryOperator → Symbol
  | .add => .plus
  | .sub => .minus
  | .mul => .times
  | .div => .divide
  | .mod => .modulo
  | .equal => .equal
  | .notEqual => .notEqual
  | .less => .less
  | .greater => .greater
  | .lessEqual => .lessEqual
  | .greaterEqual => .greaterEqual
  | .and => .and
  | .or => .or

/-- The spelling of a binary operator. -/
def BinaryOperator.text (op : BinaryOperator) : String := op.symbol.text

/-- The binary operator that a symbol means. -/
def Symbol.binary? : Symbol → Option BinaryOperator
  | .plus => some .add
  | .minus => some .sub
  | .times => some .mul
  | .divide => some .div
  | .modulo => some .mod
  | .equal => some .equal
  | .notEqual => some .notEqual
  | .less => some .less
  | .greater => some .greater
  | .lessEqual => some .lessEqual
  | .greaterEqual => some .greaterEqual
  | .and => some .and
  | .or => some .or
  | _ => none

/-- Operators that store into a place. -/
inductive AssignOperator where
  | assign | addAssign | subAssign | mulAssign | divAssign | increment | decrement
  deriving DecidableEq, Repr

/-- The symbol of an assignment operator. -/
def AssignOperator.symbol : AssignOperator → Symbol
  | .assign => .assign
  | .addAssign => .addAssign
  | .subAssign => .subAssign
  | .mulAssign => .mulAssign
  | .divAssign => .divAssign
  | .increment => .increment
  | .decrement => .decrement

/-- The assignment operator that a symbol means. -/
def Symbol.assign? : Symbol → Option AssignOperator
  | .assign => some .assign
  | .addAssign => some .addAssign
  | .subAssign => some .subAssign
  | .mulAssign => some .mulAssign
  | .divAssign => some .divAssign
  | .increment => some .increment
  | .decrement => some .decrement
  | _ => none

/-- The arithmetic applied before storing. -/
def AssignOperator.arithmetic : AssignOperator → Option BinaryOperator
  | .assign => none
  | .addAssign | .increment => some .add
  | .subAssign | .decrement => some .sub
  | .mulAssign => some .mul
  | .divAssign => some .div

/-- Whether an assignment steps its place by one and so takes no right operand. -/
def AssignOperator.isStep : AssignOperator → Bool
  | .increment | .decrement => true
  | _ => false

/-- Whether a symbol stands between two operands: every one but `!`, `++` and `--`. -/
def Symbol.isBinary (s : Symbol) : Bool :=
  s.binary?.isSome || s.assign?.any (!·.isStep)

/-- Whether a symbol stands in front of an operand. -/
def Symbol.isLeading : Symbol → Bool
  | .minus | .not | .increment | .decrement => true
  | _ => false

/-- Whether a symbol stands after an operand. -/
def Symbol.isTrailing : Symbol → Bool
  | .increment | .decrement => true
  | _ => false

/-- Operators on one value. -/
inductive UnaryOperator where
  | negate | not
  deriving DecidableEq, Repr

end Scriptlet
