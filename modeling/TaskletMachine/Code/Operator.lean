/-!
# Operators

The binary, unary and comparison operators of the language, the symbols by which they are named in
messages, and the names of the attributes by which a value can take an operator over (its hooks).

## Main definitions

* `BinaryOp`, `UnaryOp`, `CompareOp`.
* `BinaryOp.hook`, `BinaryOp.inPlaceHook`, `UnaryOp.hook?`, `CompareOp.hook?`: the hook names.
* `CompareOp.code`, `CompareOp.ofCode?`: the operand that selects a comparison.
-/
namespace TaskletMachine

/-- The arithmetic and bitwise operators. -/
inductive BinaryOp where
  | add
  | subtract
  | multiply
  | trueDivide
  | floorDivide
  | modulo
  | power
  | leftShift
  | rightShift
  | and
  | xor
  | or
deriving DecidableEq, Repr

namespace BinaryOp

/-- Every binary operator. -/
def all : List BinaryOp :=
  [.add, .subtract, .multiply, .trueDivide, .floorDivide, .modulo, .power, .leftShift, .rightShift,
   .and, .xor, .or]

/-- The name of an operator. -/
def name : BinaryOp → String
  | add => "Add"
  | subtract => "Subtract"
  | multiply => "Multiply"
  | trueDivide => "TrueDivide"
  | floorDivide => "FloorDivide"
  | modulo => "Modulo"
  | power => "Power"
  | leftShift => "LeftShift"
  | rightShift => "RightShift"
  | and => "And"
  | xor => "Xor"
  | or => "Or"

/-- The part of the hook names between the underscores. -/
def stem : BinaryOp → String
  | add => "add"
  | subtract => "sub"
  | multiply => "mul"
  | trueDivide => "truediv"
  | floorDivide => "floordiv"
  | modulo => "mod"
  | power => "pow"
  | leftShift => "lshift"
  | rightShift => "rshift"
  | and => "and"
  | xor => "xor"
  | or => "or"

/-- The hook of an operator. -/
def hook (op : BinaryOp) : String :=
  "__" ++ op.stem ++ "__"

/-- The hook of the in-place form of an operator. -/
def inPlaceHook (op : BinaryOp) : String :=
  "__i" ++ op.stem ++ "__"

/-- The operator as it is written in an expression. -/
def symbol : BinaryOp → String
  | add => "+"
  | subtract => "-"
  | multiply => "*"
  | trueDivide => "/"
  | floorDivide => "//"
  | modulo => "%"
  | power => "**"
  | leftShift => "<<"
  | rightShift => ">>"
  | and => "&"
  | xor => "^"
  | or => "|"

/-- The operator of a name. -/
def ofName? (s : String) : Option BinaryOp :=
  all.find? fun op => op.name == s

/-- Whether an operator works on the bits of integers. -/
def isBitwise : BinaryOp → Bool
  | leftShift | rightShift | and | xor | or => true
  | _ => false

end BinaryOp

/-- The unary operators. -/
inductive UnaryOp where
  | positive
  | negative
  | not
  | invert
deriving DecidableEq, Repr

namespace UnaryOp

/-- Every unary operator. -/
def all : List UnaryOp := [.positive, .negative, .not, .invert]

/-- The name of an operator. -/
def name : UnaryOp → String
  | positive => "Positive"
  | negative => "Negative"
  | not => "Not"
  | invert => "Invert"

/-- The hook of an operator; negation of a truth value cannot be taken over. -/
def hook? : UnaryOp → Option String
  | positive => some "__pos__"
  | negative => some "__neg__"
  | not => none
  | invert => some "__invert__"

/-- The operator as it is written in an expression. -/
def symbol : UnaryOp → String
  | positive => "+"
  | negative => "-"
  | not => "not"
  | invert => "~"

/-- The operator of a name. -/
def ofName? (s : String) : Option UnaryOp :=
  all.find? fun op => op.name == s

end UnaryOp

/-- The comparisons. -/
inductive CompareOp where
  | equal
  | notEqual
  | less
  | greater
  | lessOrEqual
  | greaterOrEqual
  | isIn
  | is
  | isNot
  | notIn
  /-- Whether a raised value is an instance of a class, or of one of a tuple of classes. -/
  | exceptionMatch
deriving DecidableEq, Repr

namespace CompareOp

/-- Every comparison. -/
def all : List CompareOp :=
  [.equal, .notEqual, .less, .greater, .lessOrEqual, .greaterOrEqual, .isIn, .is, .isNot, .notIn,
   .exceptionMatch]

/-- The name of a comparison. -/
def name : CompareOp → String
  | equal => "Equal"
  | notEqual => "NotEqual"
  | less => "Less"
  | greater => "Greater"
  | lessOrEqual => "LessOrEqual"
  | greaterOrEqual => "GreaterOrEqual"
  | isIn => "In"
  | is => "Is"
  | isNot => "IsNot"
  | notIn => "NotIn"
  | exceptionMatch => "ExceptionMatch"

/-- The operand that selects a comparison. -/
def code : CompareOp → Nat
  | equal => 0
  | notEqual => 1
  | less => 3
  | greater => 4
  | lessOrEqual => 5
  | greaterOrEqual => 6
  | isIn => 7
  | is => 8
  | isNot => 9
  | notIn => 10
  | exceptionMatch => 12

/-- The comparison that an operand selects. -/
def ofCode? (n : Nat) : Option CompareOp :=
  all.find? fun op => op.code == n

/-- The comparison of a name. -/
def ofName? (s : String) : Option CompareOp :=
  all.find? fun op => op.name == s

/-- The hook of a comparison, looked up on the left operand, for membership on the right one.
Identity and exception matching cannot be taken over. -/
def hook? : CompareOp → Option String
  | equal => some "__eq__"
  | notEqual => some "__ne__"
  | less => some "__lt__"
  | greater => some "__gt__"
  | lessOrEqual => some "__le__"
  | greaterOrEqual => some "__ge__"
  | isIn | notIn => some "__contains__"
  | is | isNot | exceptionMatch => none

/-- The comparison as it is written in an expression. -/
def symbol : CompareOp → String
  | equal => "=="
  | notEqual => "!="
  | less => "<"
  | greater => ">"
  | lessOrEqual => "<="
  | greaterOrEqual => ">="
  | isIn => "in"
  | is => "is"
  | isNot => "is not"
  | notIn => "not in"
  | exceptionMatch => "exception match"

end CompareOp

end TaskletMachine
