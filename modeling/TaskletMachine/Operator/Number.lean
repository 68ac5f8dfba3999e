import TaskletMachine.Value.Error
import TaskletMachine.Number.Word

/-!
# Numbers among the values

Truth values count as 0 and 1, and an integer meets a double as the nearest double.

## Main definitions

* `Numeric`, `Value.numeric?`: the number that a value is.
* `Numeric.equal`, `Numeric.compare`: comparison of numbers.
* `Numeric.arithmetic`, `bitwise`: the operators on numbers.
-/
namespace TaskletMachine

/-- A number: a word or a double. -/
inductive Numeric where
  | int (n : Int64)
  | float (x : Float)

/-- The number that a value is. -/
def Value.numeric? : Value → Option Numeric
  | bool b => some (.int (if b then 1 else 0))
  | int n => some (.int n)
  | float x => some (.float x)
  | _ => Option.none

/-- The verdict of an ordering comparison. -/
inductive Verdict where
  | ordered (o : Ordering)
  /-- The values can be compared, but none comes first. -/
  | unordered
  /-- The values cannot be compared. -/
  | incomparable
deriving DecidableEq, Repr

/-- Comparison of doubles; what is not a number is unordered. -/
def compareFloat (x y : Float) : Verdict :=
  if x < y then .ordered .lt
  else if y < x then .ordered .gt
  else if x == y then .ordered .eq
  else .unordered

namespace Numeric

/-- A number as a double. -/
def toFloat : Numeric → Float
  | int n => n.toFloat
  | float x => x

/-- Whether two numbers are equal. -/
def equal : Numeric → Numeric → Bool
  | int a, int b => a == b
  | a, b => a.toFloat == b.toFloat

/-- Which of two numbers comes first. -/
def compare : Numeric → Numeric → Verdict
  | int a, int b => .ordered (Ord.compare a.toInt b.toInt)
  | a, b => compareFloat a.toFloat b.toFloat

end Numeric

/-- The exception for an integer result that is no word. -/
def Error.overflow : Error :=
  .raise .overflowError "integer overflow"

/-- The exception for operands that an operator does not take. -/
def Error.unsupported (h : Heap) (symbol : String) (a b : Value) : Error :=
  .raise .typeError
    ("unsupported operand type(s) for " ++ symbol ++ ": '" ++ h.typeName a ++ "' and '" ++
      h.typeName b ++ "'")

/-- A word as a value, or the exception for an overflow. -/
def wordResult : Option Int64 → Except Error Value
  | some n => .ok (.int n)
  | none => .error .overflow

/-- Arithmetic on words. -/
def intArithmetic (op : BinaryOp) (a b : Int64) : Except Error Value :=
  match op with
  | .add => wordResult (Number.word? (a.toInt + b.toInt))
  | .subtract => wordResult (Number.word? (a.toInt - b.toInt))
  | .multiply => wordResult (Number.word? (a.toInt * b.toInt))
  | .trueDivide =>
    if b == 0 then .error (.raise .zeroDivisionError "division by zero")
    else .ok (.float (a.toFloat / b.toFloat))
  | .floorDivide =>
    if b == 0 then .error (.raise .zeroDivisionError "integer division or modulo by zero")
    else wordResult (Number.floorDiv? a b)
  | .modulo =>
    if b == 0 then .error (.raise .zeroDivisionError "integer division or modulo by zero")
    else wordResult (Number.floorMod? a b)
  | .power =>
    if b < 0 then
      if a == 0 then
        .error (.raise .zeroDivisionError "0.0 cannot be raised to a negative power")
      else .ok (.float (a.toFloat.pow b.toFloat))
    else wordResult (Number.power? a b.toInt.toNat)
  | _ => .error .overflow

/-- The remainder of doubles, with the sign of the divisor. -/
def floatModulo (x y : Float) : Float :=
  let r := Binary64.remainder x y
  if r != 0.0 && ((r < 0.0 : Bool) != (y < 0.0 : Bool)) then r + y else r

/-- Arithmetic on doubles. -/
def floatArithmetic (op : BinaryOp) (x y : Float) : Except Error Value :=
  match op with
  | .add => .ok (.float (x + y))
  | .subtract => .ok (.float (x - y))
  | .multiply => .ok (.float (x * y))
  | .trueDivide =>
    if y == 0.0 then .error (.raise .zeroDivisionError "float division by zero")
    else .ok (.float (x / y))
  | .floorDivide =>
    if y == 0.0 then .error (.raise .zeroDivisionError "float floor division by zero")
    else .ok (.float (x / y).floor)
  | .modulo =>
    if y == 0.0 then .error (.raise .zeroDivisionError "float modulo")
    else .ok (.float (floatModulo x y))
  | .power => .ok (.float (x.pow y))
  | _ => .error .overflow

/-- Arithmetic on numbers; a double on either side makes it arithmetic on doubles. -/
def Numeric.arithmetic (op : BinaryOp) : Numeric → Numeric → Except Error Value
  | .int a, .int b => intArithmetic op a b
  | a, b => floatArithmetic op a.toFloat b.toFloat

/-- The bitwise operators on words. -/
def intBitwise (op : BinaryOp) (a b : Int64) : Except Error Value :=
  match op with
  | .and => .ok (.int (a &&& b))
  | .or => .ok (.int (a ||| b))
  | .xor => .ok (.int (a ^^^ b))
  | .leftShift =>
    if b < 0 then .error (.raise .valueError "negative shift count")
    else wordResult (Number.shiftLeft? a b.toInt.toNat)
  | .rightShift =>
    if b < 0 then .error (.raise .valueError "negative shift count")
    else .ok (.int (Number.shiftRight a b.toInt.toNat))
  | _ => .error .overflow

/-- The bitwise operators on values that are numbers; conjunction, disjunction and difference of two
truth values are truth values. -/
def bitwise (h : Heap) (op : BinaryOp) (a b : Value) : Except Error Value :=
  match op, a, b with
  | .and, .bool p, .bool q => .ok (.bool (p && q))
  | .or, .bool p, .bool q => .ok (.bool (p || q))
  | .xor, .bool p, .bool q => .ok (.bool (p != q))
  | _, _, _ =>
    match a.numeric?, b.numeric? with
    | some (.int m), some (.int n) => intBitwise op m n
    | _, _ => .error (.unsupported h op.symbol a b)

/-- The unary operators on native values. -/
def unary (h : Heap) (op : UnaryOp) (v : Value) : Except Error Value :=
  match op, v.numeric? with
  | .not, _ => .ok (.bool !h.isTruthy v)
  | .positive, some (.int n) => .ok (.int n)
  | .positive, some (.float x) => .ok (.float x)
  | .negative, some (.int n) => wordResult (Number.word? (-n.toInt))
  | .negative, some (.float x) => .ok (.float (-x))
  | .invert, some (.int n) => .ok (.int (~~~n))
  | _, _ =>
    .error (.raise .typeError
      ("bad operand type for unary " ++ op.symbol ++ ": '" ++ h.typeName v ++ "'"))

end TaskletMachine
