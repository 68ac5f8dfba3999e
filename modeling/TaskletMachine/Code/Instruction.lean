import TaskletMachine.Code.Opcode
import TaskletMachine.Code.Operator
import TaskletMachine.Text.Hex

/-!
# Instructions

What an opcode and its operand ask for. Jump targets are byte offsets into the code, whichever way
the operand measures them.

## Main definitions

* `Instruction`: the decoded operations.
* `Flaw`: why bytes are no instruction.
* `Instruction.text`: the form in which a listing shows an instruction.
-/
namespace TaskletMachine

/-- What a conditional jump does with the value that it tests. -/
inductive JumpCondition where
  /-- The value stays. -/
  | peek
  /-- The value is removed. -/
  | pop
  /-- The value stays if the jump is taken and is removed otherwise. -/
  | popUnlessJumping
deriving DecidableEq, Repr

/-- The name of a condition. -/
def JumpCondition.name : JumpCondition → String
  | .peek => "Peek"
  | .pop => "Pop"
  | .popUnlessJumping => "PopUnlessJumping"

/-- Flags of the operation that makes functions. -/
structure FunctionFlags where
  bits : Nat
deriving DecidableEq, Repr

/-- The flags of a function whose defaults are on the stack, or not. -/
def FunctionFlags.ofDefaults (hasDefaults : Bool) : FunctionFlags :=
  ⟨if hasDefaults then 1 else 0⟩

/-- Whether a tuple of defaults lies below the code and the name. -/
def FunctionFlags.hasDefaults (flags : FunctionFlags) : Bool :=
  flags.bits % 2 == 1

/-- Why bytes are no instruction. -/
inductive Flaw where
  | unknownOp (byte : UInt8) (ip : Nat)
  | outOfBounds (ip : Nat)
  | unknownComparison (code : Nat) (ip : Nat)
deriving DecidableEq, Repr

/-- The wording of a flaw. -/
def Flaw.message : Flaw → String
  | .unknownOp byte ip => s!"Unknown op 0x{hexByte byte} at {ip}"
  | .outOfBounds ip => s!"Instruction access out of bounds at {ip}"
  | .unknownComparison code ip => s!"Unknown comparison {code} at {ip}"

/-- Decoded operations; operands are indexes into tables, counts, or offsets into the code. -/
inductive Instruction where
  | invalid (flaw : Flaw)
  | popTop
  | rotTwo
  | rotThree
  | dupTop
  | nop
  | unary (op : UnaryOp)
  | binary (op : BinaryOp) (inPlace : Bool)
  | listAppend
  | subscript
  | storeSubscript
  | deleteSubscript
  | getIter
  | loadAssertionError
  | breakLoop
  | returnValue
  | importStar
  | popBlock
  | endFinally
  | buildClass
  | storeName (name : Nat)
  | deleteName (name : Nat)
  | unpackSequence (count : Nat)
  | forIter (exit : Nat)
  | storeAttr (name : Nat)
  | storeGlobal (name : Nat)
  | loadConst (constant : Nat)
  | loadName (name : Nat)
  | buildTuple (count : Nat)
  | buildList (count : Nat)
  | buildMap (count : Nat)
  | loadAttr (name : Nat)
  | compare (op : CompareOp)
  | importName (name : Nat)
  | importFrom (name : Nat)
  | jump (target : Nat)
  | jumpIf (target : Nat) (jumpIf : Bool) (condition : JumpCondition)
  | loadGlobal (name : Nat)
  | continueLoop (target : Nat)
  | setupLoop (exit : Nat)
  | setupExcept (handler : Nat)
  | setupFinally (handler : Nat)
  | loadFast (slot : Nat)
  | storeFast (slot : Nat)
  | deleteFast (slot : Nat)
  | raise (argCount : Nat)
  | call (argCount : Nat)
  | callWithKeywords (argCount : Nat)
  | makeFunction (flags : FunctionFlags)
  | buildConstKeyMap (count : Nat)
  | wait
deriving DecidableEq, Repr

namespace Instruction

/-- A name followed by fields in braces. -/
def withFields (name : String) (fields : List (String × String)) : String :=
  name ++ " \x7b " ++ ", ".intercalate (fields.map fun (k, v) => k ++ ": " ++ v) ++ " \x7d"

/-- A name followed by one numeric field. -/
def withNat (name field : String) (n : Nat) : String :=
  withFields name [(field, toString n)]

/-- A truth value in a listing. -/
def boolText (b : Bool) : String :=
  if b then "true" else "false"

/-- The form in which a listing shows an instruction. -/
def text : Instruction → String
  | invalid flaw => withFields "Error" [("message", "\"" ++ flaw.message ++ "\"")]
  | popTop => "PopTop"
  | rotTwo => "RotTwo"
  | rotThree => "RotThree"
  | dupTop => "DupTop"
  | nop => "Nop"
  | unary op => withFields "Unary" [("op", op.name)]
  | binary op inPlace => withFields "Binary" [("op", op.name), ("in_place", boolText inPlace)]
  | listAppend => "ListAppend"
  | subscript => "Subscript"
  | storeSubscript => "StoreSubscript"
  | deleteSubscript => "DeleteSubscript"
  | getIter => "GetIter"
  | loadAssertionError => "LoadAssertionError"
  | breakLoop => "BreakLoop"
  | returnValue => "ReturnValue"
  | importStar => "ImportStar"
  | popBlock => "PopBlock"
  | endFinally => "EndFinally"
  | buildClass => "BuildClass"
  | storeName n => withNat "StoreName" "name" n
  | deleteName n => withNat "DeleteName" "name" n
  | unpackSequence n => withNat "UnpackSequence" "count" n
  | forIter n => withNat "ForIter" "exit" n
  | storeAttr n => withNat "StoreAttr" "name" n
  | storeGlobal n => withNat "StoreGlobal" "name" n
  | loadConst n => withNat "LoadConst" "constant" n
  | loadName n => withNat "LoadName" "name" n
  | buildTuple n => withNat "BuildTuple" "count" n
  | buildList n => withNat "BuildList" "count" n
  | buildMap n => withNat "BuildMap" "count" n
  | loadAttr n => withNat "LoadAttr" "name" n
  | compare op => withFields "Compare" [("op", op.name)]
  | importName n => withNat "ImportName" "name" n
  | importFrom n => withNat "ImportFrom" "name" n
  | jump n => withNat "Jump" "target" n
  | jumpIf n b c =>
    withFields "JumpIf" [("target", toString n), ("jump_if", boolText b), ("condition", c.name)]
  | loadGlobal n => withNat "LoadGlobal" "name" n
  | continueLoop n => withNat "ContinueLoop" "target" n
  | setupLoop n => withNat "SetupLoop" "exit" n
  | setupExcept n => withNat "SetupExcept" "handler" n
  | setupFinally n => withNat "SetupFinally" "handler" n
  | loadFast n => withNat "LoadFast" "local" n
  | storeFast n => withNat "StoreFast" "local" n
  | deleteFast n => withNat "DeleteFast" "local" n
  | raise n => withNat "Raise" "arg_count" n
  | call n => withNat "Call" "arg_count" n
  | callWithKeywords n => withNat "CallWithKeywords" "arg_count" n
  | makeFunction flags =>
    withFields "MakeFunction" [("flags", "MakeFunctionFlags(" ++ toString flags.bits ++ ")")]
  | buildConstKeyMap n => withNat "BuildConstKeyMap" "count" n
  | wait => "Wait"

/-- Whether the bytes were no instruction. -/
def isInvalid : Instruction → Bool
  | invalid _ => true
  | _ => false

/-- The instruction of an opcode with its operand, given the offsets of the opcode and of the
following instruction. -/
def ofOpcode (op : Opcode) (operand ip next : Nat) : Instruction :=
  let relative := next + operand
  match op with
  | .popTop => popTop
  | .rotTwo => rotTwo
  | .rotThree => rotThree
  | .dupTop => dupTop
  | .nop => nop
  | .unaryPositive => unary .positive
  | .unaryNegative => unary .negative
  | .unaryNot => unary .not
  | .unaryInvert => unary .invert
  | .listAppend => listAppend
  | .binaryPower => binary .power false
  | .binaryMultiply => binary .multiply false
  | .binaryModulo => binary .modulo false
  | .binaryAdd => binary .add false
  | .binarySubtract => binary .subtract false
  | .binarySubscr => subscript
  | .binaryFloorDivide => binary .floorDivide false
  | .binaryTrueDivide => binary .trueDivide false
  | .inplaceFloorDivide => binary .floorDivide true
  | .inplaceTrueDivide => binary .trueDivide true
  | .inplaceAdd => binary .add true
  | .inplaceSubtract => binary .subtract true
  | .inplaceMultiply => binary .multiply true
  | .inplaceModulo => binary .modulo true
  | .storeSubscr => storeSubscript
  | .deleteSubscr => deleteSubscript
  | .binaryLshift => binary .leftShift false
  | .binaryRshift => binary .rightShift false
  | .binaryAnd => binary .and false
  | .binaryXor => binary .xor false
  | .binaryOr => binary .or false
  | .inplacePower => binary .power true
  | .getIter => getIter
  | .loadAssertionError => loadAssertionError
  | .inplaceLshift => binary .leftShift true
  | .inplaceRshift => binary .rightShift true
  | .inplaceAnd => binary .and true
  | .inplaceXor => binary .xor true
  | .inplaceOr => binary .or true
  | .breakLoop => breakLoop
  | .returnValue => returnValue
  | .importStar => importStar
  | .popBlock => popBlock
  | .endFinally => endFinally
  | .buildClass => buildClass
  | .storeName => storeName operand
  | .deleteName => deleteName operand
  | .unpackSequence => unpackSequence operand
  | .forIter => forIter relative
  | .storeAttr => storeAttr operand
  | .storeGlobal => storeGlobal operand
  | .loadConst => loadConst operand
  | .loadName => loadName operand
  | .buildTuple => buildTuple operand
  | .buildList => buildList operand
  | .buildMap => buildMap operand
  | .loadAttr => loadAttr operand
  | .compareOp =>
    match CompareOp.ofCode? operand with
    | some comparison => compare comparison
    | none => invalid (.unknownComparison operand ip)
  | .importName => importName operand
  | .importFrom => importFrom operand
  | .jumpForward => jump relative
  | .jumpIfFalse => jumpIf operand false .peek
  | .jumpIfTrue => jumpIf operand true .peek
  | .jumpAbsolute => jump operand
  | .popJumpIfFalse => jumpIf operand false .pop
  | .popJumpIfTrue => jumpIf operand true .pop
  | .loadGlobal => loadGlobal operand
  | .continueLoop => continueLoop operand
  | .setupLoop => setupLoop relative
  | .setupExcept => setupExcept relative
  | .setupFinally => setupFinally relative
  | .loadFast => loadFast operand
  | .storeFast => storeFast operand
  | .deleteFast => deleteFast operand
  | .raiseVarargs => raise operand
  | .callFunction => call operand
  | .makeFunction => makeFunction ⟨operand⟩
  | .callFunctionKw => callWithKeywords operand
  | .buildConstKeyMap => buildConstKeyMap operand
  | .jumpIfFalseOrPop => jumpIf operand false .popUnlessJumping
  | .jumpIfTrueOrPop => jumpIf operand true .popUnlessJumping
  | .wait => wait

end Instruction

end TaskletMachine
