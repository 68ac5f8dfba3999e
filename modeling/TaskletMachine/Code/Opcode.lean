/-!
# Opcodes

The operations of the bytecode. An opcode is one byte, followed by a little-endian two-byte operand
if it takes one.

## Main definitions

* `Opcode`, `Opcode.byte`, `Opcode.ofByte?`: the operations and their encoding.
* `Opcode.hasOperand`, `Opcode.size`: how many bytes an operation takes.
* `Opcode.jumpKind?`: how the operand of a jump is measured.
-/
namespace TaskletMachine

/-- The operations. The top of the operand stack is written `a`, the value below it `b`, and the one
below that `c`. -/
inductive Opcode where
  /-- Removes `a`. -/
  | popTop
  /-- Swaps `a` and `b`. -/
  | rotTwo
  /-- Moves `a` below `c`. -/
  | rotThree
  /-- Pushes `a` again. -/
  | dupTop
  /-- Does nothing. -/
  | nop
  /-- Replaces `a` by `+a`. -/
  | unaryPositive
  /-- Replaces `a` by `-a`. -/
  | unaryNegative
  /-- Replaces `a` by `not a`. -/
  | unaryNot
  /-- Replaces `a` by `~a`. -/
  | unaryInvert
  /-- Appends `a` to the list `b`, which stays. -/
  | listAppend
  /-- Replaces both by `b ** a`. -/
  | binaryPower
  /-- Replaces both by `b * a`. -/
  | binaryMultiply
  /-- Replaces both by `b % a`. -/
  | binaryModulo
  /-- Replaces both by `b + a`. -/
  | binaryAdd
  /-- Replaces both by `b - a`. -/
  | binarySubtract
  /-- Replaces both by `b[a]`. -/
  | binarySubscr
  /-- Replaces both by `b // a`. -/
  | binaryFloorDivide
  /-- Replaces both by `b / a`. -/
  | binaryTrueDivide
  /-- Replaces both by `b // a`, in place. -/
  | inplaceFloorDivide
  /-- Replaces both by `b / a`, in place. -/
  | inplaceTrueDivide
  /-- Replaces both by `b + a`, in place. -/
  | inplaceAdd
  /-- Replaces both by `b - a`, in place. -/
  | inplaceSubtract
  /-- Replaces both by `b * a`, in place. -/
  | inplaceMultiply
  /-- Replaces both by `b % a`, in place. -/
  | inplaceModulo
  /-- Assigns `c` to `b[a]`. -/
  | storeSubscr
  /-- Deletes `b[a]`. -/
  | deleteSubscr
  /-- Replaces both by `b << a`. -/
  | binaryLshift
  /-- Replaces both by `b >> a`. -/
  | binaryRshift
  /-- Replaces both by `b & a`. -/
  | binaryAnd
  /-- Replaces both by `b ^ a`. -/
  | binaryXor
  /-- Replaces both by `b | a`. -/
  | binaryOr
  /-- Replaces both by `b ** a`, in place. -/
  | inplacePower
  /-- Replaces `a` by an iterator over it. -/
  | getIter
  /-- Pushes the class of assertion failures. -/
  | loadAssertionError
  /-- Replaces both by `b << a`, in place. -/
  | inplaceLshift
  /-- Replaces both by `b >> a`, in place. -/
  | inplaceRshift
  /-- Replaces both by `b & a`, in place. -/
  | inplaceAnd
  /-- Replaces both by `b ^ a`, in place. -/
  | inplaceXor
  /-- Replaces both by `b | a`, in place. -/
  | inplaceOr
  /-- Leaves the innermost loop. -/
  | breakLoop
  /-- Returns `a` to the caller. -/
  | returnValue
  /-- Copies the public attributes of the module `a` into the locals. -/
  | importStar
  /-- Removes the innermost block. -/
  | popBlock
  /-- Ends a cleanup body and continues the fault that entered it. -/
  | endFinally
  /-- Builds a class with the bases `a`, the name `b` and the body `c`. -/
  | buildClass
  /-- Binds a name to `a`. -/
  | storeName
  /-- Unbinds a name. -/
  | deleteName
  /-- Replaces `a` by its items, the first on top. -/
  | unpackSequence
  /-- Pushes the next value of the iterator `a`, or removes it and leaves the loop. -/
  | forIter
  /-- Assigns `b` to an attribute of `a`. -/
  | storeAttr
  /-- Binds a name of the root frame to `a`. -/
  | storeGlobal
  /-- Pushes a constant. -/
  | loadConst
  /-- Pushes the value of a name. -/
  | loadName
  /-- Makes a tuple of the top values. -/
  | buildTuple
  /-- Makes a list of the top values. -/
  | buildList
  /-- Makes a dict of the top key and value pairs. -/
  | buildMap
  /-- Replaces `a` by one of its attributes. -/
  | loadAttr
  /-- Compares `b` with `a`. -/
  | compareOp
  /-- Imports a module; `a` and `b` are dropped. -/
  | importName
  /-- Pushes an attribute of the module `a`. -/
  | importFrom
  /-- Jumps forward. -/
  | jumpForward
  /-- Jumps if `a` is falsy; `a` stays. -/
  | jumpIfFalse
  /-- Jumps if `a` is truthy; `a` stays. -/
  | jumpIfTrue
  /-- Jumps. -/
  | jumpAbsolute
  /-- Removes `a` and jumps if it was falsy. -/
  | popJumpIfFalse
  /-- Removes `a` and jumps if it was truthy. -/
  | popJumpIfTrue
  /-- Pushes the value of a name of the root frame. -/
  | loadGlobal
  /-- Goes on with the next round of the innermost loop. -/
  | continueLoop
  /-- Enters a loop. -/
  | setupLoop
  /-- Enters a guarded part with handlers. -/
  | setupExcept
  /-- Enters a guarded part with a cleanup body. -/
  | setupFinally
  /-- Pushes a local slot. -/
  | loadFast
  /-- Moves `a` to a local slot. -/
  | storeFast
  /-- Clears a local slot. -/
  | deleteFast
  /-- Raises a fault from up to two values. -/
  | raiseVarargs
  /-- Calls with positional arguments. -/
  | callFunction
  /-- Makes a function of the name `a` and the code `b`. -/
  | makeFunction
  /-- Calls with the keyword names `a`. -/
  | callFunctionKw
  /-- Makes a dict of the keys `a` and the values below. -/
  | buildConstKeyMap
  /-- Jumps if `a` is falsy and removes it otherwise. -/
  | jumpIfFalseOrPop
  /-- Jumps if `a` is truthy and removes it otherwise. -/
  | jumpIfTrueOrPop
  /-- Parks the tasklet for one tick. -/
  | wait
deriving DecidableEq, Repr

namespace Opcode

/-- Every opcode, in the order of their bytes. -/
def all : List Opcode :=
  [.popTop, .rotTwo, .rotThree, .dupTop, .nop, .unaryPositive, .unaryNegative, .unaryNot,
   .unaryInvert, .listAppend, .binaryPower, .binaryMultiply, .binaryModulo, .binaryAdd,
   .binarySubtract, .binarySubscr, .binaryFloorDivide, .binaryTrueDivide, .inplaceFloorDivide,
   .inplaceTrueDivide, .inplaceAdd, .inplaceSubtract, .inplaceMultiply, .inplaceModulo,
   .storeSubscr, .deleteSubscr, .binaryLshift, .binaryRshift, .binaryAnd, .binaryXor, .binaryOr,
   .inplacePower, .getIter, .loadAssertionError, .inplaceLshift, .inplaceRshift, .inplaceAnd,
   .inplaceXor, .inplaceOr, .breakLoop, .returnValue, .importStar, .popBlock, .endFinally,
   .buildClass, .storeName, .deleteName, .unpackSequence, .forIter, .storeAttr, .storeGlobal,
   .loadConst, .loadName, .buildTuple, .buildList, .buildMap, .loadAttr, .compareOp, .importName,
   .importFrom, .jumpForward, .jumpIfFalse, .jumpIfTrue, .jumpAbsolute, .popJumpIfFalse,
   .popJumpIfTrue, .loadGlobal, .continueLoop, .setupLoop, .setupExcept, .setupFinally,
   .loadFast, .storeFast, .deleteFast, .raiseVarargs, .callFunction, .makeFunction,
   .callFunctionKw, .buildConstKeyMap, .jumpIfFalseOrPop, .jumpIfTrueOrPop, .wait]

/-- The byte of an opcode. -/
def byte : Opcode → UInt8
  | .popTop => 0x01
  | .rotTwo => 0x02
  | .rotThree => 0x03
  | .dupTop => 0x04
  | .nop => 0x09
  | .unaryPositive => 0x0A
  | .unaryNegative => 0x0B
  | .unaryNot => 0x0C
  | .unaryInvert => 0x0F
  | .listAppend => 0x12
  | .binaryPower => 0x13
  | .binaryMultiply => 0x14
  | .binaryModulo => 0x16
  | .binaryAdd => 0x17
  | .binarySubtract => 0x18
  | .binarySubscr => 0x19
  | .binaryFloorDivide => 0x1A
  | .binaryTrueDivide => 0x1B
  | .inplaceFloorDivide => 0x1C
  | .inplaceTrueDivide => 0x1D
  | .inplaceAdd => 0x37
  | .inplaceSubtract => 0x38
  | .inplaceMultiply => 0x39
  | .inplaceModulo => 0x3B
  | .storeSubscr => 0x3C
  | .deleteSubscr => 0x3D
  | .binaryLshift => 0x3E
  | .binaryRshift => 0x3F
  | .binaryAnd => 0x40
  | .binaryXor => 0x41
  | .binaryOr => 0x42
  | .inplacePower => 0x43
  | .getIter => 0x44
  | .loadAssertionError => 0x4A
  | .inplaceLshift => 0x4B
  | .inplaceRshift => 0x4C
  | .inplaceAnd => 0x4D
  | .inplaceXor => 0x4E
  | .inplaceOr => 0x4F
  | .breakLoop => 0x50
  | .returnValue => 0x53
  | .importStar => 0x54
  | .popBlock => 0x57
  | .endFinally => 0x58
  | .buildClass => 0x59
  | .storeName => 0x5A
  | .deleteName => 0x5B
  | .unpackSequence => 0x5C
  | .forIter => 0x5D
  | .storeAttr => 0x5F
  | .storeGlobal => 0x61
  | .loadConst => 0x64
  | .loadName => 0x65
  | .buildTuple => 0x66
  | .buildList => 0x67
  | .buildMap => 0x68
  | .loadAttr => 0x69
  | .compareOp => 0x6A
  | .importName => 0x6B
  | .importFrom => 0x6C
  | .jumpForward => 0x6E
  | .jumpIfFalse => 0x6F
  | .jumpIfTrue => 0x70
  | .jumpAbsolute => 0x71
  | .popJumpIfFalse => 0x72
  | .popJumpIfTrue => 0x73
  | .loadGlobal => 0x74
  | .continueLoop => 0x77
  | .setupLoop => 0x78
  | .setupExcept => 0x79
  | .setupFinally => 0x7A
  | .loadFast => 0x7C
  | .storeFast => 0x7D
  | .deleteFast => 0x7E
  | .raiseVarargs => 0x82
  | .callFunction => 0x83
  | .makeFunction => 0x84
  | .callFunctionKw => 0x8D
  | .buildConstKeyMap => 0x9C
  | .jumpIfFalseOrPop => 0x9E
  | .jumpIfTrueOrPop => 0x9F
  | .wait => 0xA0

/-- The name of an opcode. -/
def name : Opcode → String
  | .popTop => "PopTop"
  | .rotTwo => "RotTwo"
  | .rotThree => "RotThree"
  | .dupTop => "DupTop"
  | .nop => "Nop"
  | .unaryPositive => "UnaryPositive"
  | .unaryNegative => "UnaryNegative"
  | .unaryNot => "UnaryNot"
  | .unaryInvert => "UnaryInvert"
  | .listAppend => "ListAppend"
  | .binaryPower => "BinaryPower"
  | .binaryMultiply => "BinaryMultiply"
  | .binaryModulo => "BinaryModulo"
  | .binaryAdd => "BinaryAdd"
  | .binarySubtract => "BinarySubtract"
  | .binarySubscr => "BinarySubscr"
  | .binaryFloorDivide => "BinaryFloorDivide"
  | .binaryTrueDivide => "BinaryTrueDivide"
  | .inplaceFloorDivide => "InplaceFloorDivide"
  | .inplaceTrueDivide => "InplaceTrueDivide"
  | .inplaceAdd => "InplaceAdd"
  | .inplaceSubtract => "InplaceSubtract"
  | .inplaceMultiply => "InplaceMultiply"
  | .inplaceModulo => "InplaceModulo"
  | .storeSubscr => "StoreSubscr"
  | .deleteSubscr => "DeleteSubscr"
  | .binaryLshift => "BinaryLshift"
  | .binaryRshift => "BinaryRshift"
  | .binaryAnd => "BinaryAnd"
  | .binaryXor => "BinaryXor"
  | .binaryOr => "BinaryOr"
  | .inplacePower => "InplacePower"
  | .getIter => "GetIter"
  | .loadAssertionError => "LoadAssertionError"
  | .inplaceLshift => "InplaceLshift"
  | .inplaceRshift => "InplaceRshift"
  | .inplaceAnd => "InplaceAnd"
  | .inplaceXor => "InplaceXor"
  | .inplaceOr => "InplaceOr"
  | .breakLoop => "BreakLoop"
  | .returnValue => "ReturnValue"
  | .importStar => "ImportStar"
  | .popBlock => "PopBlock"
  | .endFinally => "EndFinally"
  | .buildClass => "BuildClass"
  | .storeName => "StoreName"
  | .deleteName => "DeleteName"
  | .unpackSequence => "UnpackSequence"
  | .forIter => "ForIter"
  | .storeAttr => "StoreAttr"
  | .storeGlobal => "StoreGlobal"
  | .loadConst => "LoadConst"
  | .loadName => "LoadName"
  | .buildTuple => "BuildTuple"
  | .buildList => "BuildList"
  | .buildMap => "BuildMap"
  | .loadAttr => "LoadAttr"
  | .compareOp => "CompareOp"
  | .importName => "ImportName"
  | .importFrom => "ImportFrom"
  | .jumpForward => "JumpForward"
  | .jumpIfFalse => "JumpIfFalse"
  | .jumpIfTrue => "JumpIfTrue"
  | .jumpAbsolute => "JumpAbsolute"
  | .popJumpIfFalse => "PopJumpIfFalse"
  | .popJumpIfTrue => "PopJumpIfTrue"
  | .loadGlobal => "LoadGlobal"
  | .continueLoop => "ContinueLoop"
  | .setupLoop => "SetupLoop"
  | .setupExcept => "SetupExcept"
  | .setupFinally => "SetupFinally"
  | .loadFast => "LoadFast"
  | .storeFast => "StoreFast"
  | .deleteFast => "DeleteFast"
  | .raiseVarargs => "RaiseVarargs"
  | .callFunction => "CallFunction"
  | .makeFunction => "MakeFunction"
  | .callFunctionKw => "CallFunctionKw"
  | .buildConstKeyMap => "BuildConstKeyMap"
  | .jumpIfFalseOrPop => "JumpIfFalseOrPop"
  | .jumpIfTrueOrPop => "JumpIfTrueOrPop"
  | .wait => "Wait"

/-- The opcode of a byte. -/
def ofByte? (b : UInt8) : Option Opcode :=
  all.find? fun op => op.byte == b

/-- The opcode of a name. -/
def ofName? (s : String) : Option Opcode :=
  all.find? fun op => op.name == s

/-- The first byte of the opcodes that take an operand. -/
def firstWithOperand : UInt8 := 0x5A

/-- Whether an opcode is followed by an operand. -/
def hasOperand (op : Opcode) : Bool :=
  firstWithOperand ≤ op.byte && op != .wait

/-- The number of bytes of an opcode and its operand. -/
def size (op : Opcode) : Nat :=
  if op.hasOperand then 3 else 1

end Opcode

/-- How the operand of a jump is measured. -/
inductive JumpKind where
  /-- From the start of the following instruction. -/
  | relative
  /-- From the start of the code. -/
  | absolute
deriving DecidableEq, Repr

/-- The name of a way to measure jumps. -/
def JumpKind.name : JumpKind → String
  | .relative => "Relative"
  | .absolute => "Absolute"

/-- How the operand of an opcode is measured, if it is a jump target. -/
def Opcode.jumpKind? : Opcode → Option JumpKind
  | .jumpForward | .forIter | .setupLoop | .setupExcept | .setupFinally => some .relative
  | .jumpAbsolute | .continueLoop | .jumpIfFalse | .jumpIfTrue | .popJumpIfFalse
  | .popJumpIfTrue | .jumpIfFalseOrPop | .jumpIfTrueOrPop => some .absolute
  | _ => none

end TaskletMachine
