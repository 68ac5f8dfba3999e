import TaskletMachine.Code.Unit

/-!
# The assembler

Units are assembled directive by directive. Tables grow as constants and names are mentioned, and
jumps name labels that may be placed later. A misuse is remembered and reported when the unit is
finished; only the first one counts, and jumps are resolved only if there was none.

## Main definitions

* `Directive`: one instruction to the assembler.
* `Assembler.apply`: what a directive does.
* `Assembler.finish`: resolves the jumps.
* `assemble`: a unit from its directives.
-/
namespace TaskletMachine

/-- The tables whose indexes are operands. -/
inductive TableKind where
  | constants
  | names
  | locals
deriving DecidableEq, Repr

/-- The word for a table. -/
def TableKind.name : TableKind → String
  | constants => "constants"
  | names => "names"
  | locals => "locals"

/-- Why a unit cannot be assembled. -/
inductive AssemblyError where
  | missingOperand (op : Opcode)
  | unexpectedOperand (op : Opcode)
  | notAJump (op : Opcode)
  | undefinedLabel (label : Nat)
  | labelPlacedTwice (label : Nat)
  | backwardRelativeJump (op : Opcode) (distance : Nat)
  | jumpOffsetTooLarge (offset : Nat)
  | tableLimit (table : TableKind) (amount : Nat)
deriving DecidableEq, Repr

namespace AssemblyError

/-- The name of a reason. -/
def kind : AssemblyError → String
  | missingOperand _ => "MissingOperand"
  | unexpectedOperand _ => "UnexpectedOperand"
  | notAJump _ => "NotAJump"
  | undefinedLabel _ => "UndefinedLabel"
  | labelPlacedTwice _ => "LabelPlacedTwice"
  | backwardRelativeJump _ _ => "BackwardRelativeJump"
  | jumpOffsetTooLarge _ => "JumpOffsetIsTooLarge"
  | tableLimit _ _ => "TableLimit"

/-- The wording of a reason. -/
def message : AssemblyError → String
  | missingOperand op => op.name ++ " expects an operand"
  | unexpectedOperand op => op.name ++ " doesn't take an operand"
  | notAJump op => op.name ++ " isn't a jump op"
  | undefinedLabel label => s!"label {label} was used but never placed"
  | labelPlacedTwice label => s!"label {label} was placed more than once"
  | backwardRelativeJump op distance =>
    op.name ++ s!" can only jump forward, but its label is {distance} bytes behind it"
  | jumpOffsetTooLarge offset =>
    s!"the jump offset here is too large. {offset} bytes is larger than the maximum of 65535"
  | tableLimit table amount =>
    "unit has too many " ++ table.name ++ s!" ({amount})"

end AssemblyError

/-- One instruction to the assembler. -/
inductive Directive where
  /-- Declares the parameters that positional arguments fill. -/
  | args (names : List String)
  /-- Declares the parameter that collects surplus positional arguments. -/
  | varargs (name : String)
  /-- Declares the parameter that collects unmatched keyword arguments. -/
  | varkeywords (name : String)
  /-- Sets the defaults of the last parameters. -/
  | defaults (values : List Constant)
  /-- Sets the source line of the following operations. -/
  | line (n : Nat)
  /-- An operation without operand. -/
  | op (op : Opcode)
  /-- An operation with its operand. -/
  | opWith (op : Opcode) (operand : UInt16)
  /-- Pushes a constant. -/
  | const (c : Constant)
  /-- An operation on an entry of the name table. -/
  | named (op : Opcode) (name : String)
  /-- An operation on a local slot. -/
  | onLocal (op : Opcode) (name : String)
  /-- A comparison. -/
  | compare (op : CompareOp)
  /-- Makes the next label. -/
  | newLabel
  /-- Places a label here. -/
  | place (label : Nat)
  /-- A jump to a label. -/
  | jump (op : Opcode) (label : Nat)

/-- A jump whose operand is still to be filled in. -/
structure PendingJump where
  op : Opcode
  /-- The offset of the operand. -/
  operandIp : Nat
  label : Nat
deriving DecidableEq, Repr

/-- A unit under construction. -/
structure Assembler where
  name : String
  bytes : Array UInt8 := #[]
  constants : Array Constant := #[]
  names : Array String := #[]
  localNames : Array String := #[]
  argCount : Nat := 0
  defaults : List Constant := []
  varargs : Bool := false
  varkeywords : Bool := false
  lines : LineMap := {}
  line : Option Nat := none
  /-- Where each label was placed. -/
  labels : Array (Option Nat) := #[]
  /-- The jumps, in the order in which they were written. -/
  jumps : Array PendingJump := #[]
  /-- The first misuse. -/
  error : Option AssemblyError := none

namespace Assembler

/-- Remembers a misuse unless there was one before. -/
def fail (a : Assembler) (e : AssemblyError) : Assembler :=
  { a with error := a.error.or (some e) }

/-- Operands are below this limit. -/
def operandLimit : Nat := 65536

/-- The two bytes of an operand, the low one first. -/
def operandBytes (operand : Nat) : UInt8 × UInt8 :=
  (UInt8.ofNat operand, UInt8.ofNat (operand / 256))

/-- Writes an opcode, with the current line if there is one. Offsets are recorded in 32 bits. -/
def emit (a : Assembler) (op : Opcode) : Assembler :=
  let lines :=
    match a.line with
    | some line => a.lines.push (a.bytes.size % Nat.pow 2 32) line
    | none => a.lines
  { a with lines, bytes := a.bytes.push op.byte }

/-- Writes an operand. -/
def emitOperand (a : Assembler) (operand : Nat) : Assembler :=
  let (low, high) := operandBytes operand
  { a with bytes := (a.bytes.push low).push high }

/-- Writes an operation with its operand. -/
def pushWith (a : Assembler) (op : Opcode) (operand : Nat) : Assembler :=
  if op.hasOperand then (a.emit op).emitOperand operand else a.fail (.unexpectedOperand op)

/-- Writes an operation on an entry of a table, whose index must fit into an operand. -/
def pushIndex (a : Assembler) (op : Opcode) (table : TableKind) (index : Nat) : Assembler :=
  if index < operandLimit then a.pushWith op index else a.fail (.tableLimit table (index + 1))

/-- Adds a name to a table and gives its index, that of an equal name if there is one. -/
def internName (table : Array String) (name : String) : Array String × Nat :=
  match table.findIdx? (· == name) with
  | some index => (table, index)
  | none => (table.push name, table.size)

/-- Places a label, which must have been made and not been placed. -/
def place (a : Assembler) (label : Nat) : Assembler :=
  match a.labels[label]? with
  | some none => { a with labels := a.labels.setIfInBounds label (some a.bytes.size) }
  | some (some _) => a.fail (.labelPlacedTwice label)
  | none => a.fail (.undefinedLabel label)

/-- Writes a jump to a label, with an empty operand. -/
def jump (a : Assembler) (op : Opcode) (label : Nat) : Assembler :=
  if op.jumpKind?.isNone then a.fail (.notAJump op)
  else
    let a := (a.emit op).emitOperand 0
    { a with jumps := a.jumps.push ⟨op, a.bytes.size - 2, label⟩ }

/-- Writes an operation that pushes a constant. The pool is taken out of the assembler while the
constant is added, so that it is extended in place. -/
def pushConst : Assembler → Constant → Assembler
  | { name, bytes, constants, names, localNames, argCount, defaults, varargs, varkeywords, lines,
      line, labels, jumps, error }, c =>
    let (constants, index) := Constant.intern constants c
    let a : Assembler :=
      { name, bytes, constants, names, localNames, argCount, defaults, varargs, varkeywords, lines,
        line, labels, jumps, error }
    a.pushIndex .loadConst .constants index

/-- What a directive does. -/
def apply (a : Assembler) : Directive → Assembler
  | .args names =>
    { a with localNames := a.localNames ++ names.toArray, argCount := names.length }
  | .varargs name => { a with localNames := a.localNames.push name, varargs := true }
  | .varkeywords name => { a with localNames := a.localNames.push name, varkeywords := true }
  | .defaults values => { a with defaults := values }
  | .line n => { a with line := some n }
  | .op op => if op.hasOperand then a.fail (.missingOperand op) else a.emit op
  | .opWith op operand => a.pushWith op operand.toNat
  | .const c => a.pushConst c
  | .named op name =>
    let (names, index) := internName a.names name
    { a with names }.pushIndex op .names index
  | .onLocal op name =>
    let (localNames, index) := internName a.localNames name
    { a with localNames }.pushIndex op .locals index
  | .compare op => a.pushWith .compareOp op.code
  | .newLabel => { a with labels := a.labels.push none }
  | .place label => a.place label
  | .jump op label => a.jump op label

/-- The operand of a jump, from where its label was placed. -/
def jumpOperand (labels : Array (Option Nat)) (j : PendingJump) : Except AssemblyError Nat := do
  let some target := labels[j.label]?.join | throw (.undefinedLabel j.label)
  let next := j.operandIp + 2
  let offset ←
    match j.op.jumpKind? with
    | some .relative =>
      if next ≤ target then pure (target - next)
      else throw (.backwardRelativeJump j.op (next - target))
    | some .absolute => pure target
    | none => throw (.notAJump j.op)
  if offset < operandLimit then pure offset else throw (.jumpOffsetTooLarge offset)

/-- Fills in the operand of a jump. -/
def resolve (labels : Array (Option Nat)) (bytes : Array UInt8) (j : PendingJump) :
    Except AssemblyError (Array UInt8) := do
  let (low, high) := operandBytes (← jumpOperand labels j)
  return (bytes.setIfInBounds j.operandIp low).setIfInBounds (j.operandIp + 1) high

/-- Finishes a unit: reports the first misuse, or resolves the jumps in order. -/
def finish (a : Assembler) (serial : Nat) : Except AssemblyError CodeUnit := do
  if let some e := a.error then throw e
  let bytes ← a.jumps.foldlM (resolve a.labels) a.bytes
  return {
    serial
    name := a.name
    bytes
    constants := a.constants
    names := a.names
    localNames := a.localNames
    argCount := a.argCount
    defaults := a.defaults
    varargs := a.varargs
    varkeywords := a.varkeywords
    lines := a.lines }

end Assembler

/-- Assembles a unit from its directives. -/
def assemble (serial : Nat) (name : String) (directives : List Directive) :
    Except AssemblyError CodeUnit :=
  (directives.foldl Assembler.apply { name }).finish serial

end TaskletMachine
