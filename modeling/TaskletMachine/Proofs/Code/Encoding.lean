import TaskletMachine.Code.Decode

/-!
# Encoding and decoding

A sequence of operations is encoded byte by byte, and decoding gives the operations back: each
instruction has the opcode of its operation and its operand, that of a relative jump measured from
the start of the code. Only an operand of a comparison can be one that no instruction has.

## Main definitions

* `Instruction.opcodes`, `Instruction.operand?`: what an instruction was decoded from.
* `Operation`, `encode`: operations with their operands, and their bytes.
* `Operation.Sound`, `Operation.instructions`: operations that can be decoded, and what they are
  decoded to.
* `decodeFrom_encode`: the round trip.
-/
namespace TaskletMachine

/-! ## Instructions -/

/-- The opcodes that an instruction can come from. -/
def Instruction.opcodes : Instruction → List Opcode
  | invalid _ => []
  | popTop => [.popTop]
  | rotTwo => [.rotTwo]
  | rotThree => [.rotThree]
  | dupTop => [.dupTop]
  | nop => [.nop]
  | unary .positive => [.unaryPositive]
  | unary .negative => [.unaryNegative]
  | unary .not => [.unaryNot]
  | unary .invert => [.unaryInvert]
  | binary .power false => [.binaryPower]
  | binary .power true => [.inplacePower]
  | binary .multiply false => [.binaryMultiply]
  | binary .multiply true => [.inplaceMultiply]
  | binary .modulo false => [.binaryModulo]
  | binary .modulo true => [.inplaceModulo]
  | binary .add false => [.binaryAdd]
  | binary .add true => [.inplaceAdd]
  | binary .subtract false => [.binarySubtract]
  | binary .subtract true => [.inplaceSubtract]
  | binary .floorDivide false => [.binaryFloorDivide]
  | binary .floorDivide true => [.inplaceFloorDivide]
  | binary .trueDivide false => [.binaryTrueDivide]
  | binary .trueDivide true => [.inplaceTrueDivide]
  | binary .leftShift false => [.binaryLshift]
  | binary .leftShift true => [.inplaceLshift]
  | binary .rightShift false => [.binaryRshift]
  | binary .rightShift true => [.inplaceRshift]
  | binary .and false => [.binaryAnd]
  | binary .and true => [.inplaceAnd]
  | binary .xor false => [.binaryXor]
  | binary .xor true => [.inplaceXor]
  | binary .or false => [.binaryOr]
  | binary .or true => [.inplaceOr]
  | listAppend => [.listAppend]
  | subscript => [.binarySubscr]
  | storeSubscript => [.storeSubscr]
  | deleteSubscript => [.deleteSubscr]
  | getIter => [.getIter]
  | loadAssertionError => [.loadAssertionError]
  | breakLoop => [.breakLoop]
  | returnValue => [.returnValue]
  | importStar => [.importStar]
  | popBlock => [.popBlock]
  | endFinally => [.endFinally]
  | buildClass => [.buildClass]
  | storeName _ => [.storeName]
  | deleteName _ => [.deleteName]
  | unpackSequence _ => [.unpackSequence]
  | forIter _ => [.forIter]
  | storeAttr _ => [.storeAttr]
  | storeGlobal _ => [.storeGlobal]
  | loadConst _ => [.loadConst]
  | loadName _ => [.loadName]
  | buildTuple _ => [.buildTuple]
  | buildList _ => [.buildList]
  | buildMap _ => [.buildMap]
  | loadAttr _ => [.loadAttr]
  | compare _ => [.compareOp]
  | importName _ => [.importName]
  | importFrom _ => [.importFrom]
  | jump _ => [.jumpForward, .jumpAbsolute]
  | jumpIf _ false .peek => [.jumpIfFalse]
  | jumpIf _ true .peek => [.jumpIfTrue]
  | jumpIf _ false .pop => [.popJumpIfFalse]
  | jumpIf _ true .pop => [.popJumpIfTrue]
  | jumpIf _ false .popUnlessJumping => [.jumpIfFalseOrPop]
  | jumpIf _ true .popUnlessJumping => [.jumpIfTrueOrPop]
  | loadGlobal _ => [.loadGlobal]
  | continueLoop _ => [.continueLoop]
  | setupLoop _ => [.setupLoop]
  | setupExcept _ => [.setupExcept]
  | setupFinally _ => [.setupFinally]
  | loadFast _ => [.loadFast]
  | storeFast _ => [.storeFast]
  | deleteFast _ => [.deleteFast]
  | raise _ => [.raiseVarargs]
  | call _ => [.callFunction]
  | callWithKeywords _ => [.callFunctionKw]
  | makeFunction _ => [.makeFunction]
  | buildConstKeyMap _ => [.buildConstKeyMap]
  | wait => [.wait]

/-- The operand of an instruction; that of a jump is its target. -/
def Instruction.operand? : Instruction → Option Nat
  | storeName n | deleteName n | unpackSequence n | forIter n | storeAttr n | storeGlobal n
  | loadConst n | loadName n | buildTuple n | buildList n | buildMap n | loadAttr n
  | importName n | importFrom n | jump n | jumpIf n _ _ | loadGlobal n | continueLoop n
  | setupLoop n | setupExcept n | setupFinally n | loadFast n | storeFast n | deleteFast n
  | raise n | call n | callWithKeywords n | buildConstKeyMap n => some n
  | compare op => some op.code
  | makeFunction flags => some flags.bits
  | _ => none

/-- An operand as an instruction has it: relative jumps are measured from the instruction that
follows. -/
def Opcode.measured (op : Opcode) (operand next : Nat) : Nat :=
  if op.jumpKind? = some .relative then next + operand else operand

/-- Whether an operand is one that an instruction with this opcode can have. -/
def Opcode.Admits (op : Opcode) (operand : Nat) : Prop :=
  op = .compareOp → (CompareOp.ofCode? operand).isSome

theorem CompareOp.code_of_ofCode? {n : Nat} {op : CompareOp} (h : CompareOp.ofCode? n = some op) :
    op.code = n := by
  simpa using List.find?_some h

theorem CompareOp.ofCode?_code (op : CompareOp) : CompareOp.ofCode? op.code = some op := by
  cases op <;> rfl

theorem Opcode.ofByte?_byte (op : Opcode) : Opcode.ofByte? op.byte = some op := by
  cases op <;> rfl

theorem Opcode.hasOperand_of_jumpKind? {op : Opcode} (h : op.jumpKind?.isSome) :
    op.hasOperand := by
  cases op <;> first | rfl | cases h

/-- An instruction has the opcode and the operand that it was made of. -/
theorem Instruction.ofOpcode_spec {op : Opcode} {operand : Nat} (h : op.Admits operand)
    (ip next : Nat) :
    (ofOpcode op operand ip next).isInvalid = false ∧
    op ∈ (ofOpcode op operand ip next).opcodes ∧
    (ofOpcode op operand ip next).operand? =
      if op.hasOperand then some (op.measured operand next) else none := by
  by_cases hcompare : op = .compareOp
  · obtain ⟨comparison, hcode⟩ := Option.isSome_iff_exists.1 (h hcompare)
    subst hcompare
    simp only [ofOpcode, hcode]
    exact ⟨rfl, List.mem_singleton_self _, congrArg some (CompareOp.code_of_ofCode? hcode)⟩
  · cases op
    case compareOp => exact absurd rfl hcompare
    all_goals exact ⟨rfl, by simp [ofOpcode, opcodes], rfl⟩

/-! ## Operations -/

/-- An operation as it is encoded: an opcode, and an operand if it takes one. -/
structure Operation where
  op : Opcode
  operand : Nat := 0

namespace Operation

/-- The bytes of an operation. -/
def bytes (x : Operation) : List UInt8 :=
  if x.op.hasOperand then
    [x.op.byte, UInt8.ofNat x.operand, UInt8.ofNat (x.operand / 256)]
  else [x.op.byte]

/-- Whether an operation can be decoded: its operand fits into two bytes and is one that its
instruction can have. -/
structure Sound (x : Operation) : Prop where
  lt : x.operand < 65536
  absent : x.op.hasOperand = false → x.operand = 0
  admits : x.op.Admits x.operand

/-- What operations are decoded to, with the offsets of the instructions. -/
def instructions : (ip : Nat) → List Operation → List (Nat × Instruction)
  | _, [] => []
  | ip, x :: xs =>
    let next := ip + x.op.size
    (ip, .ofOpcode x.op x.operand ip next) :: instructions next xs

theorem length_bytes (x : Operation) : x.bytes.length = x.op.size := by
  unfold bytes Opcode.size
  split <;> rfl

theorem size_pos (op : Opcode) : 0 < op.size := by
  unfold Opcode.size
  split <;> decide

end Operation

/-- The bytes of a sequence of operations. -/
def encode (xs : List Operation) : List UInt8 :=
  xs.flatMap Operation.bytes

/-- There are at least as many bytes as operations. -/
theorem length_le_length_encode (xs : List Operation) : xs.length ≤ (encode xs).length := by
  induction xs with
  | nil => exact Nat.zero_le _
  | cons x xs ih =>
    have hpos := Operation.size_pos x.op
    rw [encode, List.flatMap_cons, List.length_append, Operation.length_bytes, List.length_cons]
    change xs.length + 1 ≤ x.op.size + (encode xs).length
    omega

/-! ## Decoding -/

/-- An operation is decoded, wherever it stands. -/
theorem decodeAt_encode {x : Operation} (h : x.Sound) (before after : List UInt8) :
    decodeAt (before ++ (x.bytes ++ after)).toArray before.length =
      some ⟨.ofOpcode x.op x.operand before.length (before.length + x.op.size),
        before.length + x.op.size⟩ := by
  unfold decodeAt Operation.bytes Opcode.size
  by_cases hoperand : x.op.hasOperand
  · have hlt := h.lt
    have hvalue : x.operand % 256 + 256 * (x.operand / 256 % 256) = x.operand := by omega
    simp [hoperand, Opcode.ofByte?_byte, hvalue]
  · simp only [Bool.not_eq_true] at hoperand
    simp [hoperand, Opcode.ofByte?_byte, h.absent hoperand]

theorem decodeUpTo_encode {xs : List Operation} (h : ∀ x ∈ xs, x.Sound) (before : List UInt8)
    {count : Nat} (hcount : xs.length ≤ count) (read : List (Nat × Instruction)) :
    decodeUpTo (before ++ encode xs).toArray count read before.length =
      ⟨read.reverse ++ Operation.instructions before.length xs,
        before.length + (encode xs).length⟩ := by
  induction xs generalizing before count read with
  | nil =>
    cases count with
    | zero => simp [decodeUpTo, encode, Operation.instructions]
    | succ count => simp [decodeUpTo, decodeAt, encode, Operation.instructions]
  | cons x xs ih =>
    obtain ⟨count, rfl⟩ := Nat.exists_eq_add_one_of_ne_zero (Nat.ne_zero_of_lt hcount)
    have hx := h x List.mem_cons_self
    have hvalid := (Instruction.ofOpcode_spec hx.admits before.length
      (before.length + x.op.size)).1
    have hbytes : encode (x :: xs) = x.bytes ++ encode xs := List.flatMap_cons
    have hnext : before.length + x.op.size = (before ++ x.bytes).length := by
      rw [List.length_append, Operation.length_bytes]
    rw [hbytes, decodeUpTo, decodeAt_encode hx]
    simp only [hvalid, Bool.false_eq_true, if_false]
    rw [hnext, ← List.append_assoc,
      ih (fun y hy => h y (List.mem_cons_of_mem _ hy)) _ (Nat.le_of_succ_le_succ hcount)]
    simp only [Operation.instructions, hnext, List.reverse_cons, List.append_assoc,
      List.singleton_append, List.length_append, Nat.add_assoc]

/-- Decoding gives back the operations that were encoded, and ends where they end. -/
theorem decodeFrom_encode {xs : List Operation} (h : ∀ x ∈ xs, x.Sound) :
    decodeFrom (encode xs).toArray 0 = ⟨Operation.instructions 0 xs, (encode xs).length⟩ := by
  have hcount : xs.length ≤ (encode xs).toArray.size - 0 := length_le_length_encode xs
  have hdecoded := decodeUpTo_encode h [] hcount []
  rw [List.nil_append, List.reverse_nil, List.nil_append, List.length_nil, Nat.zero_add] at hdecoded
  exact hdecoded

end TaskletMachine
