import TaskletMachine.Code.Instruction

/-!
# Decoding

Reading instructions out of bytes. The machine decodes one instruction at a time, at any offset; a
listing decodes from an offset to the end, or to the first bytes that are no instruction.

## Main definitions

* `decodeAt`: the instruction at an offset and the offset after it.
* `decodeFrom`: the instructions from an offset on.
-/
namespace TaskletMachine

/-- An instruction and the offset where reading goes on after it. -/
structure Decoded where
  instruction : Instruction
  next : Nat
deriving DecidableEq, Repr

/-- Decodes the instruction at an offset; there is none at or past the end of the bytes. -/
def decodeAt (bytes : Array UInt8) (ip : Nat) : Option Decoded :=
  bytes[ip]?.map fun byte =>
    match Opcode.ofByte? byte with
    | none => ⟨.invalid (.unknownOp byte ip), ip + 1⟩
    | some op =>
      if op.hasOperand then
        match bytes[ip + 1]?, bytes[ip + 2]? with
        | some low, some high =>
          ⟨.ofOpcode op (low.toNat + 256 * high.toNat) ip (ip + 3), ip + 3⟩
        | some _, none => ⟨.invalid (.outOfBounds (ip + 2)), ip + 2⟩
        | none, _ => ⟨.invalid (.outOfBounds (ip + 1)), ip + 1⟩
      else ⟨.ofOpcode op 0 ip (ip + 1), ip + 1⟩

/-- The result of decoding a stretch of bytes: each instruction with its offset, and the offset
where reading ended. -/
structure Stretch where
  instructions : List (Nat × Instruction)
  stop : Nat
deriving DecidableEq, Repr

/-- Decodes at most `count` instructions; those read so far are passed newest first. -/
def decodeUpTo (bytes : Array UInt8) :
    (count : Nat) → (read : List (Nat × Instruction)) → (ip : Nat) → Stretch
  | 0, read, ip => ⟨read.reverse, ip⟩
  | count + 1, read, ip =>
    match decodeAt bytes ip with
    | none => ⟨read.reverse, ip⟩
    | some d =>
      let read := (ip, d.instruction) :: read
      if d.instruction.isInvalid then ⟨read.reverse, d.next⟩
      else decodeUpTo bytes count read d.next

/-- Decodes from an offset to the end of the bytes, or to the first that are no instruction. There
are at most as many instructions as bytes. -/
def decodeFrom (bytes : Array UInt8) (ip : Nat) : Stretch :=
  decodeUpTo bytes (bytes.size - ip) [] ip

end TaskletMachine
