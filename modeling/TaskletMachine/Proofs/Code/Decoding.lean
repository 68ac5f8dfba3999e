import TaskletMachine.Proofs.Code.Encoding
import TaskletMachine.Proofs.Machine.Steps

/-!
# Decoding arbitrary bytes

Bytes need not come from an assembler. Reading goes through them from one instruction to the next,
never past their end, and stops at the end or at the first bytes that are no instruction. The machine
does not keep a reader: it starts to read anew at every instruction, and finds what a reader finds
that has come there from the start.

## Main definitions

* `Reader`, `Reader.next?`: a reader, and what it gives next.
* `Reader.Reads`: all that a reader gives, in order.
* `Stretch.boundary`: where the instructions of a stretch begin.
* `decodeFrom_total`: what is read from any offset of any bytes.
-/
namespace TaskletMachine

/-! ## One instruction -/

theorem Opcode.byte_of_ofByte? {byte : UInt8} {op : Opcode} (h : ofByte? byte = some op) :
    op.byte = byte := by
  simpa using List.find?_some h

/-- An instruction takes the bytes of its opcode and its operand. Reading does not go past the end,
whatever the bytes are. -/
theorem decodeAt_spec {bytes : Array UInt8} {ip : Nat} {d : Decoded}
    (h : decodeAt bytes ip = some d) :
    ip < d.next ∧ d.next ≤ bytes.size ∧
      (d.instruction.isInvalid = false →
        ∃ op ∈ d.instruction.opcodes, bytes[ip]? = some op.byte ∧ d.next = ip + op.size) := by
  obtain ⟨byte, hbyte, rfl⟩ := Option.map_eq_some_iff.1 h
  have hip : ip < bytes.size := (Array.getElem?_eq_some_iff.1 hbyte).1
  have hvalid {op : Opcode} {operand next : Nat} (hop : Opcode.ofByte? byte = some op)
      (hi : (Instruction.ofOpcode op operand ip next).isInvalid = false) :
      op ∈ (Instruction.ofOpcode op operand ip next).opcodes ∧ bytes[ip]? = some op.byte := by
    refine ⟨(Instruction.ofOpcode_spec (fun hcompare => ?_) ip next).2.1, ?_⟩
    · subst hcompare
      cases hcode : CompareOp.ofCode? operand with
      | some comparison => rfl
      | none => simp [Instruction.ofOpcode, hcode, Instruction.isInvalid] at hi
    · rw [Opcode.byte_of_ofByte? hop, hbyte]
  have hflaw {flaw : Flaw} {P : Prop} (h : (Instruction.invalid flaw).isInvalid = false) : P :=
    absurd h Bool.false_ne_true.symm
  cases hop : Opcode.ofByte? byte with
  | none => exact ⟨Nat.lt_succ_self ip, hip, hflaw⟩
  | some op =>
    dsimp only
    by_cases hoperand : op.hasOperand
    · rw [if_pos hoperand]
      have hsize : op.size = 3 := if_pos hoperand
      cases hlow : bytes[ip + 1]? with
      | none => exact ⟨Nat.lt_succ_self ip, hip, hflaw⟩
      | some low =>
        have hip₁ : ip + 1 < bytes.size := (Array.getElem?_eq_some_iff.1 hlow).1
        cases hhigh : bytes[ip + 2]? with
        | none => exact ⟨Nat.lt_add_of_pos_right Nat.two_pos, hip₁, hflaw⟩
        | some high =>
          have hip₂ : ip + 2 < bytes.size := (Array.getElem?_eq_some_iff.1 hhigh).1
          refine ⟨Nat.lt_add_of_pos_right (Nat.succ_pos 2), hip₂, fun hi => ?_⟩
          obtain ⟨hmem, hfirst⟩ := hvalid hop hi
          exact ⟨op, hmem, hfirst, by rw [hsize]⟩
    · rw [if_neg hoperand]
      refine ⟨Nat.lt_succ_self ip, hip, fun hi => ?_⟩
      obtain ⟨hmem, hfirst⟩ := hvalid hop hi
      exact ⟨op, hmem, hfirst, by rw [Opcode.size, if_neg hoperand]⟩

/-! ## Readers -/

/-- A reader of code: the offset where it stands, and whether it has met bytes that are no
instruction. -/
structure Reader where
  ip : Nat
  failed : Bool := false

/-- What a reader gives next, and the reader afterwards. After bytes that are no instruction it
gives nothing any more. -/
def Reader.next? (bytes : Array UInt8) (r : Reader) : Option (Instruction × Reader) :=
  if r.failed then none
  else (decodeAt bytes r.ip).map fun d => (d.instruction, ⟨d.next, d.instruction.isInvalid⟩)

/-- A reader gives the instructions, each at its offset, and then nothing any more. -/
inductive Reader.Reads (bytes : Array UInt8) : Reader → List (Nat × Instruction) → Reader → Prop
  | ends {r : Reader} (h : r.next? bytes = none) : Reads bytes r [] r
  | gives {r r' stop : Reader} {i : Instruction} {items : List (Nat × Instruction)}
      (h : r.next? bytes = some (i, r')) (hrest : Reads bytes r' items stop) :
      Reads bytes r ((r.ip, i) :: items) stop

/-- Where an instruction of a stretch begins; after the last one it is where reading ended. -/
def Stretch.boundary (s : Stretch) (k : Nat) : Nat :=
  match s.instructions[k]? with
  | some (ip, _) => ip
  | none => s.stop

namespace Reader

variable {bytes : Array UInt8} {r r' stop : Reader} {i : Instruction}
  {items : List (Nat × Instruction)}

theorem next?_eq_some (h : r.next? bytes = some (i, r')) :
    decodeAt bytes r.ip = some ⟨i, r'.ip⟩ ∧ r'.failed = i.isInvalid := by
  unfold next? at h
  split at h
  · cases h
  · obtain ⟨d, hd, heq⟩ := Option.map_eq_some_iff.1 h
    cases heq
    exact ⟨hd, rfl⟩

theorem Reads.eq_nil_of_failed (h : Reads bytes r items stop) (hr : r.failed) :
    items = [] ∧ stop = r := by
  cases h with
  | ends _ => exact ⟨rfl, rfl⟩
  | gives h _ => simp [next?, hr] at h

/-- A reader stays within the bytes. -/
theorem Reads.stop_le (h : Reads bytes r items stop) (hr : r.ip ≤ bytes.size) :
    stop.ip ≤ bytes.size := by
  induction h with
  | ends _ => exact hr
  | gives h _ ih => exact ih (decodeAt_spec (next?_eq_some h).1).2.1

/-- Only the last thing that a reader gives can be no instruction. -/
theorem Reads.isInvalid_dropLast (h : Reads bytes r items stop) :
    ∀ x ∈ items.dropLast, x.2.isInvalid = false := by
  induction h with
  | ends _ => exact nofun
  | @gives r r' stop i items h hrest ih =>
    intro x hx
    cases items with
    | nil => cases hx
    | cons y items =>
      rw [List.dropLast_cons_of_ne_nil (List.cons_ne_nil y items)] at hx
      rcases List.mem_cons.1 hx with rfl | hx
      · -- after bytes that are no instruction there would be nothing more
        refine Bool.eq_false_iff.2 fun hi => ?_
        cases (hrest.eq_nil_of_failed ((next?_eq_some h).2.trans hi)).1
      · exact ih x hx

/-- A reader that has given instructions only has come to the end of the bytes. -/
theorem Reads.stop_eq_size (h : Reads bytes r items stop) (hr : r.ip ≤ bytes.size)
    (hfailed : r.failed = false) (hitems : ∀ x ∈ items, x.2.isInvalid = false) :
    stop.ip = bytes.size := by
  induction h with
  | @ends r h =>
    rw [next?, hfailed, if_neg Bool.false_ne_true, Option.map_eq_none_iff, decodeAt_eq_none] at h
    exact Nat.le_antisymm hr h
  | gives h _ ih =>
    obtain ⟨hd, hfails⟩ := next?_eq_some h
    exact ih (decodeAt_spec hd).2.1 (hfails.trans (hitems _ List.mem_cons_self))
      fun x hx => hitems x (List.mem_cons_of_mem _ hx)

/-- The first thing that a reader gives stands where the reader does; if it gives nothing, the
reader has not moved. -/
theorem Reads.boundary_zero (h : Reads bytes r items stop) :
    Stretch.boundary ⟨items, stop.ip⟩ 0 = r.ip := by
  cases h <;> rfl

/-- Everything that a reader gives is what is decoded at its offset, up to where the next one
begins. -/
theorem Reads.decodeAt_eq (h : Reads bytes r items stop) {k at' : Nat}
    (hk : items[k]? = some (at', i)) :
    decodeAt bytes at' = some ⟨i, Stretch.boundary ⟨items, stop.ip⟩ (k + 1)⟩ := by
  induction h generalizing k with
  | ends _ => cases hk
  | gives h hrest ih =>
    cases k with
    | zero =>
      cases hk
      rw [(next?_eq_some h).1, ← hrest.boundary_zero]
      rfl
    | succ k => exact ih hk

/-- Reading a number of instructions that is large enough is reading all of them. -/
theorem exists_reads_decodeUpTo (bytes : Array UInt8) {count ip : Nat}
    (hcount : bytes.size ≤ ip + count) (read : List (Nat × Instruction)) :
    ∃ items stop, Reads bytes ⟨ip, false⟩ items stop ∧
      decodeUpTo bytes count read ip = ⟨read.reverse ++ items, stop.ip⟩ := by
  have hends {ip : Nat} (hd : decodeAt bytes ip = none) :
      Reads bytes ⟨ip, false⟩ [] ⟨ip, false⟩ := .ends (by simp [next?, hd])
  induction count generalizing ip read with
  | zero =>
    refine ⟨[], ⟨ip, false⟩, hends (decodeAt_eq_none.2 hcount), ?_⟩
    rw [decodeUpTo, List.append_nil]
  | succ count ih =>
    cases hd : decodeAt bytes ip with
    | none =>
      refine ⟨[], ⟨ip, false⟩, hends hd, ?_⟩
      rw [decodeUpTo, hd, List.append_nil]
    | some d =>
      have hnext : next? bytes ⟨ip, false⟩ =
          some (d.instruction, ⟨d.next, d.instruction.isInvalid⟩) := by
        simp [next?, hd]
      rw [decodeUpTo, hd]
      dsimp only
      split
      · next hinvalid =>
        refine ⟨[(ip, d.instruction)], _, .gives hnext (.ends ?_), ?_⟩
        · rw [next?, if_pos hinvalid]
        · rw [List.reverse_cons]
      · next hvalid =>
        have hcount' : bytes.size ≤ d.next + count := by
          have hlt := (decodeAt_spec hd).1
          omega
        obtain ⟨items, stop, hitems, hrun⟩ := ih hcount' ((ip, d.instruction) :: read)
        rw [Bool.eq_false_iff.2 hvalid] at hnext
        refine ⟨(ip, d.instruction) :: items, stop, .gives hnext hitems, ?_⟩
        rw [hrun, List.reverse_cons, List.append_assoc, List.singleton_append]

end Reader

/-! ## All instructions -/

/-- **Decoding is total.** From any offset of any bytes a reader gives finitely many instructions,
which are those that decoding gives. Only the last one can be no instruction, and if there is none
the reader ends at the end of the bytes. It starts at the offset, and each instruction begins where
the one before ends: after the bytes of its opcode and its operand. No instruction ends past the end
of the bytes. A reader that starts anew at an instruction gives that instruction and stands where the
next one begins; and this instruction is executed, with that place as the next, when a frame of the
code comes to the offset. -/
theorem decodeFrom_total {bytes : Array UInt8} {ip : Nat} (h : ip ≤ bytes.size) :
    let s := decodeFrom bytes ip
    (∃ stop, Reader.Reads bytes ⟨ip, false⟩ s.instructions stop ∧ stop.ip = s.stop) ∧
      s.stop ≤ bytes.size ∧
      (∀ x ∈ s.instructions.dropLast, x.2.isInvalid = false) ∧
      ((∀ x ∈ s.instructions, x.2.isInvalid = false) → s.stop = bytes.size) ∧
      s.boundary 0 = ip ∧
      ∀ k start i, s.instructions[k]? = some (start, i) →
        s.boundary (k + 1) ≤ bytes.size ∧
        (i.isInvalid = false → ∃ op ∈ i.opcodes, bytes[start]? = some op.byte ∧
          s.boundary (k + 1) = start + op.size) ∧
        Reader.next? bytes ⟨start, false⟩ = some (i, ⟨s.boundary (k + 1), i.isInvalid⟩) ∧
        ∀ (vm : Vm) (m : Machine) (f : Frame) (callers : List Frame),
          m.context.frames = f :: callers → f.unit.bytes = bytes → f.ip = start →
          vm.perform .fetch m =
            vm.execute i (m.withFrames (f.reading (s.boundary (k + 1)) :: callers)) := by
  have hcount : bytes.size ≤ ip + (bytes.size - ip) := (Nat.add_sub_of_le h).ge
  obtain ⟨items, stop, hreads, hs⟩ := Reader.exists_reads_decodeUpTo bytes hcount []
  have hs : decodeFrom bytes ip = ⟨items, stop.ip⟩ := hs
  intro s
  have hinstructions : s.instructions = items := congrArg Stretch.instructions hs
  have hstop : s.stop = stop.ip := congrArg Stretch.stop hs
  rw [hinstructions, hstop]
  refine ⟨⟨stop, hreads, rfl⟩, hreads.stop_le h, hreads.isInvalid_dropLast,
    hreads.stop_eq_size h rfl, ?_, fun k start i hk => ?_⟩
  · rw [show s = _ from hs]
    exact hreads.boundary_zero
  · have hd : decodeAt bytes start = some ⟨i, s.boundary (k + 1)⟩ := by
      rw [show s = _ from hs]
      exact hreads.decodeAt_eq hk
    obtain ⟨-, hle, hsize⟩ := decodeAt_spec hd
    refine ⟨hle, hsize, by simp [Reader.next?, hd], ?_⟩
    intro vm m f callers hm hunit hip
    exact vm.perform_fetch hm (by rw [hunit, hip, hd])

/-- An instruction with its operand, and an opcode whose operand lacks its second byte. -/
def truncatedBytes : Array UInt8 :=
  #[0x64, 1, 0, 0x5A, 7]

/-- From the start the first instruction is read, then that the second one is none, where the first
one ends; reading stops at the end of the bytes. -/
theorem decodeFrom_truncatedBytes :
    0 ≤ truncatedBytes.size ∧ (decodeFrom truncatedBytes 0).stop ≤ truncatedBytes.size ∧
      (decodeFrom truncatedBytes 0).boundary 1 = 3 ∧
      Reader.next? truncatedBytes ⟨3, false⟩ =
        some (.invalid (.outOfBounds 5), ⟨(decodeFrom truncatedBytes 0).boundary 2, true⟩) := by
  have hstart : 0 ≤ truncatedBytes.size := Nat.zero_le _
  obtain ⟨-, hstop, -, -, -, hall⟩ := decodeFrom_total hstart
  obtain ⟨-, hsize, -⟩ := hall 0 0 (.loadConst 1) (by decide +kernel)
  obtain ⟨op, hop, -, hnext⟩ := hsize rfl
  obtain rfl := List.mem_singleton.1 hop
  obtain ⟨-, -, hflaw, -⟩ := hall 1 3 (.invalid (.outOfBounds 5)) (by decide +kernel)
  exact ⟨hstart, hstop, hnext, hflaw⟩

end TaskletMachine
