import Mathlib.Data.List.Induction
import TaskletMachine.Library.Tasklets
import TaskletMachine.Proofs.Code.Encoding
import TaskletMachine.Proofs.Machine.Locals

/-!
# The code of a tasklet that makes a call

The code loads the callee and the arguments by name, one after the other, calls, and returns the
result. The names differ, so each is an entry of its own in the table of names, and with as many
arguments as an operand can count the table is just full.

## Main definitions

* `spawnedNames`: the names that the code loads.
* `spawnedUnit`: the code.
* `spawnedCall_eq`: what is made for a call.
* `decodeAt_spawnedUnit`, `find?_spawnedNames`: what the code does, and the values that it finds.
-/
namespace TaskletMachine

/-! ## Names -/

theorem argumentName_injective : Function.Injective argumentName := by
  intro i j h
  have hprefix : "__arg" ++ toString i = "__arg" ++ toString j := (String.append_left_inj "__").1 h
  have hdigits := (String.append_right_inj "__arg").1 hprefix
  rw [Nat.toString_eq_ofList_toDigits, Nat.toString_eq_ofList_toDigits,
    String.ofList_inj] at hdigits
  rw [← @Nat.ofDigitChars_ten_toDigits i, hdigits, Nat.ofDigitChars_ten_toDigits]

theorem argumentName_ne_targetName (index : Nat) : argumentName index ≠ targetName := by
  intro h
  have hchars := congrArg String.toList h
  simp [argumentName, targetName, toString] at hchars

/-- The names that the code loads, in that order. -/
def spawnedNames (count : Nat) : List String :=
  targetName :: (List.range count).map argumentName

theorem length_spawnedNames (count : Nat) : (spawnedNames count).length = count + 1 := by
  rw [spawnedNames, List.length_cons, List.length_map, List.length_range]

theorem nodup_spawnedNames (count : Nat) : (spawnedNames count).Nodup := by
  refine List.nodup_cons.2 ⟨?_, List.nodup_range.map argumentName_injective⟩
  intro h
  obtain ⟨index, -, h⟩ := List.mem_map.1 h
  exact argumentName_ne_targetName index h

/-- The values that the code loads, with their names. -/
theorem spawnedGlobals_eq (callee : Value) (args : List Value) :
    (targetName, callee) :: argumentGlobals args =
      (spawnedNames args.length).zip (callee :: args) := by
  have hargs : argumentGlobals args = ((List.range args.length).map argumentName).zip args := by
    refine List.ext_getElem ?_ fun index h h' => ?_
    · simp [argumentGlobals]
    · simp [argumentGlobals]
  rw [hargs, spawnedNames, List.zip_cons_cons]

/-- Each name has its value, whatever was bound to it before. -/
theorem find?_spawnedNames (inherited : Namespace) {values : List Value} {count : Nat}
    (hlength : values.length = count + 1) {k : Nat} {name : String} {v : Value}
    (hname : (spawnedNames count)[k]? = some name) (hv : values[k]? = some v) :
    Names.find? (inherited.setAll ((spawnedNames count).zip values)) name = some v := by
  have hmem : name ∈ ((spawnedNames count).zip values).map Prod.fst := by
    rw [List.map_fst_zip (Nat.le_of_eq ((length_spawnedNames count).trans hlength.symm))]
    exact List.mem_of_getElem? hname
  obtain ⟨v', hv', hfind⟩ := Names.find?_setAll_of_mem hmem inherited
  obtain ⟨j, hj⟩ := List.mem_iff_getElem?.1 hv'
  obtain ⟨hname', hv'⟩ := List.getElem?_zip_eq_some.1 hj
  have hk : k < (spawnedNames count).length := (List.getElem?_eq_some_iff.1 hname).1
  obtain rfl : k = j :=
    (List.getElem?_inj hk (nodup_spawnedNames count)).1 (hname.trans hname'.symm)
  cases hv.symm.trans hv'
  exact hfind

/-- All other names are bound as before. -/
theorem find?_other (inherited : Namespace) (values : List Value) {count : Nat} {name : String}
    (hname : name ∉ spawnedNames count) :
    Names.find? (inherited.setAll ((spawnedNames count).zip values)) name =
      Names.find? inherited name := by
  refine Names.find?_setAll_of_notMem (fun hmem => hname ?_) inherited
  obtain ⟨entry, hentry, rfl⟩ := List.mem_map.1 hmem
  exact (List.of_mem_zip hentry).1

/-! ## Operations -/

/-- What the code does, operation by operation. -/
def spawnedOperations (count : Nat) : List Operation :=
  (List.range (count + 1)).map (fun index => ⟨.loadName, index⟩) ++
    [⟨.callFunction, count⟩, ⟨.returnValue, 0⟩]

/-- The code. -/
def spawnedUnit (count : Nat) : CodeUnit :=
  { name := "<scheduled>"
    bytes := (encode (spawnedOperations count)).toArray
    names := (spawnedNames count).toArray }

theorem spawnedDirectives_eq (count : Nat) :
    spawnedDirectives count = (spawnedNames count).map (.named .loadName ·) ++
      [.opWith .callFunction (UInt16.ofNat count), .op .returnValue] := by
  simp [spawnedDirectives, spawnedNames, Function.comp_def]

namespace Assembler

/-- Loading names that are new and for which there is room gives each of them the next entry. -/
theorem foldl_loadNames (name : String) {names : List String} (hnodup : names.Nodup)
    (hlength : names.length ≤ operandLimit) :
    (names.map (Directive.named .loadName ·)).foldl apply { name } =
      let loads : List Operation := (List.range names.length).map fun index => ⟨.loadName, index⟩
      { name, names := names.toArray, bytes := (encode loads).toArray } := by
  induction names using List.reverseRecOn with
  | nil => rfl
  | append_singleton names last ih =>
    rw [List.length_append, List.length_singleton] at hlength
    obtain ⟨hnodup, -, hnew⟩ := List.nodup_append.1 hnodup
    have hlast : names.toArray.findIdx? (· == last) = none := by
      rw [List.findIdx?_toArray, List.findIdx?_eq_none_iff]
      intro x hx
      exact beq_eq_false_iff_ne.2 fun heq => hnew x hx last List.mem_cons_self heq
    have hroom : names.toArray.size < operandLimit := by
      rw [List.size_toArray]
      omega
    have hop : Opcode.loadName.hasOperand = true := rfl
    rw [List.map_append, List.foldl_append, ih hnodup (by omega), List.length_append,
      List.length_singleton, List.range_succ, List.map_append]
    simp only [List.map_cons, List.map_nil, List.foldl_cons, List.foldl_nil, apply, internName,
      hlast, pushIndex, if_pos hroom, pushWith, if_pos hop, emit, emitOperand, operandBytes]
    simp [Operation.bytes, encode, hop]

end Assembler

/-- The code can be made for every number of arguments that an operand can count. -/
theorem assemble_spawnedDirectives {count : Nat} (h : count < Assembler.operandLimit) :
    assemble 0 "<scheduled>" (spawnedDirectives count) = .ok (spawnedUnit count) := by
  have hloads := Assembler.foldl_loadNames "<scheduled>" (nodup_spawnedNames count)
    (by rw [length_spawnedNames]; exact h)
  have hcall : Opcode.callFunction.hasOperand = true := rfl
  have hreturn : Opcode.returnValue.hasOperand = false := rfl
  have hcount : (UInt16.ofNat count).toNat = count := Nat.mod_eq_of_lt h
  rw [length_spawnedNames] at hloads
  rw [assemble, spawnedDirectives_eq, List.foldl_append, hloads]
  simp [Assembler.apply, Assembler.pushWith, Assembler.emit, Assembler.emitOperand,
    Assembler.operandBytes, Assembler.finish, hcall, hreturn, hcount, spawnedUnit,
    spawnedOperations, encode, Operation.bytes]
  rfl

/-- What is made for a call with arguments for which an operand has room. -/
theorem spawnedCall_eq (callee : Value) {args : List Value}
    (h : args.length < Assembler.operandLimit) :
    spawnedCall callee args =
      .ok (spawnedUnit args.length, (spawnedNames args.length).zip (callee :: args)) := by
  rw [spawnedCall, if_neg (Nat.not_le.2 h), assemble_spawnedDirectives h, spawnedGlobals_eq]

/-! ## Instructions -/

/-- The operation at an index of a sequence is decoded where it begins. -/
theorem decodeAt_operation {xs : List Operation} {k : Nat} {x : Operation} (hk : xs[k]? = some x)
    (hsound : x.Sound) {ip : Nat} (hip : (encode (xs.take k)).length = ip) :
    decodeAt (encode xs).toArray ip =
      some ⟨.ofOpcode x.op x.operand ip (ip + x.op.size), ip + x.op.size⟩ := by
  obtain ⟨hlt, hx⟩ := List.getElem?_eq_some_iff.1 hk
  have hxs : encode xs = encode (xs.take k) ++ (x.bytes ++ encode (xs.drop (k + 1))) := by
    conv_lhs => rw [← List.take_append_drop k xs, List.drop_eq_getElem_cons hlt, hx]
    rw [encode, encode, encode, List.flatMap_append, List.flatMap_cons]
  rw [hxs, ← hip]
  exact decodeAt_encode hsound _ _

/-- Operations with operands take three bytes each. -/
theorem length_encode_of_hasOperand {xs : List Operation} (h : ∀ x ∈ xs, x.op.hasOperand) :
    (encode xs).length = 3 * xs.length := by
  induction xs with
  | nil => rfl
  | cons x xs ih =>
    obtain ⟨hx, hxs⟩ := List.forall_mem_cons.1 h
    have hsize : x.op.size = 3 := if_pos hx
    have hrest := ih hxs
    rw [encode] at hrest ⊢
    rw [List.flatMap_cons, List.length_append, Operation.length_bytes, hrest, hsize,
      List.length_cons]
    omega

theorem Operation.sound_of_hasOperand {op : Opcode} {operand : Nat} (hop : op.hasOperand)
    (hcompare : op ≠ .compareOp) (hlt : operand < Assembler.operandLimit) :
    Sound ⟨op, operand⟩ where
  lt := hlt
  absent h := absurd (h.symm.trans hop) Bool.false_ne_true
  admits h := absurd h hcompare

/-- The code loads the names in order, calls with the right number of arguments, and returns; then
it is at its end. -/
theorem decodeAt_spawnedUnit {count : Nat} (h : count < Assembler.operandLimit) :
    (∀ k ≤ count, decodeAt (spawnedUnit count).bytes (3 * k) =
      some ⟨.loadName k, 3 * (k + 1)⟩) ∧
    decodeAt (spawnedUnit count).bytes (3 * (count + 1)) =
      some ⟨.call count, 3 * (count + 2)⟩ ∧
    decodeAt (spawnedUnit count).bytes (3 * (count + 2)) =
      some ⟨.returnValue, 3 * (count + 2) + 1⟩ := by
  have hstart {k : Nat} (hk : k ≤ count + 2) :
      (encode ((spawnedOperations count).take k)).length = 3 * k := by
    have hlength : ((spawnedOperations count).take k).length = k := by
      simp only [spawnedOperations, List.length_take, List.length_append, List.length_map,
        List.length_range, List.length_cons, List.length_nil]
      omega
    rw [length_encode_of_hasOperand, hlength]
    intro x hx
    -- only the last operation has no operand
    have hinit : (spawnedOperations count).take (count + 2) =
        (List.range (count + 1)).map (fun index => ⟨.loadName, index⟩) ++
          [⟨.callFunction, count⟩] := by
      rw [spawnedOperations, List.take_append, List.take_of_length_le (by simp)]
      simp
    have hx : x ∈ (spawnedOperations count).take (count + 2) :=
      (List.take_prefix_take_left hk).subset hx
    rw [hinit, List.mem_append, List.mem_map, List.mem_singleton] at hx
    rcases hx with ⟨_, -, rfl⟩ | rfl <;> rfl
  refine ⟨fun k hk => ?_, ?_, ?_⟩
  · have hget : (spawnedOperations count)[k]? = some ⟨.loadName, k⟩ := by
      rw [spawnedOperations, List.getElem?_append_left (by simp; omega), List.getElem?_map,
        List.getElem?_range (by omega)]
      rfl
    have hsound : Operation.Sound ⟨.loadName, k⟩ :=
      Operation.sound_of_hasOperand rfl (by decide) (Nat.lt_of_le_of_lt hk h)
    exact decodeAt_operation hget hsound (hstart (by omega))
  · have hget : (spawnedOperations count)[count + 1]? = some ⟨.callFunction, count⟩ := by
      simp [spawnedOperations]
    have hsound : Operation.Sound ⟨.callFunction, count⟩ :=
      Operation.sound_of_hasOperand rfl (by decide) h
    exact decodeAt_operation hget hsound (hstart (by omega))
  · have hget : (spawnedOperations count)[count + 2]? = some ⟨.returnValue, 0⟩ := by
      simp [spawnedOperations]
    have hsound : Operation.Sound ⟨.returnValue, 0⟩ :=
      ⟨by decide, fun _ => rfl, fun h => absurd h (by decide)⟩
    exact decodeAt_operation hget hsound (hstart (Nat.le_refl _))

end TaskletMachine
