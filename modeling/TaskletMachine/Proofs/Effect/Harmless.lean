import TaskletMachine.Library.Attributes
import TaskletMachine.Library.Sort
import TaskletMachine.Library.Tasklets
import TaskletMachine.Machine.Arguments
import TaskletMachine.Operator.Sequence
import TaskletMachine.Operator.Subscript
import TaskletMachine.Proofs.Library.Sorter

/-!
# Harmless results

Operators, attribute access and the matching of arguments fail in many ways, but none of their
failures says that the machine itself is broken.

## Main definitions

* `Error.IsInternal`: the failures that would mean that the machine itself is broken.
* `Harmless`: a result that is none of them.
-/
namespace TaskletMachine

/-! ## Internal failures -/

/-- The causes that would mean that the machine itself is broken: it has lost its frames, the fault
that it raises, or the frame of a class body, or it reads past the end of the code. -/
def Cause.IsInternal : Cause → Prop
  | .emptyCallStack => True
  | .failure message =>
    message = "Returned from the root frame" ∨ message = "Unwinding without a fault" ∨
      (∃ ip : Nat, message = s!"Failed to read instruction at {ip}") ∨
      ∃ name, message = "Class body for '" ++ name ++ "' completed outside of a frame"
  | _ => False

/-- Whether the machine itself is broken. -/
def Error.IsInternal (e : Error) : Prop :=
  e.cause.IsInternal

/-- Internal failures can be told by the first letters of their messages. -/
theorem Error.take_of_isInternal_fail {message : String} (h : (Error.fail message).IsInternal) :
    message.toList.take 11 ∈
      ["Returned fr".toList, "Unwinding w".toList, "Failed to r".toList, "Class body ".toList] := by
  rcases h with rfl | rfl | ⟨ip, rfl⟩ | ⟨name, rfl⟩ <;> simp [toString]

@[grind .] theorem Error.not_isInternal_raise (kind : ExceptionKind) (message : String) :
    ¬ (Error.raise kind message).IsInternal := id

@[grind .] theorem Error.not_isInternal_malformed (message : String) :
    ¬ (Error.malformed message).IsInternal := id

/-- A result that is no internal failure. -/
def Harmless {α : Type} (r : Except Error α) : Prop :=
  ∀ e, r = .error e → ¬ e.IsInternal

namespace Harmless

variable {α β : Type}

@[grind .] theorem ok (a : α) : Harmless (.ok a) := by
  intro e h
  cases h

@[grind .] theorem pure (a : α) : Harmless (Pure.pure a : Except Error α) := ok a

@[grind ←] theorem error {e : Error} (he : ¬ e.IsInternal) : Harmless (.error e : Except Error α) := by
  rintro _ ⟨rfl⟩
  exact he

@[grind ←] theorem throw {e : Error} (he : ¬ e.IsInternal) :
    Harmless (MonadExcept.throw e : Except Error α) :=
  error he

@[grind ←] theorem map {f : α → β} {r : Except Error α} (h : Harmless r) :
    Harmless (r.map f) := by
  cases r with
  | ok a => exact ok (f a)
  | error e => exact error (h e rfl)

@[grind ←] theorem bind {r : Except Error α} {f : α → Except Error β} (h : Harmless r)
    (hf : ∀ a, Harmless (f a)) : Harmless (r >>= f) := by
  cases r with
  | ok a => exact hf a
  | error e => exact error (h e rfl)

theorem mapM {f : α → Except Error β} (hf : ∀ a, Harmless (f a)) (as : List α) :
    Harmless (as.mapM f) := by
  induction as with
  | nil => exact ok []
  | cons a rest ih =>
    rw [List.mapM_cons]
    exact (hf a).bind fun b => ih.bind fun bs => ok (b :: bs)

end Harmless

/-! ## Operators -/

@[grind .] theorem Harmless.wordResult (n : Option Int64) : Harmless (wordResult n) := by
  cases n
  · exact error (Error.not_isInternal_raise _ _)
  · exact ok _

@[grind .] theorem Harmless.intArithmetic (op : BinaryOp) (a b : Int64) :
    Harmless (intArithmetic op a b) := by
  unfold TaskletMachine.intArithmetic Error.overflow
  grind

@[grind .] theorem Harmless.floatArithmetic (op : BinaryOp) (x y : Float) :
    Harmless (floatArithmetic op x y) := by
  unfold TaskletMachine.floatArithmetic Error.overflow
  grind

@[grind .] theorem Harmless.arithmetic (op : BinaryOp) (m n : Numeric) :
    Harmless (m.arithmetic op n) := by
  unfold Numeric.arithmetic
  grind

@[grind .] theorem Harmless.intBitwise (op : BinaryOp) (a b : Int64) :
    Harmless (intBitwise op a b) := by
  unfold TaskletMachine.intBitwise Error.overflow
  grind

@[grind .] theorem Error.not_isInternal_unsupported (h : Heap) (symbol : String) (a b : Value) :
    ¬ (Error.unsupported h symbol a b).IsInternal :=
  not_isInternal_raise _ _

@[grind .] theorem Harmless.bitwise (h : Heap) (op : BinaryOp) (a b : Value) :
    Harmless (bitwise h op a b) := by
  unfold TaskletMachine.bitwise
  grind

theorem Harmless.unary (h : Heap) (op : UnaryOp) (v : Value) : Harmless (unary h op v) := by
  unfold TaskletMachine.unary
  grind

theorem Harmless.repeated {h : Heap} {v : Value} {count : Int64}
    {r : Except Error (Value × Heap)} (hr : repeated h v count = some r) : Harmless r := by
  obtain ⟨length, _, rfl⟩ := Option.map_eq_some_iff.1 hr
  grind

theorem Harmless.binary (h : Heap) (op : BinaryOp) (a b : Value) : Harmless (binary h op a b) := by
  have hrepeated : ∀ v n, Harmless ((TaskletMachine.repeated h v n).getD
      (.error (.unsupported h op.symbol a b))) := by
    intro v n
    cases hr : TaskletMachine.repeated h v n with
    | none => exact error (Error.not_isInternal_unsupported h op.symbol a b)
    | some r => exact repeated hr
  unfold TaskletMachine.binary
  grind

@[grind .] theorem Harmless.key (h : Heap) (v : Value) : Harmless (h.key v) := by
  unfold Heap.key Error.unhashable
  grind

@[grind .] theorem Harmless.contains (h : Heap) (container item : Value) :
    Harmless (h.contains container item) := by
  unfold Heap.contains
  grind

mutual

theorem Harmless.classMatches (h : Heap) (c : ClassRef) :
    (target : Value) → Harmless (h.classMatches c target)
  | .tuple _ targets => by
    unfold Heap.classMatches
    exact anyMatches h c targets
  | .none | .bool _ | .int _ | .float _ | .str _ | .list _ | .dict _ | .function _ | .native _
  | .method _ _ | .classObj _ | .instanceObj _ | .hostObj _ | .foreignType _ _ | .moduleObj _
  | .iterator _ | .code _ => by
    unfold Heap.classMatches
    grind

theorem Harmless.anyMatches (h : Heap) (c : ClassRef) :
    (targets : List Value) → Harmless (h.anyMatches c targets)
  | [] => by
    unfold Heap.anyMatches
    exact ok false
  | target :: rest => by
    have htarget := classMatches h c target
    have hrest := anyMatches h c rest
    unfold Heap.anyMatches
    split
    · next e he => exact error (htarget e he)
    · exact ok true
    · exact hrest

end

@[grind .] theorem Harmless.exceptionMatches (h : Heap) (exception target : Value) :
    Harmless (h.exceptionMatches exception target) := by
  unfold Heap.exceptionMatches
  split
  · exact classMatches h _ target
  · exact ok false

@[grind .] theorem Harmless.compare (h : Heap) (op : CompareOp) (a b : Value) :
    Harmless (h.compare op a b) := by
  unfold Heap.compare Heap.notOrdered
  grind

/-! ## Subscripts and attributes -/

@[grind .] theorem Harmless.sequenceIndex (h : Heap) (length : Nat) (index : Value)
    (kind complaint : String) : Harmless (h.sequenceIndex length index kind complaint) := by
  unfold Heap.sequenceIndex
  grind

@[grind .] theorem Error.not_isInternal_keyError (h : Heap) (key : Value) :
    ¬ (h.keyError key).IsInternal :=
  not_isInternal_raise _ _

theorem Harmless.subscript (h : Heap) (container index : Value) :
    Harmless (h.subscript container index) := by
  unfold Heap.subscript
  grind

theorem Harmless.storeSubscript (h : Heap) (container index value : Value) :
    Harmless (h.storeSubscript container index value) := by
  unfold Heap.storeSubscript
  grind

theorem Harmless.deleteSubscript (h : Heap) (container index : Value) :
    Harmless (h.deleteSubscript container index) := by
  unfold Heap.deleteSubscript
  grind

@[grind .] theorem Error.not_isInternal_noAttribute (owner name : String) :
    ¬ (Error.noAttribute owner name).IsInternal :=
  not_isInternal_raise _ _

@[grind .] theorem Error.not_isInternal_borrowed : ¬ Error.borrowed.IsInternal :=
  fun h => absurd (take_of_isInternal_fail h) (by decide)

@[grind .] theorem Error.not_isInternal_alreadyBorrowed : ¬ Error.alreadyBorrowed.IsInternal :=
  fun h => absurd (take_of_isInternal_fail h) (by decide)

@[grind .] theorem Harmless.foundAttr (owner name : String) (v : Option Value) :
    Harmless (foundAttr owner name v) := by
  unfold TaskletMachine.foundAttr
  grind

theorem Harmless.getAttr (l : Library) (h : Heap) (v : Value) (name : String) :
    Harmless (getAttr l h v name) := by
  unfold TaskletMachine.getAttr
  grind

@[grind .] theorem Harmless.setHostAttr (h : Heap) (r : HostRef) (name : String) (v : Value) :
    Harmless (setHostAttr h r name v) := by
  unfold TaskletMachine.setHostAttr
  grind

theorem Harmless.setAttr (h : Heap) (owner : Value) (name : String) (v : Value) :
    Harmless (setAttr h owner name v) := by
  unfold TaskletMachine.setAttr
  grind

/-! ## Sorting -/

theorem Harmless.compareValues (h : Heap) (a b : Value) : Harmless (h.compareValues a b) := by
  unfold Heap.compareValues
  grind

@[grind .] theorem Harmless.sortValues (sorter : (n : Nat) → Sorter n) (h : Heap)
    (values : List Value) : Harmless (sortValues sorter h values) := by
  unfold TaskletMachine.sortValues
  split
  · exact ok _
  · next e he =>
    obtain ⟨i, j, -, hij⟩ := Asking.exists_error_of_run he
    exact error (compareValues h _ _ e hij)
  · exact error id

/-! ## Calls -/

@[grind .] theorem Error.not_isInternal_refuse (unit : CodeUnit) (complaint : String) :
    ¬ (Matching.refuse unit complaint).IsInternal :=
  not_isInternal_raise _ _

@[grind .] theorem Error.not_isInternal_outOfRange (index : Nat) :
    ¬ ({ cause := .outOfRange index } : Error).IsInternal :=
  id

@[grind .] theorem Harmless.fillKeyword (unit : CodeUnit) (m : Matching) (name : String)
    (v : Value) : Harmless (Matching.fillKeyword unit m name v) := by
  unfold Matching.fillKeyword
  grind

@[grind .] theorem Harmless.fillKeywords (unit : CodeUnit) (keywords : Namespace) (m : Matching) :
    Harmless (Matching.fillKeywords unit keywords m) := by
  induction keywords generalizing m with
  | nil => exact ok m
  | cons keyword rest ih =>
    unfold Matching.fillKeywords
    split
    · next e he => exact error (fillKeyword unit m keyword.1 keyword.2 e he)
    · exact ih _

@[grind .] theorem Harmless.fillDefaults (defaults : List Value) (slots : List (Option Value)) :
    Harmless (Matching.fillDefaults defaults slots) := by
  refine mapM (fun entry => ?_) _
  unfold Matching.fillDefault
  grind

theorem Harmless.parameterNames (unit : CodeUnit) (indexes : List Nat) :
    Harmless (Matching.parameterNames unit indexes) := by
  induction indexes with
  | nil => exact ok []
  | cons index rest ih =>
    unfold Matching.parameterNames
    split
    · exact ih.map
    · exact error id

@[grind .] theorem Error.not_isInternal_missing (unit : CodeUnit) (indexes : List Nat) :
    ¬ (Matching.missing unit indexes).IsInternal := by
  unfold Matching.missing
  split
  · next e he => exact Harmless.parameterNames unit indexes e he
  · exact not_isInternal_refuse _ _

@[grind .] theorem Error.not_isInternal_tooMany (unit : CodeUnit) (given : Nat) :
    ¬ (Matching.tooMany unit given).IsInternal :=
  not_isInternal_refuse _ _

theorem Harmless.matchArguments (h : Heap) (unit : CodeUnit) (defaults args : List Value)
    (keywords : Namespace) : Harmless (matchArguments h unit defaults args keywords) := by
  unfold TaskletMachine.matchArguments
  grind

@[grind .] theorem Harmless.spawnedCall (callee : Value) (args : List Value) :
    Harmless (spawnedCall callee args) := by
  unfold TaskletMachine.spawnedCall
  have hlimit : ¬ (Error.fail "Too many arguments for a scheduled call").IsInternal :=
    fun h => absurd (Error.take_of_isInternal_fail h) (by decide)
  have hprepare (message : String) :
      ¬ (Error.fail ("Failed to prepare a scheduled call: " ++ message)).IsInternal :=
    fun h => absurd (Error.take_of_isInternal_fail h) (by simp)
  grind

end TaskletMachine
