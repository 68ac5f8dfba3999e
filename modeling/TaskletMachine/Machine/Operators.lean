import TaskletMachine.Machine.Call
import TaskletMachine.Operator.Sequence

/-!
# Operators and hooks

Instances and host objects take operators over through hooks, which are looked up on the operand
that owns the operation and called like any function. A host object may also stand for a native
value, which takes its place when it has no hook, and before its hook if a binary operator meets a
native operand on the right.

## Main definitions

* `runUnary`, `runBinary`, `runCompare`: the operators.
* `runSubscript`, `runStoreSubscript`, `runDeleteSubscript`: subscripts.
* `runGetIter`, `runForIter`: iteration.
-/
namespace TaskletMachine

open Exec

/-- Starts the call of a hook. -/
def callHook (hook : Value) (args : List Value) (delivery : Delivery := .push) : Control :=
  .call { callee := hook, args, delivery }

/-- Pushes the result of an operation. -/
def pushResult (result : Except Error Value) : Exec Control := do
  push (← ofExcept result)
  return .next

/-- Pushes the result of an operation that makes a value. -/
def pushMade (result : Except Error (Value × Heap)) : Exec Control := do
  let (v, h) ← ofExcept result
  setHeap h
  push v
  return .next

/-- Pushes the truth of a comparison. -/
def pushTruth (result : Except Error Bool) : Exec Control :=
  pushResult (result.map .bool)

/-! ## Operators -/

/-- Applies a unary operator to the top value. -/
def runUnary (op : UnaryOp) : Exec Control := do
  let v ← pop
  let h ← heap
  match op.hook?.bind (h.hook? v) with
  | some hook => return callHook hook []
  | none => pushResult (unary h op ((h.rawValue? v).getD v))

/-- The hook for a binary operator; the in-place form has one of its own, which comes first. -/
def binaryHook? (h : Heap) (op : BinaryOp) (inPlace : Bool) (a : Value) : Option Value :=
  (if inPlace then h.hook? a op.inPlaceHook else none).or (h.hook? a op.hook)

/-- Has the left operand of a binary operator take it over. -/
def runBinaryHook (op : BinaryOp) (inPlace : Bool) (a b : Value) : Exec Control := do
  let h ← heap
  match binaryHook? h op inPlace a with
  | some hook => return callHook hook [b]
  | none => throw (.unsupported h op.symbol a b)

/-- Applies a binary operator to the two top values. -/
def runBinary (op : BinaryOp) (inPlace : Bool) : Exec Control := do
  let b ← pop
  let a ← pop
  let h ← heap
  match a.isHooked, b.isHooked with
  | false, false => pushMade (binary h op a b)
  | true, false =>
    -- against a native operand the native value goes before the hook
    match h.rawValue? a with
    | some raw => pushMade (binary h op raw b)
    | none => runBinaryHook op inPlace a b
  | false, true =>
    match h.rawValue? b with
    | some raw => pushMade (binary h op a raw)
    | none => throw (.unsupported h op.symbol a b)
  | true, true => runBinaryHook op inPlace a b

/-- Looks for the left operand in the right one. -/
def runMembership (op : CompareOp) (hookName : String) (a b : Value) : Exec Control := do
  let h ← heap
  match h.hook? b hookName with
  | some hook => return callHook hook [a] (.truth (op == .notIn))
  | none => pushTruth (h.compare op a ((h.rawValue? b).getD b))

/-- Compares two values by equality or order. -/
def runComparison (op : CompareOp) (hookName : String) (a b : Value) : Exec Control := do
  let h ← heap
  if a.isHooked then
    match h.hook? a hookName with
    | some hook => return callHook hook [b]
    | none => pushTruth (h.compare op ((h.rawValue? a).getD a) b)
  else pushTruth (h.compare op a ((h.rawValue? b).getD b))

/-- Compares the two top values. -/
def runCompare (op : CompareOp) : Exec Control := do
  let b ← pop
  let a ← pop
  match op, op.hook? with
  | .isIn, some hookName | .notIn, some hookName => runMembership op hookName a b
  | _, some hookName => runComparison op hookName a b
  | _, none => pushTruth ((← heap).compare op a b)

/-! ## Subscripts -/

/-- Pushes the entry of a container at an index. -/
def runSubscript : Exec Control := do
  let index ← pop
  let container ← pop
  let h ← heap
  match h.hook? container "__getitem__" with
  | some hook => return callHook hook [index]
  | none => pushResult (h.subscript ((h.rawValue? container).getD container) index)

/-- Assigns to the entry of a container at an index. -/
def runStoreSubscript : Exec Control := do
  let index ← pop
  let container ← pop
  let v ← pop
  let h ← heap
  match h.hook? container "__setitem__" with
  | some hook => return callHook hook [index, v] .discard
  | none =>
    -- only reading goes through the native value of a host object
    setHeap (← ofExcept (h.storeSubscript container index v))
    return .next

/-- Deletes the entry of a container at an index. -/
def runDeleteSubscript : Exec Control := do
  let index ← pop
  let container ← pop
  let h ← heap
  match h.hook? container "__delitem__" with
  | some hook => return callHook hook [index] .discard
  | none =>
    setHeap (← ofExcept (h.deleteSubscript container index))
    return .next

/-! ## Iteration -/

/-- An iterator over the native value that a value stands for, or else over the value itself. -/
def nativeIterator? (h : Heap) (v : Value) : Option (IteratorRef × Heap) :=
  ((h.rawValue? v).bind h.iteratorOf?).or (h.iteratorOf? v)

/-- Replaces the top value by an iterator over it. -/
def runGetIter : Exec Control := do
  let v ← pop
  let h ← heap
  match h.hook? v "__iter__" with
  | some hook => return callHook hook []
  | none =>
    match nativeIterator? h v with
    | some (r, h) =>
      setHeap h
      push (.iterator r)
      return .next
    | none => raise .typeError ("'" ++ h.typeName v ++ "' object is not iterable")

/-- Pushes the next value of the iterator on top, or drops the iterator and leaves the loop. -/
def runForIter (exit : Nat) : Exec Control := do
  let v ← peek
  match v with
  | .iterator r =>
    match (← onHeap fun h => h.advance r) with
    | some next =>
      push next
      return .next
    | none => Vm.endLoop exit
  | _ =>
    let h ← heap
    match h.hook? v "__next__" with
    | some hook => return callHook hook [] (.iteration exit)
    | none => raise .typeError ("'" ++ h.typeName v ++ "' object is not an iterator")

end TaskletMachine
