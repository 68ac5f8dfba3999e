import TaskletMachine.Operator.Compare

/-!
# Subscripts

Reading, assigning and deleting entries of native containers. Indexes count from the end if they are
negative.

## Main definitions

* `resolveIndex?`: the position that an index denotes.
* `Heap.subscript`, `Heap.storeSubscript`, `Heap.deleteSubscript`.
-/
namespace TaskletMachine

/-- The position that an index denotes in a sequence of the given length. -/
def resolveIndex? (length : Nat) (index : Int) : Option Nat :=
  let position := if index < 0 then index + length else index
  if 0 ≤ position ∧ position < length then some position.toNat else none

namespace Heap

/-- The position that a subscript denotes in a sequence, which the messages call `kind`. -/
def sequenceIndex (h : Heap) (length : Nat) (index : Value) (kind complaint : String) :
    Except Error Nat :=
  let position? (n : Int) : Except Error Nat :=
    match resolveIndex? length n with
    | some i => .ok i
    | none => .error (.raise .indexError (kind ++ " " ++ complaint))
  match index with
  | .int n => position? n.toInt
  | .bool b => position? (if b then 1 else 0)
  | _ =>
    .error (.raise .typeError
      (kind ++ " indices must be integers, not '" ++ h.typeName index ++ "'"))

/-- The exception for a key that is not there. -/
def keyError (h : Heap) (key : Value) : Error :=
  .raise .keyError (h.repr key)

/-- The entry of a container at a subscript. -/
def subscript (h : Heap) (container index : Value) : Except Error Value := do
  match container with
  | .list r =>
    let items := h.list r
    let i ← h.sequenceIndex items.length index "list" "index out of range"
    return items.getD i .none
  | .tuple _ items =>
    let i ← h.sequenceIndex items.length index "tuple" "index out of range"
    return items.getD i .none
  | .str s =>
    let chars := s.toList
    let i ← h.sequenceIndex chars.length index "string" "index out of range"
    return .str (String.ofList [chars.getD i ' '])
  | .dict r =>
    match h.dictGet? r (← h.key index) with
    | some v => return v
    | none => throw (h.keyError index)
  | _ =>
    throw (.raise .typeError ("'" ++ h.typeName container ++ "' object is not subscriptable"))

/-- Assigns to the entry of a container at a subscript. -/
def storeSubscript (h : Heap) (container index value : Value) : Except Error Heap := do
  match container with
  | .list r =>
    let items := h.list r
    let i ← h.sequenceIndex items.length index "list" "assignment index out of range"
    return h.setList r (items.set i value)
  | .dict r =>
    let key ← h.key index
    return h.dictInsert r key value
  | _ =>
    throw (.raise .typeError
      ("'" ++ h.typeName container ++ "' object does not support item assignment"))

/-- Removes the entry of a container at a subscript. -/
def deleteSubscript (h : Heap) (container index : Value) : Except Error Heap := do
  match container with
  | .list r =>
    let items := h.list r
    let i ← h.sequenceIndex items.length index "list" "assignment index out of range"
    return h.setList r (items.eraseIdx i)
  | .dict r =>
    let key ← h.key index
    match h.dictGet? r key with
    | some _ => return h.dictErase r key
    | none => throw (h.keyError index)
  | _ =>
    throw (.raise .typeError
      ("'" ++ h.typeName container ++ "' object doesn't support item deletion"))

end Heap

end TaskletMachine
