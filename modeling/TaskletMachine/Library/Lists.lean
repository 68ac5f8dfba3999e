import TaskletMachine.Library.Reply
import TaskletMachine.Library.Sort

/-!
# Methods of lists

Each method takes the list as its first argument.

## Main definitions

* `ListMethod.sortItems`: sorts a list with any sort.
* `ListMethod.call`: what each method does.
-/
namespace TaskletMachine.ListMethod

open Effect

/-- The position of the first item that equals a value. -/
def position? (h : Heap) (items : List Value) (v : Value) : Option Nat :=
  items.findIdx? fun item => h.equal item v

/-- The position where an item is inserted: past the end counts as the end, before the start as the
start. -/
def insertPosition (length : Nat) (index : Int) : Nat :=
  if index < 0 then (index + length).toNat else min index.toNat length

/-- Removes the item at an index and replies with it. -/
def popAt (r : ListRef) (index : Int64) : Effect Reply := do
  let items := (← heap).list r
  if items.isEmpty then raise .indexError "pop from empty list"
  match resolveIndex? items.length index.toInt with
  | none => raise .indexError "pop index out of range"
  | some i =>
    setList r (items.eraseIdx i)
    reply (items.getD i .none)

/-- Sorts the items of a list as a copy, which is written back once it is sorted. -/
def sortItems (sorter : (n : Nat) → Sorter n) (r : ListRef) (keywords : Namespace) :
    Effect Reply := do
  let h ← heap
  let sorted ← ofExcept (sortValues sorter h (h.list r))
  let descending := (keywords.find? "reverse").any h.isTruthy
  setList r (if descending then sorted.reverse else sorted)
  return .noValue

/-- What a method of a list does. -/
def call (m : ListMethod) (args : List Value) (keywords : Namespace) : Effect Reply := do
  let h ← heap
  match m, args with
  | append, [.list r, v] =>
    setList r (h.list r ++ [v])
    return .noValue
  | append, _ => unexpected "|list, value|" args
  | clear, [.list r] =>
    setList r []
    return .noValue
  | clear, _ => unexpected "|list|" args
  | copy, [.list r] => reply (← newList (h.list r))
  | copy, _ => unexpected "|list|" args
  | count, [.list r, v] =>
    reply (.int (Int64.ofNat ((h.list r).countP fun item => h.equal item v)))
  | count, _ => unexpected "|list, value|" args
  | extend, [.list r, iterable] =>
    let more ← collect iterable
    setList r ((← heap).list r ++ more)
    return .noValue
  | extend, _ => unexpected "|list, iterable|" args
  | index, [.list r, v] =>
    match position? h (h.list r) v with
    | some i => reply (.int (Int64.ofNat i))
    | none => raise .valueError ((← inspect v) ++ " is not in list")
  | index, _ => unexpected "|list, value|" args
  | insert, [.list r, .int i, v] =>
    let items := h.list r
    setList r (items.insertIdx (insertPosition items.length i.toInt) v)
    return .noValue
  | insert, _ => unexpected "|list, int, value|" args
  | pop, [.list r] => popAt r (-1)
  | pop, [.list r, .int i] => popAt r i
  | pop, _ => unexpected "|list|, or |list, int|" args
  | remove, [.list r, v] =>
    match position? h (h.list r) v with
    | some i =>
      setList r ((h.list r).eraseIdx i)
      return .noValue
    | none => raise .valueError "list.remove(x): x not in list"
  | remove, _ => unexpected "|list, value|" args
  | reverse, [.list r] =>
    setList r (h.list r).reverse
    return .noValue
  | reverse, _ => unexpected "|list|" args
  | sort, [.list r] => sortItems Sorter.standard r keywords
  | sort, _ => unexpected "|list|" args

end TaskletMachine.ListMethod
