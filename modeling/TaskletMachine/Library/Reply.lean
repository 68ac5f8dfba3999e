import TaskletMachine.Operator.Subscript
import TaskletMachine.Schedule.World
import TaskletMachine.Value.Iterator

/-!
# Replies of native functions

A native function never runs guest code itself. It replies with a value, asks to be parked or to
wait for a promise, or hands the call over to another value.

## Main definitions

* `Reply`: the replies.
* `Effect.unexpected`, `Effect.newTuple`, `Effect.collect`, `Effect.key`, …: what native functions
  share.
-/
namespace TaskletMachine

/-- What a native function replies. -/
inductive Reply where
  | value (v : Value)
  /-- There is no value; the caller gets `None`. -/
  | noValue
  /-- The caller waits for the promise and gets its result. -/
  | await (p : PromiseId)
  /-- The caller gets `None` and is parked for a tick. -/
  | yield
  /-- The caller gets the result of another call. -/
  | tailCall (callee : Value) (args : List Value)
deriving Inhabited

namespace Effect

/-- Ends in a guest exception. -/
def raise {α : Type} (kind : ExceptionKind) (message : String) : Effect α :=
  throw (.raise kind message)

/-- Ends in the exception for arguments that a function does not take. -/
def unexpected {α : Type} (expected : String) (args : List Value) : Effect α := do
  throw (.unexpectedArgs (← heap) expected args)

/-- Replies with a value. -/
def reply (v : Value) : Effect Reply :=
  return .value v

/-- The name of the type of a value. -/
def typeName (v : Value) : Effect String :=
  return (← heap).typeName v

/-- The inspection form of a value. -/
def inspect (v : Value) : Effect String :=
  return (← heap).repr v

/-- Makes a tuple. -/
def newTuple (items : List Value) : Effect Value :=
  onHeap fun h => h.newTuple items

/-- Makes a list. -/
def newList (items : List Value) : Effect Value :=
  return .list (← onHeap fun h => h.newList items)

/-- Makes a dict. -/
def newDict (entries : Entries Value Value) : Effect Value :=
  return .dict (← onHeap fun h => h.newDict entries)

/-- A value as a key. -/
def key (v : Value) : Effect Value := do
  ofExcept ((← heap).key v)

/-- The values of a native container, or those that an iterator has left. -/
def collect (v : Value) : Effect (List Value) := do
  match (← heap).collect? v with
  | some (items, h) =>
    setHeap h
    return items
  | none => raise .typeError ("'" ++ (← typeName v) ++ "' object is not iterable")

/-- Replaces the items of a list. -/
def setList (r : ListRef) (items : List Value) : Effect Unit := do
  setHeap ((← heap).setList r items)

/-- Replaces the entries of a dict. -/
def setDict (r : DictRef) (entries : Entries Value Value) : Effect Unit := do
  setHeap ((← heap).setDict r entries)

end Effect

end TaskletMachine
