import TaskletMachine.Library.Call
import TaskletMachine.Library.Tables
import TaskletMachine.Machine.Arguments

/-!
# Executing instructions

The state that an instruction works on, and the small operations of which instructions are made. A
change stays also if the instruction ends in an error.

## Main definitions

* `Machine`, `Exec`: a tasklet's context together with the world, and computations on them.
* `Vm`: the settings, the library and the host that all tasklets share.
* `PendingCall`, `Control`: a call whose callee is still to be followed, and what comes after an
  instruction.
* `Exec.push`, `Exec.pop`, `Exec.popN`, `Exec.peek`: the operand stack of the innermost frame.
-/
namespace TaskletMachine

/-- A tasklet's context together with the world. -/
structure Machine where
  context : Context
  world : World
deriving Inhabited

/-- Computations that execute instructions. -/
abbrev Exec := EStateM Error Machine

/-- What all tasklets share besides the world. -/
structure Vm where
  /-- Whether a run stops after every instruction. -/
  stepMode : Bool := false
  /-- The most frames on a call stack. -/
  maxCallDepth : Nat := 1000
  library : Library
  host : Host := .empty
deriving Inhabited

/-- A call whose callee is still to be followed. -/
structure PendingCall where
  callee : Value
  args : List Value := []
  keywords : Namespace := []
  delivery : Delivery
deriving Inhabited

/-- What comes after an instruction, or after a link of a call. -/
inductive Control where
  /-- The next instruction. -/
  | next
  /-- Another link of a call. -/
  | call (c : PendingCall)
  | suspend (k : Continuation)
  | finished
  /-- An exception that nothing takes. -/
  | faulted
deriving Inhabited

namespace Exec

/-- The heap. -/
def heap : Exec Heap :=
  return (← get).world.heap

/-- Replaces the heap. -/
def setHeap (h : Heap) : Exec Unit :=
  modify fun m => { m with world := { m.world with heap := h } }

/-- Changes the heap and gives a result. -/
def onHeap {α : Type} (f : Heap → α × Heap) : Exec α := do
  let (a, h) := f (← heap)
  setHeap h
  return a

/-- Runs an effect on the world. -/
def ofEffect {α : Type} (effect : Effect α) : Exec α := fun m =>
  match effect m.world with
  | .ok a w => .ok a { m with world := w }
  | .error e w => .error e { m with world := w }

/-- The context. -/
def context : Exec Context :=
  return (← get).context

/-- Changes the context. -/
def modifyContext (f : Context → Context) : Exec Unit :=
  modify fun m => { m with context := f m.context }

/-- The innermost frame. -/
def frame : Exec Frame := do
  match (← context).frames with
  | f :: _ => return f
  | [] => throw { cause := .emptyCallStack }

/-- Changes the innermost frame. -/
def modifyFrame (f : Frame → Frame) : Exec Unit := do
  let g ← frame
  modifyContext fun c => { c with frames := f g :: c.frames.tail }

/-- Enters a frame. -/
def enter (f : Frame) : Exec Unit :=
  modifyContext fun c => { c with frames := f :: c.frames }

/-- Pushes a value. -/
def push (v : Value) : Exec Unit :=
  modifyFrame fun f => { f with stack := v :: f.stack }

/-- Removes the top value. -/
def pop : Exec Value := do
  match (← frame).stack with
  | v :: rest =>
    modifyFrame fun f => { f with stack := rest }
    return v
  | [] => throw { cause := .stackUnderflow }

/-- The top value, which stays. -/
def peek : Exec Value := do
  match (← frame).stack with
  | v :: _ => return v
  | [] => throw { cause := .stackUnderflow }

/-- Removes the top values and gives them in the order in which they were pushed. -/
def popN (count : Nat) : Exec (List Value) := do
  let stack := (← frame).stack
  if stack.length < count then throw { cause := .stackUnderflow }
  modifyFrame fun f => { f with stack := stack.drop count }
  return (stack.take count).reverse

/-- Goes to an offset of the code. -/
def jump (ip : Nat) : Exec Unit :=
  modifyFrame fun f => { f with ip }

/-- An entry of the name table. -/
def name (index : Nat) : Exec String := do
  match (← frame).unit.names[index]? with
  | some s => return s
  | none => throw { cause := .missingName index }

/-- The name and the value of a local slot. -/
def slot (index : Nat) : Exec (String × Option Value) := do
  let f ← frame
  match f.unit.localNames[index]?, f.slots[index]? with
  | some s, some v => return (s, v)
  | _, _ => throw { cause := .missingLocal index }

/-- Ends in a guest exception. -/
def raise {α : Type} (kind : ExceptionKind) (message : String) : Exec α :=
  throw (.raise kind message)

/-- Ends in a failure. -/
def fail {α : Type} (message : String) : Exec α :=
  throw (.fail message)

/-- Ends in a failure that shows a value. -/
def failShowing {α : Type} (message : String) (v : Value) : Exec α := do
  throw (.fail (message ++ (← heap).repr v))

end Exec

namespace Vm

open Exec

/-- The class of a builtin exception. Builtins that a host replaces may lack it, the library has
it then. -/
def builtinClass (vm : Vm) (c : Context) (name : String) : Except Error ClassRef :=
  match (c.builtins.find? name).or (vm.library.exceptions.find? name) with
  | some (.classObj r) => .ok r
  | _ => .error (.fail ("Missing builtin class '" ++ name ++ "'"))

/-- Whether a value is, or would make, an exception that stops an iteration. -/
def isStopIteration (vm : Vm) (c : Context) (h : Heap) (v : Value) : Bool :=
  match vm.builtinClass c ExceptionKind.stopIteration.name with
  | .error _ => false
  | .ok stop =>
    match v with
    | .instanceObj r => h.isInstance r stop
    | .classObj r => h.isSubclass r stop
    | _ => false

/-- Whether an error stops an iteration. -/
def stopsIteration (vm : Vm) (m : Machine) (e : Error) : Bool :=
  match e.cause with
  | .exception .stopIteration _ => true
  | .raised v => vm.isStopIteration m.context m.world.heap v
  | _ => false

end Vm

end TaskletMachine
