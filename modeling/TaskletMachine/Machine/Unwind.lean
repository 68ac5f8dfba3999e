import TaskletMachine.Machine.Exec

/-!
# Raising and unwinding

A fault goes through the frames from the innermost one, and in each frame through its blocks from
the innermost one, until one of them takes it. A cleanup guard takes it only if its body has not
been entered yet. A frame without such a block is dropped; if a loop waits for its result and the
fault stops the iteration, the loop ends there.

## Main definitions

* `Frame.land`, `Landing`: where a fault lands in one frame.
* `unwindFrames`, `Unwound`: where it lands in a call stack.
* `Vm.raiseFault`, `Vm.raiseError`: raising a fault, and an error as a fault.
-/
namespace TaskletMachine

/-- Where a fault lands in a frame. -/
inductive Landing where
  /-- At the handlers of a guarded part. -/
  | caught (frame : Frame)
  /-- At a cleanup body. -/
  | cleanup (frame : Frame)
  /-- Nowhere; the frame has left all its blocks. -/
  | passed (frame : Frame)
deriving Inhabited

namespace Frame

/-- Leaves blocks from the innermost one until one takes the fault. -/
def landIn (fault : Fault) (f : Frame) : List Block → Landing
  | [] => .passed { f with blocks := [] }
  | b :: rest =>
    let f := { f.restore b.depth with blocks := rest }
    match b.kind with
    | .exceptGuard => .caught { f with stack := fault.value :: f.stack, ip := b.handler }
    | .finallyGuard =>
      -- a guard whose body has been reached is spent: its body is what raised the fault
      if f.instructionIp < b.handler then
        .cleanup { f with ip := b.handler, blocks := { b with kind := .finallyBody fault } :: rest }
      else landIn fault f rest
    | .loop | .finallyBody _ => landIn fault f rest

/-- Where a fault lands in a frame. -/
def land (f : Frame) (fault : Fault) : Landing :=
  f.landIn fault f.blocks

end Frame

/-- Where a fault lands in a call stack. -/
inductive Unwound where
  /-- At the handlers of a guarded part. -/
  | caught (fault : Fault) (frames : List Frame)
  /-- At a cleanup body, which keeps the fault. -/
  | cleanup (frames : List Frame)
  /-- At a loop, which ends. -/
  | loopEnded (exit : Nat) (frames : List Frame)
  /-- Nowhere. -/
  | unhandled (fault : Fault) (frames : List Frame)
  | noFrames
deriving Inhabited

/-- The exit of the loop that a frame returns to directly. -/
def Frame.iterationExit? (f : Frame) : Option Nat :=
  match f.delivery with
  | .iteration exit => some exit
  | _ => none

/-- Drops frames from the innermost one until one takes the fault. -/
def unwindFrames (stops : Value → Bool) (fault : Fault) : List Frame → Unwound
  | [] => .noFrames
  | f :: callers =>
    match f.land fault with
    | .caught f => .caught fault (f :: callers)
    | .cleanup f => .cleanup (f :: callers)
    | .passed f =>
      match callers with
      | [] => .unhandled fault [f]
      | caller :: _ =>
        -- the dropped frame may be the call that asks for the next value of a loop
        match f.iterationExit? with
        | some exit =>
          if stops fault.value then .loopEnded exit callers
          else
            unwindFrames stops { fault with traceback := fault.traceback ++ [caller.place] } callers
        | none =>
          unwindFrames stops { fault with traceback := fault.traceback ++ [caller.place] } callers

namespace Vm

open Exec

/-- Leaves the loop whose iterator is on top of the stack. -/
def endLoop (exit : Nat) : Exec Control := do
  let _ ← pop
  jump exit
  return .next

/-- Raises a fault. -/
def raiseFault (vm : Vm) (fault : Fault) : Exec Control := do
  let m ← get
  let stops := vm.isStopIteration m.context m.world.heap
  match unwindFrames stops fault m.context.frames with
  | .caught fault frames =>
    modifyContext fun c => { c with frames, fault := none, handled := some fault }
    return .next
  | .cleanup frames =>
    modifyContext fun c => { c with frames, fault := none }
    return .next
  | .loopEnded exit frames =>
    modifyContext fun c => { c with frames, fault := none }
    endLoop exit
  | .unhandled fault frames =>
    modifyContext fun c => { c with frames, fault := some fault }
    return .faulted
  | .noFrames =>
    modifyContext fun c => { c with fault := some fault }
    throw { cause := .emptyCallStack }

/-- Makes an instance of a class with the given arguments kept. -/
def makeInstance (c : ClassRef) (args : List Value) : Exec Value := do
  let r ← onHeap fun h => h.instantiate c
  let kept ← onHeap fun h => h.newTuple args
  setHeap ((← heap).setInstanceAttr r "args" kept)
  return .instanceObj r

/-- Makes a builtin exception with a message. -/
def makeException (vm : Vm) (kind : ExceptionKind) (message : String) : Exec Value := do
  let c ← ofExcept (vm.builtinClass (← context) kind.name)
  makeInstance c [.str message]

/-- The exception that raising a value raises: the value itself if it is one, an instance if it is
the class of one, and a complaint otherwise. -/
def normalizeException (vm : Vm) (v : Value) : Exec Value := do
  let base ← ofExcept (vm.builtinClass (← context) ExceptionKind.baseException.name)
  let h ← heap
  let complaint := vm.makeException .typeError "exceptions must derive from BaseException"
  match v with
  | .instanceObj r => if h.isInstance r base then return v else complaint
  | .classObj c => if h.isSubclass c base then makeInstance c [] else complaint
  | _ => complaint

/-- Raises an error that guest code can catch, from the place of the innermost frame; other errors
stay errors. -/
def raiseError (vm : Vm) (e : Error) : Exec Control := do
  let value ←
    match e.cause with
    | .exception kind message => vm.makeException kind message
    | .raised v => vm.normalizeException v
    | _ => throw e
  vm.raiseFault { value, traceback := [(← frame).place] }

end Vm

end TaskletMachine
