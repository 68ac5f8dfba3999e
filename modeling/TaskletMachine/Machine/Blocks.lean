import TaskletMachine.Machine.Call

/-!
# Blocks and leaving them

The instructions that enter and leave blocks, in a frame without a fault: loops are left by a jump
to their exit or back to their head, cleanup bodies run to their end, and a return leaves
everything.

## Main definitions

* `Frame.enterBlock`, `Frame.popBlock?`: entering and leaving a block.
* `Frame.breakLoop`, `Frame.continueLoop?`: leaving the blocks inside a loop, with or without the
  loop.
* `Frame.endFinally`, `FinallyEnd`: the end of a cleanup body.
* `Vm.returnValue`, `Vm.endOfUnit`: the end of a frame.
-/
namespace TaskletMachine

namespace Frame

/-- Enters a block. -/
def enterBlock (f : Frame) (kind : BlockKind) (handler : Nat) : Frame :=
  { f with blocks := { kind, origin := f.ip, handler, depth := f.stack.length } :: f.blocks }

/-- Leaves the innermost block. -/
def popBlock? (f : Frame) : Option Frame :=
  match f.blocks with
  | [] => none
  | b :: rest => some { f.restore b.depth with blocks := rest }

/-- Leaves blocks from the innermost one up to a loop, whose exit comes next. Without a loop all
blocks are left, and there is no exit. -/
def breakFrom (f : Frame) : List Block → Frame × Bool
  | [] => ({ f with blocks := [] }, false)
  | b :: rest =>
    let f := { f.restore b.depth with blocks := rest }
    if b.isLoop then ({ f with ip := b.handler }, true) else breakFrom f rest

/-- Leaves the innermost loop; tells whether there was one. -/
def breakLoop (f : Frame) : Frame × Bool :=
  f.breakFrom f.blocks

/-- Goes to the head of the innermost loop and leaves the blocks inside it. -/
def continueLoop? (f : Frame) (target : Nat) : Option Frame :=
  let inside := f.blocks.takeWhile fun b => !b.isLoop
  let remaining := f.blocks.dropWhile fun b => !b.isLoop
  if remaining.isEmpty then none
  else
    -- the loop itself stays, and with it whatever it keeps on the stack
    match inside.getLast? with
    | some outermost => some { f.restore outermost.depth with blocks := remaining, ip := target }
    | none => some { f with ip := target }

end Frame

/-- How a cleanup body ends. -/
inductive FinallyEnd where
  /-- There is no cleanup body that ends here. -/
  | outside
  /-- The body was reached without a fault. -/
  | done (frame : Frame)
  /-- The body was entered by a fault, which goes on. -/
  | fault (fault : Fault) (frame : Frame)
deriving Inhabited

/-- Ends the cleanup body that is being executed. The innermost block belongs to it if a fault
entered the body, or if it is a guard whose body has been reached; the body of any other guard comes
later. -/
def Frame.endFinally (f : Frame) : FinallyEnd :=
  match f.blocks with
  | [] => .outside
  | b :: rest =>
    let left := { f.restore b.depth with blocks := rest }
    match b.kind with
    | .finallyBody fault => .fault fault left
    -- a guard ahead of the instruction encloses the body that ends here
    | .finallyGuard => if b.handler ≤ f.instructionIp then .done left else .outside
    | .loop | .exceptGuard => .outside

namespace Vm

open Exec

/-- Malformed code. -/
def malformed {α : Type} (message : String) : Exec α :=
  throw (.malformed message)

/-- Enters a block. -/
def enterBlock (kind : BlockKind) (handler : Nat) : Exec Control := do
  modifyFrame fun f => f.enterBlock kind handler
  return .next

/-- Leaves the innermost block. -/
def popBlock : Exec Control := do
  match (← frame).popBlock? with
  | some f =>
    modifyFrame fun _ => f
    return .next
  | none => malformed "POP_BLOCK without an active block"

/-- Leaves the innermost loop. -/
def breakLoop : Exec Control := do
  let (f, inLoop) := (← frame).breakLoop
  modifyFrame fun _ => f
  if inLoop then return .next else malformed "BREAK_LOOP outside of a loop"

/-- Goes on with the innermost loop. -/
def continueLoop (target : Nat) : Exec Control := do
  match (← frame).continueLoop? target with
  | some f =>
    modifyFrame fun _ => f
    return .next
  | none => malformed "CONTINUE_LOOP outside of a loop"

/-- Ends a cleanup body. -/
def endFinally (vm : Vm) : Exec Control := do
  match (← frame).endFinally with
  | .outside => return .next
  | .done f =>
    modifyFrame fun _ => f
    return .next
  | .fault fault f =>
    modifyFrame fun _ => f
    vm.raiseFault fault

/-- Leaves the innermost frame with the top value. The root frame stays, past its end, so that its
locals can still be looked up. -/
def returnValue : Exec Control := do
  let v ← pop
  match (← context).frames with
  | [root] =>
    let root := { root with ip := root.unit.bytes.size, blocks := [], stack := [] }
    modifyContext fun c => { c with frames := [root], returned := some v }
    return .finished
  | _ => returnFrom v

/-- Leaves a frame that has come to the end of its code. -/
def endOfUnit : Exec Control := do
  match (← context).frames with
  | [root] =>
    if root.blocks.isEmpty then return .finished
    else
      let name := root.unit.name
      fail (s!"Reached the end of '{name}' with {root.blocks.length} active block(s)")
  | _ => returnFrom .none

end Vm

end TaskletMachine
