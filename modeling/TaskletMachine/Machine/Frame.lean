import TaskletMachine.Value.Error

/-!
# Frames

A frame is one execution of a unit: where it stands, its operand stack, its locals, and the blocks
it is in. Locals that the unit declares live in slots; all others are kept by name.

## Main definitions

* `Block`: a part of the code with a place to go to when it is left early.
* `Delivery`: what becomes of the result of a call.
* `Frame`, `Frame.local?`, `Frame.setLocal`, `Frame.removeLocal?`, `Frame.locals`: frames and their
  locals.
* `Frame.cut`: the stack restored to an earlier depth.
-/
namespace TaskletMachine

/-- The kinds of blocks. -/
inductive BlockKind where
  /-- A loop; its handler is the exit. -/
  | loop
  /-- A guarded part; its handler is the first of the clauses that look at the exception. -/
  | exceptGuard
  /-- A guarded part; its handler is the cleanup body. -/
  | finallyGuard
  /-- A cleanup body that was entered by a fault, which goes on when the body ends. -/
  | finallyBody (fault : Fault)
deriving Inhabited

/-- A part of the code that a frame is in. -/
structure Block where
  kind : BlockKind
  /-- The offset after the instruction that entered the block. -/
  origin : Nat
  /-- The offset to go to when the block is left early. -/
  handler : Nat
  /-- The depth of the operand stack when the block was entered. -/
  depth : Nat
deriving Inhabited

/-- Whether a block is a loop. -/
def Block.isLoop (b : Block) : Bool :=
  match b.kind with
  | .loop => true
  | _ => false

/-- What becomes of the result of a call. -/
inductive Delivery where
  /-- It is pushed. -/
  | push
  /-- It is dropped. -/
  | discard
  /-- Its truth is pushed, or the opposite. -/
  | truth (negate : Bool)
  /-- Another value takes its place. -/
  | replace (value : Value) (next : Delivery)
  /-- It is dropped, and the locals of the frame become the attributes of a class. -/
  | finishClass (name : String) (bases : List ClassRef)
  /-- It is pushed as the next value of a loop; if the call stops the iteration instead, the loop
  goes to its exit. -/
  | iteration (exit : Nat)
  /-- It is raised, with a cause if there is one. -/
  | raise (cause : Option Value)
deriving Inhabited

/-- The exit of the loop that waits for the result, if a loop does. -/
def Delivery.loopExit? : Delivery → Option Nat
  | iteration exit => some exit
  | replace _ next => next.loopExit?
  | _ => none

/-- One execution of a unit. -/
structure Frame where
  unit : CodeUnit
  /-- The offset of the next instruction. -/
  ip : Nat := 0
  /-- The offset of the instruction that is being executed. -/
  instructionIp : Nat := 0
  /-- The operand stack, top first. -/
  stack : List Value := []
  /-- The values of the locals that the unit declares. -/
  slots : Array (Option Value) := #[]
  /-- The values of the other locals. -/
  names : Namespace := []
  /-- The blocks, innermost first. -/
  blocks : List Block := []
  /-- What becomes of the result. -/
  delivery : Delivery := .push
deriving Inhabited

namespace Frame

/-- A frame at the start of a unit. -/
def start (unit : CodeUnit) (delivery : Delivery) : Frame :=
  { unit, delivery, slots := Array.replicate unit.localNames.size none }

/-- Whether the frame is past the end of its code. -/
def atEnd (f : Frame) : Bool :=
  f.unit.bytes.size ≤ f.ip

/-- The value of a local that the unit declares. -/
def slotOf? (f : Frame) (name : String) : Option Value :=
  (f.unit.localIndex? name).bind fun index => f.slots[index]?.join

/-- The value of a local. -/
def local? (f : Frame) (name : String) : Option Value :=
  (f.slotOf? name).or (f.names.find? name)

/-- Whether a local has a value. -/
def hasLocal (f : Frame) (name : String) : Bool :=
  (f.local? name).isSome

/-- Gives a local a value: in its slot if the unit declares it, and by name otherwise. -/
def setLocal (f : Frame) (name : String) (v : Value) : Frame :=
  match f.unit.localIndex? name with
  | some index => { f with slots := f.slots.setIfInBounds index (some v) }
  | none => { f with names := f.names.set name v }

/-- Takes the value of a local away, or gives nothing if it has none. -/
def removeLocal? (f : Frame) (name : String) : Option Frame :=
  match f.unit.localIndex? name, f.slotOf? name with
  | some index, some _ => some { f with slots := f.slots.setIfInBounds index none }
  | _, _ =>
    if f.names.has name then some { f with names := f.names.remove name } else none

/-- The locals that have values: those in slots, then those by name that no slot hides. -/
def locals (f : Frame) : Namespace :=
  let declared := (f.unit.localNames.toList.zip f.slots.toList).foldl
    (fun acc (name, slot) =>
      match slot with
      | some v => Names.set acc name v
      | none => acc) []
  f.names.foldl (fun acc (name, v) => if Names.has acc name then acc else acc ++ [(name, v)])
    declared

/-- The stack cut down to a depth; a stack that is not that deep stays as it is. -/
def cut (stack : List Value) (depth : Nat) : List Value :=
  stack.drop (stack.length - depth)

/-- The frame without the values above a depth. -/
def restore (f : Frame) (depth : Nat) : Frame :=
  { f with stack := cut f.stack depth }

/-- Where the frame is, for a traceback. -/
def place (f : Frame) : TraceEntry :=
  { unit := f.unit.name, line := f.unit.line? f.instructionIp, ip := f.instructionIp }

end Frame

end TaskletMachine
