import TaskletMachine.Proofs.Machine.IteratorCalls
import TaskletMachine.Proofs.Machine.LockstepLinks

/-!
# Loops and calls of the functions for iteration

A call of `iter` does what the instruction does in the same frame. A loop that asks for its next
value makes the same call as a call of `next`, but for what becomes of the result, so both go on in
lockstep from there. The loop is left exactly where the other caller gets the exception that stops
the iteration, but for one case: what leaves the initializer of a class that has been called on the
way does not end the loop, whatever it is.

## Main definitions

* `Application`, `Machine.Applies`: a call instruction that calls a builtin function with one value.
* `LoopRequest`: a loop that asks for its next value instead.
* `Vm.iteration_agrees`: the instructions and the calls agree.
-/
namespace TaskletMachine

open Exec

/-! ## Calls and loops -/

/-- A call of a function with one value: the frame of the caller, which stands at the instruction,
and its callers, the operands with the values below them, and the offset of the next instruction. -/
structure Application where
  caller : Frame
  callers : List Frame
  function : NativeRef
  value : Value
  below : List Value
  next : Nat

namespace Application

def call (a : Application) : PendingCall :=
  { callee := .native a.function, args := [a.value], delivery := .push }

/-- The call stack while the call lasts. -/
def frames (a : Application) : List Frame :=
  a.caller.calling a.next a.below :: a.callers

/-- The call stack with the value in the place of the call. -/
def operand (a : Application) : List Frame :=
  a.caller.calling a.next (a.value :: a.below) :: a.callers

/-- The call is to be followed. -/
def start (a : Application) (m : Machine) : Progress :=
  .running (.link a.call) (m.withFrames a.frames)

end Application

/-- The next instruction calls a builtin function with a value. -/
structure Machine.Applies (m : Machine) (a : Application) (f : Builtin) : Prop where
  frames : m.context.frames = a.caller :: a.callers
  instruction : decodeAt a.caller.unit.bytes a.caller.ip = some ⟨.call 1, a.next⟩
  stack : a.caller.stack = a.value :: .native a.function :: a.below
  behaviour : (m.world.heap.native a.function).behaviour = .builtin f

/-- A loop that asks for its next value: the frame of the loop, which stands at the instruction, and
its callers, and the offsets of the exit and of the next instruction. -/
structure LoopRequest where
  frame : Frame
  callers : List Frame
  exit : Nat
  next : Nat

namespace LoopRequest

/-- The call stack while the loop waits for the value. -/
def frames (q : LoopRequest) : List Frame :=
  q.frame.reading q.next :: q.callers

/-- The call is to be followed, its result goes to the loop. -/
def start (q : LoopRequest) (a : Application) (m : Machine) : Progress :=
  .running (.link { a.call with delivery := .iteration q.exit }) (m.withFrames q.frames)

/-- The loop asks the value that the function is called with, where the same names are bound. -/
structure Beside (q : LoopRequest) (a : Application) : Prop where
  instruction : decodeAt q.frame.unit.bytes q.frame.ip = some ⟨.forIter q.exit, q.next⟩
  stack : ∃ below, q.frame.stack = a.value :: below
  locals : List.Forall₂ Frame.SameLocals (q.frame :: q.callers) (a.caller :: a.callers)

end LoopRequest

section Agreement

variable {vm : Vm} {m : Machine} {a : Application} {q : LoopRequest} {f : Builtin}

theorem Machine.Applies.calls (h : m.Applies a f) : a.call.Calls m.world.heap f [a.value] :=
  ⟨⟨a.function, rfl, h.behaviour⟩, rfl⟩

theorem Machine.Applies.advance (h : m.Applies a f) (vm : Vm) :
    vm.advance .fetch m = a.start m := by
  have hcalls : Instruction.Calls (.call 1) a.caller.stack a.call a.below := by
    rw [h.stack]
    exact .positional (.native a.function) [a.value] a.below
  exact vm.advance_calls h.frames h.instruction hcalls

/-- A call of `iter` does what the instruction does in the same frame. -/
theorem Machine.Applies.iter (h : m.Applies a .iter) (vm : Vm) :
    vm.pursue (a.start m) =
      vm.conclude vm.afterInstruction (vm.execute .getIter) (m.withFrames a.operand) := by
  have hframes : (m.withFrames a.operand).context.frames =
      a.caller.calling a.next (a.value :: a.below) :: a.callers := rfl
  have hlink : vm.link a.call (m.withFrames a.frames) = runGetIter (m.withFrames a.operand) :=
    Vm.link_iter hframes rfl h.calls rfl
  have hfollow : vm.perform (.link a.call) (m.withFrames a.frames) =
      vm.execute .getIter (m.withFrames a.operand) :=
    (Vm.follow_of_loopExit? rfl).trans hlink
  exact congrArg (Vm.proceed vm.afterInstruction) (Vm.catching_congr hfollow)

/-- A loop makes the call that a call of `next` is, but for what becomes of the result. -/
theorem LoopRequest.Beside.advance (hq : q.Beside a) (h : m.Applies a .next) (vm : Vm) :
    vm.advance .fetch (m.withFrames (q.frame :: q.callers)) = vm.pursue (q.start a m) := by
  obtain ⟨below, hstack⟩ := hq.stack
  have hframes : (m.withFrames q.frames).context.frames = q.frame.reading q.next :: q.callers := rfl
  have hc : PendingCall.Calls { a.call with delivery := .iteration q.exit }
      (m.withFrames q.frames).world.heap .next [a.value] := h.calls
  have hfollow : vm.perform (.link { a.call with delivery := .iteration q.exit })
      (m.withFrames q.frames) = runForIter q.exit (m.withFrames q.frames) :=
    Vm.follow_next hframes hstack hc rfl
  have hfetch : vm.perform .fetch (m.withFrames (q.frame :: q.callers)) =
      runForIter q.exit (m.withFrames q.frames) :=
    vm.perform_fetch (m := m.withFrames (q.frame :: q.callers)) rfl hq.instruction
  exact congrArg (Vm.proceed vm.afterInstruction) (Vm.catching_congr (hfetch.trans hfollow.symm))

theorem LoopRequest.Beside.callersAlike (hq : q.Beside a) :
    CallersAlike q.frames a.frames q.frames a.frames := by
  obtain ⟨hframe, hcallers⟩ := List.forall₂_cons.1 hq.locals
  exact ⟨.cons ⟨hframe.localNames, hframe.slots, hframe.names⟩ hcallers, .refl _, .refl _⟩

theorem LoopRequest.Beside.awaitsNext (hq : q.Beside a) : AwaitsNext q.frames := by
  obtain ⟨below, hstack⟩ := hq.stack
  exact ⟨_, _, a.value, below, rfl, hstack⟩

theorem LoopRequest.Beside.lockstep (hq : q.Beside a) (m : Machine) :
    (q.start a m).Lockstep q.exit q.frames a.frames (.iteration q.exit) (a.start m) :=
  .linking { a.call with delivery := .iteration q.exit } (m.withFrames q.frames) .loop
    hq.callersAlike

/-- A native iterator answers at once: both callers get its next value, or the loop is left. -/
theorem LoopRequest.Beside.parted (hq : q.Beside a) (h : m.Applies a .next) {r : IteratorRef}
    (hr : a.value = .iterator r) (vm : Vm) :
    vm.Parted q.exit q.frames a.frames (.iteration q.exit) (vm.pursue (q.start a m))
      (vm.pursue (a.start m)) := by
  let m₁ : Machine := { m with world := { m.world with heap := (m.world.heap.advance r).2 } }
  have heffect (d : Delivery) : PendingCall.effect? vm.host m.world.heap
      { a.call with delivery := d } = some (Builtin.advanceOr (.iterator r) none) :=
    hr ▸ Vm.effect?_calls h.calls
  cases hnext : (m.world.heap.advance r).1 with
  | some v =>
    have hv : (m.world.heap.advance r).1.or none = some v := by rw [hnext]; rfl
    have hleft : vm.pursue (q.start a m) = vm.afterInstruction _ :=
      Vm.advance_iterator (m := m.withFrames q.frames) rfl (heffect (.iteration q.exit)) hv rfl
    have hright : vm.pursue (a.start m) = vm.afterInstruction _ :=
      Vm.advance_iterator (m := m.withFrames a.frames) rfl (heffect .push) hv rfl
    rw [hleft, hright]
    exact .value v m₁ vm.afterInstruction hq.callersAlike (.inl rfl)
  | none =>
    have hreply := Builtin.advanceOr_iterator r none m.world
    rw [hnext] at hreply
    have hleft := Vm.follow_loopError
      (Vm.link_error (m := m.withFrames q.frames) (heffect (.iteration q.exit)) hreply) rfl
    have hright := (Vm.follow_of_loopExit? rfl).trans
      (Vm.link_error (m := m.withFrames a.frames) (heffect .push) hreply)
    have halike : CallersAlike q.frames a.frames (m₁.withFrames q.frames).context.frames a.frames :=
      hq.callersAlike
    exact Vm.parted_error hq.awaitsNext halike hleft hright

/-- Calling `iter` with a value does what the instruction does on it in the same frame.

A loop that asks a value for its next one makes the same call as a call of `next` with the value.
Both call the same hook, or end in the same exception if there is none. From there both go on in
lockstep until the call is over, and then both callers get the same value, or the loop is left and
the other caller gets the exception that stops the iteration, or both get another exception. There
is one case where both get an exception that stops the iteration: if it has left the initializer of
a class that has been called on the way. -/
theorem Vm.iteration_agrees (vm : Vm) (m : Machine) (a : Application) :
    (m.Applies a .iter →
      vm.advance .fetch m = a.start m ∧
        vm.pursue (a.start m) =
          vm.conclude vm.afterInstruction (vm.execute .getIter) (m.withFrames a.operand)) ∧
    (m.Applies a .next → ∀ q : LoopRequest, q.Beside a →
      vm.advance .fetch m = a.start m ∧
        vm.advance .fetch (m.withFrames (q.frame :: q.callers)) = vm.pursue (q.start a m) ∧
      (∀ hook, m.world.heap.hook? a.value "__next__" = some hook →
        vm.pursue (a.start m) =
          .running (.link { callee := hook, args := [], delivery := .push })
            (m.withFrames a.frames) ∧
        vm.pursue (q.start a m) =
          .running (.link { callee := hook, args := [], delivery := .iteration q.exit })
            (m.withFrames q.frames)) ∧
      (∀ r, a.value = .iterator r →
        vm.Parted q.exit q.frames a.frames (.iteration q.exit) (vm.pursue (q.start a m))
          (vm.pursue (a.start m))) ∧
      ((∀ r, a.value ≠ .iterator r) → m.world.heap.hook? a.value "__next__" = none →
        vm.pursue (a.start m) = proceed vm.afterInstruction
          (vm.raiseError (m.world.heap.notIterator a.value) (m.withFrames a.frames)) ∧
        vm.pursue (q.start a m) = proceed vm.afterInstruction
          (vm.raiseError (m.world.heap.notIterator a.value) (m.withFrames q.frames))) ∧
      ∀ n, vm.InLockstep q.exit q.frames a.frames (q.start a m) (a.start m) n) := by
  constructor
  · intro h
    exact ⟨h.advance vm, h.iter vm⟩
  · intro h q hq
    have heffect (d : Delivery) : PendingCall.effect? vm.host m.world.heap
        { a.call with delivery := d } = some (Builtin.advanceOr a.value none) :=
      effect?_calls h.calls
    refine ⟨h.advance vm, hq.advance h vm, ?_, fun r hr => hq.parted h hr vm, ?_,
      inLockstep hq.awaitsNext (hq.lockstep m)⟩
    · intro hook hhook
      exact ⟨advance_hook (m := m.withFrames a.frames) (heffect .push) hhook,
        advance_hook (m := m.withFrames q.frames) (heffect (.iteration q.exit)) hhook⟩
    · intro hv hhook
      exact ⟨advance_notIterator (m := m.withFrames a.frames) (heffect .push) hv hhook,
        advance_notIterator (m := m.withFrames q.frames) (heffect (.iteration q.exit)) hv hhook⟩

end Agreement

namespace CalledInitializer

/-- The initializer of a class that raises the exception. -/
def init : CodeUnit :=
  { name := "init", bytes := #[0x65, 0, 0, 0x82, 1, 0], names := #["StopIteration"]
    localNames := #["self"], argCount := 1 }

/-- The functions, the classes of exceptions, and an object whose hook is another object, which is
called by making an instance of a class. -/
def heap : Heap :=
  { natives :=
      #[{ name := "iter", behaviour := .builtin .iter },
        { name := "next", behaviour := .builtin .next }]
    functions := #[{ name := "init", unit := init, defaults := [] }]
    classes := #[{ name := "BaseException", bases := [], attrs := [] },
      { name := "StopIteration", bases := [⟨0⟩], attrs := [] },
      { name := "It", bases := [], attrs := [("__next__", .instanceObj ⟨1⟩)] },
      { name := "Hook", bases := [], attrs := [("__call__", .classObj ⟨4⟩)] },
      { name := "Made", bases := [], attrs := [("__init__", .function ⟨0⟩)] }]
    instances := #[{ cls := ⟨2⟩, attrs := [] }, { cls := ⟨3⟩, attrs := [] }] }

/-- A machine with one frame. -/
def machine (f : Frame) : Machine :=
  { context :=
      { frames := [f]
        builtins := [("BaseException", .classObj ⟨0⟩), ("StopIteration", .classObj ⟨1⟩)] }
    world := { heap } }

/-- A call of a function with the object. -/
def application (function : NativeRef) : Application where
  caller :=
    { Frame.start { bytes := #[0x83, 1, 0] } .push with
      stack := [.instanceObj ⟨0⟩, .native function] }
  callers := []
  function
  value := .instanceObj ⟨0⟩
  below := []
  next := 3

/-- A loop over the object. -/
def loop : LoopRequest where
  frame :=
    { Frame.start { bytes := #[0x5D, 1, 0, 0x01] } .push with stack := [.instanceObj ⟨0⟩] }
  callers := []
  exit := 4
  next := 3

/-- The machine before the call of a function. -/
def calling (function : NativeRef) : Machine :=
  machine (application function).caller

/-- The call of `iter` does what the instruction does, and the loop goes on in lockstep with the
call of `next`. -/
theorem goes_on :
    (default : Vm).pursue ((application ⟨0⟩).start (calling ⟨0⟩)) =
      (default : Vm).conclude (default : Vm).afterInstruction ((default : Vm).execute .getIter)
        ((calling ⟨0⟩).withFrames (application ⟨0⟩).operand) ∧
    (default : Vm).pursue ((application ⟨1⟩).start (calling ⟨1⟩)) =
      .running (.link { callee := .instanceObj ⟨1⟩, args := [], delivery := .push })
        ((calling ⟨1⟩).withFrames (application ⟨1⟩).frames) ∧
    ∀ n, (default : Vm).InLockstep 4 loop.frames (application ⟨1⟩).frames
      (loop.start (application ⟨1⟩) (calling ⟨1⟩)) ((application ⟨1⟩).start (calling ⟨1⟩)) n := by
  have hiter : (calling ⟨0⟩).Applies (application ⟨0⟩) .iter := ⟨rfl, rfl, rfl, rfl⟩
  have hnext : (calling ⟨1⟩).Applies (application ⟨1⟩) .next := ⟨rfl, rfl, rfl, rfl⟩
  have hloop : loop.Beside (application ⟨1⟩) := ⟨rfl, ⟨[], rfl⟩, .cons ⟨rfl, rfl, rfl⟩ .nil⟩
  obtain ⟨-, -, hhook, -, -, hrun⟩ :=
    (Vm.iteration_agrees default (calling ⟨1⟩) (application ⟨1⟩)).2 hnext loop hloop
  exact ⟨((Vm.iteration_agrees default (calling ⟨0⟩) (application ⟨0⟩)).1 hiter).2,
    (hhook _ rfl).1, hrun⟩

/-- The run of a frame ends in an exception that stops iterations. -/
def endsInStop (f : Frame) : Bool :=
  ((default : Vm).resume 20 .resume (machine f)).any fun r =>
    r.1.name == "Faulted" && r.2.context.unhandled?.any fun fault =>
      (default : Vm).isStopIteration r.2.context r.2.world.heap fault.value

/-- The call of `next` ends in the exception, but the loop is not left: it ends in the exception as
well. -/
theorem loop_is_not_left : endsInStop (application ⟨1⟩).caller ∧ endsInStop loop.frame := by
  decide +kernel

end CalledInitializer

end TaskletMachine
