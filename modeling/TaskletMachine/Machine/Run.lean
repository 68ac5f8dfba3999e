import TaskletMachine.Machine.Step

/-!
# Runs

A run goes on in small steps, each an instruction or a link of a call, until the tasklet ends,
waits, or is to stop after an instruction. Errors that guest code can catch are raised on the way;
all others end the tasklet.

## Main definitions

* `Phase`, `Progress`: what comes next in a run, and what a step leads to.
* `Vm.advance`: a step.
* `Vm.runFor`: steps until the run stops; the number of steps is limited.
* `Vm.resume`: a run that goes on from a continuation.
-/
namespace TaskletMachine

open Exec

/-- What comes next in a run. -/
inductive Phase where
  /-- The next instruction. -/
  | fetch
  /-- The next link of a call. -/
  | link (c : PendingCall)
deriving Inhabited

/-- How a run ends. -/
inductive RunOutcome where
  | finished
  /-- The tasklet goes on later, in the given way. -/
  | suspended (k : Continuation)
  /-- An exception was not caught. -/
  | faulted
  /-- A failure ended the tasklet. -/
  | fatal
deriving Inhabited

/-- The name of an outcome. -/
def RunOutcome.name : RunOutcome → String
  | finished => "Finished"
  | suspended _ => "Suspended"
  | faulted => "Faulted"
  | fatal => "Fatal"

/-- The continuation with which a tasklet goes on after a run. One that has ended would have to be
resumed. -/
def RunOutcome.next : RunOutcome → Continuation
  | suspended k => k
  | _ => .resume

/-- What a step leads to. -/
inductive Progress where
  | running (phase : Phase) (m : Machine)
  | stopped (outcome : RunOutcome) (m : Machine)
deriving Inhabited

namespace Vm

/-- Executes the next instruction of the innermost frame. -/
def fetch (vm : Vm) : Exec Control := do
  let f ← frame
  if f.atEnd then endOfUnit
  else
    match decodeAt f.unit.bytes f.ip with
    | some d =>
      modifyFrame fun f => { f with instructionIp := f.ip, ip := d.next }
      vm.execute d.instruction
    | none => fail (s!"Failed to read instruction at {f.ip}")

/-- One link of a call. If a loop waits for the result, an error that stops the iteration ends the
loop. -/
def follow (vm : Vm) (c : PendingCall) : Exec Control := fun m =>
  match vm.link c m with
  | .ok control m => .ok control m
  | .error e m =>
    match c.delivery.loopExit? with
    | some exit => if vm.stopsIteration m e then endLoop exit m else .error e m
    | none => .error e m

/-- What a phase does. -/
def perform (vm : Vm) : Phase → Exec Control
  | .fetch => vm.fetch
  | .link c => vm.follow c

/-- Raises the errors that guest code can catch. -/
def catching (vm : Vm) (effect : Exec Control) : Exec Control := fun m =>
  match effect m with
  | .ok control m => .ok control m
  | .error e m => if e.isGuest then vm.raiseError e m else .error e m

/-- Ends a tasklet by a failure, which records the call chain. -/
def failWith (e : Error) (m : Machine) : Machine :=
  { m with context := { m.context with fatal := some { e with trace := m.context.trace } } }

/-- What a result leads to, given what comes after the instruction that it completes. -/
def proceed (next : Machine → Progress) : EStateM.Result Error Machine Control → Progress
  | .ok .next m => next m
  | .ok (.call c) m => .running (.link c) m
  | .ok (.suspend k) m => .stopped (.suspended k) m
  | .ok .finished m => .stopped .finished m
  | .ok .faulted m => .stopped .faulted m
  | .error e m => .stopped .fatal (failWith e m)

/-- What an effect leads to, given what comes after the instruction that it completes. -/
def conclude (vm : Vm) (next : Machine → Progress) (effect : Exec Control) (m : Machine) :
    Progress :=
  proceed next (vm.catching effect m)

/-- What comes after an instruction: another one, unless the run stops after each. -/
def afterInstruction (vm : Vm) (m : Machine) : Progress :=
  if vm.stepMode then .stopped (.suspended .resume) m else .running .fetch m

/-- One step of a run. -/
def advance (vm : Vm) (phase : Phase) (m : Machine) : Progress :=
  vm.conclude vm.afterInstruction (vm.perform phase) m

/-- Runs until the run stops, or gives nothing if that takes too many steps. -/
def runFor (vm : Vm) : (steps : Nat) → Progress → Option (RunOutcome × Machine)
  | _, .stopped outcome m => some (outcome, m)
  | 0, .running _ _ => none
  | steps + 1, .running phase m => runFor vm steps (vm.advance phase m)

/-- Hands over the result of a promise that is settled, to whoever waited for it. -/
def handOver (s : Settlement) (delivery : Delivery) : Exec Control := do
  deliverSettled s delivery
  return .next

/-- Where a run goes on from a continuation. A tasklet that waits for a promise first gets its
result; while there is none it keeps waiting. -/
def resumption (vm : Vm) (k : Continuation) (m : Machine) : Progress :=
  match k with
  | .start | .resume => .running .fetch m
  | .await p delivery =>
    match (m.world.promise p).settled with
    | some s => vm.conclude (.running .fetch) (handOver s delivery) m
    | none => .stopped (.suspended k) { m with world := m.world.wait p (m.world.running.getD 0) }

/-- Runs a tasklet from a continuation. A tasklet that has ended in an error stays as it is. -/
def resume (vm : Vm) (steps : Nat) (k : Continuation) (m : Machine) :
    Option (RunOutcome × Machine) :=
  if m.context.fatal.isSome then some (.fatal, m)
  else if m.context.isUnhandled then some (.faulted, m)
  else vm.runFor steps (vm.resumption k m)

end Vm

end TaskletMachine
