import TaskletMachine.Library.Reply

/-!
# Hosts

A host provides native functions of its own. A call can look at the whole world, but the only things
it can do to it are to replace the heap and to give signals.

## Main definitions

* `HostReply`, `Host`: what a call of a host function leads to, and the functions of a host.
* `Host.run`: a call as an effect.
-/
namespace TaskletMachine

/-- What a call of a host function leads to. -/
structure HostReply where
  heap : Heap
  /-- The signals that the call gives, in order. -/
  signals : List Signal := []
  outcome : Except Error Reply

/-- The native functions of a host, by number. -/
structure Host where
  call : (id : Nat) → (args : List Value) → (keywords : Namespace) → World → HostReply

/-- A host without functions. -/
def Host.empty : Host where
  call _ _ _ w := { heap := w.heap, outcome := .error (.fail "Unknown host function") }

instance : Inhabited Host := ⟨.empty⟩

/-- Calls a host function. -/
def Host.run (host : Host) (id : Nat) (args : List Value) (keywords : Namespace) :
    Effect Reply := do
  let w ← get
  let reply := host.call id args keywords w
  set (reply.signals.foldl World.signal { w with heap := reply.heap })
  ofExcept reply.outcome

end TaskletMachine
