import TaskletMachine.Host.Basic

/-!
# A toolkit of host functions

Small host functions that show every way in which a native function can reply: they give back what
they were called with, wait, park, hand the call over, fail, settle promises, count, and look into
other tasks.

## Main definitions

* `HostFunction`, `HostFunction.call`: the functions and what they do.
* `Host.ofFunctions`: a host with a table of such functions.
-/
namespace TaskletMachine

/-- Small host functions. -/
inductive HostFunction where
  /-- Replies with a tuple of the arguments and a dict of the keyword arguments. -/
  | echo
  /-- Replies with a tuple of the names of the arguments' types. -/
  | typeNames
  /-- Replies with a fixed value. -/
  | constant (v : Value)
  | noValue
  | yield
  | await (p : PromiseId)
  /-- Hands the call over, with some arguments before those of the call. -/
  | tailCall (callee : Value) (args : List Value)
  | fail (e : Error)
  /-- Settles a promise. -/
  | settle (p : PromiseId) (s : Settlement)
  /-- Replies with the next value of an iterator and stops the iteration past its end. -/
  | counter (cell : IteratorRef)
  /-- Replies with whether a task has ended and with one of its globals; tasks go by the number in
  the host's table of handles. -/
  | peek (task : Nat) (name : String)
deriving Inhabited

/-- What a host function does. -/
def HostFunction.call (handles : Array TaskletId) (f : HostFunction) (args : List Value)
    (keywords : Namespace) (w : World) : HostReply :=
  let h := w.heap
  match f with
  | echo =>
    let (positional, h) := h.newTuple args
    let (named, h) := h.newDict (keywords.map fun (name, v) => (.str name, v))
    let (v, h) := h.newTuple [positional, .dict named]
    { heap := h, outcome := .ok (.value v) }
  | typeNames =>
    let (v, h) := h.newTuple (args.map fun v => .str (h.typeName v))
    { heap := h, outcome := .ok (.value v) }
  | constant v => { heap := h, outcome := .ok (.value v) }
  | noValue => { heap := h, outcome := .ok .noValue }
  | yield => { heap := h, outcome := .ok .yield }
  | await p => { heap := h, outcome := .ok (.await p) }
  | tailCall callee first => { heap := h, outcome := .ok (.tailCall callee (first ++ args)) }
  | fail e => { heap := h, outcome := .error e }
  | settle p s => { heap := h, signals := [.settle p s], outcome := .ok .noValue }
  | counter cell =>
    match h.advance cell with
    | (some v, h) => { heap := h, outcome := .ok (.value v) }
    | (none, h) => { heap := h, outcome := .error (.raise .stopIteration "") }
  | peek task name =>
    let id := handles.getD task 0
    let finished := (w.task? id).any fun t => t.status.isFinished
    let (v, h) := h.newTuple [.bool finished, (w.taskGlobal? id name).getD .none]
    { heap := h, outcome := .ok (.value v) }

/-- A host with a table of functions and a table of the tasks it knows. -/
def Host.ofFunctions (functions : Array HostFunction) (handles : Array TaskletId) : Host where
  call id args keywords w := (functions.getD id .noValue).call handles args keywords w

end TaskletMachine
