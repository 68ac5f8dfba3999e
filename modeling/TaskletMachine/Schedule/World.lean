import TaskletMachine.Machine.Context

/-!
# The world of a scheduler

Everything that tasklets share: the heap, the promises, the pools, and the table of tasklets. The
running tasklet's context is taken out of the table while it runs, so nobody else can look into it.

## Main definitions

* `Promise`, `Settlement`: results that come from outside.
* `Continuation`: how a tasklet goes on.
* `Pools`: the four pools and the queue of tasklets that guest code has asked for.
* `Task`, `TaskStatus`: the table.
* `Request`, `Notice`: callbacks for the end of a task, and their calls.
* `World`, `World.settle`, `World.wait`, `World.block`, `World.unblock`, `World.park`: the world and
  the moves between pools.
* `World.register`, `World.call`: registering callbacks and calling them.
* `Signal`, `World.signal`: what a host can do to the schedule at any time.
* `Effect`: what native functions do to the world.
-/
namespace TaskletMachine

/-- A promise, by number. -/
abbrev PromiseId := Nat

/-- How a promise was settled. -/
inductive Settlement where
  | value (v : Value)
  | noValue
  | rejected (e : Error)
deriving Inhabited

/-- A result that comes from outside. -/
structure Promise where
  settled : Option Settlement := none
  /-- The tasklets to unblock, in the order in which they came. -/
  waiters : List TaskletId := []
deriving Inhabited

/-- How a tasklet goes on. -/
inductive Continuation where
  /-- From the start. -/
  | start
  /-- From where it stands. -/
  | resume
  /-- With the result of a promise. -/
  | await (promise : PromiseId) (delivery : Delivery)
deriving Inhabited

/-- A tasklet that guest code has asked for; it starts on the next tick. -/
structure Spawn where
  id : TaskletId
  unit : CodeUnit
  globals : Namespace
  /-- The tasklet whose globals it inherits. -/
  spawner : Option TaskletId
deriving Inhabited

/-- Adds an id to a pool that does not have it. -/
def joinPool (pool : List TaskletId) (id : TaskletId) : List TaskletId :=
  if pool.contains id then pool else pool ++ [id]

/-- The pools, each in the order in which tasklets joined it. -/
structure Pools where
  active : List TaskletId := []
  unblocked : List TaskletId := []
  blocked : List TaskletId := []
  yielded : List TaskletId := []
  spawned : List Spawn := []
  lastId : TaskletId := 0
deriving Inhabited

namespace Pools

/-- The next id. -/
def nextId (p : Pools) : TaskletId × Pools :=
  (p.lastId + 1, { p with lastId := p.lastId + 1 })

/-- Takes a tasklet out of every pool. -/
def remove (p : Pools) (id : TaskletId) : Pools :=
  { p with
    active := p.active.erase id
    unblocked := p.unblocked.erase id
    blocked := p.blocked.erase id
    yielded := p.yielded.erase id }

/-- The pool that a tasklet is in; one that has not started yet counts as ready. -/
def state? (p : Pools) (id : TaskletId) : Option PoolName :=
  if p.active.contains id then some .active
  else if p.unblocked.contains id then some .unblocked
  else if p.blocked.contains id then some .blocked
  else if p.yielded.contains id then some .yielded
  else if p.spawned.any fun s => s.id == id then some .unblocked
  else none

/-- Whether no tasklet is left. -/
def isDone (p : Pools) : Bool :=
  p.active.isEmpty && p.unblocked.isEmpty && p.blocked.isEmpty && p.yielded.isEmpty &&
    p.spawned.isEmpty

/-- Whether tasklets are left and all of them wait. -/
def isAllBlocked (p : Pools) : Bool :=
  !p.blocked.isEmpty && p.active.isEmpty && p.unblocked.isEmpty && p.yielded.isEmpty &&
    p.spawned.isEmpty

/-- The tasklets in a pool, in order; those that have not started come last among the ready ones. -/
def tasklets (p : Pools) : PoolName → List TaskletId
  | .active => p.active
  | .unblocked => p.unblocked ++ p.spawned.map Spawn.id
  | .blocked => p.blocked
  | .yielded => p.yielded

/-- Moves a tasklet to the blocked pool. -/
def block (p : Pools) (id : TaskletId) : Pools :=
  let p := p.remove id
  { p with blocked := joinPool p.blocked id }

/-- Makes a blocked tasklet ready; others stay where they are. -/
def unblock (p : Pools) (id : TaskletId) : Pools :=
  if p.blocked.contains id then
    { p with blocked := p.blocked.erase id, unblocked := joinPool p.unblocked id }
  else p

/-- Parks a tasklet for the rest of the tick. -/
def park (p : Pools) (id : TaskletId) : Pools :=
  let p := p.remove id
  { p with yielded := joinPool p.yielded id }

end Pools

/-- Why a task failed. -/
inductive TaskFailure where
  | fatal (e : Error)
  | unhandled (f : Fault)
deriving Inhabited

/-- A failure as text. -/
def TaskFailure.text (h : Heap) : TaskFailure → String
  | fatal e => e.text h
  | unhandled f => f.text h

/-- How a task stands. -/
inductive TaskStatus where
  | running
  | completed (v : Value)
  | failed (failure : TaskFailure)
deriving Inhabited

/-- Whether a task has ended. -/
def TaskStatus.isFinished : TaskStatus → Bool
  | running => false
  | _ => true

/-- A tasklet that was started, kept also after its end. -/
structure Task where
  id : TaskletId
  status : TaskStatus := .running
  context : Context
  continuation : Continuation := .start
deriving Inhabited

/-- The two ways in which a task ends. -/
inductive Ending where
  | completed
  | failed
deriving DecidableEq, Repr, Inhabited

/-- What there is to tell about a task that has ended. -/
inductive News where
  | completed (v : Value)
  | failed (failure : TaskFailure)
deriving Inhabited

/-- The ending that news are about. -/
def News.ending : News → Ending
  | completed _ => .completed
  | failed _ => .failed

/-- What there is to tell about a task. -/
def TaskStatus.news? : TaskStatus → Option News
  | running => none
  | completed v => some (.completed v)
  | failed failure => some (.failed failure)

/-- A callback that a watcher has registered for one of the endings of a task. When it is called, it
may register others, depending on the news and on the heap. -/
structure Request where
  watcher : String
  task : TaskletId
  ending : Ending
  more : News → Heap → List Request

instance : Inhabited Request := ⟨⟨default, default, default, fun _ _ => []⟩⟩

/-- A call of a callback, with the heap as it was then. -/
structure Notice where
  request : Request
  news : News
  heap : Heap
deriving Inhabited

/-- The watcher whose callback was called. -/
def Notice.watcher (n : Notice) : String :=
  n.request.watcher

/-- Everything that tasklets share. -/
structure World where
  heap : Heap := {}
  promises : Array Promise := #[]
  pools : Pools := {}
  /-- The tasklets that were started, in that order. -/
  tasks : List Task := []
  /-- The tasklet that is being run. -/
  running : Option TaskletId := none
  /-- The lines that guest code printed. -/
  printed : Array String := #[]
  /-- The callbacks that wait for the end of a task, in the order in which they were registered. -/
  callbacks : List Request := []
  /-- The calls of callbacks. -/
  notices : Array Notice := #[]
deriving Inhabited

namespace World

/-- A promise; one that nobody has used yet is not settled. -/
def promise (w : World) (p : PromiseId) : Promise :=
  w.promises.getD p default

/-- Replaces a promise; the table grows if it is too short. -/
def setPromise (w : World) (p : PromiseId) (q : Promise) : World :=
  let room := Array.replicate (p + 1 - w.promises.size) default
  { w with promises := (w.promises ++ room).setIfInBounds p q }

/-- Makes a promise that is not settled. -/
def newPromise (w : World) : PromiseId × World :=
  (w.promises.size, { w with promises := w.promises.push {} })

/-- Moves a tasklet to the blocked pool. -/
def block (w : World) (id : TaskletId) : World :=
  { w with pools := w.pools.block id }

/-- Makes a blocked tasklet ready. -/
def unblock (w : World) (id : TaskletId) : World :=
  { w with pools := w.pools.unblock id }

/-- Parks a tasklet for the rest of the tick. -/
def park (w : World) (id : TaskletId) : World :=
  { w with pools := w.pools.park id }

/-- Settles a promise and makes its waiters ready, in order; a promise is settled only once. -/
def settle (w : World) (p : PromiseId) (s : Settlement) : World :=
  if (w.promise p).settled.isSome then w
  else
    (w.promise p).waiters.foldl unblock (w.setPromise p { settled := some s, waiters := [] })

/-- Has a tasklet wait for a promise: it is blocked, and unblocked when the promise is settled. -/
def wait (w : World) (p : PromiseId) (id : TaskletId) : World :=
  let q := w.promise p
  (w.setPromise p { q with waiters := q.waiters ++ [id] }).block id

/-- Queues a tasklet that guest code asks for. -/
def spawn (w : World) (unit : CodeUnit) (globals : Namespace) : TaskletId × World :=
  let (id, pools) := w.pools.nextId
  let spawn : Spawn := { id, unit, globals, spawner := w.running }
  (id, { w with pools := { pools with spawned := pools.spawned ++ [spawn] } })

/-- A tasklet that was started. -/
def task? (w : World) (id : TaskletId) : Option Task :=
  w.tasks.find? fun t => t.id == id

/-- Changes a task. -/
def modifyTask (w : World) (id : TaskletId) (f : Task → Task) : World :=
  { w with tasks := w.tasks.map fun t => if t.id == id then f t else t }

/-- The tasks that have not ended. -/
def unfinished (w : World) : List Task :=
  w.tasks.filter fun t => !t.status.isFinished

/-- A global of a task; nobody can look into the one that is being run. -/
def taskGlobal? (w : World) (id : TaskletId) (name : String) : Option Value :=
  if w.running == some id then none
  else (w.task? id).bind fun t => t.context.global? name

/-- What there is to tell about a task, if it was started and has ended. -/
def news? (w : World) (id : TaskletId) : Option News :=
  (w.task? id).bind fun t => t.status.news?

/-- Records a call of a callback. -/
def tell (w : World) (r : Request) (news : News) : World :=
  { w with notices := w.notices.push { request := r, news, heap := w.heap } }

mutual
/-- Registers a callback. It waits for the end of the task; if the task has ended, it is called at
once or, if it is for the other ending, dropped. -/
def register (w : World) : Request → World
  | r@⟨_, id, ending, more⟩ =>
    match w.news? id with
    | none => { w with callbacks := w.callbacks ++ [r] }
    | some news =>
      if news.ending = ending then (w.tell r news).registerAll (more news w.heap) else w

/-- Registers callbacks, in order. -/
def registerAll (w : World) : List Request → World
  | [] => w
  | r :: rest => (w.register r).registerAll rest
end

/-- Calls a callback, which may register others. -/
def call (w : World) (news : News) (r : Request) : World :=
  (w.tell r news).registerAll (r.more news w.heap)

end World

/-- What a host can do to the schedule at any time, also while a tasklet runs. -/
inductive Signal where
  /-- Settles a promise. -/
  | settle (p : PromiseId) (s : Settlement)
  /-- Makes a tasklet ready, whatever it waits for. -/
  | unblock (id : TaskletId)
deriving Inhabited

/-- What a signal does. -/
def World.signal (w : World) : Signal → World
  | .settle p s => w.settle p s
  | .unblock id => w.unblock id

/-- What a native function does: it changes the world, also if it ends in an error. -/
abbrev Effect := EStateM Error World

namespace Effect

/-- The heap. -/
def heap : Effect Heap :=
  return (← get).heap

/-- Replaces the heap. -/
def setHeap (h : Heap) : Effect Unit :=
  modify fun w => { w with heap := h }

/-- Changes the heap and gives a result. -/
def onHeap {α : Type} (f : Heap → α × Heap) : Effect α := do
  let (a, h) := f (← heap)
  setHeap h
  return a

section Binding

variable {α β : Type}

theorem bind_of_ok {effect : Effect α} {a : α} {w w' : World} (h : effect w = .ok a w')
    (k : α → Effect β) : (effect >>= k) w = k a w' := by
  simp only [bind, EStateM.bind, h]

theorem bind_heap {k : Heap → Effect α} (w : World) : (heap >>= k) w = k w.heap w :=
  rfl

theorem bind_onHeap (f : Heap → α × Heap) {k : α → Effect β} (w : World) :
    (onHeap f >>= k) w = k (f w.heap).1 { w with heap := (f w.heap).2 } :=
  rfl

end Binding

end Effect

end TaskletMachine
