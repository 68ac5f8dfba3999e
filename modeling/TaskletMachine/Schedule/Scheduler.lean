import TaskletMachine.Machine.Run

/-!
# The scheduler

Tasklets take turns. On every tick, each tasklet that is active, ready or parked is resumed once, in
that order; a tasklet that becomes ready during a tick has to wait for the next one. The tasklets
that guest code has asked for start at the beginning of a tick.

## Main definitions

* `Scheduler`: the machine, what tasklets start with, and the world.
* `Scheduler.schedule`, `Scheduler.scheduleContext`: adding a tasklet.
* `Scheduler.tick`, `Scheduler.run`: one round, and rounds until nothing can go on.
* `Scheduler.beginTick`, `Scheduler.turn`: the parts of a round.
* `Scheduler.finish`: the end of a task.
* `Scheduler.register`, `Scheduler.watch`: registering callbacks.
-/
namespace TaskletMachine

/-- Runs tasklets by turns. -/
structure Scheduler where
  vm : Vm
  /-- The builtins of the tasklets. -/
  builtins : Namespace
  /-- The modules that tasklets can import, if any. -/
  loader : Option (Names ModuleRef) := none
  /-- The module through which guest code reaches the scheduler. -/
  sys : ModuleRef
  /-- The number of ticks that have resumed tasklets. -/
  ticks : Nat := 0
  world : World
deriving Inhabited

namespace Scheduler

/-- A scheduler without tasklets. The builtins are those of the library unless others are given. -/
def new (vm : Vm) (builtins : Option Namespace) (loader : Option (Names ModuleRef))
    (world : World) : Scheduler :=
  let (sys, heap) := installSys world.heap
  { vm, loader, sys
    builtins := builtins.getD vm.library.builtins
    world := { world with heap } }

/-! ## Adding tasklets -/

/-- A context as the scheduler runs it: with the loader of the scheduler unless it has its own, and
with the module for scheduling. -/
def prepare (s : Scheduler) (c : Context) : Context :=
  let modules :=
    if c.modules.has "sys" then c.modules else c.modules.set "sys" (.moduleObj s.sys)
  { c with modules, loader := c.loader.or s.loader }

/-- Adds a tasklet, which is ready to run. -/
def insertTasklet (s : Scheduler) (id : TaskletId) (c : Context) : Scheduler :=
  let w := s.world
  let tasks := w.tasks ++ [{ id, context := s.prepare c }]
  { s with
    world := { w with
      tasks, pools := { w.pools with unblocked := joinPool w.pools.unblocked id } } }

/-- Adds a tasklet with a context of its own. -/
def scheduleContext (s : Scheduler) (c : Context) : TaskletId × Scheduler :=
  let (id, pools) := s.world.pools.nextId
  (id, { s with world := { s.world with pools } }.insertTasklet id c)

/-- Adds a tasklet that runs a unit with some globals. -/
def schedule (s : Scheduler) (unit : CodeUnit) (globals : Namespace) : TaskletId × Scheduler :=
  s.scheduleContext (Context.start unit s.builtins globals)

/-- The globals that a tasklet inherits from the one that asked for it, as they are now. -/
def inherited (w : World) (spawn : Spawn) : Namespace :=
  match spawn.spawner.bind w.task? with
  | some t => (t.context.root?.map Frame.locals).getD []
  | none => []

/-- Starts a tasklet that guest code has asked for. -/
def startSpawn (s : Scheduler) (spawn : Spawn) : Scheduler :=
  let globals := (inherited s.world spawn).setAll spawn.globals
  s.insertTasklet spawn.id (Context.start spawn.unit s.builtins globals)

/-- Starts the tasklets that guest code has asked for. -/
def startSpawned (s : Scheduler) : Scheduler :=
  let w := s.world
  let s := { s with world := { w with pools := { w.pools with spawned := [] } } }
  w.pools.spawned.foldl startSpawn s

/-! ## Running -/

/-- How a tasklet stands after a run. -/
def verdict (outcome : RunOutcome) (c : Context) : TaskStatus :=
  match outcome with
  | .suspended _ => .running
  | .finished => .completed (c.returned.getD .none)
  | .faulted =>
    match c.unhandled? with
    | some fault => .failed (.unhandled fault)
    | none => .failed (.fatal (.fail "Faulted without a pending fault"))
  | .fatal =>
    match c.fatal with
    | some e => .failed (.fatal e)
    | none => .failed (.fatal (.fail "Failed without a fatal error"))

/-- Records that a task has ended, and calls the callbacks that have waited for this ending, in the
order in which they were registered; those for the other ending are dropped. -/
def finish (w : World) (t : Task) (status : TaskStatus) : World :=
  let w := { w with pools := w.pools.remove t.id }
  let w := w.modifyTask t.id fun t => { t with status }
  let (released, callbacks) := w.callbacks.partition fun r => r.task == t.id
  let w := { w with callbacks }
  match status.news? with
  | none => w
  | some news => (released.filter fun r => r.ending = news.ending).foldl (World.call · news) w

/-- Puts a tasklet back after a run. -/
def putBack (w : World) (t : Task) (outcome : RunOutcome) (context : Context) : World :=
  let w := { w with running := none }
  let w := w.modifyTask t.id fun t => { t with context, continuation := outcome.next }
  match verdict outcome context with
  | .running => w
  | status => finish w t status

/-- Resumes a tasklet once. -/
def resumeTask (s : Scheduler) (steps : Nat) (t : Task) : Option Scheduler :=
  let m : Machine := { context := t.context, world := { s.world with running := some t.id } }
  match s.vm.resume steps t.continuation m with
  | none => none
  | some (outcome, m) => some { s with world := putBack m.world t outcome m.context }

/-- The turn of a tasklet, which may have moved to another pool or ended since the tick began. -/
def turn (steps : Nat) (s : Scheduler) (id : TaskletId) : Option Scheduler :=
  if s.world.pools.state? id = some .active then
    match s.world.unfinished.find? fun t => t.id == id with
    | some t => s.resumeTask steps t
    | none => some s
  else some s

/-- Whether no tasklet is left. -/
def isDone (s : Scheduler) : Bool :=
  s.world.pools.isDone

/-- Moves the tasklets that are to be resumed to the active pool. -/
def gather (p : Pools) : Pools :=
  let batch := (p.unblocked ++ p.yielded).foldl joinPool p.active
  { p with active := batch, unblocked := [], yielded := [] }

/-- Begins a tick: the tasklets that are to be resumed are active from now on. -/
def beginTick (s : Scheduler) : Scheduler :=
  { s with ticks := s.ticks + 1, world := { s.world with pools := gather s.world.pools } }

/-- One tick. Each turn is limited to a number of steps; nothing is given if one takes more. -/
def tick (s : Scheduler) (steps : Nat) : Option Scheduler :=
  let s := s.startSpawned
  if s.isDone then some s
  else
    let s := s.beginTick
    s.world.pools.active.foldlM (turn steps) s

/-- Whether tasklets are left and all of them wait. -/
def isAllBlocked (s : Scheduler) : Bool :=
  s.world.pools.isAllBlocked

/-- Ticks until no tasklet is left or all of them wait. -/
def run (s : Scheduler) (steps : Nat) : (ticks : Nat) → Option Scheduler
  | 0 => none
  | ticks + 1 =>
    if s.isDone || s.isAllBlocked then some s
    else
      match s.tick steps with
      | none => none
      | some s => s.run steps ticks

/-! ## Tasks -/

/-- A tasklet that has started and has not ended. -/
def task? (s : Scheduler) (id : TaskletId) : Option Task :=
  s.world.unfinished.find? fun t => t.id == id

/-- The number of tasklets that have started and have not ended. -/
def taskletCount (s : Scheduler) : Nat :=
  s.world.unfinished.length

/-- Registers a callback. -/
def register (s : Scheduler) (r : Request) : Scheduler :=
  { s with world := s.world.register r }

/-- Has a watcher told when a task ends, or at once if it has ended. -/
def watch (s : Scheduler) (id : TaskletId) (watcher : String) : Scheduler :=
  let request (ending : Ending) : Request := { watcher, task := id, ending, more := fun _ _ => [] }
  (s.register (request .completed)).register (request .failed)

end Scheduler

end TaskletMachine
