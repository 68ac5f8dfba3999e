import TaskletMachine.Proofs.Schedule.Turns

/-!
# What happens to a scheduler

A tick is a sequence of small events: the tasklets that were asked for are started, the tick begins,
and tasklets take their turns. In between, a host schedules contexts, gives signals, changes the
heap and registers callbacks; native functions give signals during a turn.

## Main definitions

* `Scheduler.Event`, `Scheduler.act`: the events.
* `Scheduler.Reachable`: the states of a scheduler.
* `Scheduler.Sees`: the worlds of a scheduler, also those that only native functions see.
-/
namespace TaskletMachine

namespace Scheduler

/-! ## Events -/

/-- What happens to a scheduler. -/
inductive Event where
  /-- A host schedules a context. -/
  | schedule (c : Context)
  /-- A host gives a signal. -/
  | signal (signal : Signal)
  /-- A host makes a promise. -/
  | newPromise
  /-- A host changes objects. -/
  | setHeap (heap : Heap)
  /-- A host registers a callback. -/
  | register (r : Request)
  | startSpawned
  | beginTick
  | turn (steps : Nat) (id : TaskletId)

/-- What an event does. Nothing is given if the tasklet takes more steps in its turn. -/
def act (s : Scheduler) : Event → Option Scheduler
  | .schedule c => some (s.scheduleContext c).2
  | .signal signal => some { s with world := s.world.signal signal }
  | .newPromise => some { s with world := s.world.newPromise.2 }
  | .setHeap heap => some { s with world := { s.world with heap } }
  | .register r => some (s.register r)
  | .startSpawned => some s.startSpawned
  | .beginTick => some s.beginTick
  | .turn steps id => turn steps s id

/-- What a sequence of events does. -/
def acts (s : Scheduler) (events : List Event) : Option Scheduler :=
  events.foldlM act s

/-- Whether a context that is scheduled is fit for that. -/
def Event.Fits (fit : Context → Prop) : Event → Prop
  | schedule c => fit c
  | _ => True

/-- Whether an event belongs to a tick. -/
def Event.InTick : Event → Prop
  | startSpawned => True
  | beginTick => True
  | turn _ _ => True
  | _ => False

theorem Event.InTick.fits {e : Event} (h : e.InTick) (fit : Context → Prop) : e.Fits fit := by
  cases e with
  | schedule c => exact h.elim
  | _ => trivial

section Runs

variable {s s' : Scheduler} {steps : Nat}

theorem acts_append (events events' : List Event) :
    s.acts (events ++ events') = (s.acts events).bind fun s => s.acts events' := by
  simp [acts, List.foldlM_append]

theorem acts_turns (ids : List TaskletId) :
    ids.foldlM (turn steps) s = s.acts (ids.map (Event.turn steps)) := by
  simp [acts, List.foldlM_map, act]

/-- A tick is a sequence of events. -/
theorem tick_acts (h : s.tick steps = some s') :
    ∃ events, (∀ e ∈ events, e.InTick) ∧ s.acts events = some s' := by
  unfold tick at h
  dsimp only at h
  split at h
  · cases h
    exact ⟨[.startSpawned], by simp [Event.InTick], rfl⟩
  · rw [acts_turns] at h
    refine ⟨.startSpawned :: .beginTick :: _, ?_, h⟩
    simp [Event.InTick]

/-- So is a run. -/
theorem run_acts {ticks : Nat} (h : s.run steps ticks = some s') :
    ∃ events, (∀ e ∈ events, e.InTick) ∧ s.acts events = some s' := by
  induction ticks generalizing s with
  | zero => cases h
  | succ ticks ih =>
    unfold run at h
    split at h
    · cases h
      exact ⟨[], by simp, rfl⟩
    · split at h
      · cases h
      · next s₁ htick =>
        obtain ⟨events, hevents, hacts⟩ := tick_acts htick
        obtain ⟨events', hevents', hacts'⟩ := ih h
        refine ⟨events ++ events', List.forall_mem_append.2 ⟨hevents, hevents'⟩, ?_⟩
        rw [acts_append, hacts]
        exact hacts'

end Runs

/-! ## States -/

/-- The states of a scheduler, if the contexts that a host schedules are fit for that. -/
inductive Reachable (fit : Context → Prop) : Scheduler → Prop
  | new (vm : Vm) (builtins : Option Namespace) (loader : Option (Names ModuleRef)) (heap : Heap) :
      Reachable fit (.new vm builtins loader { heap := heap })
  | act {s s' : Scheduler} {e : Event} (h : Reachable fit s) (hfits : e.Fits fit)
      (hact : s.act e = some s') : Reachable fit s'
  | tick {s s' : Scheduler} {steps : Nat} (h : Reachable fit s)
      (htick : s.tick steps = some s') : Reachable fit s'
  | run {s s' : Scheduler} {steps ticks : Nat} (h : Reachable fit s)
      (hrun : s.run steps ticks = some s') : Reachable fit s'

/-- What holds of a new scheduler and is kept by every event holds of every state. -/
theorem Reachable.invariant {fit : Context → Prop} {P : Scheduler → Prop}
    (hnew : ∀ vm builtins loader heap, P (Scheduler.new vm builtins loader { heap := heap }))
    (hact : ∀ s e s', Reachable fit s → P s → e.Fits fit → s.act e = some s' → P s')
    {s : Scheduler} (h : Reachable fit s) : P s := by
  have hacts {s s' : Scheduler} {events : List Event} (hs : Reachable fit s) (hp : P s)
      (hfits : ∀ e ∈ events, e.Fits fit) (h : s.acts events = some s') : P s' := by
    induction events generalizing s with
    | nil =>
      cases h
      exact hp
    | cons e events ih =>
      obtain ⟨s₁, hfirst, hrest⟩ := Option.bind_eq_some_iff.1 h
      have hfit := hfits e List.mem_cons_self
      exact ih (hs.act hfit hfirst) (hact s e s₁ hs hp hfit hfirst)
        (fun e he => hfits e (List.mem_cons_of_mem _ he)) hrest
  induction h with
  | new vm builtins loader heap => exact hnew vm builtins loader heap
  | act h hfits hfirst ih => exact hact _ _ _ h ih hfits hfirst
  | tick h htick ih =>
    obtain ⟨events, hevents, htick⟩ := tick_acts htick
    exact hacts h ih (fun e he => (hevents e he).fits fit) htick
  | run h hrun ih =>
    obtain ⟨events, hevents, hrun⟩ := run_acts hrun
    exact hacts h ih (fun e he => (hevents e he).fits fit) hrun

/-! ## Tasks -/

section Tasks

variable {fit : Context → Prop} {P : Context → Continuation → Prop} {s s' : Scheduler}

theorem forall_startSpawned (hnew : ∀ (s : Scheduler) c, fit c → P (s.prepare c) .start)
    (hstart : ∀ unit builtins globals, fit (Context.start unit builtins globals))
    (hs : ∀ t ∈ s.world.tasks, P t.context t.continuation) (spawns : List Spawn) :
    ∀ t ∈ (spawns.foldl startSpawn s).world.tasks, P t.context t.continuation := by
  induction spawns generalizing s with
  | nil => exact hs
  | cons spawn spawns ih =>
    refine ih ?_
    intro t ht
    rcases List.mem_append.1 ht with ht | ht
    · exact hs t ht
    · rw [List.mem_singleton.1 ht]
      exact hnew s _ (hstart _ _ _)

/-- Registering a callback changes nothing but callbacks and their calls. -/
theorem informs_register (s : Scheduler) (r : Request) : s.world.Informs (s.register r).world :=
  (World.Records.register s.world r).informs

/-- What holds of a tasklet that has not started, and is kept by its turns, holds of all. -/
theorem forall_act (hnew : ∀ (s : Scheduler) c, fit c → P (s.prepare c) .start)
    (hstart : ∀ unit builtins globals, fit (Context.start unit builtins globals))
    (hplain : ∀ t ∈ s.world.tasks, t.continuation.Plain)
    (hrun : ∀ steps t o m, s.Runs steps t o m → P t.context t.continuation →
      P m.context o.next)
    (hs : ∀ t ∈ s.world.tasks, P t.context t.continuation) {e : Event} (hfits : e.Fits fit)
    (hact : s.act e = some s') : ∀ t ∈ s'.world.tasks, P t.context t.continuation := by
  cases e with
  | schedule c =>
    cases hact
    intro t ht
    rcases List.mem_append.1 ht with ht | ht
    · exact hs t ht
    · rw [List.mem_singleton.1 ht]
      exact hnew _ c hfits
  | signal signal =>
    cases hact
    rw [(World.Change.signal s.world signal).keeps.1]
    exact hs
  | newPromise =>
    cases hact
    exact hs
  | setHeap heap =>
    cases hact
    exact hs
  | register r =>
    cases hact
    obtain ⟨_, _, hworld⟩ := s.informs_register r
    rw [hworld]
    exact hs
  | startSpawned =>
    cases hact
    let w := { s.world with pools := { s.world.pools with spawned := [] } }
    exact forall_startSpawned (s := { s with world := w }) hnew hstart hs _
  | beginTick =>
    cases hact
    exact hs
  | turn steps id =>
    rcases turn_cases hact with ⟨rfl, _⟩ | ⟨t, o, m, rfl, hruns, rfl⟩
    · exact hs
    · have ht := hruns.mem_tasks
      intro u hu
      rw [putBack_tasks, hruns.tasks_eq (hplain t ht)] at hu
      obtain ⟨u, hmem, rfl⟩ := List.mem_map.1 hu
      by_cases hid : u.id = t.id
      · rw [if_pos hid, after_context, after_continuation]
        exact hrun steps t o m hruns (hs t ht)
      · rw [if_neg hid]
        exact hs u hmem

/-- The result of a promise that a tasklet waits for is kept within its frame. -/
theorem plain_act (hs : ∀ t ∈ s.world.tasks, t.continuation.Plain) {e : Event}
    (hact : s.act e = some s') : ∀ t ∈ s'.world.tasks, t.continuation.Plain := by
  have hrun : ∀ steps t o m, s.Runs steps t o m → t.continuation.Plain → o.next.Plain :=
    fun steps t o m hruns hk => (hruns.leads hk).plain
  have hfits : e.Fits fun _ => True := by cases e <;> trivial
  exact forall_act (P := fun _ k => k.Plain) (fun _ _ _ => trivial) (fun _ _ _ => trivial) hs
    hrun hs hfits hact

theorem Reachable.plain (h : Reachable fit s) : ∀ t ∈ s.world.tasks, t.continuation.Plain := by
  refine h.invariant (P := fun s => ∀ t ∈ s.world.tasks, t.continuation.Plain) ?_ ?_
  · intro vm builtins loader heap t ht
    cases ht
  · intro s e s' _ hs _ hact
    exact plain_act hs hact

end Tasks

/-! ## Worlds in between -/

/-- The worlds of a scheduler: its own, and those that native functions see and leave behind while
a tasklet has its turn. -/
inductive Sees (s : Scheduler) : World → Prop
  | own : Sees s s.world
  | turn (t : Task) (hactive : t.id ∈ s.world.pools.active) (ht : t ∈ s.world.unfinished)
      {phase : Phase} {m : Machine}
      (hm : s.vm.Visits t.continuation (s.machine t) (.running phase m)) {w : World}
      (hw : m.world.Evolves w) : Sees s w

end Scheduler

end TaskletMachine
