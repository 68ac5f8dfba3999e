import TaskletMachine.Proofs.Machine.Pending
import TaskletMachine.Proofs.Schedule.Waiting

/-!
# No wake-up is lost

A tasklet that waits for a promise stands still until the promise is settled, whatever wakes it
before. It is unblocked when the promise is settled, its next turn begins with the result, and it
does not get the result again.

## Main definitions

* `Context.Usable`: contexts that can be scheduled.
* `World.Stands`: where a tasklet stands.
* `Vm.Receives`, `Scheduler.HandsOver`: a turn that begins with the result of a promise.
* `Scheduler.WaitsTill`, `Scheduler.Delivers`: the part of a run in which a tasklet waits for a
  promise, and the event that ends it.
* `Scheduler.Reachable.wakeups`: blocked tasklets are registered, settling a promise unblocks those
  that wait for it, and each of them gets the result once.
-/
namespace TaskletMachine

open Exec

/-! ## Contexts -/

/-- A context that can be scheduled: it has a sound call stack, and unless it has ended no fault is
on its way. -/
def Context.Usable (c : Context) : Prop :=
  ∃ limit, c.Between limit .start

theorem Context.usable_start (unit : CodeUnit) (builtins globals : Namespace) :
    (Context.start unit builtins globals).Usable :=
  ⟨0, .inl ⟨going_start 0 unit builtins globals, trivial⟩⟩

namespace Scheduler

/-- A context with which a tasklet can go on from a continuation. One that waits for a promise has
not ended. -/
structure Ready (c : Context) (k : Continuation) : Prop where
  between : ∃ limit, c.Between limit k
  going : ∀ p d, k = .await p d → c.fatal = none ∧ c.isUnhandled = false

variable {s s' : Scheduler}

theorem ready_prepare (s : Scheduler) {c : Context} (h : c.Usable) : Ready (s.prepare c) .start := by
  obtain ⟨limit, h⟩ := h
  have hquiet : c.Quiet (s.prepare c) := ⟨rfl, rfl, rfl, rfl⟩
  exact ⟨⟨limit, hquiet.between h⟩, nofun⟩

theorem Runs.ready {steps : Nat} {t : Task} {o : RunOutcome} {m : Machine}
    (h : s.Runs steps t o m) (ht : Ready t.context t.continuation) : Ready m.context o.next := by
  obtain ⟨limit, hbetween⟩ := ht.between
  have hlawful := Vm.lawful_resume (Nat.le_max_right limit s.vm.maxCallDepth)
    (hbetween.mono (Nat.le_max_left limit s.vm.maxCallDepth)) h.ends
  refine ⟨⟨_, hlawful.between⟩, fun p d hk => ?_⟩
  cases o with
  | suspended k =>
    obtain ⟨hgoing, _⟩ := hlawful
    exact ⟨hgoing.fatal, by simp [Context.isUnhandled, hgoing.fault]⟩
  | finished => cases hk
  | faulted => cases hk
  | fatal => cases hk

theorem Reachable.ready (h : Reachable Context.Usable s) :
    ∀ t ∈ s.world.tasks, Ready t.context t.continuation := by
  refine h.invariant (P := fun s => ∀ t ∈ s.world.tasks, Ready t.context t.continuation) ?_ ?_
  · intro vm builtins loader heap t ht
    cases ht
  · intro s e s' hs hp hfits hact
    exact forall_act (fun s c hc => s.ready_prepare hc) Context.usable_start hs.plain
      (fun steps t o m hruns ht => hruns.ready ht) hp hfits hact

end Scheduler

/-! ## What tasklets wait for -/

/-- The promise that a continuation waits for. -/
def Continuation.promise? : Continuation → Option PromiseId
  | await p _ => some p
  | _ => none

/-- The promise that a tasklet waits for, as the table of tasks says. -/
def World.awaits (w : World) (id : TaskletId) : Option PromiseId :=
  (w.task? id).bind fun t => t.continuation.promise?

namespace World

variable {w w' : World}

theorem awaits_of_tasks (h : w'.tasks = w.tasks) : w'.awaits = w.awaits := by
  funext id
  simp only [awaits, task?, h]

theorem Partitioned.awaits_eq (h : w.Partitioned) {t : Task} (ht : t ∈ w.tasks) :
    w.awaits t.id = t.continuation.promise? := by
  rw [awaits, h.task?_eq ht, Option.bind_some]

/-- A task that has not started waits for nothing. -/
theorem awaits_newTask (w : World) (id : TaskletId) (c : Context) :
    ({ w with tasks := w.tasks ++ [{ id, context := c }] } : World).awaits = w.awaits := by
  funext a
  simp only [awaits, task?, List.find?_append]
  cases hfind : w.tasks.find? fun t => t.id == a with
  | some t => rfl
  | none =>
    by_cases ha : id = a <;> simp [ha, Continuation.promise?]

theorem awaits_putBack {t : Task} (ht : t ∈ w.tasks) (o : RunOutcome) (c : Context) :
    (Scheduler.putBack w t o c).awaits = Function.update w.awaits t.id o.next.promise? := by
  funext a
  simp only [awaits, task?, Scheduler.putBack_tasks, List.find?_map, Function.comp_def,
    Scheduler.id_ite_after]
  cases hfind : w.tasks.find? fun u => u.id == a with
  | none =>
    have hne : a ≠ t.id := by
      rintro rfl
      simpa using List.find?_eq_none.1 hfind t ht
    simp [Function.update_of_ne hne, awaits, task?, hfind]
  | some u =>
    have hu : u.id = a := by simpa using List.find?_some hfind
    by_cases ha : a = t.id
    · simp [ha, hu, Scheduler.after_continuation]
    · simp [awaits, task?, hfind, hu, ha]

end World

namespace Vm

variable {vm : Vm} {m m' : Machine} {p : PromiseId} {d : Delivery} {steps : Nat} {o : RunOutcome}

theorem resumption_pending (hp : (m.world.promise p).settled = none) :
    vm.resumption (.await p d) m = .stopped (.suspended (.await p d))
      { m with world := m.world.wait p (m.world.running.getD 0) } := by
  simp only [resumption, hp]

/-- A tasklet that is woken before the promise is settled goes back to wait for it. -/
theorem resume_pending (hfatal : m.context.fatal = none) (hunhandled : m.context.isUnhandled = false)
    (hp : (m.world.promise p).settled = none) (h : vm.resume steps (.await p d) m = some (o, m')) :
    o = .suspended (.await p d) ∧
      m' = { m with world := m.world.wait p (m.world.running.getD 0) } := by
  rw [resume, hfatal, hunhandled, resumption_pending hp] at h
  cases steps <;> cases h <;> exact ⟨rfl, rfl⟩

/-- It does not run before that. -/
theorem Visits.eq_stopped {k : Continuation} {pr : Progress} (h : vm.Visits k m pr)
    (hstops : vm.resumption k m = .stopped o m') : pr = .stopped o m' := by
  induction h with
  | begin hfatal hunhandled => exact hstops
  | step _ ih => cases ih

/-- Otherwise the result comes first. -/
theorem resume_settled (hfatal : m.context.fatal = none) (hunhandled : m.context.isUnhandled = false)
    {r : Settlement} (hp : (m.world.promise p).settled = some r)
    (h : vm.resume steps (.await p d) m = some (o, m')) :
    vm.runFor steps (vm.conclude (.running .fetch) (handOver r d) m) = some (o, m') := by
  have hruns : vm.resumption (.await p d) m = vm.conclude (.running .fetch) (handOver r d) m := by
    simp only [resumption, hp]
  rwa [resume, hfatal, hunhandled, hruns] at h

/-- Where a run goes on with the result of a promise. -/
inductive Receives (vm : Vm) (d : Delivery) (m : Machine) : Settlement → Progress → Prop
  /-- The value is delivered as the call asks, and the next instruction follows. -/
  | delivers {r : Settlement} (v : Value) (m₁ : Machine) (hv : r.value? = some v)
      (h : deliver v d m = .ok () m₁) : Receives vm d m r (.running .fetch m₁)
  /-- The value cannot be delivered, or is to be raised. -/
  | raises {r : Settlement} (v : Value) (e : Error) (m₁ : Machine) (hv : r.value? = some v)
      (h : deliver v d m = .error e m₁) :
      Receives vm d m r
        (proceed (.running .fetch) (if e.isGuest then vm.raiseError e m₁ else .error e m₁))
  /-- The error of a rejection is raised where the tasklet has waited, or ends the tasklet. -/
  | rejects (e : Error) :
      Receives vm d m (.rejected e)
        (proceed (.running .fetch) (if e.isGuest then vm.raiseError e m else .error e m))

theorem receives_conclude (vm : Vm) (d : Delivery) (r : Settlement) (m : Machine) :
    vm.Receives d m r (vm.conclude (.running .fetch) (handOver r d) m) := by
  have hvalue {v : Value} (hv : r.value? = some v) (hr : deliverSettled r d = deliver v d) :
      vm.Receives d m r (vm.conclude (.running .fetch) (handOver r d) m) := by
    have hrun : handOver r d = do deliver v d; return .next := by rw [handOver, hr]
    rw [conclude, catching, hrun]
    cases hdeliver : deliver v d m with
    | ok u m₁ =>
      rw [bind_ok hdeliver]
      exact .delivers v m₁ hv hdeliver
    | error e m₁ =>
      rw [bind_error hdeliver]
      exact .raises v e m₁ hv hdeliver
  cases r with
  | value v => exact hvalue rfl rfl
  | noValue => exact hvalue rfl rfl
  | rejected e => exact .rejects e

end Vm

namespace Scheduler

variable {s s' : Scheduler} {steps : Nat} {t : Task} {o : RunOutcome} {m : Machine}

/-- A turn that goes on leaves the tasklet as its outcome says, and the others as they were. -/
theorem wakes_of_leads {w : World} {awaits : TaskletId → Option PromiseId} {id : TaskletId}
    (h : w.Wakes awaits) (hpart : w.Partitioned) (hrunning : w.running = some id)
    (hnone : awaits id = none) (hleads : w.Leads (.stopped o m)) :
    m.world.Wakes (Function.update awaits id o.next.promise?) := by
  have hsame : Function.update awaits id none = awaits := by
    rw [← hnone, Function.update_eq_self]
  have hid {w₁ : World} (hw₁ : w.Evolves w₁) : w₁.running.getD 0 = id := by
    rw [hw₁.keeps.2, hrunning, Option.getD_some]
  match o, hleads with
  | .suspended .start, hleads => exact hleads.elim
  | .suspended .resume, ⟨w₁, hw₁, hm⟩ =>
    simp only [RunOutcome.next, Continuation.promise?, hsame]
    rcases hm with hm | hm
    · exact hm ▸ h.evolves hpart hw₁
    · exact hm ▸ (h.evolves hpart hw₁).park _
  | .suspended (.await p d), ⟨_, w₁, hw₁, hp, hm⟩ =>
    rw [hm, hid hw₁]
    refine (h.evolves hpart hw₁).wait hp ?_
    intro q hq
    simp [hnone] at hq
  | .finished, hleads | .faulted, hleads | .fatal, hleads =>
    simp only [RunOutcome.next, Continuation.promise?, hsame]
    exact h.evolves hpart hleads

theorem Runs.wakes (h : s.Runs steps t o m) (hpart : s.world.Partitioned)
    (hwakes : s.world.Wakes s.world.awaits) (hk : t.continuation.Plain)
    (hready : Ready t.context t.continuation) :
    (putBack m.world t o m.context).Wakes (putBack m.world t o m.context).awaits := by
  have htasks := h.tasks_eq hk
  have hmem : t ∈ m.world.tasks := htasks ▸ h.mem_tasks
  rw [World.awaits_putBack hmem, World.awaits_of_tasks htasks]
  refine World.Wakes.putBack ?_ t o m.context
  have hawaits : s.world.awaits t.id = t.continuation.promise? := hpart.awaits_eq h.mem_tasks
  have hmachine : (s.machine t).world.Wakes s.world.awaits :=
    hwakes.of_same (fun _ hid => hid) fun _ => rfl
  by_cases hpending : ∃ p, s.world.awaits t.id = some p ∧ (s.world.promise p).settled = none
  · obtain ⟨p, hp, hsettled⟩ := hpending
    rw [hawaits] at hp
    cases hcontinuation : t.continuation with
    | start => simp [hcontinuation, Continuation.promise?] at hp
    | resume => simp [hcontinuation, Continuation.promise?] at hp
    | await q d =>
      rw [hcontinuation, Continuation.promise?, Option.some.injEq] at hp
      subst hp
      obtain ⟨hfatal, hunhandled⟩ := hready.going q d hcontinuation
      have hends := h.ends
      rw [hcontinuation] at hends
      obtain ⟨rfl, rfl⟩ := Vm.resume_pending hfatal hunhandled hsettled hends
      refine hmachine.wait hsettled ?_
      intro q' hq'
      have hq : s.world.awaits t.id = some q' := hq'
      rw [hawaits, hcontinuation] at hq
      exact (Option.some.inj hq).symm
  · have hreleased : (s.machine t).world.Wakes (Function.update s.world.awaits t.id none) :=
      hmachine.release fun p hp hsettled => hpending ⟨p, hp, hsettled⟩
    have hmachinePart : (s.machine t).world.Partitioned :=
      ⟨hpart.pooled, hpart.given, hpart.le_lastId⟩
    have hwakes := wakes_of_leads hreleased hmachinePart rfl (Function.update_self ..) (h.leads hk)
    rwa [Function.update_idem] at hwakes

/-! ## What events leave as it is -/

theorem foldl_startSpawn_keeps (spawns : List Spawn) (s : Scheduler) :
    (spawns.foldl startSpawn s).world.awaits = s.world.awaits ∧
    (spawns.foldl startSpawn s).world.promises = s.world.promises ∧
    (spawns.foldl startSpawn s).world.pools.blocked = s.world.pools.blocked := by
  induction spawns generalizing s with
  | nil => exact ⟨rfl, rfl, rfl⟩
  | cons spawn spawns ih =>
    obtain ⟨hawaits, hpromises, hblocked⟩ := ih (s.startSpawn spawn)
    exact ⟨hawaits.trans (World.awaits_newTask s.world spawn.id _), hpromises, hblocked⟩

theorem startSpawned_keeps (s : Scheduler) :
    s.startSpawned.world.awaits = s.world.awaits ∧
    s.startSpawned.world.promises = s.world.promises ∧
    s.startSpawned.world.pools.blocked = s.world.pools.blocked :=
  foldl_startSpawn_keeps s.world.pools.spawned { s with world := s.world.queue [] }

/-- Only its turns change what a tasklet waits for. -/
theorem awaits_act (hplain : ∀ t ∈ s.world.tasks, t.continuation.Plain) {e : Event}
    (hact : s.act e = some s') :
    s'.world.awaits = s.world.awaits ∨
    ∃ steps t o m, e = .turn steps t.id ∧ s.Runs steps t o m ∧
      s' = { s with world := putBack m.world t o m.context } ∧
      s'.world.awaits = Function.update s.world.awaits t.id o.next.promise? := by
  cases e with
  | schedule c =>
    cases hact
    exact .inl (World.awaits_newTask s.world _ _)
  | signal signal =>
    cases hact
    exact .inl (World.awaits_of_tasks (World.Change.signal s.world signal).keeps.1)
  | newPromise =>
    cases hact
    exact .inl rfl
  | setHeap heap =>
    cases hact
    exact .inl rfl
  | register r =>
    cases hact
    obtain ⟨_, _, hworld⟩ := s.informs_register r
    exact .inl (World.awaits_of_tasks (by rw [hworld]))
  | startSpawned =>
    cases hact
    exact .inl s.startSpawned_keeps.1
  | beginTick =>
    cases hact
    exact .inl rfl
  | turn steps id =>
    rcases turn_cases hact with ⟨rfl, _⟩ | ⟨t, o, m, rfl, hruns, rfl⟩
    · exact .inl rfl
    · refine .inr ⟨steps, t, o, m, rfl, hruns, rfl, ?_⟩
      have htasks := hruns.tasks_eq (hplain t hruns.mem_tasks)
      have hmem : t ∈ m.world.tasks := htasks ▸ hruns.mem_tasks
      rw [World.awaits_putBack hmem, World.awaits_of_tasks htasks]

/-- A settled promise stays as it is. -/
theorem settles_act (hplain : ∀ t ∈ s.world.tasks, t.continuation.Plain) {e : Event}
    (hact : s.act e = some s') : s.world.Settles s'.world := by
  cases e with
  | schedule c =>
    cases hact
    exact .of_promises rfl
  | signal signal =>
    cases hact
    exact .change (.signal s.world signal)
  | newPromise =>
    cases hact
    intro p r hp
    rwa [World.promise_newPromise]
  | setHeap heap =>
    cases hact
    exact .of_promises rfl
  | register r =>
    cases hact
    obtain ⟨_, _, hworld⟩ := s.informs_register r
    exact .of_promises (by rw [hworld])
  | startSpawned =>
    cases hact
    exact .of_promises s.startSpawned_keeps.2.1
  | beginTick =>
    cases hact
    exact .of_promises rfl
  | turn steps id =>
    rcases turn_cases hact with ⟨rfl, _⟩ | ⟨t, o, m, rfl, hruns, rfl⟩
    · exact .of_promises rfl
    · have hleads := World.Settles.leads (hruns.leads (hplain t hruns.mem_tasks))
      exact hleads.trans (.of_promises (putBack_promises m.world t o m.context))

/-- Every event keeps the invariant. -/
theorem wakes_act (hpart : s.world.Partitioned) (h : s.world.Wakes s.world.awaits)
    (hplain : ∀ t ∈ s.world.tasks, t.continuation.Plain)
    (hready : ∀ t ∈ s.world.tasks, Ready t.context t.continuation) {e : Event}
    (hact : s.act e = some s') : s'.world.Wakes s'.world.awaits := by
  rcases awaits_act hplain hact with hawaits | ⟨steps, t, o, m, rfl, hruns, rfl, _⟩
  · rw [hawaits]
    cases e with
    | schedule c =>
      cases hact
      exact h.of_same (fun _ hid => hid) fun _ => rfl
    | signal signal =>
      cases hact
      exact h.evolves hpart (.single (.signal s.world signal))
    | newPromise =>
      cases hact
      exact h.of_same (fun _ hid => hid) (World.promise_newPromise s.world)
    | setHeap heap =>
      cases hact
      exact h.of_same (fun _ hid => hid) fun _ => rfl
    | register r =>
      cases hact
      obtain ⟨_, _, hworld⟩ := s.informs_register r
      rw [hworld]
      exact h.of_same (fun _ hid => hid) fun _ => rfl
    | startSpawned =>
      cases hact
      obtain ⟨_, hpromises, hblocked⟩ := s.startSpawned_keeps
      refine h.of_same (fun _ hid => hblocked ▸ hid) ?_
      intro p
      rw [World.promise, hpromises, World.promise]
    | beginTick =>
      cases hact
      have hblocked : s.beginTick.world.pools.blocked = s.world.pools.blocked := by
        simp only [beginTick, Pools.gather_eq hpart.nodup]
      exact h.of_same (fun _ hid => hblocked ▸ hid) fun _ => rfl
    | turn steps id =>
      rcases turn_cases hact with ⟨rfl, _⟩ | ⟨t, o, m, rfl, hruns, rfl⟩
      · exact h
      · rw [← hawaits]
        exact hruns.wakes hpart h (hplain t hruns.mem_tasks) (hready t hruns.mem_tasks)
  · exact hruns.wakes hpart h (hplain t hruns.mem_tasks) (hready t hruns.mem_tasks)

theorem Reachable.wakes (h : Reachable Context.Usable s) : s.world.Wakes s.world.awaits := by
  refine h.invariant (P := fun s => s.world.Wakes s.world.awaits) ?_ ?_
  · intro vm builtins loader heap
    exact ⟨fun id hid => absurd hid List.not_mem_nil, fun p _ id hid => absurd hid List.not_mem_nil⟩
  · intro s e s' hs hp _ hact
    exact wakes_act hs.partitioned hp hs.plain hs.ready hact

end Scheduler

/-! ## Standing still -/

/-- A tasklet that has not ended stands in a context and goes on from a continuation. -/
def World.Stands (w : World) (id : TaskletId) (c : Context) (k : Continuation) : Prop :=
  ∃ t ∈ w.unfinished, t.id = id ∧ t.context = c ∧ t.continuation = k

namespace World

variable {w w' : World} {id : TaskletId} {c : Context} {k : Continuation}

/-- A tasklet stands where it stood if its entry in the table of tasks is the same. -/
theorem Stands.of_tasks (h : w.Stands id c k) (hf : ∀ t ∈ w.tasks, t.id = id → t ∈ w'.tasks) :
    w'.Stands id c k := by
  obtain ⟨t, ht, rfl, rfl, rfl⟩ := h
  obtain ⟨ht, hstatus⟩ := List.mem_filter.1 ht
  exact ⟨t, List.mem_filter.2 ⟨hf t ht rfl, hstatus⟩, rfl, rfl, rfl⟩

theorem Partitioned.awaits_of_stands (h : w.Partitioned) (hs : w.Stands id c k) :
    w.awaits id = k.promise? := by
  obtain ⟨t, ht, rfl, _, rfl⟩ := hs
  exact h.awaits_eq (List.mem_filter.1 ht).1

/-- A tasklet in a pool that waits for a promise stands there. -/
theorem Partitioned.stands (h : w.Partitioned) (hid : id ∈ w.pools.pooled) {p : PromiseId}
    (hp : w.awaits id = some p) : ∃ c d, w.Stands id c (.await p d) := by
  obtain ⟨t, ht, rfl⟩ := h.mem_pooled.1 hid
  rw [h.awaits_eq (List.mem_filter.1 ht).1] at hp
  cases hk : t.continuation with
  | start => simp [hk, Continuation.promise?] at hp
  | resume => simp [hk, Continuation.promise?] at hp
  | await q d =>
    rw [hk, Continuation.promise?, Option.some.injEq] at hp
    exact ⟨t.context, d, t, ht, rfl, rfl, hp ▸ hk⟩

end World

namespace Scheduler

variable {s s' : Scheduler} {steps : Nat} {id : TaskletId} {c : Context} {k : Continuation}
  {p : PromiseId} {d : Delivery}

theorem mem_tasks_foldl_startSpawn {t : Task} (ht : t ∈ s.world.tasks) (spawns : List Spawn) :
    t ∈ (spawns.foldl startSpawn s).world.tasks := by
  induction spawns generalizing s with
  | nil => exact ht
  | cons spawn spawns ih => exact ih (List.mem_append_left _ ht)

/-- The entry of a tasklet in the table of tasks stays as it is until the tasklet has its turn. -/
theorem mem_tasks_act {t : Task} (ht : t ∈ s.world.tasks)
    (hplain : ∀ t ∈ s.world.tasks, t.continuation.Plain) {e : Event}
    (hother : ∀ steps, e = .turn steps t.id → t.id ∉ s.world.pools.active)
    (hact : s.act e = some s') : t ∈ s'.world.tasks := by
  cases e with
  | schedule c =>
    cases hact
    exact List.mem_append_left _ ht
  | signal signal =>
    cases hact
    rwa [(World.Change.signal s.world signal).keeps.1]
  | newPromise =>
    cases hact
    exact ht
  | setHeap heap =>
    cases hact
    exact ht
  | register r =>
    cases hact
    obtain ⟨_, _, hworld⟩ := s.informs_register r
    rwa [hworld]
  | startSpawned =>
    cases hact
    let s₁ : Scheduler := { s with world := s.world.queue [] }
    exact mem_tasks_foldl_startSpawn (s := s₁) ht s.world.pools.spawned
  | beginTick =>
    cases hact
    exact ht
  | turn steps id' =>
    rcases turn_cases hact with ⟨rfl, _⟩ | ⟨u, o, m, rfl, hruns, rfl⟩
    · exact ht
    · have hne : t.id ≠ u.id := by
        intro hid
        exact hother steps (hid ▸ rfl) (hid ▸ hruns.active)
      rw [putBack_tasks, hruns.tasks_eq (hplain u hruns.mem_tasks)]
      exact List.mem_map.2 ⟨t, ht, if_neg hne⟩

/-- A tasklet stands still until it has its turn. -/
theorem stands_act (h : s.world.Stands id c k)
    (hplain : ∀ t ∈ s.world.tasks, t.continuation.Plain) {e : Event}
    (hother : ∀ steps, e = .turn steps id → id ∉ s.world.pools.active)
    (hact : s.act e = some s') : s'.world.Stands id c k :=
  h.of_tasks fun _ ht hid => mem_tasks_act ht hplain (hid ▸ hother) hact

/-- The turn of an active tasklet runs it from where it stands. -/
theorem runs_of_stands (hpart : s.world.Partitioned) (h : s.world.Stands id c k)
    (hactive : id ∈ s.world.pools.active) (hturn : turn steps s id = some s') :
    ∃ t o m, t.id = id ∧ t.context = c ∧ t.continuation = k ∧ s.Runs steps t o m ∧
      s' = { s with world := putBack m.world t o m.context } := by
  obtain ⟨u, hu, rfl, rfl, rfl⟩ := h
  rcases turn_cases hturn with ⟨_, hgone | hgone⟩ | ⟨t, o, m, hid, hruns, hs'⟩
  · exact absurd hactive hgone
  · exact absurd rfl (hgone u hu)
  · have hnodup : (s.world.tasks.map Task.id).Nodup := (List.nodup_append.1 hpart.given).1
    have heq : t = u :=
      List.inj_on_of_nodup_map hnodup hruns.mem_tasks (List.mem_filter.1 hu).1 hid
    subst heq
    exact ⟨t, o, m, rfl, rfl, rfl, hruns, hs'⟩

/-- A tasklet that has its turn before the promise is settled goes back to wait for it. -/
theorem stands_of_pending (hr : Reachable Context.Usable s) (h : s.world.Stands id c (.await p d))
    (hactive : id ∈ s.world.pools.active) (hp : (s.world.promise p).settled = none)
    (hturn : turn steps s id = some s') :
    s'.world.Stands id c (.await p d) ∧ id ∈ s'.world.pools.blocked := by
  obtain ⟨t, o, m, rfl, rfl, hk, hruns, rfl⟩ := runs_of_stands hr.partitioned h hactive hturn
  obtain ⟨hfatal, hunhandled⟩ := (hr.ready t hruns.mem_tasks).going p d hk
  have hends := hruns.ends
  rw [hk] at hends
  obtain ⟨rfl, rfl⟩ := Vm.resume_pending hfatal hunhandled hp hends
  obtain ⟨hmem, hstatus⟩ := List.mem_filter.1 hruns.task
  constructor
  · refine ⟨after (.suspended (.await p d)) t.context t, List.mem_filter.2 ⟨?_, hstatus⟩, rfl, rfl,
      rfl⟩
    rw [putBack_tasks]
    exact List.mem_map.2 ⟨t, hmem, if_pos rfl⟩
  · rw [putBack_pools]
    show t.id ∈ joinPool (s.world.pools.blocked.erase t.id) t.id
    simp only [joinPool]
    split
    · next hjoined => simpa using hjoined
    · simp

/-- A turn that begins by handing over the result of a promise. -/
def HandsOver (s s' : Scheduler) (steps : Nat) (id : TaskletId) (c : Context) (d : Delivery)
    (r : Settlement) : Prop :=
  ∃ t o m, t ∈ s.world.unfinished ∧ t.id = id ∧ t.context = c ∧
    s.vm.runFor steps (s.vm.conclude (.running .fetch) (Vm.handOver r d) (s.machine t)) =
      some (o, m) ∧
    s' = { s with world := putBack m.world t o m.context }

/-- A turn that goes on with the value of a promise where its call wants it, or with the exception
with which the promise was rejected. -/
def Receives (s s' : Scheduler) (steps : Nat) (id : TaskletId) (c : Context) (d : Delivery)
    (r : Settlement) : Prop :=
  ∃ t p o m, t ∈ s.world.unfinished ∧ t.id = id ∧ t.context = c ∧
    s.vm.Receives d (s.machine t) r p ∧ s.vm.runFor steps p = some (o, m) ∧
    s' = { s with world := putBack m.world t o m.context }

theorem HandsOver.receives {r : Settlement} (h : s.HandsOver s' steps id c d r) :
    s.Receives s' steps id c d r := by
  obtain ⟨t, o, m, ht, hid, hcontext, hrun, hs'⟩ := h
  exact ⟨t, _, o, m, ht, hid, hcontext, s.vm.receives_conclude d r (s.machine t), hrun, hs'⟩

/-- A tasklet that has its turn after the promise is settled gets the result. -/
theorem handsOver_of_settled (hr : Reachable Context.Usable s)
    (h : s.world.Stands id c (.await p d)) (hactive : id ∈ s.world.pools.active) {r : Settlement}
    (hp : (s.world.promise p).settled = some r) (hturn : turn steps s id = some s') :
    s.HandsOver s' steps id c d r := by
  obtain ⟨t, o, m, rfl, rfl, hk, hruns, rfl⟩ := runs_of_stands hr.partitioned h hactive hturn
  obtain ⟨hfatal, hunhandled⟩ := (hr.ready t hruns.mem_tasks).going p d hk
  have hends := hruns.ends
  rw [hk] at hends
  exact ⟨t, o, m, hruns.task, rfl, rfl, Vm.resume_settled hfatal hunhandled hp hends, rfl⟩

/-- No run ends by waiting for a promise that has been settled before. -/
theorem Runs.promise?_ne {t : Task} {o : RunOutcome} {m : Machine} (h : s.Runs steps t o m)
    (hk : t.continuation.Plain) {r : Settlement} (hp : (s.world.promise p).settled = some r) :
    o.next.promise? ≠ some p := by
  have hleads := h.leads hk
  match o, hleads with
  | .suspended .start, hleads => exact hleads.elim
  | .suspended .resume, _ => exact nofun
  | .suspended (.await q d), ⟨_, w₁, hw₁, hpending, _⟩ =>
    intro hq
    rw [RunOutcome.next, Continuation.promise?, Option.some.injEq] at hq
    have hsettled := World.Settles.evolves hw₁ p r hp
    rw [← hq, hpending] at hsettled
    cases hsettled
  | .finished, _ => exact nofun
  | .faulted, _ => exact nofun
  | .fatal, _ => exact nofun

/-- So a tasklet that does not wait for it never will. -/
theorem awaits_ne_act (hplain : ∀ t ∈ s.world.tasks, t.continuation.Plain) {r : Settlement}
    (hp : (s.world.promise p).settled = some r) (h : s.world.awaits id ≠ some p) {e : Event}
    (hact : s.act e = some s') : s'.world.awaits id ≠ some p := by
  rcases awaits_act hplain hact with hawaits | ⟨steps, t, o, m, _, hruns, _, hawaits⟩
  · rwa [hawaits]
  · rw [hawaits]
    by_cases hid : id = t.id
    · subst hid
      rw [Function.update_self]
      exact hruns.promise?_ne (hplain t hruns.mem_tasks) hp
    · rwa [Function.update_of_ne hid]

/-- A turn that begins with the result does not end by waiting for the same promise. -/
theorem awaits_ne_turn (hpart : s.world.Partitioned)
    (hplain : ∀ t ∈ s.world.tasks, t.continuation.Plain) (h : s.world.Stands id c k)
    (hactive : id ∈ s.world.pools.active) {r : Settlement}
    (hp : (s.world.promise p).settled = some r) (hturn : turn steps s id = some s') :
    s'.world.awaits id ≠ some p := by
  obtain ⟨t, o, m, rfl, rfl, rfl, hruns, rfl⟩ := runs_of_stands hpart h hactive hturn
  have hk := hplain t hruns.mem_tasks
  have hmem : t ∈ m.world.tasks := hruns.tasks_eq hk ▸ hruns.mem_tasks
  rw [World.awaits_putBack hmem, Function.update_self]
  exact hruns.promise?_ne hk hp

/-! ## Runs -/

/-- A run of a scheduler through events. -/
structure Goes (σ : Nat → Scheduler) (ε : Nat → Event) (n : Nat) : Prop where
  act : ∀ i < n, (σ i).act (ε i) = some (σ (i + 1))
  fits : ∀ i < n, (ε i).Fits Context.Usable

section Goes

variable {σ : Nat → Scheduler} {ε : Nat → Event} {n : Nat}

theorem Goes.reachable (h : Goes σ ε n) (hr : Reachable Context.Usable (σ 0)) {i : Nat}
    (hi : i ≤ n) : Reachable Context.Usable (σ i) := by
  induction i with
  | zero => exact hr
  | succ i ih => exact (ih (by omega)).act (h.fits i (by omega)) (h.act i (by omega))

theorem Goes.settles (h : Goes σ ε n) (hr : Reachable Context.Usable (σ 0)) {i j : Nat}
    (hij : i ≤ j) (hj : j ≤ n) : (σ i).world.Settles (σ j).world := by
  induction hij with
  | refl => exact .of_promises rfl
  | @step j _ ih =>
    have hact := h.act j (by omega)
    exact (ih (by omega)).trans (settles_act (h.reachable hr (by omega)).plain hact)

/-- Until an event of a run a tasklet stands where it waits for a promise, and each of its turns has
blocked it again, the promise being pending. -/
structure WaitsTill (σ : Nat → Scheduler) (ε : Nat → Event) (id : TaskletId) (c : Context)
    (p : PromiseId) (d : Delivery) (j : Nat) : Prop where
  stands : ∀ i ≤ j, (σ i).world.Stands id c (.await p d)
  blocked : ∀ i < j, ∀ steps, ε i = .turn steps id → id ∈ (σ i).world.pools.active →
    ((σ i).world.promise p).settled = none ∧ id ∈ (σ (i + 1)).world.pools.blocked

/-- An event is the turn that hands over the result of the promise, after which the tasklet does not
wait for the promise. -/
structure Delivers (σ : Nat → Scheduler) (ε : Nat → Event) (id : TaskletId) (c : Context)
    (p : PromiseId) (d : Delivery) (j steps : Nat) (r : Settlement) : Prop where
  event : ε j = .turn steps id
  active : id ∈ (σ j).world.pools.active
  settled : ((σ j).world.promise p).settled = some r
  handsOver : (σ j).HandsOver (σ (j + 1)) steps id c d r
  awaits_ne : (σ (j + 1)).world.awaits id ≠ some p

section WaitsTill

variable {j : Nat}

theorem WaitsTill.zero (h : (σ 0).world.Stands id c (.await p d)) : WaitsTill σ ε id c p d 0 where
  stands _ hi := Nat.le_zero.1 hi ▸ h
  blocked i hi := absurd hi (Nat.not_lt_zero i)

theorem WaitsTill.succ (h : WaitsTill σ ε id c p d j)
    (hnext : (σ (j + 1)).world.Stands id c (.await p d))
    (hturn : ∀ steps, ε j = .turn steps id → id ∈ (σ j).world.pools.active →
      ((σ j).world.promise p).settled = none ∧ id ∈ (σ (j + 1)).world.pools.blocked) :
    WaitsTill σ ε id c p d (j + 1) where
  stands i hi := by
    rcases Nat.lt_or_eq_of_le hi with hlt | rfl
    · exact h.stands i (Nat.le_of_lt_succ hlt)
    · exact hnext
  blocked i hi := by
    rcases Nat.lt_or_eq_of_le (Nat.le_of_lt_succ hi) with hlt | rfl
    · exact h.blocked i hlt
    · exact hturn

/-- One event: the tasklet waits on, or gets the result. -/
theorem WaitsTill.act (h : WaitsTill σ ε id c p d j) (hr : Reachable Context.Usable (σ j))
    (hact : (σ j).act (ε j) = some (σ (j + 1))) :
    WaitsTill σ ε id c p d (j + 1) ∨ ∃ steps r, Delivers σ ε id c p d j steps r := by
  have hnow := h.stands j (Nat.le_refl j)
  by_cases hturn : ∃ steps, ε j = .turn steps id ∧ id ∈ (σ j).world.pools.active
  · obtain ⟨steps, hevent, hactive⟩ := hturn
    rw [hevent] at hact
    cases hsettled : ((σ j).world.promise p).settled with
    | none =>
      obtain ⟨hnext, hblocked⟩ := stands_of_pending hr hnow hactive hsettled hact
      exact .inl (h.succ hnext fun _ _ _ => ⟨hsettled, hblocked⟩)
    | some r =>
      have hhands := handsOver_of_settled hr hnow hactive hsettled hact
      have hne := awaits_ne_turn hr.partitioned hr.plain hnow hactive hsettled hact
      exact .inr ⟨steps, r, hevent, hactive, hsettled, hhands, hne⟩
  · have hother : ∀ steps, ε j = .turn steps id → id ∉ (σ j).world.pools.active :=
      fun steps hevent hactive => hturn ⟨steps, hevent, hactive⟩
    have hnext := stands_act hnow hr.plain hother hact
    exact .inl (h.succ hnext fun steps hevent hactive => absurd hactive (hother steps hevent))

end WaitsTill

/-- Once a promise is settled, a tasklet that does not wait for it never will. -/
theorem Goes.awaits_ne (h : Goes σ ε n) (hr : Reachable Context.Usable (σ 0)) {j : Nat}
    {r : Settlement} (hsettled : ((σ j).world.promise p).settled = some r)
    (hne : (σ (j + 1)).world.awaits id ≠ some p) {i : Nat} (hij : j < i) (hi : i ≤ n) :
    (σ i).world.awaits id ≠ some p := by
  induction hij with
  | refl => exact hne
  | @step i hij ih =>
    have hkept := h.settles hr (Nat.le_of_lt hij) (Nat.le_of_lt hi) p r hsettled
    have hplain := (h.reachable hr (Nat.le_of_lt hi)).plain
    exact awaits_ne_act hplain hkept (ih (Nat.le_of_lt hi)) (h.act i hi)

/-- A tasklet that waits for a promise does so until it gets the result, if it does in the run. -/
theorem Goes.waitsTill_or_delivers (h : Goes σ ε n) (hr : Reachable Context.Usable (σ 0))
    (hstands : (σ 0).world.Stands id c (.await p d)) :
    ∃ j ≤ n, WaitsTill σ ε id c p d j ∧
      (j < n → ∃ steps r, Delivers σ ε id c p d j steps r) := by
  induction n with
  | zero => exact ⟨0, Nat.le_refl 0, .zero hstands, fun hlt => absurd hlt (Nat.lt_irrefl 0)⟩
  | succ n ih =>
    have hn : Goes σ ε n := ⟨fun i hi => h.act i (by omega), fun i hi => h.fits i (by omega)⟩
    obtain ⟨j, hj, hwaits, hdelivers⟩ := ih hn
    rcases Nat.lt_or_eq_of_le hj with hlt | rfl
    · exact ⟨j, by omega, hwaits, fun _ => hdelivers hlt⟩
    · rcases hwaits.act (hn.reachable hr hj) (h.act j (Nat.lt_succ_self j)) with hnext | hnow
      · exact ⟨j + 1, Nat.le_refl _, hnext, fun hlt => absurd hlt (Nat.lt_irrefl _)⟩
      · exact ⟨j, by omega, hwaits, fun _ => hnow⟩

end Goes

/-! ## The worlds of a turn -/

/-- The invariant in the worlds that native functions see. The running tasklet waits for nothing,
whatever the table says of it. -/
theorem Reachable.wakes_of_sees (h : Reachable Context.Usable s) {w : World} (hw : s.Sees w) :
    ∃ awaits, w.Wakes awaits ∧ s.world.Settles w ∧
      ∀ id ∈ w.pools.blocked, awaits id = w.awaits id := by
  cases hw with
  | own => exact ⟨s.world.awaits, h.wakes, .of_promises rfl, fun _ _ => rfl⟩
  | turn t hactive ht hm hw =>
    have hmem := (List.mem_filter.1 ht).1
    obtain ⟨_, hevolves⟩ := hm.leads (h.plain t hmem)
    have hevolves : (s.machine t).world.Evolves w := hevolves.trans hw
    have hsettles : (s.machine t).world.Settles w := .evolves hevolves
    have hpart := h.partitioned
    have hmachine : (s.machine t).world.Wakes (Function.update s.world.awaits t.id none) := by
      have hwakes : (s.machine t).world.Wakes s.world.awaits :=
        h.wakes.of_same (fun _ hid => hid) fun _ => rfl
      refine hwakes.release ?_
      intro p hp hpending
      rw [hpart.awaits_eq hmem] at hp
      cases hk : t.continuation with
      | start => simp [hk, Continuation.promise?] at hp
      | resume => simp [hk, Continuation.promise?] at hp
      | await q d =>
        rw [hk, Continuation.promise?, Option.some.injEq] at hp
        subst hp
        rw [hk] at hm
        cases hm.eq_stopped (Vm.resumption_pending hpending)
    have hmachinePart : (s.machine t).world.Partitioned :=
      ⟨hpart.pooled, hpart.given, hpart.le_lastId⟩
    have hwakes := hmachine.evolves hmachinePart hevolves
    refine ⟨_, hwakes, hsettles, fun id hid => ?_⟩
    obtain ⟨p, hp, _⟩ := hwakes.blocked id hid
    have hne : id ≠ t.id := by
      rintro rfl
      simp at hp
    rw [Function.update_of_ne hne, World.awaits_of_tasks (World.Evolves.keeps hevolves).1]
    rfl

/-- A blocked tasklet waits for a pending promise with which it is registered. A promise stays as it
was settled; settling one unblocks those that wait for it, in the order in which they were first
registered, also while another tasklet has its turn. A tasklet that waits for a promise stands still
until it has its turn with the promise settled, and is blocked again if it is woken before. This
turn begins with the result, delivered as its call asks or raised if the promise was rejected, and
the tasklet never gets it again. -/
theorem Reachable.wakeups (h : Reachable Context.Usable s) :
    (∀ id ∈ s.world.pools.blocked, ∃ c p d, s.world.Stands id c (.await p d) ∧
      (s.world.promise p).settled = none ∧ id ∈ (s.world.promise p).waiters) ∧
    (∀ w, s.Sees w → s.world.Settles w ∧
      ∀ p r, (w.promise p).settled = none → w.Settles (w.settle p r) ∧
        ((w.settle p r).promise p).settled = some r ∧
        ∃ moved, (w.settle p r).pools = { w.pools with
            blocked := w.pools.blocked.filter (· ∉ moved)
            unblocked := w.pools.unblocked ++ moved } ∧
          (∀ id, id ∈ moved ↔ id ∈ w.pools.blocked ∧ ∃ c d, w.Stands id c (.await p d)) ∧
          moved.Pairwise fun a b =>
            (w.promise p).waiters.idxOf a < (w.promise p).waiters.idxOf b) ∧
    ∀ σ ε n, σ 0 = s → Goes σ ε n →
      (∀ i ≤ n, s.world.Settles (σ i).world) ∧
      ∀ id c p d, s.world.Stands id c (.await p d) →
        ∃ j ≤ n, (∀ i ≤ j, (σ i).world.Stands id c (.await p d)) ∧
          (∀ i < j, ∀ steps, ε i = .turn steps id → id ∈ (σ i).world.pools.active →
            ((σ i).world.promise p).settled = none ∧ id ∈ (σ (i + 1)).world.pools.blocked) ∧
          (j < n → ∃ steps r, ε j = .turn steps id ∧ id ∈ (σ j).world.pools.active ∧
            ((σ j).world.promise p).settled = some r ∧
            (σ j).HandsOver (σ (j + 1)) steps id c d r ∧
            (σ j).Receives (σ (j + 1)) steps id c d r ∧
            ∀ i, j < i → i ≤ n → ∀ c' d', ¬ (σ i).world.Stands id c' (.await p d')) := by
  refine ⟨fun id hid => ?_, fun w hw => ?_, fun σ ε n hσ hgoes => ?_⟩
  · obtain ⟨p, hp, hpending, hwaiter⟩ := h.wakes.blocked id hid
    have hpooled : id ∈ s.world.pools.pooled := by simp [Pools.pooled, hid]
    obtain ⟨c, d, hstands⟩ := h.partitioned.stands hpooled hp
    exact ⟨c, p, d, hstands, hpending, hwaiter⟩
  · obtain ⟨awaits, hwakes, hsettles, hsame⟩ := h.wakes_of_sees hw
    have hpart := h.partitioned_of_sees hw
    refine ⟨hsettles, fun p r hp => ⟨World.settles_settle w p r, ?_, ?_⟩⟩
    · rw [World.settle_eq hp]
      show ((w.setPromise p _).promise p).settled = some r
      rw [World.promise_setPromise, if_pos rfl]
    · obtain ⟨moved, hpools, hmem, horder⟩ := hwakes.settle_pools hpart.nodup hp r
      refine ⟨moved, hpools, fun id => ?_, horder⟩
      rw [hmem]
      refine and_congr_right ?_
      intro hid
      rw [hsame id hid]
      constructor
      · have hpooled : id ∈ w.pools.pooled := by simp [Pools.pooled, hid]
        exact hpart.stands hpooled
      · rintro ⟨c, d, hstands⟩
        exact hpart.awaits_of_stands hstands
  · subst hσ
    refine ⟨fun i hi => hgoes.settles h (Nat.zero_le i) hi, fun id c p d hstands => ?_⟩
    obtain ⟨j, hj, hwaits, hdelivers⟩ := hgoes.waitsTill_or_delivers h hstands
    refine ⟨j, hj, hwaits.stands, hwaits.blocked, fun hlt => ?_⟩
    obtain ⟨steps, r, hnow⟩ := hdelivers hlt
    refine ⟨steps, r, hnow.event, hnow.active, hnow.settled, hnow.handsOver,
      hnow.handsOver.receives, fun i hij hi c' d' hstands' => ?_⟩
    have hpart := (hgoes.reachable h hi).partitioned
    have hne := hgoes.awaits_ne h hnow.settled hnow.awaits_ne hij hi
    exact hne (hpart.awaits_of_stands hstands')

/-- A machine with a host function that waits for the first promise. -/
def waitingVm : Vm :=
  { (default : Vm) with
    host := ⟨fun _ _ _ w => { heap := w.heap, outcome := .ok (.await 0) }⟩ }

/-- A tasklet that calls it. -/
def waitingContext : Context :=
  Context.start { bytes := #[0x65, 0, 0, 0x83, 0, 0], names := #["wait"] } []
    [("wait", .native ⟨0⟩)]

/-- A scheduler with this tasklet. -/
def waitingScheduler : Scheduler :=
  ((new waitingVm none none
    { heap := { natives := #[{ name := "wait", behaviour := .host 0 }] } }).scheduleContext
      waitingContext).2

/-- The tasklet is blocked in its first turn, and ready again once the promise is settled. -/
theorem wakeups_of_waiting :
    ∃ s, waitingScheduler.tick 5 = some s ∧ s.world.pools.blocked = [1] ∧
      ∃ c p d, s.world.Stands 1 c (.await p d) ∧ 1 ∈ (s.world.promise p).waiters ∧
        ∀ r, 1 ∈ (s.world.settle p r).pools.unblocked := by
  have hends : (waitingScheduler.tick 5).map (fun s => s.world.pools.blocked) = some [1] := by
    decide +kernel
  obtain ⟨s, htick, hblocked⟩ := Option.map_eq_some_iff.1 hends
  have hscheduled : Reachable Context.Usable waitingScheduler :=
    .act (.new waitingVm none none _) (e := .schedule waitingContext) (Context.usable_start ..) rfl
  obtain ⟨hwaits, hworlds, _⟩ := (hscheduled.tick htick).wakeups
  have hid : 1 ∈ s.world.pools.blocked := hblocked ▸ List.mem_singleton_self 1
  obtain ⟨c, p, d, hstands, hpending, hwaiter⟩ := hwaits 1 hid
  refine ⟨s, htick, hblocked, c, p, d, hstands, hwaiter, fun r => ?_⟩
  obtain ⟨_, _, moved, hpools, hmoved, _⟩ := (hworlds _ .own).2 p r hpending
  rw [hpools]
  exact List.mem_append_right _ ((hmoved 1).2 ⟨hid, c, d, hstands⟩)

end Scheduler

end TaskletMachine
