import TaskletMachine.Proofs.Machine.SpawnedRuns
import TaskletMachine.Proofs.Schedule.Wakeups

/-!
# Tasklets that guest code asks for

A tasklet that guest code has asked for stays in the queue until the next tick starts it. Then it
stands at the start of its code, with the globals of the tasklet that asked for it as they are at
that moment. From then on the table of tasks shows where its last run has ended.

## Main definitions

* `Vm.leads_advance_link`, `Vm.Visits.runFor_of_resume`: a turn goes on from what a native function
  has done to the world.
* `Scheduler.mem_spawned_act`: the queue lasts until the next tick.
* `Scheduler.stands_startSpawned`: where the tasklet starts.
* `World.Shows`, `Scheduler.shows_act`: the table follows the tasklet.
-/
namespace TaskletMachine

open Exec

/-! ## Turns -/

namespace Vm

variable {vm : Vm} {k : Continuation} {m m' : Machine} {p : Progress} {steps : Nat} {o : RunOutcome}

/-- A run that passes a stage goes on from there. -/
theorem Visits.runFor_of_resume (h : vm.Visits k m p) (hrun : vm.resume steps k m = some (o, m')) :
    ∃ steps', vm.runFor steps' p = some (o, m') := by
  induction h with
  | begin hfatal hunhandled =>
    rw [resume, hfatal, hunhandled] at hrun
    exact ⟨steps, hrun⟩
  | step _ ih =>
    obtain ⟨steps', hrun'⟩ := ih
    cases steps' with
    | zero => cases hrun'
    | succ steps' => exact ⟨steps', hrun'⟩

theorem leads_runFor {w : World} (h : w.Leads p) (hrun : vm.runFor steps p = some (o, m')) :
    w.Leads (.stopped o m') := by
  induction steps generalizing p with
  | zero =>
    cases p with
    | stopped o m =>
      cases hrun
      exact h
    | running phase m => cases hrun
  | succ steps ih =>
    cases p with
    | stopped o m =>
      cases hrun
      exact h
    | running phase m => exact ih (leads_advance h) hrun

/-- A link of a call that has changed the world goes on from there. -/
theorem leads_advance_link {c : PendingCall} (h : vm.Enters m' (vm.link c m)) :
    m'.world.Leads (vm.advance (.link c) m) := by
  have hleads : m'.world.Leads
      (vm.conclude vm.afterInstruction (fun _ => vm.follow c m) m') :=
    leads_conclude vm.leads_afterInstruction (.of_link h)
  exact hleads

theorem Onward.of_runFor (hrun : vm.runFor steps p = some (o, m')) :
    Relation.ReflTransGen vm.Onward p (.stopped o m') := by
  induction steps generalizing p with
  | zero =>
    cases p with
    | stopped o m =>
      cases hrun
      exact .refl
    | running phase m => cases hrun
  | succ steps ih =>
    cases p with
    | stopped o m =>
      cases hrun
      exact .refl
    | running phase m => exact .head (.advance phase m) (ih hrun)

theorem lawful_onward {start : Progress} (h : start.Lawful vm.maxCallDepth)
    (hreached : Relation.ReflTransGen vm.Onward start p) : p.Lawful vm.maxCallDepth := by
  induction hreached with
  | refl => exact h
  | tail _ hstage ih => exact hstage.stage.lawful (Nat.le_refl _) ih

/-- A tasklet that is resumed goes on from where it was suspended, in the world as it is then. -/
theorem Onward.of_resume {w : World} (h : (Progress.stopped (.suspended k) m).Lawful vm.maxCallDepth)
    (hrun : vm.resume steps k { m with world := w } = some (o, m')) :
    Relation.ReflTransGen vm.Onward (.stopped (.suspended k) m) (.stopped o m') := by
  have hfatal : m.context.fatal = none := h.1.fatal
  have hunhandled : m.context.isUnhandled = false := by
    rw [Context.isUnhandled, h.1.fault]
    rfl
  rcases resume_cases hrun with ⟨_, ⟨_, hsome⟩ | ⟨_, htrue⟩⟩ | ⟨_, _, hrun⟩
  · simp [hfatal] at hsome
  · simp [hunhandled] at htrue
  · exact .head (.outside k m w) (.head (.resume k _ hfatal hunhandled) (Onward.of_runFor hrun))

end Vm

/-! ## The queue -/

namespace World

variable {w w' : World} {x : Spawn}

theorem spawned_foldl_unblock (ids : List TaskletId) (p : Pools) :
    (ids.foldl Pools.unblock p).spawned = p.spawned := by
  induction ids generalizing p with
  | nil => rfl
  | cons id ids ih =>
    rw [List.foldl_cons, ih, Pools.unblock]
    split <;> rfl

theorem Change.mem_spawned (h : w.Change w') (hx : x ∈ w.pools.spawned) :
    x ∈ w'.pools.spawned := by
  cases h with
  | output heap printed => exact hx
  | spawn unit globals => exact List.mem_append_left _ hx
  | signal s =>
    cases s with
    | unblock id => exact (spawned_foldl_unblock [id] w.pools).symm ▸ hx
    | settle p s =>
      by_cases hp : (w.promise p).settled.isSome
      · rwa [World.signal, settle_of_settled hp]
      · rw [World.signal, settle_eq (Option.not_isSome_iff_eq_none.1 hp)]
        exact (spawned_foldl_unblock _ w.pools).symm ▸ hx

theorem Evolves.mem_spawned (h : w.Evolves w') (hx : x ∈ w.pools.spawned) :
    x ∈ w'.pools.spawned := by
  induction h with
  | refl => exact hx
  | tail _ hchange ih => exact hchange.mem_spawned ih

theorem Leads.mem_spawned {p : Progress} (h : w.Leads p) (hx : x ∈ w.pools.spawned) :
    x ∈ p.machine.world.pools.spawned := by
  obtain ⟨w₁, hw₁, hp | hp | ⟨q, _, hp⟩⟩ := h.moves <;> rw [hp] <;> exact hw₁.mem_spawned hx

end World

namespace Scheduler

variable {fit : Context → Prop} {s s' : Scheduler} {e : Event} {events : List Event}
  {id : TaskletId} {x : Spawn}

/-- Only the beginning of a tick takes tasklets out of the queue. -/
theorem mem_spawned_act (hplain : ∀ t ∈ s.world.tasks, t.continuation.Plain)
    (hne : e ≠ .startSpawned) (hact : s.act e = some s') (hx : x ∈ s.world.pools.spawned) :
    x ∈ s'.world.pools.spawned := by
  cases e with
  | schedule c =>
    cases hact
    exact hx
  | signal signal =>
    cases hact
    exact (World.Change.signal s.world signal).mem_spawned hx
  | newPromise =>
    cases hact
    exact hx
  | setHeap heap =>
    cases hact
    exact hx
  | register r =>
    cases hact
    obtain ⟨_, _, hworld⟩ := s.informs_register r
    rwa [hworld]
  | startSpawned => exact absurd rfl hne
  | beginTick =>
    cases hact
    exact hx
  | turn steps id =>
    rcases turn_cases hact with ⟨rfl, _⟩ | ⟨t, o, m, rfl, hruns, rfl⟩
    · exact hx
    · have hm : x ∈ m.world.pools.spawned :=
        (hruns.leads (hplain t hruns.mem_tasks)).mem_spawned hx
      rw [putBack_pools]
      split
      · exact hm
      · exact hm

/-- Events keep the ids in the table of tasks. -/
theorem mem_ids_act (hplain : ∀ t ∈ s.world.tasks, t.continuation.Plain)
    (hact : s.act e = some s') (hid : id ∈ s.world.tasks.map Task.id) :
    id ∈ s'.world.tasks.map Task.id := by
  obtain ⟨t, ht, rfl⟩ := List.mem_map.1 hid
  by_cases hturn : ∃ steps, e = .turn steps t.id
  · obtain ⟨steps, rfl⟩ := hturn
    rcases turn_cases hact with ⟨rfl, _⟩ | ⟨u, o, m, _, hruns, rfl⟩
    · exact hid
    · rwa [putBack_ids, hruns.tasks_eq (hplain u hruns.mem_tasks)]
  · have hother : ∀ steps, e = .turn steps t.id → t.id ∉ s.world.pools.active :=
      fun steps he => absurd ⟨steps, he⟩ hturn
    exact List.mem_map_of_mem (mem_tasks_act ht hplain hother hact)

/-- What holds of a state and is kept by each of some events holds after them. -/
theorem Reachable.acts_invariant {P : Scheduler → Prop} {Q : Event → Prop}
    (hstep : ∀ s e s', Reachable fit s → P s → Q e → s.act e = some s' → P s')
    (h : Reachable fit s) (hs : P s) (hevents : ∀ e ∈ events, e.Fits fit ∧ Q e)
    (hacts : s.acts events = some s') : Reachable fit s' ∧ P s' := by
  induction events generalizing s with
  | nil =>
    cases hacts
    exact ⟨h, hs⟩
  | cons e events ih =>
    obtain ⟨s₁, hact, hrest⟩ := Option.bind_eq_some_iff.1 hacts
    obtain ⟨⟨hfits, he⟩, hevents⟩ := List.forall_mem_cons.1 hevents
    exact ih (h.act hfits hact) (hstep s e s₁ h hs he hact) hevents hrest

/-! ## The start -/

theorem foldl_startSpawn_settings (spawns : List Spawn) (s : Scheduler) :
    ∃ world, spawns.foldl startSpawn s = { s with world } := by
  induction spawns generalizing s with
  | nil => exact ⟨s.world, rfl⟩
  | cons spawn spawns ih =>
    obtain ⟨world, hworld⟩ := ih (s.startSpawn spawn)
    exact ⟨world, hworld⟩

theorem task?_foldl_startSpawn {t : Task} (h : s.world.task? id = some t) (spawns : List Spawn) :
    (spawns.foldl startSpawn s).world.task? id = some t := by
  induction spawns generalizing s with
  | nil => exact h
  | cons spawn spawns ih =>
    refine ih ?_
    have happend : (s.startSpawn spawn).world.task? id = (s.world.task? id).or _ :=
      List.find?_append
    rw [happend, h, Option.some_or]

/-- A tasklet that is started stands at the start of its code. Its globals are those that it was
asked for with, and for other names the locals of its spawner's root frame as they are now. -/
theorem stands_startSpawned (hx : x ∈ s.world.pools.spawned) {t : Task}
    (ht : x.spawner.bind s.world.task? = some t) {root : Frame}
    (hroot : t.context.root? = some root) :
    s.startSpawned.world.Stands x.id
      (s.prepare (Context.start x.unit s.builtins (root.locals.setAll x.globals))) .start := by
  obtain ⟨before, after, hsplit⟩ := List.append_of_mem hx
  let s₀ : Scheduler := { s with world := s.world.queue [] }
  have hstarted : s.startSpawned = after.foldl startSpawn ((before.foldl startSpawn s₀).startSpawn x) := by
    show s.world.pools.spawned.foldl startSpawn s₀ = _
    rw [hsplit, List.foldl_append, List.foldl_cons]
  have hspawner : x.spawner.bind (before.foldl startSpawn s₀).world.task? = some t := by
    obtain ⟨id, hid, ht⟩ := Option.bind_eq_some_iff.1 ht
    rw [hid]
    exact task?_foldl_startSpawn (s := s₀) ht before
  have hinherited : inherited (before.foldl startSpawn s₀).world x = root.locals := by
    rw [inherited, hspawner]
    dsimp only
    rw [hroot]
    rfl
  obtain ⟨world, hsettings⟩ := foldl_startSpawn_settings before s₀
  rw [hstarted]
  refine World.Stands.of_tasks ?_ fun u hu _ => mem_tasks_foldl_startSpawn hu after
  refine ⟨_, List.mem_filter.2 ⟨List.mem_append_right _ (List.mem_singleton_self _), rfl⟩, rfl, ?_,
    rfl⟩
  rw [hinherited, hsettings]
  rfl

end Scheduler

/-! ## The table of tasks -/

/-- The table of tasks shows how the last run of a tasklet has ended, and in which context. -/
def World.Shows (w : World) (id : TaskletId) (o : RunOutcome) (c : Context) : Prop :=
  ∃ t ∈ w.tasks, t.id = id ∧ t.context = c ∧ t.continuation = o.next ∧
    t.status = Scheduler.verdict o c

theorem World.status_of_mem_unfinished {w : World} {t : Task} (h : t ∈ w.unfinished) :
    t.status = .running := by
  have hstatus := (List.mem_filter.1 h).2
  cases hrunning : t.status with
  | running => rfl
  | completed v => simp [hrunning, TaskStatus.isFinished] at hstatus
  | failed failure => simp [hrunning, TaskStatus.isFinished] at hstatus

/-- A tasklet that has not run yet is as if it were suspended before its start. -/
theorem World.Stands.shows {w : World} {id : TaskletId} {c : Context}
    (h : w.Stands id c .start) : w.Shows id (.suspended .start) c := by
  obtain ⟨t, ht, rfl, rfl, hk⟩ := h
  exact ⟨t, (List.mem_filter.1 ht).1, rfl, rfl, hk, World.status_of_mem_unfinished ht⟩

namespace Scheduler

variable {fit : Context → Prop} {s s' : Scheduler} {e : Event} {events : List Event}
  {id : TaskletId} {o : RunOutcome} {c : Context} {m : Machine} {start : Progress}

theorem eq_suspended_of_verdict (h : (verdict o c).isFinished = false) : ∃ k, o = .suspended k := by
  cases o with
  | suspended k => exact ⟨k, rfl⟩
  | finished => cases h
  | faulted => cases hc : c.unhandled? <;> simp [verdict, hc, TaskStatus.isFinished] at h
  | fatal => cases hc : c.fatal <;> simp [verdict, hc, TaskStatus.isFinished] at h

theorem after_status {u : Task} (h : u.status = .running) :
    (after o c u).status = verdict o c := by
  unfold after
  cases hv : verdict o c with
  | running => exact h
  | completed v => rfl
  | failed failure => rfl

theorem vm_act (hact : s.act e = some s') : s'.vm = s.vm := by
  cases e with
  | startSpawned =>
    cases hact
    obtain ⟨world, hworld⟩ := foldl_startSpawn_settings s.world.pools.spawned
      { s with world := s.world.queue [] }
    exact (congrArg Scheduler.vm hworld :)
  | turn steps id =>
    rcases turn_cases hact with ⟨rfl, _⟩ | ⟨t, o, m, _, _, rfl⟩ <;> rfl
  | _ =>
    cases hact
    rfl

/-- An event takes a tasklet on if it is the tasklet's turn, and leaves it where it is otherwise. -/
theorem shows_act (h : Reachable fit s) (hstart : start.Lawful s.vm.maxCallDepth)
    (hreached : Relation.ReflTransGen s.vm.Onward start (.stopped o m))
    (hshows : s.world.Shows id o m.context) (hact : s.act e = some s') :
    ∃ o' m', Relation.ReflTransGen s.vm.Onward start (.stopped o' m') ∧
      s'.world.Shows id o' m'.context := by
  obtain ⟨t, ht, rfl, hcontext, hcontinuation, hstatus⟩ := hshows
  by_cases hturn : ∃ steps, e = .turn steps t.id ∧ t.id ∈ s.world.pools.active
  · obtain ⟨steps, rfl, hactive⟩ := hturn
    have hpart := h.partitioned
    have hpooled : t.id ∈ s.world.pools.pooled := by simp [Pools.pooled, hactive]
    have hunfinished : t ∈ s.world.unfinished := by
      obtain ⟨u, hu, hid⟩ := hpart.mem_pooled.1 hpooled
      have hnodup : (s.world.tasks.map Task.id).Nodup := (List.nodup_append.1 hpart.given).1
      rwa [← List.inj_on_of_nodup_map hnodup (List.mem_filter.1 hu).1 ht hid]
    obtain ⟨u, o', m', hid, huc, huk, hruns, rfl⟩ :=
      runs_of_stands hpart ⟨t, hunfinished, rfl, rfl, rfl⟩ hactive hact
    have hsame : s.machine u = { m with world := (s.machine u).world } := by
      rw [machine, huc, hcontext]
    have hstill : (verdict o m.context).isFinished = false := by
      rw [← hstatus]
      simpa using (List.mem_filter.1 hunfinished).2
    obtain ⟨k, rfl⟩ := eq_suspended_of_verdict hstill
    have hrun := hruns.ends
    rw [hsame, huk, hcontinuation] at hrun
    have hresumed := Vm.Onward.of_resume (Vm.lawful_onward hstart hreached) hrun
    have hmem : u ∈ m'.world.tasks := hruns.tasks_eq (h.plain u hruns.mem_tasks) ▸ hruns.mem_tasks
    refine ⟨o', m', hreached.trans hresumed, after o' m'.context u, ?_, ?_, after_context ..,
      after_continuation .., after_status (World.status_of_mem_unfinished hruns.task)⟩
    · rw [putBack_tasks]
      exact List.mem_map.2 ⟨u, hmem, if_pos rfl⟩
    · rw [after_id, hid]
  · have hother : ∀ steps, e = .turn steps t.id → t.id ∉ s.world.pools.active :=
      fun steps he hactive => hturn ⟨steps, he, hactive⟩
    exact ⟨o, m, hreached, t, mem_tasks_act ht h.plain hother hact, rfl, hcontext, hcontinuation,
      hstatus⟩

end Scheduler

end TaskletMachine
