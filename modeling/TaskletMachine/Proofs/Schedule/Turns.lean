import TaskletMachine.Proofs.Machine.Lifecycle
import TaskletMachine.Proofs.Schedule.Registration

/-!
# Turns

While a tasklet has its turn, its native functions change the world, and the run may end with a move
of the tasklet: it is parked, or it waits for a promise. Then the tasklet is put back, or taken out
of its pool if it has ended.

## Main definitions

* `World.Leads`: what becomes of the world on the way through a resumption.
* `Scheduler.Runs`: a resumption of an active tasklet.
* `Scheduler.turn_cases`: what a turn can come to.
-/
namespace TaskletMachine

open Exec

/-! ## The world during a resumption -/

/-- What becomes of the world on the way through a resumption, and how it is left at the end. -/
def World.Leads (w : World) : Progress → Prop
  | .running phase m => phase.Plain ∧ w.Evolves m.world
  | .stopped (.suspended .start) _ => False
  | .stopped (.suspended .resume) m =>
    ∃ w₁, w.Evolves w₁ ∧ (m.world = w₁ ∨ m.world = w₁.park (w₁.running.getD 0))
  | .stopped (.suspended (.await p d)) m =>
    d.Plain ∧ ∃ w₁, w.Evolves w₁ ∧ (w₁.promise p).settled = none ∧
      m.world = w₁.wait p (w₁.running.getD 0)
  | .stopped _ m => w.Evolves m.world

theorem World.Leads.of_evolves {w w₁ : World} {p : Progress} (h : w.Evolves w₁)
    (hp : w₁.Leads p) : w.Leads p := by
  match p, hp with
  | .running phase m, hp => exact ⟨hp.1, h.trans hp.2⟩
  | .stopped (.suspended .start) m, hp => exact hp
  | .stopped (.suspended .resume) m, ⟨w₂, hw₂, hm⟩ => exact ⟨w₂, h.trans hw₂, hm⟩
  | .stopped (.suspended (.await p d)) m, ⟨hd, w₂, hw₂, hm⟩ => exact ⟨hd, w₂, h.trans hw₂, hm⟩
  | .stopped .finished m, hp => exact h.trans hp
  | .stopped .faulted m, hp => exact h.trans hp
  | .stopped .fatal m, hp => exact h.trans hp

/-! ## What stays -/

namespace World

variable {w w' : World}

theorem foldl_unblock (ids : List TaskletId) (w : World) :
    ids.foldl unblock w = { w with pools := ids.foldl Pools.unblock w.pools } := by
  induction ids generalizing w with
  | nil => rfl
  | cons id ids ih => rw [List.foldl_cons, ih, List.foldl_cons]; rfl

/-- A promise that is still pending is settled, and its waiters are unblocked. -/
theorem settle_eq {p : PromiseId} (h : (w.promise p).settled = none) (s : Settlement) :
    w.settle p s = { w.setPromise p { settled := some s, waiters := [] } with
      pools := (w.promise p).waiters.foldl Pools.unblock w.pools } := by
  simp only [settle, h, Option.isSome_none, Bool.false_eq_true, if_false, foldl_unblock]
  rfl

theorem settle_of_settled {p : PromiseId} (h : (w.promise p).settled.isSome) (s : Settlement) :
    w.settle p s = w := by
  simp [settle, h]

/-- What is not shared among tasklets is not changed. -/
theorem Change.shared (h : w.Change w') :
    ∃ heap promises pools printed, w' = { w with heap, promises, pools, printed } := by
  cases h with
  | output heap printed => exact ⟨_, _, _, _, rfl⟩
  | spawn unit globals => exact ⟨_, _, _, _, rfl⟩
  | signal s =>
    cases s with
    | unblock id => exact ⟨_, _, _, _, rfl⟩
    | settle p s =>
      by_cases hp : (w.promise p).settled.isSome
      · rw [World.signal, settle_of_settled hp]
        exact ⟨_, _, _, _, rfl⟩
      · rw [World.signal, settle_eq (Option.not_isSome_iff_eq_none.1 hp)]
        exact ⟨_, _, _, _, rfl⟩

theorem Evolves.shared (h : w.Evolves w') :
    ∃ heap promises pools printed, w' = { w with heap, promises, pools, printed } := by
  induction h with
  | refl => exact ⟨_, _, _, _, rfl⟩
  | tail _ hchange ih =>
    obtain ⟨_, _, _, _, rfl⟩ := ih
    obtain ⟨heap, promises, pools, printed, rfl⟩ := hchange.shared
    exact ⟨heap, promises, pools, printed, rfl⟩

/-- The tasks and the running tasklet are not changed. -/
theorem Evolves.keeps (h : w.Evolves w') : w'.tasks = w.tasks ∧ w'.running = w.running := by
  obtain ⟨_, _, _, _, rfl⟩ := h.shared
  exact ⟨rfl, rfl⟩

theorem Change.keeps (h : w.Change w') : w'.tasks = w.tasks ∧ w'.running = w.running :=
  Evolves.keeps (.single h)

/-- The world has evolved, and at the end the running tasklet may have moved to another pool. -/
theorem Leads.moves {p : Progress} (h : w.Leads p) :
    ∃ w₁, w.Evolves w₁ ∧ (p.machine.world = w₁ ∨
      p.machine.world = w₁.park (w₁.running.getD 0) ∨
      ∃ q, (w₁.promise q).settled = none ∧
        p.machine.world = w₁.wait q (w₁.running.getD 0)) := by
  match p, h with
  | .running phase m, h => exact ⟨m.world, h.2, .inl rfl⟩
  | .stopped (.suspended .start) m, h => exact h.elim
  | .stopped (.suspended .resume) m, ⟨w₁, hw₁, hm⟩ =>
    rcases hm with hm | hm
    · exact ⟨w₁, hw₁, .inl hm⟩
    · exact ⟨w₁, hw₁, .inr (.inl hm)⟩
  | .stopped (.suspended (.await q d)) m, ⟨_, w₁, hw₁, hpending, hm⟩ =>
    exact ⟨w₁, hw₁, .inr (.inr ⟨q, hpending, hm⟩)⟩
  | .stopped .finished m, h => exact ⟨m.world, h, .inl rfl⟩
  | .stopped .faulted m, h => exact ⟨m.world, h, .inl rfl⟩
  | .stopped .fatal m, h => exact ⟨m.world, h, .inl rfl⟩

theorem Leads.tasks_eq {p : Progress} (h : w.Leads p) : p.machine.world.tasks = w.tasks := by
  obtain ⟨w₁, hw₁, hp | hp | ⟨q, _, hp⟩⟩ := h.moves <;> rw [hp] <;> exact hw₁.keeps.1

theorem Leads.plain {o : RunOutcome} {m : Machine} (h : w.Leads (.stopped o m)) :
    o.next.Plain := by
  match o, h with
  | .suspended .start, h => exact h.elim
  | .suspended .resume, _ => trivial
  | .suspended (.await p d), h => exact h.1
  | .finished, _ => trivial
  | .faulted, _ => trivial
  | .fatal, _ => trivial

end World

/-! ## Resumptions -/

namespace Vm

variable {vm : Vm} {limit : Nat} {exits : Prop} {m : Machine}

theorem leads_proceed {next : Machine → Progress} {r : EStateM.Result Error Machine Control}
    (hnext : ∀ m : Machine, m.world.Leads (next m)) (h : vm.Meets limit exits m r) :
    m.world.Leads (proceed next r) := by
  cases r with
  | error e m' => exact h.1
  | ok control m' =>
    obtain ⟨hworld, _⟩ := h
    match control, hworld with
    | .next, hworld => exact .of_evolves hworld (hnext m')
    | .call c, hworld => exact ⟨hworld.2, hworld.1⟩
    | .suspend .start, hworld => exact hworld
    | .suspend .resume, ⟨w₁, hw₁, hm'⟩ => exact ⟨w₁, hw₁, .inr hm'⟩
    | .suspend (.await p d), hworld => exact hworld
    | .finished, hworld => exact hworld
    | .faulted, hworld => exact hworld

theorem leads_conclude {next : Machine → Progress} {effect : Exec Control}
    (hnext : ∀ m : Machine, m.world.Leads (next m)) (h : vm.Meets limit exits m (effect m)) :
    m.world.Leads (vm.conclude next effect m) := by
  unfold conclude catching
  cases hr : effect m with
  | ok control m' =>
    rw [hr] at h
    exact leads_proceed hnext h
  | error e m' =>
    rw [hr] at h
    dsimp only
    split
    · next hguest =>
      have hraise : vm.Meets limit False m' (vm.raiseError e m') := .raiseError vm id hguest m'
      exact .of_evolves h.1 (leads_proceed hnext hraise)
    · exact leads_proceed hnext h

theorem leads_afterInstruction (vm : Vm) (m : Machine) : m.world.Leads (vm.afterInstruction m) := by
  simp only [afterInstruction]
  split
  · exact ⟨m.world, .refl, .inl rfl⟩
  · exact ⟨trivial, .refl⟩

theorem leads_advance {w : World} {phase : Phase} (h : w.Leads (.running phase m)) :
    w.Leads (vm.advance phase m) :=
  .of_evolves h.2 (leads_conclude vm.leads_afterInstruction (.perform vm h.1 m))

theorem leads_resumption {k : Continuation} (hk : k.Plain) (m : Machine) :
    m.world.Leads (vm.resumption k m) := by
  cases k with
  | start => exact ⟨trivial, .refl⟩
  | resume => exact ⟨trivial, .refl⟩
  | await p d =>
    simp only [resumption]
    cases hs : (m.world.promise p).settled with
    | none => exact ⟨hk, m.world, .refl, hs, rfl⟩
    | some s =>
      have hmeets : vm.Meets vm.maxCallDepth False m (handOver s d m) :=
        .of_stays (.handOver hs hk) id
      exact leads_conclude (fun _ => ⟨trivial, .refl⟩) hmeets

theorem leads_entry {k : Continuation} (hk : k.Plain) (m : Machine) :
    m.world.Leads (vm.entry k m) := by
  unfold entry
  split
  · exact Relation.ReflTransGen.refl
  · split
    · exact Relation.ReflTransGen.refl
    · exact leads_resumption hk m

theorem Visits.leads {k : Continuation} (hk : k.Plain) {p : Progress} (h : vm.Visits k m p) :
    m.world.Leads p := by
  induction h with
  | begin hfatal hunhandled => exact leads_resumption hk m
  | step _ ih => exact leads_advance ih

theorem leads_resume {k : Continuation} (hk : k.Plain) {steps : Nat} {o : RunOutcome}
    {m' : Machine} (h : vm.resume steps k m = some (o, m')) : m.world.Leads (.stopped o m') := by
  rcases resume_cases h with ⟨rfl, ⟨rfl, _⟩ | ⟨rfl, _⟩⟩ | ⟨hfatal, hunhandled, hrun⟩
  · exact Relation.ReflTransGen.refl
  · exact Relation.ReflTransGen.refl
  · have hbegin : vm.Visits k m (vm.resumption k m) := .begin hfatal hunhandled
    exact (hbegin.runFor hrun).leads hk

end Vm

/-! ## Taking turns -/

namespace Scheduler

variable {s s' : Scheduler} {steps : Nat} {id : TaskletId}

/-- The machine on which a task is run. -/
def machine (s : Scheduler) (t : Task) : Machine :=
  { context := t.context, world := { s.world with running := some t.id } }

/-- A resumption of an active tasklet, which ends in some way. -/
structure Runs (s : Scheduler) (steps : Nat) (t : Task) (o : RunOutcome) (m : Machine) : Prop where
  active : t.id ∈ s.world.pools.active
  task : t ∈ s.world.unfinished
  ends : s.vm.resume steps t.continuation (s.machine t) = some (o, m)

theorem mem_active_of_state? {p : Pools} (h : p.state? id = some .active) : id ∈ p.active := by
  unfold Pools.state? at h
  split at h
  · next hactive => simpa using hactive
  · repeat' split at h
    all_goals cases h

theorem Runs.mem_tasks {t : Task} {o : RunOutcome} {m : Machine} (h : s.Runs steps t o m) :
    t ∈ s.world.tasks :=
  (List.mem_filter.1 h.task).1

/-- A turn either changes nothing, since the tasklet has moved or ended, or it is a resumption,
after which the tasklet is put back. -/
theorem turn_cases (h : turn steps s id = some s') :
    (s' = s ∧ (id ∉ s.world.pools.active ∨ ∀ t ∈ s.world.unfinished, t.id ≠ id)) ∨
    ∃ t o m, t.id = id ∧ s.Runs steps t o m ∧
      s' = { s with world := putBack m.world t o m.context } := by
  unfold turn at h
  split at h
  · next hstate =>
    cases hfind : s.world.unfinished.find? fun t => t.id == id with
    | none =>
      rw [hfind] at h
      cases h
      refine .inl ⟨rfl, .inr fun t ht => ?_⟩
      simpa using List.find?_eq_none.1 hfind t ht
    | some t =>
      rw [hfind] at h
      have hid : t.id = id := by simpa using List.find?_some hfind
      dsimp only [resumeTask] at h
      split at h
      · cases h
      · next o m hrun =>
        cases h
        subst hid
        exact .inr ⟨t, o, m, rfl, ⟨mem_active_of_state? hstate, List.mem_of_find?_eq_some hfind,
          hrun⟩, rfl⟩
  · next hstate =>
    cases h
    refine .inl ⟨rfl, .inl fun hactive => hstate ?_⟩
    simp [Pools.state?, hactive]

theorem Runs.leads {t : Task} {o : RunOutcome} {m : Machine} (h : s.Runs steps t o m)
    (hk : t.continuation.Plain) : (s.machine t).world.Leads (.stopped o m) :=
  Vm.leads_resume hk h.ends

theorem Runs.tasks_eq {t : Task} {o : RunOutcome} {m : Machine} (h : s.Runs steps t o m)
    (hk : t.continuation.Plain) : m.world.tasks = s.world.tasks :=
  (h.leads hk).tasks_eq

/-! ## Putting a tasklet back -/

theorem eq_running_of_news? {status : TaskStatus} (h : status.news? = none) :
    status = .running := by
  cases status with
  | running => rfl
  | completed v => cases h
  | failed failure => cases h

section PutBack

variable (w : World) (t : Task) (o : RunOutcome) (c : Context)

/-- A task after a run. -/
def after (u : Task) : Task :=
  let u := { u with context := c, continuation := o.next }
  match verdict o c with
  | .running => u
  | status => { u with status }

theorem after_id (u : Task) : (after o c u).id = u.id := by
  simp only [after]
  split <;> rfl

theorem id_ite_after (u : Task) : (if u.id = t.id then after o c u else u).id = u.id := by
  by_cases hu : u.id = t.id <;> simp [hu, after_id]

theorem after_context (u : Task) : (after o c u).context = c := by
  simp only [after]
  split <;> rfl

theorem after_continuation (u : Task) : (after o c u).continuation = o.next := by
  simp only [after]
  split <;> rfl

theorem after_isFinished (u : Task) :
    (after o c u).status.isFinished = ((verdict o c).isFinished || u.status.isFinished) := by
  simp only [after]
  cases h : verdict o c <;> simp [TaskStatus.isFinished]

theorem after_of_news {news : News} (h : (verdict o c).news? = some news) (u : Task) :
    after o c u = { u with context := c, continuation := o.next, status := verdict o c } := by
  unfold after
  cases hv : verdict o c with
  | running =>
    rw [hv] at h
    cases h
  | completed v => rfl
  | failed failure => rfl

theorem putBack_of_running (h : verdict o c = .running) :
    putBack w t o c = { w with
      running := none
      tasks := w.tasks.map fun u => if u.id = t.id then after o c u else u } := by
  simp [putBack, World.modifyTask, after, h]

/-- If the task has ended, its callbacks no longer wait, and those for this ending are called. -/
theorem putBack_of_news {news : News} (h : (verdict o c).news? = some news) :
    putBack w t o c =
      (w.released t.id news.ending).foldl (World.call · news) { w with
        running := none
        pools := w.pools.remove t.id
        tasks := w.tasks.map fun u => if u.id = t.id then after o c u else u
        callbacks := w.callbacks.filter (·.task != t.id) } := by
  have hfinish : putBack w t o c = finish ({ w with running := none }.modifyTask t.id fun u =>
      { u with context := c, continuation := o.next }) t (verdict o c) := by
    unfold putBack
    cases hv : verdict o c with
    | running =>
      rw [hv] at h
      cases h
    | completed v => rfl
    | failed failure => rfl
  have htasks : (w.tasks.map fun u => if u.id == t.id then
        { u with context := c, continuation := o.next } else u).map
        (fun u => if u.id == t.id then { u with status := verdict o c } else u) =
      w.tasks.map fun u => if u.id = t.id then after o c u else u := by
    simp only [List.map_map, beq_iff_eq]
    refine List.map_congr_left ?_
    intro u _
    by_cases hu : u.id = t.id <;> simp [hu, after_of_news o c h]
  rw [hfinish, ← htasks]
  simp only [finish, h, List.partition_eq_filter_filter]
  rfl

/-- Only callbacks and their calls depend on more than the verdict. -/
theorem putBack_eq :
    ∃ callbacks notices, putBack w t o c = { w with
      running := none
      pools := if (verdict o c).isFinished then w.pools.remove t.id else w.pools
      tasks := w.tasks.map fun u => if u.id = t.id then after o c u else u
      callbacks, notices } := by
  cases hnews : (verdict o c).news? with
  | none =>
    have hv := eq_running_of_news? hnews
    rw [putBack_of_running w t o c hv, hv]
    exact ⟨_, _, rfl⟩
  | some news =>
    have hv : (verdict o c).isFinished := by
      cases hv : verdict o c <;> simp [hv, TaskStatus.news?, TaskStatus.isFinished] at hnews ⊢
    rw [putBack_of_news w t o c hnews, if_pos hv]
    exact World.Informs.foldl_call _ news _

theorem putBack_tasks :
    (putBack w t o c).tasks = w.tasks.map fun u => if u.id = t.id then after o c u else u := by
  obtain ⟨_, _, heq⟩ := putBack_eq w t o c
  rw [heq]

theorem putBack_ids : (putBack w t o c).tasks.map Task.id = w.tasks.map Task.id := by
  rw [putBack_tasks, List.map_map]
  exact List.map_congr_left fun u _ => id_ite_after t o c u

theorem putBack_unfinished :
    (putBack w t o c).unfinished.map Task.id =
      if (verdict o c).isFinished then (w.unfinished.map Task.id).filter (· != t.id)
      else w.unfinished.map Task.id := by
  have hfinished (u : Task) : (if u.id = t.id then after o c u else u).status.isFinished =
      ((verdict o c).isFinished && u.id == t.id || u.status.isFinished) := by
    by_cases hu : u.id = t.id <;> simp [hu, after_isFinished]
  simp only [World.unfinished, putBack_tasks, List.filter_map, List.map_map, Function.comp_def,
    id_ite_after, hfinished]
  by_cases hv : (verdict o c).isFinished
  · simp only [hv, if_true, Bool.true_and, List.filter_filter]
    congr 2
    funext u
    by_cases hu : u.id = t.id <;> simp [hu, bne]
  · simp [hv]

theorem putBack_pools :
    (putBack w t o c).pools =
      if (verdict o c).isFinished then w.pools.remove t.id else w.pools := by
  obtain ⟨_, _, heq⟩ := putBack_eq w t o c
  rw [heq]

theorem putBack_promises : (putBack w t o c).promises = w.promises := by
  obtain ⟨_, _, heq⟩ := putBack_eq w t o c
  rw [heq]

end PutBack

end Scheduler

end TaskletMachine
