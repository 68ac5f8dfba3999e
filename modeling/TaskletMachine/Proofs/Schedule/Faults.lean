import TaskletMachine.Proofs.Machine.Exceptions
import TaskletMachine.Proofs.Schedule.Callbacks

/-!
# The faults of a scheduler

With the builtins of the core library all faults are exceptions: those of the tasklets, whether they
have their turn or wait for it, those that have ended a task, and those that callbacks were told of.
This holds at every moment in the life of a scheduler, if its host does what hosts can do: it takes
no object away, and does not make up faults.

## Main definitions

* `Scheduler.Event.Honest`: what hosts can do.
* `Moment.Goes`, `Moment.Reaches`: the life of a scheduler with such a host.
* `Moment.Holds`: the faults that are held at a moment.
* `Moment.Steps`: what tasklets do next.
* `Moment.faults_are_exceptions`: they are exceptions.
-/
namespace TaskletMachine

open Exec

/-! ## Contexts -/

section Contexts

variable {c : Context} {h : Heap} {base : ClassRef}

/-- A tasklet that has not started holds no fault. -/
theorem Context.holdsExceptions_start (unit : CodeUnit) {builtins : Namespace}
    (globals : Namespace) (hbuiltins : h.DefinesExceptions builtins base) :
    (Context.start unit builtins globals).HoldsExceptions h base := by
  let first : Context := { frames := [Frame.start unit .push], builtins }
  have hfirst : first.HoldsExceptions h base := by
    refine ⟨hbuiltins, fun fault hfault => ?_⟩
    cases hfault with
    | pending hfault => cases hfault
    | handled hfault => cases hfault
    | kept place hfault =>
      obtain ⟨f, hf, b, hb, -⟩ := hfault
      obtain rfl := List.mem_singleton.1 (Context.mem_frames_iff_frameAt?.2 ⟨place, hf⟩)
      cases hb
  -- to set the globals leaves the blocks of the root frame as they are
  exact hfirst.calm (.setGlobals globals first) (.refl h)

theorem Context.HoldsExceptions.prepare (hc : c.HoldsExceptions h base) (s : Scheduler) :
    (s.prepare c).HoldsExceptions h base :=
  hc.calm ⟨rfl, rfl, rfl, fun _ _ => id⟩ (.refl h)

end Contexts

/-! ## Tasks that are ended by a fault -/

section Tasks

variable {c : Context} {o : RunOutcome} {fault : Fault}

theorem Context.fault_of_unhandled? (h : c.unhandled? = some fault) : c.fault = some fault := by
  unfold Context.unhandled? at h
  split at h
  · exact h
  · cases h

theorem TaskStatus.eq_failed_of_news? {status : TaskStatus} {failure : TaskFailure}
    (h : status.news? = some (.failed failure)) : status = .failed failure := by
  cases status with
  | failed failure' =>
    cases h
    rfl
  | _ => cases h

namespace Scheduler

/-- The fault that ends a tasklet is the one that is pending. -/
theorem fault_of_verdict (h : verdict o c = .failed (.unhandled fault)) : c.fault = some fault := by
  cases o with
  | faulted =>
    simp only [verdict] at h
    split at h
    · next hunhandled =>
      cases h
      exact Context.fault_of_unhandled? hunhandled
    · cases h
  | fatal =>
    simp only [verdict] at h
    split at h <;> cases h
  | _ => cases h

/-- A task that is ended by a fault was ended by it before, or is ended by the pending one. -/
theorem unhandled_after {u : Task} (h : (after o c u).status = .failed (.unhandled fault)) :
    u.status = .failed (.unhandled fault) ∨ c.fault = some fault := by
  unfold after at h
  dsimp only at h
  split at h
  · exact .inl h
  · exact .inr (fault_of_verdict h)

end Scheduler

end Tasks

/-! ## Worlds -/

/-- Callbacks change neither the tasks nor the heap. -/
theorem World.Informs.keeps {w w' : World} (h : w.Informs w') :
    w'.tasks = w.tasks ∧ w.Grows w' := by
  obtain ⟨_, _, rfl⟩ := h
  exact ⟨rfl, .refl w.heap⟩

/-- The tasks hold exceptions, and those that were ended by a fault were ended by an exception. -/
structure World.HoldsExceptions (w : World) (base : ClassRef) : Prop where
  contexts : ∀ t ∈ w.tasks, t.context.HoldsExceptions w.heap base
  failures : ∀ t ∈ w.tasks, ∀ fault, t.status = .failed (.unhandled fault) →
    w.heap.IsException base fault.value

namespace World.HoldsExceptions

variable {w w' : World} {base : ClassRef}

/-- The tasks stay, and the heap grows. -/
theorem of_tasks (hw : w.HoldsExceptions base) (htasks : w'.tasks = w.tasks)
    (hgrows : w.Grows w') : w'.HoldsExceptions base := by
  refine ⟨fun t ht => ?_, fun t ht fault hfault => ?_⟩
  · exact (hw.contexts t (htasks ▸ ht)).calm (.refl t.context) hgrows
  · exact hgrows.isException (hw.failures t (htasks ▸ ht) fault hfault)

/-- A task is added that has not started. -/
theorem newTask (hw : w.HoldsExceptions base) (id : TaskletId) {c : Context} (pools : Pools)
    (hc : c.HoldsExceptions w.heap base) :
    HoldsExceptions { w with tasks := w.tasks ++ [{ id, context := c }], pools } base := by
  constructor
  · intro t ht
    rcases List.mem_append.1 ht with ht | ht
    · exact hw.contexts t ht
    · rw [List.mem_singleton.1 ht]
      exact hc
  · intro t ht fault hfault
    rcases List.mem_append.1 ht with ht | ht
    · exact hw.failures t ht fault hfault
    · rw [List.mem_singleton.1 ht] at hfault
      cases hfault

/-- A task is put back after a run, which may have ended it by a fault that the tasklet holds. -/
theorem putBack (hw : w.HoldsExceptions base) (t : Task) (o : RunOutcome) {c : Context}
    (hc : c.HoldsExceptions w.heap base) :
    (Scheduler.putBack w t o c).HoldsExceptions base := by
  obtain ⟨callbacks, notices, heq⟩ := Scheduler.putBack_eq w t o c
  rw [heq]
  constructor
  · intro u hu
    obtain ⟨u, hmem, rfl⟩ := List.mem_map.1 hu
    split
    · rw [Scheduler.after_context]
      exact hc
    · exact hw.contexts u hmem
  · intro u hu fault hfault
    obtain ⟨u, hmem, rfl⟩ := List.mem_map.1 hu
    split at hfault
    · rcases Scheduler.unhandled_after hfault with hfault | hfault
      · exact hw.failures u hmem fault hfault
      · exact hc.faults fault (.pending hfault)
    · exact hw.failures u hmem fault hfault

end World.HoldsExceptions

/-! ## The life of a scheduler -/

/-- What a host can do. It takes no object away, and the contexts that it schedules have builtins
that name the exception classes, and no faults but exceptions. -/
def Scheduler.Event.Honest (base : ClassRef) (s : Scheduler) : Event → Prop
  | schedule c => c.HoldsExceptions s.world.heap base
  | setHeap heap => s.world.heap.Grows heap
  | _ => True

theorem Scheduler.Event.InTick.honest {e : Event} (h : e.InTick) (base : ClassRef)
    (s : Scheduler) : e.Honest base s := by
  cases e with
  | schedule c => exact h.elim
  | setHeap heap => exact h.elim
  | _ => trivial

namespace Moment

open Scheduler

/-- What happens next in the life of a scheduler with an honest host. Whatever tasklets do is part of
it. -/
inductive Goes (base : ClassRef) : Moment → List Request → Moment → Prop
  | act {s s' : Scheduler} {e : Event} (hhonest : e.Honest base s) (hact : s.act e = some s') :
      Goes base (.between s) e.made (.between s')
  | begins {s : Scheduler} {t : Task} {p : Progress} {made : List Request}
      (h : Next (.between s) made (.during s t p)) : Goes base (.between s) made (.during s t p)
  | turn {s : Scheduler} {t : Task} {p : Progress} {m : Moment} {made : List Request}
      (h : Next (.during s t p) made m) : Goes base (.during s t p) made m

/-- The moments that a scheduler comes to. -/
inductive Reaches (base : ClassRef) (start : Moment) : Moment → Prop
  | refl : Reaches base start start
  | next {m m' : Moment} {made : List Request} (h : Reaches base start m)
      (hgoes : m.Goes base made m') : Reaches base start m'

variable {base : ClassRef} {start m m' : Moment} {made : List Request}

theorem Goes.next (h : m.Goes base made m') : m.Next made m' := by
  cases h with
  | act hhonest hact => exact .act hact
  | begins h => exact h
  | turn h => exact h

theorem Reaches.history (h : Reaches base start m) : ∃ made, History start made m := by
  induction h with
  | refl => exact ⟨[], .refl start⟩
  | next _ hgoes ih =>
    obtain ⟨made, hhistory⟩ := ih
    exact ⟨_, hhistory.next hgoes.next⟩

/-! ## Ticks and runs -/

theorem Reaches.acts {s s' : Scheduler} {events : List Event}
    (h : Reaches base start (.between s)) (hevents : ∀ e ∈ events, e.InTick)
    (hacts : s.acts events = some s') : Reaches base start (.between s') := by
  induction events generalizing s with
  | nil =>
    cases hacts
    exact h
  | cons e events ih =>
    obtain ⟨hfirst, hrest⟩ := List.forall_mem_cons.1 hevents
    obtain ⟨s₁, hact, hacts⟩ := Option.bind_eq_some_iff.1 hacts
    exact ih (h.next (.act (hfirst.honest base s) hact)) hrest hacts

/-- A tick is part of the life of a scheduler. -/
theorem Reaches.tick {s s' : Scheduler} {steps : Nat} (h : Reaches base start (.between s))
    (htick : s.tick steps = some s') : Reaches base start (.between s') := by
  obtain ⟨events, hevents, hacts⟩ := tick_acts htick
  exact h.acts hevents hacts

/-- So is a run. -/
theorem Reaches.run {s s' : Scheduler} {steps ticks : Nat} (h : Reaches base start (.between s))
    (hrun : s.run steps ticks = some s') : Reaches base start (.between s') := by
  obtain ⟨events, hevents, hacts⟩ := run_acts hrun
  exact h.acts hevents hacts

/-! ## The invariant -/

/-- The scheduler at a moment; during a turn it is as it was when the turn began. -/
def scheduler : Moment → Scheduler
  | between s => s
  | during s _ _ => s

/-- The invariant of the life of a scheduler. -/
structure HoldsExceptions (m : Moment) (base : ClassRef) : Prop where
  host : m.scheduler.vm.host.Grows
  builtins : m.world.heap.DefinesExceptions m.scheduler.builtins base
  world : m.world.HoldsExceptions base
  turn : ∀ s t p, m = during s t p → p.machine.HoldsExceptions base

theorem HoldsExceptions.between {s s' : Scheduler} (hs : (between s).HoldsExceptions base)
    (hvm : s'.vm = s.vm) (hbuiltins : s'.builtins = s.builtins) (hgrows : s.world.Grows s'.world)
    (hworld : s'.world.HoldsExceptions base) : (Moment.between s').HoldsExceptions base := by
  refine ⟨?_, ?_, hworld, fun _ _ _ h => nomatch h⟩
  · show s'.vm.host.Grows
    rw [hvm]
    exact hs.host
  · show s'.world.heap.DefinesExceptions s'.builtins base
    rw [hbuiltins]
    exact hgrows.definesExceptions hs.builtins

/-- A tasklet takes a step. -/
theorem HoldsExceptions.step {s : Scheduler} {t : Task} {p p' : Progress}
    (hm : (during s t p).HoldsExceptions base) (hstep : s.vm.CalmOrRaises World.Grows p p')
    (htasks : p'.machine.world.tasks = p.machine.world.tasks) :
    (during s t p').HoldsExceptions base := by
  refine ⟨hm.host, hstep.grows.definesExceptions hm.builtins, hm.world.of_tasks htasks hstep.grows,
    ?_⟩
  rintro _ _ _ ⟨⟩
  exact hstep.holdsExceptions hm.host (hm.turn s t p rfl)

/-- A tasklet begins its turn. -/
theorem HoldsExceptions.begin {s : Scheduler} {t : Task}
    (hs : (Moment.between s).HoldsExceptions base) (hplain : t.continuation.Plain)
    (ht : t ∈ s.world.tasks) :
    (during s t (s.vm.entry t.continuation (s.machine t))).HoldsExceptions base := by
  have hworld : (s.machine t).world.HoldsExceptions base :=
    hs.world.of_tasks rfl (Heap.Grows.refl _)
  have hstart : (during s t (.stopped (.suspended t.continuation) (s.machine t))).HoldsExceptions
      base := by
    refine ⟨hs.host, hs.builtins, hworld, ?_⟩
    rintro _ _ _ ⟨⟩
    exact hs.world.contexts t ht
  exact hstart.step (Vm.calm_or_raises_entry (World.Grows.admits hs.host) _ _)
    (Vm.leads_entry hplain (s.machine t)).tasks_eq

/-- A tasklet goes on with its turn. -/
theorem HoldsExceptions.advance {s : Scheduler} {t : Task} {phase : Phase} {m : Machine}
    (hm : (during s t (.running phase m)).HoldsExceptions base) (hphase : phase.Plain) :
    (during s t (s.vm.advance phase m)).HoldsExceptions base :=
  hm.step (Vm.calm_or_raises_advance (World.Grows.admits hm.host) phase m)
    (Vm.leads_advance ⟨hphase, .refl⟩).tasks_eq

/-- A turn ends. -/
theorem HoldsExceptions.stop {s : Scheduler} {t : Task} {o : RunOutcome} {m : Machine}
    (hm : (during s t (.stopped o m)).HoldsExceptions base) :
    (Moment.between { s with world := putBack m.world t o m.context }).HoldsExceptions base := by
  have hworld := hm.world.putBack t o (hm.turn s t _ rfl)
  refine ⟨hm.host, ?_, hworld, fun _ _ _ h => nomatch h⟩
  obtain ⟨_, _, heq⟩ := putBack_eq m.world t o m.context
  simp only [Moment.world, heq]
  exact hm.builtins

/-- A turn goes on until it ends. -/
theorem HoldsExceptions.runFor {s : Scheduler} {t : Task} {p : Progress} {steps : Nat}
    {o : RunOutcome} {m : Machine} (hm : (during s t p).HoldsExceptions base)
    (horderly : (during s t p).Orderly) (hrun : s.vm.runFor steps p = some (o, m)) :
    (during s t (.stopped o m)).HoldsExceptions base := by
  induction steps generalizing p with
  | zero =>
    cases p with
    | running phase m => cases hrun
    | stopped o m =>
      cases hrun
      exact hm
  | succ steps ih =>
    cases p with
    | running phase m =>
      have hnext := (Next.step s t phase m).orderly horderly
      exact ih (hm.advance horderly.turn.running.2.2) hnext hrun
    | stopped o m =>
      cases hrun
      exact hm

/-- A tasklet has its turn, from its beginning to its end. -/
theorem HoldsExceptions.resume {s : Scheduler} {t : Task} {steps : Nat} {o : RunOutcome}
    {m : Machine} (hs : (Moment.between s).HoldsExceptions base)
    (horderly : (Moment.between s).Orderly) (hruns : s.Runs steps t o m) :
    (Moment.between { s with world := putBack m.world t o m.context }).HoldsExceptions base := by
  have hbegin := hs.begin (horderly.plain t hruns.mem_tasks) hruns.mem_tasks
  have hnext := (Next.begin hruns.active hruns.task).orderly horderly
  exact (hbegin.runFor hnext ((Vm.resume_eq _ _ _ _).symm.trans hruns.ends)).stop

/-- Tasklets that guest code has asked for are started. -/
theorem HoldsExceptions.startSpawned {s : Scheduler}
    (hs : (Moment.between s).HoldsExceptions base) :
    (Moment.between s.startSpawned).HoldsExceptions base := by
  have hspawns (spawns : List Spawn) (s : Scheduler)
      (hs : (Moment.between s).HoldsExceptions base) :
      (Moment.between (spawns.foldl startSpawn s)).HoldsExceptions base := by
    induction spawns generalizing s with
    | nil => exact hs
    | cons spawn spawns ih =>
      have hstart := Context.holdsExceptions_start spawn.unit
        ((inherited s.world spawn).setAll spawn.globals) hs.builtins
      exact ih _ (hs.between rfl rfl (.refl _) (hs.world.newTask _ _ (hstart.prepare s)))
  exact hspawns _ _ (hs.between rfl rfl (.refl _) (hs.world.of_tasks rfl (.refl _)))

/-- An honest host makes up no faults. -/
theorem HoldsExceptions.act {s s' : Scheduler} {e : Event}
    (hs : (Moment.between s).HoldsExceptions base) (horderly : (Moment.between s).Orderly)
    (hhonest : e.Honest base s) (hact : s.act e = some s') :
    (Moment.between s').HoldsExceptions base := by
  -- most events change no task
  have hsame (w : World) (htasks : w.tasks = s.world.tasks) (hheap : s.world.heap.Grows w.heap) :
      (Moment.between { s with world := w }).HoldsExceptions base :=
    hs.between rfl rfl hheap (hs.world.of_tasks htasks hheap)
  cases e with
  | schedule c =>
    cases hact
    exact hs.between rfl rfl (.refl _) (hs.world.newTask _ _ (hhonest.prepare _))
  | signal signal =>
    cases hact
    refine hsame _ (World.Change.signal s.world signal).keeps.1 ?_
    rw [World.heap_signal]
    exact .refl _
  | newPromise =>
    cases hact
    exact hsame _ rfl (.refl _)
  | setHeap heap =>
    cases hact
    exact hsame _ rfl hhonest
  | register r =>
    cases hact
    obtain ⟨htasks, hgrows⟩ := (s.informs_register r).keeps
    exact hsame _ htasks hgrows
  | startSpawned =>
    cases hact
    exact hs.startSpawned
  | beginTick =>
    cases hact
    exact hs.between rfl rfl (.refl _) (hs.world.of_tasks rfl (.refl _))
  | turn steps id =>
    rcases turn_cases hact with ⟨rfl, _⟩ | ⟨t, o, m, rfl, hruns, rfl⟩
    · exact hs
    · exact hs.resume horderly hruns

theorem Goes.holdsExceptions (h : m.Goes base made m') (horderly : m.Orderly)
    (hm : m.HoldsExceptions base) : m'.HoldsExceptions base := by
  cases h with
  | act hhonest hact => exact hm.act horderly hhonest hact
  | @begins s t p made h =>
    cases h with
    | begin hactive ht =>
      have hmem := (List.mem_filter.1 ht).1
      exact hm.begin (horderly.plain t hmem) hmem
  | turn h =>
    cases h with
    | step s t phase m => exact hm.advance horderly.turn.running.2.2
    | register s t phase m r =>
      obtain ⟨htasks, hgrows⟩ := (World.Records.register m.world r).informs.keeps
      exact hm.step (.inl ⟨.refl m.context, hgrows⟩) htasks
    | stop s t o m => exact hm.stop

/-- A new scheduler is orderly. -/
theorem orderly_new (vm : Vm) (builtins : Option Namespace) (loader : Option (Names ModuleRef))
    (heap : Heap) : (between (.new vm builtins loader { heap := heap })).Orderly :=
  ⟨⟨.refl _, List.nodup_nil, fun _ hid => absurd hid List.not_mem_nil⟩,
    fun _ ht => absurd ht List.not_mem_nil, trivial⟩

/-- A new scheduler has no tasklets. -/
theorem holdsExceptions_new {vm : Vm} {heap : Heap} (builtins : Option Namespace)
    (loader : Option (Names ModuleRef)) (hhost : vm.host.Grows)
    (hbuiltins : heap.DefinesExceptions (builtins.getD vm.library.builtins) base) :
    (between (.new vm builtins loader { heap := heap })).HoldsExceptions base := by
  unfold Scheduler.new
  exact ⟨hhost, (grows_installSys heap).definesExceptions hbuiltins,
    ⟨fun _ ht => absurd ht List.not_mem_nil, fun _ ht => absurd ht List.not_mem_nil⟩,
    fun _ _ _ h => nomatch h⟩

/-- At every moment tasklets hold exceptions. -/
theorem Reaches.holdsExceptions (h : Reaches base start m) (horderly : start.Orderly)
    (hstart : start.HoldsExceptions base) : m.HoldsExceptions base := by
  induction h with
  | refl => exact hstart
  | next h hgoes ih =>
    obtain ⟨_, hhistory⟩ := h.history
    exact hgoes.holdsExceptions (hhistory.orderly horderly) ih

/-! ## The faults at a moment -/

/-- A fault is held at a moment: by the tasklet that has its turn, by a task, as the failure that
has ended a task, or as the news that a callback was told. -/
inductive Holds (m : Moment) (fault : Fault) : Prop
  | turn (s : Scheduler) (t : Task) (p : Progress) (hm : m = during s t p)
      (h : p.machine.context.Holds fault)
  | task (t : Task) (ht : t ∈ m.world.tasks) (h : t.context.Holds fault)
  | failed (t : Task) (ht : t ∈ m.world.tasks) (h : t.status = .failed (.unhandled fault))
  | told (n : Notice) (hn : n ∈ m.world.notices) (h : n.news = .failed (.unhandled fault))

theorem Holds.of_status {id : TaskletId} {fault : Fault}
    (h : m.world.status? id = some (.failed (.unhandled fault))) : m.Holds fault := by
  obtain ⟨t, htask, hstatus⟩ := Option.map_eq_some_iff.1 h
  exact .failed t (List.mem_of_find?_eq_some htask) hstatus

/-- What a tasklet does at a moment: it begins its turn, or goes on with it. -/
inductive Steps : Moment → Progress → Progress → Prop
  | begins (s : Scheduler) (t : Task) (ht : t ∈ s.world.unfinished) :
      Steps (between s) (.stopped (.suspended t.continuation) (s.machine t))
        (s.vm.entry t.continuation (s.machine t))
  | goesOn (s : Scheduler) (t : Task) (phase : Phase) (m : Machine) :
      Steps (during s t (.running phase m)) (.running phase m) (s.vm.advance phase m)

/-- Callbacks are told how tasks have ended. -/
theorem exists_task_of_told {made : List Request} (h : m.world.Accounted made) {n : Notice}
    (hn : n ∈ m.world.notices) {failure : TaskFailure} (hnews : n.news = .failed failure) :
    ∃ t ∈ m.world.tasks, t.status = .failed failure := by
  obtain ⟨_, hledger⟩ := h
  obtain ⟨hcalled, _⟩ := hledger.called n (Array.mem_toList_iff.2 hn)
  obtain ⟨t, htask, hstatus⟩ := Option.bind_eq_some_iff.1 hcalled
  refine ⟨t, List.mem_of_find?_eq_some htask, ?_⟩
  exact TaskStatus.eq_failed_of_news? (hstatus.trans (congrArg some hnews))

/-- What an invariant moment says about faults. -/
theorem HoldsExceptions.isException {made : List Request} (hm : m.HoldsExceptions base)
    (haccounted : m.world.Accounted made) {fault : Fault} (hfault : m.Holds fault) :
    m.world.heap.IsException base fault.value := by
  cases hfault with
  | turn s t p heq h =>
    subst heq
    exact (hm.turn s t p rfl).faults fault h
  | task t ht h => exact (hm.world.contexts t ht).faults fault h
  | failed t ht h => exact hm.world.failures t ht fault h
  | told n hn h =>
    obtain ⟨t, ht, hstatus⟩ := exists_task_of_told haccounted hn h
    exact hm.world.failures t ht fault hstatus

/-- **Every fault is an exception.** A scheduler is made on a heap with the core library, and the
builtins of its tasklets name the exceptions as those of the library do. Native functions do what
they want, but take no object away, and so does the host. Then at every moment all faults that are
held, whatever was raised, are instances of classes that derive from the root of all exceptions.
And whatever a tasklet does next is calm or raises a fault, and if a guard of clauses catches the
fault, the handler finds such an instance on top of the stack. -/
theorem faults_are_exceptions {vm : Vm} {h₀ heap : Heap} {builtins : Option Namespace}
    {loader : Option (Names ModuleRef)} (hhost : vm.host.Grows)
    (hheap : (Library.install h₀).2.Grows heap)
    (hbuiltins : ∀ kind : ExceptionKind, (builtins.getD vm.library.builtins).find? kind.name =
      (Library.install h₀).1.builtins.find? kind.name) :
    ∃ base, (Library.install h₀).1.builtins.find? "BaseException" = some (.classObj base) ∧
      ∀ m, Reaches base (between (.new vm builtins loader { heap := heap })) m →
        (∀ fault, m.Holds fault →
          ∃ r, fault.value = .instanceObj r ∧ m.world.heap.isInstance r base) ∧
        ∀ p p', m.Steps p p' → m.scheduler.vm.CalmOrRaises World.Grows p p' ∧
          m.scheduler.vm.HandsExceptions base p p' := by
  obtain ⟨base, hlibrary⟩ := Library.definesExceptions_install h₀
  refine ⟨base, hlibrary.root, fun m hm => ?_⟩
  let start := between (.new vm builtins loader { heap := heap })
  have horderly : start.Orderly := orderly_new vm builtins loader heap
  have hstart : start.HoldsExceptions base := by
    obtain ⟨hroot, hderives⟩ := hheap.definesExceptions hlibrary
    refine holdsExceptions_new builtins loader hhost ⟨(hbuiltins .baseException).trans hroot, ?_⟩
    intro kind
    rw [hbuiltins kind]
    exact hderives kind
  have hexceptions := hm.holdsExceptions horderly hstart
  constructor
  · intro fault hfault
    obtain ⟨made, hhistory⟩ := hm.history
    have haccounted : start.world.Accounted [] := ⟨[], .nil⟩
    exact hexceptions.isException ((hhistory.course horderly).accounted haccounted) hfault
  · intro p p' hsteps
    have hW := World.Grows.admits hexceptions.host
    cases hsteps with
    | begins s t ht =>
      refine ⟨Vm.calm_or_raises_entry hW _ _, Vm.handsExceptions hexceptions.host ?_⟩
      exact hexceptions.world.contexts t (List.mem_filter.1 ht).1
    | goesOn s t phase m =>
      refine ⟨Vm.calm_or_raises_advance hW phase m, Vm.handsExceptions hexceptions.host ?_⟩
      exact hexceptions.turn s t _ rfl

/-! ## A number that is raised -/

namespace RaisedNumber

/-- A machine with the core library. -/
def vm : Vm :=
  { (default : Vm) with library := (Library.install {}).1 }

/-- A unit that raises a number. -/
def unit : CodeUnit :=
  { name := "main", bytes := #[0x64, 0, 0, 0x82, 1, 0], constants := #[.int 5] }

/-- A scheduler without tasklets. -/
def first : Scheduler :=
  .new vm none none { heap := (Library.install {}).2 }

/-- The tasklet that executes the unit. -/
def context : Context :=
  Context.start unit first.builtins []

/-- How the tick ends in which the tasklet has its turn. -/
def last : Option Scheduler :=
  (first.scheduleContext context).2.tick 4

theorem text_of_fault : (last.bind fun s =>
    match s.world.status? 1 with
    | some (.failed (.unhandled fault)) => some (fault.text s.world.heap)
    | _ => none) = some ("Traceback (most recent call last):\n  'main' (ip 3)\n" ++
      "TypeError: exceptions must derive from BaseException") := by
  decide +kernel

end RaisedNumber

open RaisedNumber in
/-- A tasklet that raises a number is ended by an exception that complains about it. -/
theorem RaisedNumber.fault_of_number :
    ∃ base s fault, Reaches base (between first) (between s) ∧
      s.world.status? 1 = some (.failed (.unhandled fault)) ∧
      (∃ r, fault.value = .instanceObj r ∧ s.world.heap.isInstance r base) ∧
      fault.text s.world.heap = "Traceback (most recent call last):\n  'main' (ip 3)\n" ++
        "TypeError: exceptions must derive from BaseException" := by
  have hhost : vm.host.Grows := fun _ _ _ w => .refl w.heap
  obtain ⟨base, hroot, hfaults⟩ := @faults_are_exceptions vm {} (Library.install {}).2 none none
    hhost (.refl _) fun _ => by rfl
  have hhonest : context.HoldsExceptions first.world.heap base := by
    obtain ⟨base', hlibrary⟩ := Library.definesExceptions_install {}
    cases hlibrary.root.symm.trans hroot
    exact Context.holdsExceptions_start unit []
      (holdsExceptions_new none none hhost hlibrary).builtins
  have hscheduled : Reaches base (between first) (between (first.scheduleContext context).2) :=
    .next .refl (.act (e := .schedule context) hhonest rfl)
  obtain ⟨s, hlast, htext⟩ := Option.bind_eq_some_iff.1 text_of_fault
  have hended := hscheduled.tick hlast
  split at htext
  · next fault hstatus =>
    have hexception := (hfaults _ hended).1 fault (.of_status hstatus)
    exact ⟨base, s, fault, hended, hstatus, hexception, Option.some.inj htext⟩
  · cases htext

end Moment

end TaskletMachine
