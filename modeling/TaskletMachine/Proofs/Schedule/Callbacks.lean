import TaskletMachine.Proofs.Schedule.Partition

/-!
# Callbacks for the end of a task

Callbacks are registered at any moment: between two turns, during a turn, and while another callback
is called. Whatever happens in which order, the status of a task that has ended does not change any
more, and from then on the callbacks for this ending, and no others, have been called once each.

## Main definitions

* `Moment`, `Moment.Next`, `Moment.History`: what happens to a scheduler, step by step.
* `World.Course`: what of this matters to callbacks.
* `World.Accounted`: the account of all callbacks.
* `Moment.History.callbacks_called_once`: what follows for a history.
-/
namespace TaskletMachine

/-! ## Worlds -/

/-- How a task stands, if it was started. -/
def World.status? (w : World) (id : TaskletId) : Option TaskStatus :=
  (w.task? id).map Task.status

/-- The calls of callbacks for a task. -/
def World.calls (w : World) (id : TaskletId) : List Notice :=
  w.notices.toList.filter (·.request.task = id)

/-- All callbacks that were registered, if those that no other callback has registered are given. -/
def World.registered (w : World) (made : List Request) : List Request :=
  made ++ w.notices.toList.flatMap Notice.made

/-- The account of all callbacks balances. -/
def World.Accounted (w : World) (made : List Request) : Prop :=
  ∃ dropped, Ledger w.news? made w.notices.toList w.callbacks dropped

/-- What matters to callbacks when the world changes and some of them are registered. -/
inductive World.Course : World → List Request → World → Prop
  /-- Nothing but that tasks are started. -/
  | quiet {w w' : World}
      (hstatus : ∀ id, w'.status? id = w.status? id ∨
        w.status? id = none ∧ w'.status? id = some .running)
      (hcallbacks : w'.callbacks = w.callbacks) (hnotices : w'.notices = w.notices) :
      Course w [] w'
  | register (w : World) (r : Request) : Course w [r] (w.register r)
  /-- A task ends. -/
  | ends {w w₁ : World} {id : TaskletId} {status : TaskStatus} {news : News}
      (hrunning : w.status? id = some .running) (hended : w₁.status? id = some status)
      (hnews : status.news? = some news)
      (hothers : ∀ id', id' ≠ id → w₁.status? id' = w.status? id')
      (hcallbacks : w₁.callbacks = w.callbacks.filter (·.task != id))
      (hnotices : w₁.notices = w.notices) :
      Course w [] ((w.released id news.ending).foldl (World.call · news) w₁)
  | trans {w w₁ w₂ : World} {made made' : List Request} (h : Course w made w₁)
      (h' : Course w₁ made' w₂) : Course w (made ++ made') w₂

namespace World

variable {w w' w₁ : World} {made made' : List Request} {id : TaskletId}

theorem news?_eq (w : World) (id : TaskletId) :
    w.news? id = (w.status? id).bind TaskStatus.news? := by
  rw [news?, status?, Option.bind_map]
  rfl

theorem news?_of_status {status : TaskStatus} (h : w.status? id = some status) :
    w.news? id = status.news? := by
  rw [news?_eq, h, Option.bind_some]

theorem status?_of_tasks (h : w'.tasks = w.tasks) : w'.status? = w.status? := by
  funext id
  simp only [status?, task?, h]

theorem Informs.status? (h : w.Informs w') : w'.status? = w.status? := by
  obtain ⟨_, _, rfl⟩ := h
  rfl

/-! ## What holds on every course -/

/-- A task that was started remains known, and its status does not change once it has ended. -/
theorem Course.status (h : w.Course made w') {status : TaskStatus}
    (hid : w.status? id = some status) :
    ∃ status', w'.status? id = some status' ∧ (status.isFinished → status' = status) := by
  induction h generalizing status with
  | quiet hstatus _ _ =>
    rcases hstatus id with heq | ⟨hnone, _⟩
    · exact ⟨status, heq.trans hid, fun _ => rfl⟩
    · rw [hid] at hnone
      cases hnone
  | register w r =>
    rw [(Records.register w r).informs.status?]
    exact ⟨status, hid, fun _ => rfl⟩
  | @ends w w₁ id' status' news hrunning hended _ hothers _ _ =>
    rw [(Informs.foldl_call w₁ news _).status?]
    by_cases heq : id = id'
    · subst heq
      refine ⟨status', hended, fun hfinished => ?_⟩
      rw [hrunning, Option.some.injEq] at hid
      rw [← hid] at hfinished
      cases hfinished
    · exact ⟨status, (hothers id heq).trans hid, fun _ => rfl⟩
  | trans _ _ ih ih' =>
    obtain ⟨status₁, hid₁, hsame⟩ := ih hid
    obtain ⟨status₂, hid₂, hsame'⟩ := ih' hid₁
    refine ⟨status₂, hid₂, fun hfinished => ?_⟩
    have heq := hsame hfinished
    rw [hsame' (heq ▸ hfinished), heq]

/-- The callbacks that have waited for the end of a task are called when it ends. -/
theorem records_released {news : News} (hended : w₁.news? id = some news) :
    w₁.Records (w.released id news.ending)
      ((w.released id news.ending).foldl (World.call · news) w₁) :=
  .foldl_call hended fun _ hr => mem_released hr

/-- The calls of callbacks are never taken back. -/
theorem Course.notices (h : w.Course made w') : ∃ later, w'.notices = w.notices ++ later := by
  induction h with
  | quiet _ _ hnotices => exact ⟨#[], by rw [hnotices, Array.append_empty]⟩
  | register w r =>
    obtain ⟨_, _, _, _, _, hnotices⟩ := (Records.register w r).ledger
    exact ⟨_, hnotices⟩
  | @ends w _ _ _ _ _ hended hnews _ _ hsame =>
    have hended := (news?_of_status hended).trans hnews
    obtain ⟨_, _, _, _, _, hnotices⟩ := (records_released (w := w) hended).ledger
    exact ⟨_, hnotices.trans (by rw [hsame])⟩
  | trans _ _ ih ih' =>
    obtain ⟨later, hlater⟩ := ih
    obtain ⟨later', hlater'⟩ := ih'
    exact ⟨later ++ later', by rw [hlater', hlater, Array.append_assoc]⟩

/-- The account of all callbacks balances on every course. -/
theorem Course.accounted (h : w.Course made' w') (ha : w.Accounted made) :
    w'.Accounted (made ++ made') := by
  induction h generalizing made with
  | @quiet w w' hstatus hcallbacks hnotices =>
    obtain ⟨dropped, hledger⟩ := ha
    have hnews : w'.news? = w.news? := by
      funext id
      rw [news?_eq, news?_eq]
      rcases hstatus id with heq | ⟨hnone, hsome⟩
      · rw [heq]
      · rw [hnone, hsome]
        rfl
    rw [List.append_nil]
    refine ⟨dropped, ?_⟩
    rwa [hnews, hcallbacks, hnotices]
  | register w r =>
    obtain ⟨dropped, hledger⟩ := ha
    have hrecords := Records.register w r
    obtain ⟨calls, waiting, dropped', hledger', hcallbacks, hnotices⟩ := hrecords.ledger
    rw [← hrecords.informs.news?] at hledger
    refine ⟨dropped ++ dropped', ?_⟩
    rw [hcallbacks, hnotices, Array.toList_append]
    exact hledger.append hledger'
  | @ends w w₁ id status news hrunning hended hnews hothers hkept hsame =>
    obtain ⟨dropped, hledger⟩ := ha
    have hended := (news?_of_status hended).trans hnews
    have hothers : ∀ id', id' ≠ id → w₁.news? id' = w.news? id' := by
      intro id' hne
      rw [news?_eq, news?_eq, hothers id' hne]
    have hrecords := records_released (w := w) hended
    obtain ⟨calls, waiting, dropped', hledger', hcallbacks, hnotices⟩ := hrecords.ledger
    rw [← hrecords.informs.news?] at hended hothers
    obtain ⟨dropped, hledger⟩ := hledger.ends (news?_of_status hrunning) hended hothers hledger'
    rw [List.append_nil]
    refine ⟨dropped, ?_⟩
    rw [hcallbacks, hnotices, hkept, hsame, Array.toList_append]
    exact hledger
  | trans _ _ ih ih' =>
    rw [← List.append_assoc]
    exact ih' (ih ha)

end World

/-! ## Courses of events and turns -/

namespace World

variable {w w' : World}

/-- A course on which no task starts or ends, and no callback is registered. -/
theorem Course.still (htasks : w'.tasks = w.tasks) (hcallbacks : w'.callbacks = w.callbacks)
    (hnotices : w'.notices = w.notices) : w.Course [] w' :=
  .quiet (fun id => .inl (congrFun (status?_of_tasks htasks) id)) hcallbacks hnotices

theorem Course.evolves (h : w.Evolves w') : w.Course [] w' := by
  obtain ⟨_, _, _, _, rfl⟩ := h.shared
  exact .still rfl rfl rfl

/-- Native functions start and end no task during a turn. -/
theorem Course.leads {p : Progress} (h : w.Leads p) : w.Course [] p.machine.world := by
  obtain ⟨w₁, hw₁, hp | hp | ⟨q, _, hp⟩⟩ := h.moves
  · exact hp ▸ .evolves hw₁
  · exact hp ▸ (Course.evolves hw₁).trans (.still rfl rfl rfl)
  · exact hp ▸ (Course.evolves hw₁).trans (.still rfl rfl rfl)

theorem Partitioned.status?_eq (h : w.Partitioned) {t : Task} (ht : t ∈ w.unfinished) :
    w.status? t.id = some .running := by
  obtain ⟨ht, hrunning⟩ := List.mem_filter.1 ht
  rw [status?, h.task?_eq ht, Option.map_some]
  cases hstatus : t.status with
  | running => rfl
  | completed v => simp [hstatus, TaskStatus.isFinished] at hrunning
  | failed failure => simp [hstatus, TaskStatus.isFinished] at hrunning

end World

namespace Scheduler

variable {s s' : Scheduler} {w : World}

theorem course_newTask (w : World) (id : TaskletId) (c : Context) (pools : Pools) :
    w.Course [] { w with tasks := w.tasks ++ [{ id, context := c }], pools } := by
  refine .quiet (fun a => ?_) rfl rfl
  simp only [World.status?, World.task?, List.find?_append]
  cases hfind : w.tasks.find? fun t => t.id == a with
  | some t => exact .inl rfl
  | none =>
    by_cases ha : id = a
    · exact .inr ⟨rfl, by simp [ha]⟩
    · exact .inl (by simp [ha])

theorem course_foldl_startSpawn (spawns : List Spawn) (s : Scheduler) :
    s.world.Course [] (spawns.foldl startSpawn s).world := by
  induction spawns generalizing s with
  | nil => exact .still rfl rfl rfl
  | cons spawn spawns ih =>
    have hfirst : s.world.Course [] (s.startSpawn spawn).world := course_newTask s.world _ _ _
    exact hfirst.trans (ih (s.startSpawn spawn))

/-- How tasks stand after a run of one of them. -/
theorem status?_after {t : Task} {o : RunOutcome} {c : Context} {w' : World}
    (htasks : w'.tasks = w.tasks.map fun u => if u.id = t.id then after o c u else u)
    (id : TaskletId) : w'.status? id =
      if id = t.id then (w.task? id).map fun u => (after o c u).status else w.status? id := by
  simp only [World.status?, World.task?, htasks, List.find?_map, Function.comp_def, id_ite_after,
    Option.map_map]
  cases hfind : w.tasks.find? fun u => u.id == id with
  | none => simp
  | some u =>
    obtain rfl : u.id = id := by simpa using List.find?_some hfind
    by_cases hu : u.id = t.id <;> simp [hu]

/-- A task that is put back has ended, or its status stays as it is. -/
theorem course_putBack {t : Task} (hrunning : w.status? t.id = some .running) (o : RunOutcome)
    (c : Context) : w.Course [] (putBack w t o c) := by
  cases hnews : (verdict o c).news? with
  | none =>
    have hv := eq_running_of_news? hnews
    rw [putBack_of_running w t o c hv]
    refine .quiet (fun id => .inl ?_) rfl rfl
    rw [status?_after (w := w) rfl]
    split
    · simp only [after, hv]
      rfl
    · rfl
  | some news =>
    rw [putBack_of_news w t o c hnews]
    refine .ends hrunning ?_ hnews ?_ rfl rfl
    · obtain ⟨u, htask, _⟩ := Option.map_eq_some_iff.1 hrunning
      rw [status?_after (w := w) rfl, if_pos rfl, htask, Option.map_some,
        after_of_news o c hnews]
    · intro id hne
      rw [status?_after (w := w) rfl, if_neg hne]

/-- The callbacks that an event registers. -/
def Event.made : Event → List Request
  | register r => [r]
  | _ => []

theorem Event.InTick.made {e : Event} (h : e.InTick) : e.made = [] := by
  cases e with
  | register r => exact h.elim
  | _ => rfl

theorem course_act (hpart : s.world.Partitioned)
    (hplain : ∀ t ∈ s.world.tasks, t.continuation.Plain) {e : Event} (hact : s.act e = some s') :
    s.world.Course e.made s'.world := by
  cases e with
  | schedule c =>
    cases hact
    exact course_newTask s.world _ _ _
  | signal signal =>
    cases hact
    exact .evolves (.single (.signal s.world signal))
  | newPromise =>
    cases hact
    exact .still rfl rfl rfl
  | setHeap heap =>
    cases hact
    exact .still rfl rfl rfl
  | register r =>
    cases hact
    exact .register s.world r
  | startSpawned =>
    cases hact
    have hqueue : s.world.Course [] (s.world.queue []) := .still rfl rfl rfl
    exact hqueue.trans (course_foldl_startSpawn _ { s with world := s.world.queue [] })
  | beginTick =>
    cases hact
    exact .still rfl rfl rfl
  | turn steps id =>
    rcases turn_cases hact with ⟨rfl, _⟩ | ⟨t, o, m, rfl, hruns, rfl⟩
    · exact .still rfl rfl rfl
    · have hk := hplain t hruns.mem_tasks
      have hbegin : s.world.Course [] (s.machine t).world := .still rfl rfl rfl
      have hrunning : m.world.status? t.id = some .running := by
        rw [World.status?_of_tasks (hruns.tasks_eq hk), hpart.status?_eq hruns.task]
      exact (hbegin.trans (.leads (hruns.leads hk))).trans (course_putBack hrunning o m.context)

end Scheduler

/-! ## Moments -/

/-- A moment in the life of a scheduler. -/
inductive Moment where
  /-- Between two turns. -/
  | between (s : Scheduler)
  /-- During the turn of a tasklet, where the scheduler is as it was when the turn began. -/
  | during (s : Scheduler) (t : Task) (p : Progress)

namespace Moment

open Scheduler

/-- The world at a moment. -/
def world : Moment → World
  | between s => s.world
  | during _ _ p => p.machine.world

/-- What happens next, and the callbacks that are registered then by others than callbacks: between
turns by the host, and during a turn by native functions. No instruction depends on callbacks, so
those that are registered while one is carried out might as well be registered before it. -/
inductive Next : Moment → List Request → Moment → Prop
  | act {s s' : Scheduler} {e : Event} (hact : s.act e = some s') :
      Next (.between s) e.made (.between s')
  | begin {s : Scheduler} {t : Task} (hactive : t.id ∈ s.world.pools.active)
      (ht : t ∈ s.world.unfinished) :
      Next (.between s) [] (.during s t (s.vm.entry t.continuation (s.machine t)))
  | step (s : Scheduler) (t : Task) (phase : Phase) (m : Machine) :
      Next (.during s t (.running phase m)) [] (.during s t (s.vm.advance phase m))
  | register (s : Scheduler) (t : Task) (phase : Phase) (m : Machine) (r : Request) :
      Next (.during s t (.running phase m)) [r]
        (.during s t (.running phase { m with world := m.world.register r }))
  | stop (s : Scheduler) (t : Task) (o : RunOutcome) (m : Machine) :
      Next (.during s t (.stopped o m)) []
        (.between { s with world := putBack m.world t o m.context })

/-- What happens between two moments, and the callbacks that are registered meanwhile by others than
callbacks. -/
inductive History : Moment → List Request → Moment → Prop
  | refl (m : Moment) : History m [] m
  | next {m m₁ m₂ : Moment} {made made' : List Request} (h : History m made m₁)
      (hnext : Next m₁ made' m₂) : History m (made ++ made') m₂

/-- What a turn keeps. -/
def InTurn : Moment → Prop
  | between _ => True
  | during _ t p => t ∈ p.machine.world.unfinished ∧ ∃ w : World, w.running = some t.id ∧ w.Leads p

/-- The invariant of a history. -/
structure Orderly (m : Moment) : Prop where
  partitioned : m.world.Partitioned
  plain : ∀ t ∈ m.world.tasks, t.continuation.Plain
  turn : m.InTurn

variable {m m' : Moment} {made : List Request}

/-- The world of a turn at some moment determines what is kept from there on. -/
theorem orderly_during {w : World} {t : Task} {p : Progress} (hpart : w.Partitioned)
    (hplain : ∀ u ∈ w.tasks, u.continuation.Plain) (ht : t ∈ w.unfinished)
    (hrunning : w.running = some t.id) (hp : w.Leads p) (s : Scheduler) :
    (during s t p).Orderly := by
  refine ⟨hpart.leads hrunning (hpart.mem_pooled.2 ⟨t, ht, rfl⟩) hp, ?_, ?_, w, hrunning, hp⟩
  · intro u hu
    exact hplain u (hp.tasks_eq ▸ hu)
  · simpa only [World.unfinished, hp.tasks_eq] using ht

/-- What a moment during a turn says about the next one. -/
theorem InTurn.running {s : Scheduler} {t : Task} {phase : Phase} {m : Machine}
    (h : (during s t (.running phase m)).InTurn) :
    t ∈ m.world.unfinished ∧ m.world.running = some t.id ∧ phase.Plain := by
  obtain ⟨ht, w, hrunning, hphase, hw⟩ := h
  exact ⟨ht, hw.keeps.2.trans hrunning, hphase⟩

theorem Next.orderly (h : m.Next made m') (hm : m.Orderly) : m'.Orderly := by
  obtain ⟨hpart, hplain, hturn⟩ := hm
  cases h with
  | act hact => exact ⟨(partitioned_act hpart hplain hact).2, plain_act hplain hact, trivial⟩
  | @begin s t _ ht =>
    have hmachine : (s.machine t).world.Partitioned := ⟨hpart.pooled, hpart.given, hpart.le_lastId⟩
    have hk := hplain t (List.mem_filter.1 ht).1
    exact orderly_during hmachine hplain ht rfl (Vm.leads_entry hk (s.machine t)) s
  | step s t phase m =>
    obtain ⟨ht, hrunning, hphase⟩ := hturn.running
    exact orderly_during hpart hplain ht hrunning (Vm.leads_advance ⟨hphase, .refl⟩) s
  | register s t phase m r =>
    obtain ⟨ht, hrunning, hphase⟩ := hturn.running
    obtain ⟨callbacks, notices, hworld⟩ := (World.Records.register m.world r).informs
    rw [hworld]
    let w : World := { m.world with callbacks, notices }
    have hw : w.Partitioned := ⟨hpart.pooled, hpart.given, hpart.le_lastId⟩
    have hleads : w.Leads (.running phase { m with world := w }) := ⟨hphase, .refl⟩
    exact orderly_during hw hplain ht hrunning hleads s
  | stop s t o m =>
    refine ⟨hpart.putBack t o m.context, ?_, trivial⟩
    intro u hu
    obtain ⟨_, w, _, hleads⟩ := hturn
    simp only [Moment.world, putBack_tasks] at hu
    obtain ⟨u, hmem, rfl⟩ := List.mem_map.1 hu
    split
    · rw [after_continuation]
      exact hleads.plain
    · exact hplain u hmem

theorem Next.course (h : m.Next made m') (hm : m.Orderly) : m.world.Course made m'.world := by
  obtain ⟨hpart, hplain, hturn⟩ := hm
  cases h with
  | act hact => exact course_act hpart hplain hact
  | @begin s t _ ht =>
    have hmachine : s.world.Course [] (s.machine t).world := .still rfl rfl rfl
    have hk := hplain t (List.mem_filter.1 ht).1
    exact hmachine.trans (.leads (Vm.leads_entry hk (s.machine t)))
  | step s t phase m => exact .leads (Vm.leads_advance ⟨hturn.running.2.2, .refl⟩)
  | register s t phase m r => exact .register m.world r
  | stop s t o m => exact course_putBack (hpart.status?_eq hturn.1) o m.context

theorem History.orderly (h : m.History made m') (hm : m.Orderly) : m'.Orderly := by
  induction h with
  | refl => exact hm
  | next _ hnext ih => exact hnext.orderly ih

theorem History.course (h : m.History made m') (hm : m.Orderly) :
    m.world.Course made m'.world := by
  induction h with
  | refl => exact .still rfl rfl rfl
  | next hstart hnext ih => exact ih.trans (hnext.course (hstart.orderly hm))

/-! ## Registrations, ticks and runs -/

theorem History.register {s : Scheduler} (h : m.History made (.between s)) (r : Request) :
    m.History (made ++ [r]) (.between (s.register r)) :=
  h.next (.act (e := .register r) rfl)

theorem History.acts {s s' : Scheduler} {events : List Event} (h : m.History made (.between s))
    (hevents : ∀ e ∈ events, e.InTick) (hacts : s.acts events = some s') :
    m.History made (.between s') := by
  induction events generalizing s with
  | nil =>
    cases hacts
    exact h
  | cons e events ih =>
    obtain ⟨hfirst, hrest⟩ := List.forall_mem_cons.1 hevents
    obtain ⟨s₁, hact, hacts⟩ := Option.bind_eq_some_iff.1 hacts
    have hnext := h.next (.act hact)
    rw [hfirst.made, List.append_nil] at hnext
    exact ih hnext hrest hacts

/-- A tick is part of a history. -/
theorem History.tick {s s' : Scheduler} {steps : Nat} (h : m.History made (.between s))
    (htick : s.tick steps = some s') : m.History made (.between s') := by
  obtain ⟨events, hevents, hacts⟩ := tick_acts htick
  exact h.acts hevents hacts

/-- So is a run. -/
theorem History.run {s s' : Scheduler} {steps ticks : Nat} (h : m.History made (.between s))
    (hrun : s.run steps ticks = some s') : m.History made (.between s') := by
  obtain ⟨events, hevents, hacts⟩ := run_acts hrun
  exact h.acts hevents hacts

/-- On the way from a new scheduler to a moment, and on to another one, callbacks are registered. A
task that was known remains known, and its status does not change once it has ended. Calls of
callbacks are never taken back. Before a task has ended no callback for it has been called. Once it
has ended, every callback for this ending, also one that was registered by a callback, has been
called exactly once, with the final value or failure, and none for the other ending. -/
theorem History.callbacks_called_once {vm : Vm} {builtins : Option Namespace}
    {loader : Option (Names ModuleRef)} {heap : Heap} {made' : List Request}
    (h : History (.between (.new vm builtins loader { heap := heap })) made m)
    (h' : m.History made' m') :
    (∀ id status, m.world.status? id = some status →
      ∃ status', m'.world.status? id = some status' ∧ (status.isFinished → status' = status)) ∧
    (∃ later, m'.world.notices = m.world.notices ++ later) ∧
    (∀ id, m'.world.news? id = none → m'.world.calls id = []) ∧
    ∀ id news, m'.world.news? id = some news →
      (∀ n ∈ m'.world.calls id, n.news = news ∧ n.request.ending = news.ending) ∧
      ((m'.world.calls id).map Notice.request).Perm
        ((m'.world.registered (made ++ made')).filter fun r =>
          r.task = id ∧ r.ending = news.ending) := by
  have hnew : (between (.new vm builtins loader { heap := heap })).Orderly :=
    ⟨⟨.refl _, List.nodup_nil, fun id hid => absurd hid List.not_mem_nil⟩,
      fun t ht => absurd ht List.not_mem_nil, trivial⟩
  have haccounted :
      (between (.new vm builtins loader { heap := heap })).world.Accounted [] := ⟨[], .nil⟩
  have hcourse := h'.course (h.orderly hnew)
  obtain ⟨dropped, hledger⟩ := hcourse.accounted ((h.course hnew).accounted haccounted)
  refine ⟨fun id status hid => hcourse.status hid, hcourse.notices, ?_, ?_⟩
  · exact fun id hid => hledger.calls_of_none hid
  · exact fun id news hid => ⟨hledger.calls_of_some hid, hledger.perm_of_some hid⟩

/-- The first watcher of a tasklet that ends in its first turn registers two other callbacks when it
is called. The one for this ending is called at once, like that of a watcher who comes too late. -/
theorem callbacks_of_one_tasklet :
    ∃ made s news, (between (.new default none none {})).History made (.between s) ∧
      s.world.news? 1 = some news ∧ news.ending = .completed ∧
      (s.world.calls 1).map Notice.watcher = ["first", "inner", "late"] ∧
      ∀ n ∈ s.world.calls 1, n.news = news ∧ n.request.ending = .completed := by
  let request (watcher : String) (ending : Ending) (more : List Request) : Request :=
    { watcher, task := 1, ending, more := fun _ _ => more }
  let first := request "first" .completed
    [request "inner" .completed [], request "other" .failed []]
  let other := request "other" .failed []
  let late := request "late" .completed []
  let s₁ := (((new default none none {}).scheduleContext (Context.start {} [] [])).2.register
    first).register other
  let s₂ := (s₁.tick 1).get (by decide +kernel)
  have hscheduled : (between (.new default none none {})).History [] _ :=
    .next (.refl _) (.act (e := .schedule (Context.start {} [] [])) rfl)
  have hended : (between (.new default none none {})).History _ (.between s₂) :=
    ((hscheduled.register first).register other).tick (Option.some_get _).symm
  have hlate : (between s₂).History _ (.between (s₂.register late)) :=
    (History.refl _).register late
  have hnews : ((s₂.register late).world.news? 1).map News.ending = some .completed := by
    decide +kernel
  obtain ⟨news, hnews, hending⟩ := Option.map_eq_some_iff.1 hnews
  obtain ⟨_, _, _, hcalls⟩ := hended.callbacks_called_once hlate
  have hwatchers : ((s₂.register late).world.calls 1).map Notice.watcher =
      ["first", "inner", "late"] := by
    decide +kernel
  refine ⟨_, _, news, hended.register late, hnews, hending, hwatchers, ?_⟩
  exact hending ▸ (hcalls 1 news hnews).1

end Moment

end TaskletMachine
