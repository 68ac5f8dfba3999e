import TaskletMachine.Proofs.Schedule.Spawning
import TaskletMachine.Proofs.Schedule.Ticks

/-!
# Calls in tasklets of their own

Guest code can have a call made by another tasklet. The request does not fail: as many arguments as
an operand can count fit the code that is made for it. The tasklet starts on the next tick, makes the
call with these arguments, whatever its globals are called, and completes with the result of the
call or ends with its fault.

## Main definitions

* `PendingCall.AsksFor`, `Vm.link_asksFor`: the request.
* `Scheduler.StartsNext`: a tasklet that starts on the next tick.
* `Vm.MakesCall`: the instructions before the call.
* `Scheduler.Reachable.spawned_call`: what becomes of a request.
-/
namespace TaskletMachine

open Exec

/-! ## The request -/

/-- A call of the native function that asks for a tasklet, with something that can be called and as
many arguments as an operand can count. -/
structure PendingCall.AsksFor (c : PendingCall) (h : Heap) (callee : Value) (args : List Value) :
    Prop where
  native : ∃ r, c.callee = .native r ∧ (h.native r).behaviour = .schedule
  passed : c.args = callee :: args
  callable : h.isCallable callee
  count : args.length ≤ 65535

/-- The entry of the queue. -/
def World.request (w : World) (callee : Value) (args : List Value) : Spawn where
  id := w.pools.lastId + 1
  unit := spawnedUnit args.length
  globals := (spawnedNames args.length).zip (callee :: args)
  spawner := w.running

/-- The world when a tasklet has been asked for. -/
def World.asked (w : World) (callee : Value) (args : List Value) : World :=
  { w with pools := { w.pools with
    lastId := w.pools.lastId + 1, spawned := w.pools.spawned ++ [w.request callee args] } }

theorem PendingCall.AsksFor.lt_operandLimit {c : PendingCall} {h : Heap} {callee : Value}
    {args : List Value} (hasks : c.AsksFor h callee args) :
    args.length < Assembler.operandLimit :=
  Nat.lt_succ_of_le hasks.count

/-- The request does not fail, and its result is the next id. -/
theorem Vm.link_asksFor (vm : Vm) {c : PendingCall} {m : Machine} {callee : Value}
    {args : List Value} (h : c.AsksFor m.world.heap callee args) :
    vm.link c m = complete (.value (taskletValue (m.world.pools.lastId + 1))) c.delivery
      { m with world := m.world.asked callee args } := by
  obtain ⟨r, hcallee, hbehaviour⟩ := h.native
  have heffect : c.effect? vm.host m.world.heap =
      some (callNative vm.host (m.world.heap.native r).behaviour c.args c.keywords) := by
    simp [PendingCall.effect?, hcallee]
  refine link_reply heffect ?_
  have hspawn : spawnCall callee args m.world =
      .ok (.value (taskletValue (m.world.pools.lastId + 1))) (m.world.asked callee args) := by
    unfold spawnCall
    rw [spawnedCall_eq callee h.lt_operandLimit]
    rfl
  have hschedule : schedule (callee :: args) m.world = spawnCall callee args m.world := by
    have hcallable : (!m.world.heap.isCallable callee) = false := by rw [h.callable]; rfl
    show (if !m.world.heap.isCallable callee then _ else spawnCall callee args : Effect Reply)
      m.world = _
    rw [hcallable]
    rfl
  rw [hbehaviour, h.passed]
  exact hschedule.trans hspawn

/-! ## The instructions before the call -/

/-- A tasklet loads the callee and the arguments one after the other, and then calls. -/
structure Vm.MakesCall (vm : Vm) (c : Context) (globals : Namespace) (callee : Value)
    (args : List Value) : Prop where
  load : ∀ loaded ≤ args.length, ∀ w,
    vm.advance .fetch ⟨{ c with frames := [spawnedFrame globals callee args loaded] }, w⟩ =
      vm.afterInstruction
        ⟨{ c with frames := [spawnedFrame globals callee args (loaded + 1)] }, w⟩
  call : ∀ w,
    vm.advance .fetch
        ⟨{ c with frames := [spawnedFrame globals callee args (args.length + 1)] }, w⟩ =
      .running (.link { callee, args, delivery := .push })
        ⟨{ c with frames := [spawnedCaller globals args] }, w⟩

theorem Vm.makesCall (vm : Vm) (c : Context) {globals : Namespace} {callee : Value}
    {args : List Value} (hbinds : BindsCall globals callee args)
    (hcount : args.length < Assembler.operandLimit) : vm.MakesCall c globals callee args where
  load _ hloaded w := vm.advance_load hbinds hcount hloaded c w
  call w := vm.advance_call hcount c w

namespace Scheduler

section Requests

variable {s s' : Scheduler} {id : TaskletId} {x : Spawn}

/-! ## The next tick -/

/-- A tasklet that has not been started stands in a context when the next tick resumes it for the
first time. -/
structure StartsNext (s : Scheduler) (id : TaskletId) (c : Context) : Prop where
  fresh : ∀ t ∈ s.world.tasks, t.id ≠ id
  tick : ∀ steps, s.tick steps = s.acts (s.round steps)
  batch : id ∈ s.batch
  turn : ∀ steps before after, s.batch = before ++ id :: after →
    ∀ s', s.acts (opening ++ before.map (.turn steps)) = some s' →
      s'.world.Stands id c .start ∧ (Event.turn steps id).resumes s' = [id]

theorem Reachable.startsNext (h : Reachable Context.Usable s) (hx : x ∈ s.world.pools.spawned)
    {c : Context} (hstands : s.startSpawned.world.Stands x.id c .start) :
    s.StartsNext x.id c where
  fresh t ht hid := by
    have hgiven := h.partitioned.given
    rw [World.given, List.nodup_append] at hgiven
    exact hgiven.2.2 t.id (List.mem_map_of_mem ht) x.id (List.mem_map_of_mem hx) hid
  tick steps := by
    refine tick_eq_acts h.partitioned fun hdone => ?_
    have hnil : s.world.pools.spawned = [] := (Pools.isDone_iff.1 hdone).2
    rw [hnil] at hx
    cases hx
  batch := by
    simp only [batch, pools_startSpawned h.partitioned, List.mem_append]
    exact .inl (.inr (.inr (List.mem_map_of_mem hx)))
  turn steps before after hbatch s' hacts := by
    have hbegun : Reachable Context.Usable s.startSpawned.beginTick :=
      (h.act (e := .startSpawned) trivial rfl).act (e := .beginTick) trivial rfl
    have hnodup : (before ++ x.id :: after).Nodup := hbatch ▸ nodup_batch h.partitioned
    have hothers : ∀ e ∈ before.map (Event.turn steps), e.Fits Context.Usable ∧
        ∀ steps', e ≠ .turn steps' x.id := by
      intro e he
      obtain ⟨id, hid, rfl⟩ := List.mem_map.1 he
      refine ⟨trivial, fun steps' heq => ?_⟩
      cases heq
      exact (List.nodup_append.1 hnodup).2.2 x.id hid x.id List.mem_cons_self rfl
    obtain ⟨hr, hstill⟩ := hbegun.acts_invariant (P := fun s => s.world.Stands x.id c .start)
      (fun _ _ _ hs hstands hother hact => stands_act hstands hs.plain
        (fun steps' he => absurd he (hother steps')) hact)
      hstands hothers (acts_opening s _ ▸ hacts)
    obtain ⟨-, hactive, -⟩ := h.during hbatch hacts
    obtain ⟨t, ht, hid⟩ :=
      resumed?_of_active hr.partitioned (hactive x.id List.mem_cons_self)
    exact ⟨hstill, by simp [Event.resumes, ht, hid]⟩

/-- The entry is in the queue when the turn of the tasklet that has made the request is over. -/
theorem Reachable.mem_spawned_turn {fit : Context → Prop} (h : Reachable fit s) {t : Task}
    (hactive : t.id ∈ s.world.pools.active) (ht : t ∈ s.world.unfinished) {c : PendingCall}
    {m : Machine} (hvisits : s.vm.Visits t.continuation (s.machine t) (.running (.link c) m))
    {callee : Value} {args : List Value} (hasks : c.AsksFor m.world.heap callee args) {steps : Nat}
    (hturn : turn steps s t.id = some s') :
    m.world.request callee args ∈ s'.world.pools.spawned := by
  obtain ⟨u, o, m', hid, hcontext, hcontinuation, hruns, rfl⟩ :=
    runs_of_stands h.partitioned ⟨t, ht, rfl, rfl, rfl⟩ hactive hturn
  have hrun := hruns.ends
  rw [machine, hid, hcontext, hcontinuation] at hrun
  obtain ⟨_, hrun⟩ := hvisits.step.runFor_of_resume hrun
  have henters : s.vm.Enters { m with world := m.world.asked callee args } (s.vm.link c m) := by
    rw [s.vm.link_asksFor hasks]
    obtain ⟨hplain, -⟩ := hvisits.leads (h.plain t (List.mem_filter.1 ht).1)
    exact (Steady.complete _ hplain _).enters
  have hleads := Vm.leads_runFor (Vm.leads_advance_link henters) hrun
  have hm : m.world.request callee args ∈ m'.world.pools.spawned :=
    hleads.mem_spawned (List.mem_append_right _ (List.mem_singleton_self _))
  rw [putBack_pools]
  split
  · exact hm
  · exact hm

/-! ## The call -/

/-- The context in which a tasklet that makes a call starts. -/
def callContext (s : Scheduler) (globals : Namespace) (callee : Value) (args : List Value) :
    Context :=
  s.prepare { frames := [spawnedFrame globals callee args 0], builtins := s.builtins }

variable {c : Context} {globals : Namespace} {callee : Value} {args : List Value}
  {events : List Event}

/-- The table of tasks follows the life of a tasklet that makes a call. -/
theorem Reachable.spawnedLife {fit : Context → Prop} (h : Reachable fit s)
    (hbinds : BindsCall globals callee args) (hcount : args.length < Assembler.operandLimit)
    (hfault : c.fault = none) (hfatal : c.fatal = none)
    (hstands : s.world.Stands id { c with frames := [spawnedFrame globals callee args 0] } .start)
    (hevents : ∀ e ∈ events, e.Fits fit) (hacts : s.acts events = some s') :
    ∃ o m, s'.world.Shows id o m.context ∧ s.vm.SpawnedLife c globals callee args
      (.stopped (.suspended .start)
        ⟨{ c with frames := [spawnedFrame globals callee args 0] }, s.world⟩) (.stopped o m) := by
  let start : Progress := .stopped (.suspended .start)
    ⟨{ c with frames := [spawnedFrame globals callee args 0] }, s.world⟩
  have hlawful : start.Lawful s.vm.maxCallDepth := by
    refine ⟨⟨⟨⟨List.cons_ne_nil _ _, ?_⟩, Nat.le_max_left 1 _⟩, hfault, hfatal⟩, trivial⟩
    rw [List.forall_mem_singleton]
    trivial
  obtain ⟨-, -, o, m, hreached, hshows⟩ := h.acts_invariant
    (P := fun s' => s'.vm = s.vm ∧ ∃ o m, Relation.ReflTransGen s.vm.Onward start (.stopped o m) ∧
      s'.world.Shows id o m.context) (Q := fun _ => True)
    (fun s₁ e s₂ hs₁ ⟨hvm, o, m, hreached, hshows⟩ _ hact => by
      refine ⟨(vm_act hact).trans hvm, ?_⟩
      rw [← hvm] at hlawful hreached ⊢
      exact shows_act hs₁ hlawful hreached hshows hact)
    ⟨rfl, _, _, .refl, hstands.shows⟩ (fun e he => ⟨hevents e he, trivial⟩) hacts
  exact ⟨o, m, hshows, s.vm.spawnedLife hbinds hcount hfault hfatal hreached⟩

/-- A tasklet that was started is in the table, with a root frame. -/
theorem Reachable.exists_root (h : Reachable Context.Usable s)
    (hid : id ∈ s.world.tasks.map Task.id) :
    ∃ t root, s.world.task? id = some t ∧ t.context.root? = some root := by
  obtain ⟨t, ht, rfl⟩ := List.mem_map.1 hid
  obtain ⟨_, hbetween⟩ := (h.ready t ht).between
  have hne : t.context.frames ≠ [] := by
    rcases hbetween with ⟨hgoing, _⟩ | ⟨hbounded, _⟩ | ⟨hbounded, _⟩
    · exact hgoing.sound.ne_nil
    · exact hbounded.sound.ne_nil
    · exact hbounded.sound.ne_nil
  exact ⟨t, t.context.frames.getLast hne, h.partitioned.task?_eq ht,
    List.getLast?_eq_some_getLast hne⟩

/-- **Spawned calls.** While a tasklet has its turn, it asks for a call, with something that can be
called and at most 65535 arguments. The request does not fail, and its result is an id that has not
been given out. The tasklet with this id starts on the next tick. When that begins, its globals are
the locals of the root frame of the tasklet that has made the request, as they are then, but for the
names that its own code uses, which are bound to the callee and the arguments. The tasklet calls the
callee with the arguments in this order, and then it completes with the result of the call, ends
with the fault of the call, or fails in the call, whatever happens meanwhile. -/
theorem Reachable.spawned_call (h : Reachable Context.Usable s) {t : Task}
    (hactive : t.id ∈ s.world.pools.active) (ht : t ∈ s.world.unfinished) {c : PendingCall}
    {m : Machine} (hvisits : s.vm.Visits t.continuation (s.machine t) (.running (.link c) m))
    (hasks : c.AsksFor m.world.heap callee args) :
    ∃ id, (∀ id' ∈ m.world.given, id' < id) ∧
      s.vm.link c m = Vm.complete (.value (taskletValue id)) c.delivery
        { m with world := m.world.asked callee args } ∧
      ∀ steps s₁, turn steps s t.id = some s₁ →
      ∀ events s₂, (∀ e ∈ events, e.Fits Context.Usable ∧ e ≠ .startSpawned) →
        s₁.acts events = some s₂ →
      ∃ u root globals, s₂.world.task? t.id = some u ∧ u.context.root? = some root ∧
        BindsCall globals callee args ∧
        (∀ name ∉ spawnedNames args.length,
          Names.find? globals name = Names.find? root.locals name) ∧
        s₂.StartsNext id (s₂.callContext globals callee args) ∧
        s.vm.MakesCall (s₂.callContext globals callee args) globals callee args ∧
        ∀ events' s₃, (∀ e ∈ events', e.Fits Context.Usable) →
          s₂.startSpawned.acts events' = some s₃ →
        ∃ o m', s₃.world.Shows id o m'.context ∧
          s.vm.SpawnedLife (s₂.callContext globals callee args) globals callee args
            (.stopped (.suspended .start)
              ⟨s₂.callContext globals callee args, s₂.startSpawned.world⟩) (.stopped o m') := by
  have hmem : t ∈ s.world.tasks := (List.mem_filter.1 ht).1
  have hpart : m.world.Partitioned := h.partitioned_of_sees (.turn t hactive ht hvisits .refl)
  refine ⟨m.world.pools.lastId + 1, fun id' hid' => Nat.lt_succ_of_le (hpart.le_lastId id' hid'),
    s.vm.link_asksFor hasks, ?_⟩
  intro steps s₁ hturn events s₂ hevents hacts
  have hs₁ : Reachable Context.Usable s₁ := h.act (e := .turn steps t.id) trivial hturn
  let x := m.world.request callee args
  have hx : x ∈ s₁.world.pools.spawned := h.mem_spawned_turn hactive ht hvisits hasks hturn
  have hid : t.id ∈ s₁.world.tasks.map Task.id :=
    mem_ids_act (e := .turn steps t.id) h.plain hturn (List.mem_map_of_mem hmem)
  have hvm : s₁.vm = s.vm := vm_act (e := .turn steps t.id) hturn
  obtain ⟨hs₂, hx, hid, hvm⟩ := hs₁.acts_invariant
    (P := fun s' => x ∈ s'.world.pools.spawned ∧ t.id ∈ s'.world.tasks.map Task.id ∧ s'.vm = s.vm)
    (fun s e s' hs ⟨hx, hid, hvm⟩ hne hact => ⟨mem_spawned_act hs.plain hne hact hx,
      mem_ids_act hs.plain hact hid, (vm_act hact).trans hvm⟩) ⟨hx, hid, hvm⟩ hevents hacts
  obtain ⟨u, root, hu, hroot⟩ := hs₂.exists_root hid
  let globals := root.locals.setAll x.globals
  have hbinds : BindsCall globals callee args := fun k name v hname hv =>
    find?_spawnedNames root.locals (List.length_cons ..) hname hv
  have hlt := hasks.lt_operandLimit
  have hstands : s₂.startSpawned.world.Stands x.id (s₂.callContext globals callee args) .start := by
    have hrunning : x.spawner = some t.id := (hvisits.leads (h.plain t hmem)).2.keeps.2
    have hspawner : x.spawner.bind s₂.world.task? = some u := by
      rw [hrunning]
      exact hu
    have hstart := Context.start_spawnedUnit callee args s₂.builtins
      (Names.nodup_setAll root.nodup_locals x.globals)
    have hstands := stands_startSpawned hx hspawner hroot
    rwa [show x.unit = spawnedUnit args.length from rfl, hstart] at hstands
  refine ⟨u, root, globals, hu, hroot, hbinds, fun name hname => find?_other root.locals _ hname,
    hs₂.startsNext hx hstands, s.vm.makesCall _ hbinds hlt, ?_⟩
  intro events' s₃ hevents' hacts'
  have hstarted : Reachable Context.Usable s₂.startSpawned :=
    hs₂.act (e := .startSpawned) trivial rfl
  have hvm' : s₂.startSpawned.vm = s.vm := (vm_act (e := .startSpawned) rfl).trans hvm
  rw [← hvm']
  exact hstarted.spawnedLife (c := s₂.callContext globals callee args) hbinds hlt rfl rfl hstands
    hevents' hacts'

end Requests

namespace ShadowedTarget

/-- A unit that asks for a call, with an argument that has the name of a callee. -/
def unit : CodeUnit :=
  { bytes := #[0x65, 0, 0, 0x65, 1, 0, 0x65, 2, 0, 0x83, 2, 0]
    names := #["schedule", "callable", "__target__"] }

/-- Its globals. -/
def bindings : Namespace :=
  [("schedule", .native ⟨0⟩), ("callable", .native ⟨1⟩), ("__target__", .int 7)]

/-- The native functions. -/
def heap : Heap :=
  { natives := #[{ name := "schedule", behaviour := .schedule },
      { name := "callable", behaviour := .builtin .callable }] }

/-- The scheduler when its first tick has begun. -/
def scheduler : Scheduler :=
  ((new default none none { heap }).scheduleContext (Context.start unit [] bindings)).2.beginTick

/-- The tasklet that makes the request. -/
def task : Task :=
  { id := 1, context := (new default none none { heap }).prepare (Context.start unit [] bindings) }

/-- The machine while its code is executed. -/
def machineAt (instructionIp ip : Nat) (stack : List Value) : Machine :=
  (scheduler.machine task).withFrames
    [{ Frame.start unit .push with instructionIp, ip, stack, names := bindings }]

/-- The request. -/
def request : PendingCall :=
  { callee := .native ⟨0⟩, args := [.native ⟨1⟩, .int 7], delivery := .push }

theorem visits : scheduler.vm.Visits .start (scheduler.machine task)
    (.running (.link request) (machineAt 9 12 [])) := by
  have hstart : scheduler.vm.Visits .start (scheduler.machine task)
      (.running .fetch (machineAt 0 0 [])) := by
    with_unfolding_all exact .begin rfl rfl
  have hload : scheduler.vm.advance .fetch (machineAt 0 0 []) =
      .running .fetch (machineAt 0 3 [.native ⟨0⟩]) := by
    with_unfolding_all rfl
  have hload' : scheduler.vm.advance .fetch (machineAt 0 3 [.native ⟨0⟩]) =
      .running .fetch (machineAt 3 6 [.native ⟨1⟩, .native ⟨0⟩]) := by
    with_unfolding_all rfl
  have hload'' : scheduler.vm.advance .fetch (machineAt 3 6 [.native ⟨1⟩, .native ⟨0⟩]) =
      .running .fetch (machineAt 6 9 [.int 7, .native ⟨1⟩, .native ⟨0⟩]) := by
    with_unfolding_all rfl
  have hcall : scheduler.vm.advance .fetch
      (machineAt 6 9 [.int 7, .native ⟨1⟩, .native ⟨0⟩]) =
      .running (.link request) (machineAt 9 12 []) := by
    with_unfolding_all rfl
  exact hcall ▸ (hload'' ▸ (hload' ▸ (hload ▸ hstart.step).step).step).step

end ShadowedTarget

open ShadowedTarget in
/-- A tasklet of its own makes the call of the example: it finds its callee and its argument, though
a global of the tasklet that has asked for it has the name of the callee. -/
theorem ShadowedTarget.spawned_call_of_request :
    ∃ id s₁ globals, turn 10 scheduler 1 = some s₁ ∧
      Names.find? bindings "__target__" = some (.int 7) ∧
      Names.find? globals "__target__" = some (.native ⟨1⟩) ∧
      Names.find? globals "__arg0__" = some (.int 7) ∧
      s₁.StartsNext id (s₁.callContext globals (.native ⟨1⟩) [.int 7]) := by
  have hscheduled : Reachable Context.Usable
      ((new default none none { heap }).scheduleContext (Context.start unit [] bindings)).2 :=
    .act (.new default none none heap) (e := .schedule (Context.start unit [] bindings))
      (Context.usable_start ..) rfl
  have hreachable : Reachable Context.Usable scheduler :=
    .act hscheduled (e := .beginTick) trivial rfl
  have hactive : task.id ∈ scheduler.world.pools.active := by decide
  have hunfinished : task ∈ scheduler.world.unfinished := List.mem_singleton_self task
  have hasks : request.AsksFor (machineAt 9 12 []).world.heap (.native ⟨1⟩) [.int 7] :=
    ⟨⟨⟨0⟩, rfl, rfl⟩, rfl, rfl, by decide⟩
  obtain ⟨id, -, -, hspawned⟩ := hreachable.spawned_call hactive hunfinished visits hasks
  have hends : (turn 10 scheduler 1).isSome := by decide +kernel
  obtain ⟨s₁, hturn⟩ := Option.isSome_iff_exists.1 hends
  obtain ⟨_, _, globals, _, _, hbinds, _, hstarts, _⟩ :=
    hspawned 10 s₁ hturn [] s₁ (List.forall_mem_nil _) rfl
  exact ⟨id, s₁, globals, hturn, rfl, hbinds 0 _ _ rfl rfl, hbinds 1 _ _ rfl rfl, hstarts⟩

end Scheduler

end TaskletMachine
