import TaskletMachine.Proofs.Schedule.Partition

/-!
# Ticks

A tick goes through a batch that is fixed when it begins: the tasklets that are active, those that
are ready, and those that are parked. While they have their turns, they are blocked, unblock each
other, are parked, end, and ask for new tasklets, but none of this adds a tasklet to the active
pool, and only the one whose turn it is leaves it. So each tasklet of the batch is still active when
its turn comes, and no other is.

## Main definitions

* `Scheduler.resumed?`, `Scheduler.resumptions`: the tasklets that a sequence of events resumes.
* `Scheduler.batch`, `Scheduler.round`: the tasklets of a tick, and a tick as a sequence of events.
* `Scheduler.Reachable.tick_in_order`: what a tick does.
-/
namespace TaskletMachine

/-! ## The active pool -/

namespace World

variable {w w' : World}

theorem active_foldl_unblock (ids : List TaskletId) (p : Pools) :
    (ids.foldl Pools.unblock p).active = p.active := by
  induction ids generalizing p with
  | nil => rfl
  | cons id ids ih =>
    rw [List.foldl_cons, ih, Pools.unblock]
    split <;> rfl

theorem Change.active (h : w.Change w') : w'.pools.active = w.pools.active := by
  cases h with
  | output heap printed => rfl
  | spawn unit globals => rfl
  | signal s =>
    cases s with
    | unblock id => exact active_foldl_unblock [id] w.pools
    | settle p s =>
      by_cases hp : (w.promise p).settled.isSome
      · simp [World.signal, settle_of_settled hp]
      · simp only [World.signal, settle_eq (Option.not_isSome_iff_eq_none.1 hp)]
        exact active_foldl_unblock _ w.pools

/-- Native functions neither add to the active pool nor take out of it. -/
theorem Evolves.active (h : w.Evolves w') : w'.pools.active = w.pools.active := by
  induction h with
  | refl => rfl
  | tail _ hchange ih => exact hchange.active.trans ih

/-- Only the tasklet whose turn it is can leave the active pool during the turn. -/
theorem Leads.active {p : Progress} (h : w.Leads p) {id : TaskletId}
    (hrunning : w.running = some id) :
    p.machine.world.pools.active = w.pools.active ∨
      p.machine.world.pools.active = w.pools.active.erase id := by
  obtain ⟨w₁, hw₁, hp | hp | ⟨q, _, hp⟩⟩ := h.moves
  · exact .inl (hp ▸ hw₁.active)
  all_goals
    refine .inr ?_
    rw [hp, ← hw₁.active, hw₁.keeps.2, hrunning]
    rfl

end World

namespace Scheduler

variable {fit : Context → Prop} {s s' : Scheduler} {steps : Nat} {id : TaskletId}

theorem mem_active_turn (hplain : ∀ t ∈ s.world.tasks, t.continuation.Plain)
    (hturn : turn steps s id = some s') {a : TaskletId} (ha : a ∈ s.world.pools.active)
    (hne : a ≠ id) : a ∈ s'.world.pools.active := by
  rcases turn_cases hturn with ⟨rfl, _⟩ | ⟨t, o, m, rfl, hruns, rfl⟩
  · exact ha
  · have hm : a ∈ m.world.pools.active := by
      rcases (hruns.leads (hplain t hruns.mem_tasks)).active rfl with hactive | hactive
      · exact hactive ▸ ha
      · exact hactive ▸ (List.mem_erase_of_ne hne).2 ha
    rw [putBack_pools]
    split
    · exact (List.mem_erase_of_ne hne).2 hm
    · exact hm

/-! ## Resumptions -/

/-- The task that a turn resumes: that of the tasklet, if it is active and has not ended. -/
def resumed? (s : Scheduler) (id : TaskletId) : Option Task :=
  if s.world.pools.state? id = some .active then s.task? id else none

/-- That task is the one a turn resumes. -/
theorem turn_eq (steps : Nat) (s : Scheduler) (id : TaskletId) :
    turn steps s id = (s.resumed? id).elim (some s) (s.resumeTask steps) := by
  simp only [turn, resumed?, task?]
  split
  · cases s.world.unfinished.find? fun t => t.id == id <;> rfl
  · rfl

theorem turn_of_resumed? {t : Task} (h : s.resumed? id = some t) (steps : Nat) :
    turn steps s id = s.resumeTask steps t := by
  rw [turn_eq, h]
  rfl

theorem id_of_resumed? {t : Task} (h : s.resumed? id = some t) : t.id = id := by
  unfold resumed? at h
  split at h
  · simpa using List.find?_some h
  · cases h

theorem mem_of_resumed? {t : Task} (h : s.resumed? id = some t) : t ∈ s.world.unfinished := by
  unfold resumed? at h
  split at h
  · exact List.mem_of_find?_eq_some h
  · cases h

/-- The tasklet that an event resumes, if it resumes one. -/
def Event.resumes (s : Scheduler) : Event → List TaskletId
  | turn _ id => ((s.resumed? id).map Task.id).toList
  | _ => []

/-- The tasklets that a sequence of events resumes, in order. If a turn takes too many steps, it is
the last one. -/
def resumptions (s : Scheduler) : List Event → List TaskletId
  | [] => []
  | e :: events => e.resumes s ++ ((s.act e).map fun s => s.resumptions events).getD []

theorem resumptions_sublist (s : Scheduler) (ids : List TaskletId) :
    (s.resumptions (ids.map (Event.turn steps))).Sublist ids := by
  induction ids generalizing s with
  | nil => exact .slnil
  | cons id ids ih =>
    have hfirst : ((Event.turn steps id).resumes s).Sublist [id] := by
      cases h : s.resumed? id with
      | none => simp [Event.resumes, h]
      | some t => simp [Event.resumes, h, id_of_resumed? h]
    have hrest : (((s.act (.turn steps id)).map fun s =>
        s.resumptions (ids.map (Event.turn steps))).getD []).Sublist ids := by
      cases s.act (.turn steps id) with
      | none => exact List.nil_sublist ids
      | some s₁ => exact ih s₁
    exact hfirst.append hrest

/-- An active tasklet is resumed when it gets its turn. -/
theorem resumed?_of_active (h : s.world.Partitioned) (hid : id ∈ s.world.pools.active) :
    ∃ t, s.resumed? id = some t ∧ t.id = id := by
  have hpooled : id ∈ s.world.pools.pooled := by simp [Pools.pooled, hid]
  obtain ⟨t, ht, rfl⟩ := h.mem_pooled.1 hpooled
  have hsome : (s.task? t.id).isSome := List.find?_isSome.2 ⟨t, ht, by simp⟩
  obtain ⟨u, hu⟩ := Option.isSome_iff_exists.1 hsome
  have hresumed : s.resumed? t.id = some u := by simp [resumed?, Pools.state?, hid, hu]
  exact ⟨u, hresumed, id_of_resumed? hresumed⟩

theorem ticks_turn (h : turn steps s id = some s') : s'.ticks = s.ticks := by
  rcases turn_cases h with ⟨rfl, _⟩ | ⟨t, o, m, _, _, rfl⟩ <;> rfl

/-- The tasklets that wait for their turn are active, and are resumed one after the other. -/
theorem acts_turns_spec (h : Reachable fit s) {before after : List TaskletId}
    (hnodup : (before ++ after).Nodup)
    (hactive : ∀ id ∈ before ++ after, id ∈ s.world.pools.active)
    (hacts : s.acts (before.map (Event.turn steps)) = some s') :
    Reachable fit s' ∧ (∀ id ∈ after, id ∈ s'.world.pools.active) ∧ s'.ticks = s.ticks ∧
      s.resumptions (before.map (Event.turn steps)) = before := by
  induction before generalizing s with
  | nil =>
    cases hacts
    exact ⟨h, hactive, rfl, rfl⟩
  | cons id before ih =>
    obtain ⟨s₁, hturn, hrest⟩ := Option.bind_eq_some_iff.1 hacts
    obtain ⟨hid, hnodup⟩ := List.nodup_cons.1 hnodup
    have hactive₁ : ∀ a ∈ before ++ after, a ∈ s₁.world.pools.active := by
      intro a ha
      have hne : a ≠ id := fun heq => hid (heq ▸ ha)
      exact mem_active_turn h.plain hturn (hactive a (List.mem_cons_of_mem _ ha)) hne
    obtain ⟨hreachable, hafter, hticks, hresumptions⟩ :=
      ih (h.act (e := .turn steps id) trivial hturn) hnodup hactive₁ hrest
    obtain ⟨t, ht, htid⟩ := resumed?_of_active h.partitioned (hactive id List.mem_cons_self)
    refine ⟨hreachable, hafter, hticks.trans (ticks_turn hturn), ?_⟩
    rw [List.map_cons, resumptions, hturn]
    simp [Event.resumes, ht, htid, hresumptions]

/-! ## Rounds -/

theorem pools_foldl_startSpawn (spawns : List Spawn) (s : Scheduler) :
    (spawns.foldl startSpawn s).world.pools = { s.world.pools with
      unblocked := (spawns.map Spawn.id).foldl joinPool s.world.pools.unblocked } := by
  induction spawns generalizing s with
  | nil => rfl
  | cons spawn spawns ih => rw [List.foldl_cons, ih]; rfl

theorem ticks_foldl_startSpawn (spawns : List Spawn) (s : Scheduler) :
    (spawns.foldl startSpawn s).ticks = s.ticks := by
  induction spawns generalizing s with
  | nil => rfl
  | cons spawn spawns ih => exact ih _

/-- The queued tasklets become ready in the order in which they were asked for. -/
theorem pools_startSpawned (h : s.world.Partitioned) :
    s.startSpawned.world.pools = { s.world.pools with
      unblocked := s.world.pools.unblocked ++ s.world.pools.spawned.map Spawn.id
      spawned := [] } := by
  have hgiven := h.given
  rw [World.given, List.nodup_append] at hgiven
  have hunblocked : (s.world.pools.unblocked ++ s.world.pools.spawned.map Spawn.id).Nodup := by
    refine List.nodup_append.2 ⟨?_, hgiven.2.1, ?_⟩
    · refine h.nodup.sublist ?_
      simp only [Pools.pooled, List.append_assoc]
      exact (List.sublist_append_left _ _).trans (List.sublist_append_right _ _)
    · intro id hid id' hid' heq
      have hpooled : id ∈ s.world.pools.pooled := by simp [Pools.pooled, hid]
      obtain ⟨t, ht, rfl⟩ := h.mem_pooled.1 hpooled
      exact hgiven.2.2 t.id (List.mem_map_of_mem (List.mem_filter.1 ht).1) id' hid' heq
  rw [startSpawned, pools_foldl_startSpawn]
  simp only [foldl_joinPool hunblocked]

theorem startSpawned_of_isDone (h : s.isDone) : s.startSpawned = s := by
  have hspawned : s.world.pools.spawned = [] := (Pools.isDone_iff.1 h).2
  have hworld : s.world.queue [] = s.world := by
    rw [← hspawned]
    rfl
  simp only [startSpawned, hspawned, List.foldl_nil]
  exact congrArg (fun world => { s with world }) hworld

theorem isDone_startSpawned (h : s.world.Partitioned) : s.startSpawned.isDone = s.isDone := by
  rw [Bool.eq_iff_iff, isDone, isDone, Pools.isDone_iff, Pools.isDone_iff, pools_startSpawned h]
  simp only [Pools.pooled, List.append_eq_nil_iff, List.map_eq_nil_iff]
  tauto

/-- The tasklets of the next tick: those that are active, those that are ready or asked for, and
those that are parked. -/
def batch (s : Scheduler) : List TaskletId :=
  let p := s.startSpawned.world.pools
  p.active ++ p.unblocked ++ p.yielded

/-- How a tick begins. -/
def opening : List Event :=
  [.startSpawned, .beginTick]

/-- The events of the next tick. -/
def round (s : Scheduler) (steps : Nat) : List Event :=
  opening ++ s.batch.map (.turn steps)

theorem active_opening (h : s.world.Partitioned) :
    s.startSpawned.beginTick.world.pools.active = s.batch := by
  have hstarted := (partitioned_startSpawned h).2
  simp only [beginTick, Pools.gather_eq hstarted.nodup, batch]

theorem nodup_batch (h : s.world.Partitioned) : s.batch.Nodup := by
  have hbegun := (partitioned_beginTick (partitioned_startSpawned h).2).2.nodup
  rw [← active_opening h]
  refine hbegun.sublist ?_
  simp only [Pools.pooled, List.append_assoc]
  exact List.sublist_append_left _ _

theorem acts_opening (s : Scheduler) (events : List Event) :
    s.acts (opening ++ events) = s.startSpawned.beginTick.acts events :=
  rfl

theorem resumptions_opening (s : Scheduler) (events : List Event) :
    s.resumptions (opening ++ events) = s.startSpawned.beginTick.resumptions events :=
  rfl

theorem tick_eq_acts (h : s.world.Partitioned) (hdone : ¬ s.isDone) :
    s.tick steps = s.acts (s.round steps) := by
  rw [round, acts_opening, ← acts_turns, ← active_opening h]
  simp [tick, isDone_startSpawned h, hdone]

/-- In the worlds that native functions see, the active tasklets are the same. -/
theorem Reachable.active_of_sees (h : Reachable fit s) {w : World} (hw : s.Sees w) :
    w.pools.active = s.world.pools.active := by
  cases hw with
  | own => rfl
  | turn t hactive ht hm hw =>
    have hleads := hm.leads (h.plain t (List.mem_filter.1 ht).1)
    exact hw.active.trans hleads.2.active

/-- A tasklet that is ready, parked or only asked for is not active. -/
theorem Reachable.notMem_active (h : Reachable fit s) {w : World} (hw : s.Sees w)
    (hid : id ∈ w.pools.unblocked ∨ id ∈ w.pools.yielded ∨ id ∈ w.pools.spawned.map Spawn.id) :
    id ∉ s.world.pools.active := by
  intro hactive
  rw [← h.active_of_sees hw] at hactive
  have hp := h.partitioned_of_sees hw
  have hpooled : id ∈ w.pools.pooled := by simp [Pools.pooled, hactive]
  have hcount := List.nodup_iff_count.1 hp.nodup id
  rw [Pools.count_pooled] at hcount
  have hone : 0 < w.pools.active.count id := List.count_pos_iff.2 hactive
  rcases hid with hid | hid | hid
  · have htwo : 0 < w.pools.unblocked.count id := List.count_pos_iff.2 hid
    omega
  · have htwo : 0 < w.pools.yielded.count id := List.count_pos_iff.2 hid
    omega
  · obtain ⟨t, ht, rfl⟩ := hp.mem_pooled.1 hpooled
    exact (List.nodup_append.1 hp.given).2.2 t.id (List.mem_map_of_mem (List.mem_filter.1 ht).1)
      t.id hid rfl

/-- In the middle of a tick, after the turns of some tasklets of the batch. -/
theorem Reachable.during (h : Reachable fit s) {before after : List TaskletId}
    (hbatch : s.batch = before ++ after)
    (hacts : s.acts (opening ++ before.map (Event.turn steps)) = some s') :
    Reachable fit s' ∧ (∀ id ∈ after, id ∈ s'.world.pools.active) ∧ s'.ticks = s.ticks + 1 ∧
      s.resumptions (opening ++ before.map (Event.turn steps)) = before := by
  have hbegun : Reachable fit s.startSpawned.beginTick :=
    (h.act (e := .startSpawned) trivial rfl).act (e := .beginTick) trivial rfl
  have hactive : s.startSpawned.beginTick.world.pools.active = before ++ after :=
    (active_opening h.partitioned).trans hbatch
  obtain ⟨hreachable, hafter, hticks, hresumptions⟩ :=
    acts_turns_spec hbegun (hbatch ▸ nodup_batch h.partitioned)
      (fun id hid => hactive ▸ hid) (acts_opening s _ ▸ hacts)
  refine ⟨hreachable, hafter, hticks.trans ?_, hresumptions⟩
  exact congrArg (· + 1) (ticks_foldl_startSpawn _ _)

theorem resumptions_ne_nil (h : s.world.Partitioned) (hdone : ¬ s.isDone)
    (hblocked : ¬ s.isAllBlocked) : s.resumptions (s.round steps) ≠ [] := by
  have hne : s.batch ≠ [] := by
    intro hnil
    simp only [batch, pools_startSpawned h, List.append_eq_nil_iff, List.map_eq_nil_iff] at hnil
    obtain ⟨⟨hactive, hunblocked, hspawned⟩, hyielded⟩ := hnil
    by_cases hwaits : s.world.pools.blocked = []
    · apply hdone
      simp [isDone, Pools.isDone, hactive, hunblocked, hspawned, hyielded, hwaits]
    · apply hblocked
      simp [isAllBlocked, Pools.isAllBlocked, hactive, hunblocked, hspawned, hyielded, hwaits]
  obtain ⟨id, ids, hbatch⟩ := List.exists_cons_of_ne_nil hne
  have hid : id ∈ s.startSpawned.beginTick.world.pools.active := by
    rw [active_opening h, hbatch]
    exact List.mem_cons_self
  have hbegun := (partitioned_beginTick (partitioned_startSpawned h).2).2
  obtain ⟨t, ht, _⟩ := resumed?_of_active hbegun hid
  rw [round, resumptions_opening, hbatch, List.map_cons, resumptions]
  simp [Event.resumes, ht]

/-- A tick of a scheduler that is done changes nothing. Any other tick first makes the tasklets that
were asked for ready, in that order, and then resumes each tasklet of the batch once, in order; the
batch is what is active, ready and parked at that moment. When the turns of some of them are over,
the next turn resumes the task of the next one, and what is then ready, parked or asked for, also
while it has its turn, is not resumed in the rest of the tick. A run ticks until the scheduler is
done or all tasklets wait, and each of its ticks resumes at least one. -/
theorem Reachable.tick_in_order (h : Reachable fit s) (steps : Nat) :
    (s.isDone → s.tick steps = some s) ∧
    (¬ s.isDone →
      s.startSpawned.world.pools = { s.world.pools with
        unblocked := s.world.pools.unblocked ++ s.world.pools.spawned.map Spawn.id
        spawned := [] } ∧
      s.batch.Nodup ∧
      s.tick steps = s.acts (s.round steps) ∧
      (∀ s', s.tick steps = some s' →
        s.resumptions (s.round steps) = s.batch ∧ s'.ticks = s.ticks + 1) ∧
      ∀ before after, s.batch = before ++ after →
        ∀ s', s.acts (opening ++ before.map (.turn steps)) = some s' →
          s.resumptions (opening ++ before.map (.turn steps)) = before ∧
          s'.ticks = s.ticks + 1 ∧
          (∀ id, after.head? = some id → (Event.turn steps id).resumes s' = [id] ∧
            ∃ t ∈ s'.world.unfinished, t.id = id ∧
              s'.act (.turn steps id) = s'.resumeTask steps t) ∧
          ∀ w, s'.Sees w → ∀ id,
            id ∈ w.pools.unblocked ∨ id ∈ w.pools.yielded ∨ id ∈ w.pools.spawned.map Spawn.id →
            id ∉ s'.resumptions (after.map (.turn steps))) ∧
    (s.isDone ∨ s.isAllBlocked → ∀ ticks, s.run steps (ticks + 1) = some s) ∧
    (¬ s.isDone → ¬ s.isAllBlocked → s.resumptions (s.round steps) ≠ [] ∧
      ∀ ticks, s.run steps (ticks + 1) = (s.tick steps).bind fun s => s.run steps ticks) := by
  have hp := h.partitioned
  refine ⟨fun hdone => ?_, fun hdone => ?_, fun hends ticks => ?_, fun hdone hblocked => ?_⟩
  · simp [Scheduler.tick, startSpawned_of_isDone hdone, hdone]
  · refine ⟨pools_startSpawned hp, nodup_batch hp, tick_eq_acts hp hdone, ?_, ?_⟩
    · intro s' htick
      rw [tick_eq_acts hp hdone] at htick
      obtain ⟨_, _, hticks, hresumptions⟩ := h.during (List.append_nil _).symm htick
      exact ⟨hresumptions, hticks⟩
    · intro before after hbatch s' hacts
      obtain ⟨hreachable, hafter, hticks, hresumptions⟩ := h.during hbatch hacts
      refine ⟨hresumptions, hticks, fun id hhead => ?_, fun w hw id hid hmem => ?_⟩
      · obtain ⟨t, ht, htid⟩ :=
          resumed?_of_active hreachable.partitioned (hafter id (List.mem_of_mem_head? hhead))
        have hresumes : (Event.turn steps id).resumes s' = [id] := by
          simp [Event.resumes, ht, htid]
        exact ⟨hresumes, t, mem_of_resumed? ht, htid, turn_of_resumed? ht steps⟩
      · exact hreachable.notMem_active hw hid
          (hafter id ((resumptions_sublist s' after).subset hmem))
  · simp [Scheduler.run, hends]
  · refine ⟨resumptions_ne_nil hp hdone hblocked, fun ticks => ?_⟩
    simp only [Scheduler.run, hdone, hblocked, Bool.or_self, Bool.false_eq_true, if_false]
    cases s.tick steps <;> rfl

/-- A scheduler with two tasklets without code. -/
def twoTasklets : Scheduler :=
  let s := (new default none none {}).scheduleContext (Context.start {} [] [])
  (s.2.scheduleContext (Context.start {} [] [])).2

/-- Both are resumed in the next tick, in the order in which they were scheduled. -/
theorem tick_of_two_tasklets :
    ¬ twoTasklets.isDone ∧ twoTasklets.resumptions (twoTasklets.round 1) = [1, 2] ∧
      ∃ s, twoTasklets.tick 1 = some s ∧ s.ticks = 1 := by
  have hreachable : Reachable (fun _ => True) twoTasklets :=
    .act (.act (.new default none none {}) (e := .schedule (Context.start {} [] [])) trivial rfl)
      (e := .schedule (Context.start {} [] [])) trivial rfl
  have hdone : ¬ twoTasklets.isDone := by decide
  obtain ⟨_, htick, _⟩ := hreachable.tick_in_order 1
  obtain ⟨_, _, _, hends, _⟩ := htick hdone
  obtain ⟨hresumptions, hticks⟩ := hends _ rfl
  exact ⟨hdone, hresumptions, _, rfl, hticks⟩

end Scheduler

end TaskletMachine
