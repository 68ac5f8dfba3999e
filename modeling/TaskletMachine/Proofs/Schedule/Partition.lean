import Mathlib.Data.List.Nodup
import TaskletMachine.Proofs.Schedule.Events

/-!
# The pools are a partition

A tasklet that has started and has not ended is in exactly one pool, whatever happens, also in the
middle of a tick and in the middle of a turn. An id is given out only once.

## Main definitions

* `Pools.pooled`: the ids in the pools.
* `World.Partitioned`: the invariant.
* `Scheduler.Reachable.partition`: what it says about the states of a scheduler.
-/
namespace TaskletMachine

/-! ## Pools -/

theorem joinPool_of_notMem {pool : List TaskletId} {id : TaskletId} (h : id ∉ pool) :
    joinPool pool id = pool ++ [id] := by
  simp [joinPool, h]

theorem foldl_joinPool {pool ids : List TaskletId} (h : (pool ++ ids).Nodup) :
    ids.foldl joinPool pool = pool ++ ids := by
  induction ids generalizing pool with
  | nil => simp
  | cons id ids ih =>
    have hid : id ∉ pool := by
      intro hmem
      exact (List.nodup_append.1 h).2.2 id hmem id List.mem_cons_self rfl
    rw [List.foldl_cons, joinPool_of_notMem hid, ih (by simpa using h), ← List.append_cons]

namespace Pools

variable {p : Pools} {id : TaskletId}

/-- The ids in the pools. -/
def pooled (p : Pools) : List TaskletId :=
  p.active ++ p.unblocked ++ p.blocked ++ p.yielded

theorem count_pooled (p : Pools) (id : TaskletId) :
    p.pooled.count id =
      p.active.count id + p.unblocked.count id + p.blocked.count id + p.yielded.count id := by
  simp only [pooled, List.count_append]

theorem count_joinPool (pool : List TaskletId) (id a : TaskletId) :
    (joinPool pool id).count a = if a = id then max 1 (pool.count a) else pool.count a := by
  by_cases hmem : id ∈ pool
  · have hcount : 0 < pool.count id := List.count_pos_iff.2 hmem
    by_cases ha : a = id
    · subst ha
      simp only [joinPool, List.contains_eq_mem, hmem, decide_true, if_true]
      omega
    · simp [joinPool, hmem, ha]
  · by_cases ha : a = id
    · subst ha
      simp [joinPool, hmem, List.count_append, List.count_eq_zero.2 hmem]
    · simp [joinPool, hmem, ha, List.count_append, Ne.symm ha]

theorem pooled_unblock (h : p.pooled.Nodup) (id : TaskletId) :
    (p.unblock id).pooled.Perm p.pooled := by
  simp only [unblock]
  split
  · next hmem =>
    refine List.perm_iff_count.2 ?_
    intro a
    have hone := List.nodup_iff_count.1 h a
    have hblocked : 0 < p.blocked.count id := List.count_pos_iff.2 (by simpa using hmem)
    simp only [count_pooled] at hone ⊢
    rw [count_joinPool, List.count_erase]
    by_cases ha : a = id
    · subst ha
      simp
      omega
    · simp [ha, Ne.symm ha]
  · exact .refl _

/-- A tasklet that is taken out of its pool can join any other. -/
theorem count_remove (h : p.pooled.Nodup) (id a : TaskletId) :
    (p.remove id).pooled.count a = if a = id then 0 else p.pooled.count a := by
  have hone := List.nodup_iff_count.1 h id
  simp only [count_pooled] at hone
  simp only [count_pooled, remove, List.count_erase]
  by_cases ha : a = id
  · subst ha
    simp
    omega
  · simp [ha, Ne.symm ha]

theorem pooled_rejoin (h : p.pooled.Nodup) (hid : id ∈ p.pooled) {q : Pools}
    (hq : ∀ a, q.pooled.count a = if a = id then 1 else (p.remove id).pooled.count a) :
    q.pooled.Perm p.pooled := by
  refine List.perm_iff_count.2 ?_
  intro a
  rw [hq, count_remove h]
  by_cases ha : a = id
  · subst ha
    simp [List.count_eq_one_of_mem h hid]
  · simp [ha]

theorem pooled_block (h : p.pooled.Nodup) (hid : id ∈ p.pooled) :
    (p.block id).pooled.Perm p.pooled := by
  refine pooled_rejoin h hid ?_
  intro a
  have hgone := count_remove h id id
  simp only [count_pooled, if_true] at hgone
  simp only [block, count_pooled, count_joinPool]
  by_cases ha : a = id
  · subst ha
    simp only [if_true]
    omega
  · simp only [if_neg ha]

theorem pooled_park (h : p.pooled.Nodup) (hid : id ∈ p.pooled) :
    (p.park id).pooled.Perm p.pooled := by
  refine pooled_rejoin h hid ?_
  intro a
  have hgone := count_remove h id id
  simp only [count_pooled, if_true] at hgone
  simp only [park, count_pooled, count_joinPool]
  by_cases ha : a = id
  · subst ha
    simp only [if_true]
    omega
  · simp only [if_neg ha]

theorem pooled_remove (h : p.pooled.Nodup) (id : TaskletId) :
    (p.remove id).pooled.Perm (p.pooled.filter (· != id)) := by
  refine List.perm_iff_count.2 ?_
  intro a
  rw [count_remove h]
  by_cases ha : a = id
  · rw [if_pos ha, eq_comm, List.count_eq_zero]
    simp [ha]
  · simp [ha, List.count_filter]

theorem gather_eq (h : p.pooled.Nodup) :
    Scheduler.gather p =
      { p with active := p.active ++ p.unblocked ++ p.yielded, unblocked := [], yielded := [] } := by
  have hbatch : (p.active ++ (p.unblocked ++ p.yielded)).Nodup := by
    refine h.sublist ?_
    simp only [pooled, List.append_assoc]
    exact .append_left (.append_left (List.sublist_append_right _ _) _) _
  simp only [Scheduler.gather, foldl_joinPool hbatch, List.append_assoc]

theorem pooled_gather (h : p.pooled.Nodup) : (Scheduler.gather p).pooled.Perm p.pooled := by
  rw [gather_eq h]
  refine List.perm_iff_count.2 ?_
  intro a
  simp only [count_pooled, List.count_append, List.count_nil]
  omega

/-- A pool list is empty if all pools are. -/
theorem isDone_iff : p.isDone ↔ p.pooled = [] ∧ p.spawned = [] := by
  simp [isDone, pooled, and_assoc]

theorem state?_eq_none_iff : p.state? id = none ↔ id ∉ p.pooled ∧ id ∉ p.spawned.map Spawn.id := by
  simp only [state?]
  repeat' split
  all_goals simp_all [pooled]

end Pools

/-! ## Ids -/

/-- The ids that have been given out, to tasklets that were started and to those that are queued. -/
def World.given (w : World) : List TaskletId :=
  w.tasks.map Task.id ++ w.pools.spawned.map Spawn.id

/-- Ids are given out in between, each later than all that were given out before. -/
structure World.Issues (w w' : World) : Prop where
  lastId_le : w.pools.lastId ≤ w'.pools.lastId
  later : ∃ new, w'.given.Perm (w.given ++ new) ∧ new.Nodup ∧
    ∀ id ∈ new, w.pools.lastId < id ∧ id ≤ w'.pools.lastId

namespace World.Issues

variable {w w₁ w' : World}

theorem of_given (hgiven : w'.given = w.given) (hlastId : w'.pools.lastId = w.pools.lastId) :
    w.Issues w' :=
  ⟨Nat.le_of_eq hlastId.symm, [], by simp [hgiven], List.nodup_nil, by simp⟩

theorem refl (w : World) : w.Issues w :=
  of_given rfl rfl

theorem trans (h : w.Issues w₁) (h₁ : w₁.Issues w') : w.Issues w' := by
  obtain ⟨hle, new, hperm, hnodup, hlater⟩ := h
  obtain ⟨hle₁, new₁, hperm₁, hnodup₁, hlater₁⟩ := h₁
  refine ⟨Nat.le_trans hle hle₁, new ++ new₁, ?_, ?_, ?_⟩
  · rw [← List.append_assoc]
    exact hperm₁.trans (hperm.append_right new₁)
  · refine List.nodup_append.2 ⟨hnodup, hnodup₁, ?_⟩
    intro a ha b hb hab
    have hlt : b < b :=
      calc b = a := hab.symm
        _ ≤ w₁.pools.lastId := (hlater a ha).2
        _ < b := (hlater₁ b hb).1
    exact Nat.lt_irrefl b hlt
  · intro id hid
    rcases List.mem_append.1 hid with hid | hid
    · exact ⟨(hlater id hid).1, Nat.le_trans (hlater id hid).2 hle₁⟩
    · exact ⟨Nat.lt_of_le_of_lt hle (hlater₁ id hid).1, (hlater₁ id hid).2⟩

/-- The next id is given out. -/
theorem next (hgiven : w'.given.Perm (w.given ++ [w.pools.lastId + 1]))
    (hlastId : w'.pools.lastId = w.pools.lastId + 1) : w.Issues w' := by
  refine ⟨hlastId ▸ Nat.le_succ _, _, hgiven, List.nodup_singleton _, ?_⟩
  intro id hid
  rw [List.mem_singleton.1 hid, hlastId]
  exact ⟨Nat.lt_succ_self _, Nat.le_refl _⟩

theorem unblock (w : World) (id : TaskletId) : w.Issues (w.unblock id) := by
  unfold World.unblock Pools.unblock
  split
  · exact of_given rfl rfl
  · exact refl w

theorem change (h : w.Change w') : w.Issues w' := by
  cases h with
  | output heap printed => exact of_given rfl rfl
  | spawn unit globals =>
    refine next (.of_eq ?_) rfl
    simp [World.given, World.spawn, Pools.nextId]
  | signal s =>
    cases s with
    | unblock id => exact unblock w id
    | settle p s =>
      have hall (ids : List TaskletId) (w : World) : w.Issues (ids.foldl World.unblock w) := by
        induction ids generalizing w with
        | nil => exact refl w
        | cons id ids ih => exact (unblock w id).trans (ih _)
      have hset : w.Issues (w.setPromise p { settled := some s, waiters := [] }) :=
        of_given rfl rfl
      simp only [World.signal, World.settle]
      split
      · exact refl w
      · exact hset.trans (hall _ _)

theorem evolves (h : w.Evolves w') : w.Issues w' := by
  induction h with
  | refl => exact refl w
  | tail _ hchange ih => exact ih.trans (change hchange)

theorem putBack (w : World) (t : Task) (o : RunOutcome) (c : Context) :
    w.Issues (Scheduler.putBack w t o c) := by
  have hpools := Scheduler.putBack_pools w t o c
  have hspawned : (Scheduler.putBack w t o c).pools.spawned = w.pools.spawned := by
    rw [hpools]
    split <;> rfl
  have hlastId : (Scheduler.putBack w t o c).pools.lastId = w.pools.lastId := by
    rw [hpools]
    split <;> rfl
  refine of_given ?_ hlastId
  rw [World.given, Scheduler.putBack_ids, hspawned, World.given]

/-- The worlds of a turn. -/
theorem leads {p : Progress} (h : w.Leads p) : w.Issues p.machine.world := by
  obtain ⟨w₁, hw₁, hp | hp | ⟨q, _, hp⟩⟩ := h.moves
  · exact hp ▸ evolves hw₁
  · exact hp ▸ (evolves hw₁).trans (of_given rfl rfl)
  · exact hp ▸ (evolves hw₁).trans (of_given rfl rfl)

end World.Issues

/-! ## Worlds -/

/-- The pools hold the tasklets that have started and have not ended, each once. No id has been
given out twice. -/
structure World.Partitioned (w : World) : Prop where
  pooled : w.pools.pooled.Perm (w.unfinished.map Task.id)
  given : w.given.Nodup
  le_lastId : ∀ id ∈ w.given, id ≤ w.pools.lastId

namespace World.Partitioned

variable {w w' : World} {id : TaskletId}

theorem nodup (h : w.Partitioned) : w.pools.pooled.Nodup := by
  have htasks : (w.tasks.map Task.id).Nodup := (List.nodup_append.1 h.given).1
  exact h.pooled.nodup_iff.2 (htasks.sublist (List.filter_sublist.map Task.id))

theorem mem_pooled (h : w.Partitioned) : id ∈ w.pools.pooled ↔ ∃ t ∈ w.unfinished, t.id = id := by
  rw [h.pooled.mem_iff, List.mem_map]

theorem task?_eq (h : w.Partitioned) {t : Task} (ht : t ∈ w.tasks) :
    w.task? t.id = some t := by
  have hnodup : (w.tasks.map Task.id).Nodup := (List.nodup_append.1 h.given).1
  cases hfind : w.task? t.id with
  | none => simpa using List.find?_eq_none.1 hfind t ht
  | some u =>
    have hid : u.id = t.id := by simpa using List.find?_some hfind
    rw [List.inj_on_of_nodup_map hnodup (List.mem_of_find?_eq_some hfind) ht hid]

/-- Ids that are given out later are new. -/
theorem issues (h : w.Partitioned) (hi : w.Issues w')
    (hpooled : w'.pools.pooled.Perm (w'.unfinished.map Task.id)) : w'.Partitioned := by
  obtain ⟨hle, new, hperm, hnodup, hlater⟩ := hi
  refine ⟨hpooled, ?_, ?_⟩
  · refine hperm.nodup_iff.2 (List.nodup_append.2 ⟨h.given, hnodup, ?_⟩)
    intro a ha b hb hab
    have hlt : b < b :=
      calc b = a := hab.symm
        _ ≤ w.pools.lastId := h.le_lastId a ha
        _ < b := (hlater b hb).1
    exact Nat.lt_irrefl b hlt
  · intro id hid
    rcases List.mem_append.1 (hperm.mem_iff.1 hid) with hid | hid
    · exact Nat.le_trans (h.le_lastId id hid) hle
    · exact (hlater id hid).2

theorem unblock (h : w.Partitioned) (id : TaskletId) : (w.unblock id).Partitioned :=
  h.issues (.unblock w id) ((Pools.pooled_unblock h.nodup id).trans h.pooled)

theorem change (h : w.Partitioned) (hc : w.Change w') : w'.Partitioned := by
  cases hc with
  | output heap printed => exact ⟨h.pooled, h.given, h.le_lastId⟩
  | spawn unit globals => exact h.issues (.change (.spawn w unit globals)) h.pooled
  | signal s =>
    cases s with
    | unblock id => exact h.unblock id
    | settle p s =>
      have hall (ids : List TaskletId) {w : World} (h : w.Partitioned) :
          (ids.foldl World.unblock w).Partitioned := by
        induction ids generalizing w with
        | nil => exact h
        | cons id ids ih => exact ih (h.unblock id)
      simp only [World.signal, World.settle]
      split
      · exact h
      · exact hall _ ⟨h.pooled, h.given, h.le_lastId⟩

theorem evolves (h : w.Partitioned) (he : w.Evolves w') : w'.Partitioned := by
  induction he with
  | refl => exact h
  | tail _ hc ih => exact ih.change hc

theorem park (h : w.Partitioned) (hid : id ∈ w.pools.pooled) : (w.park id).Partitioned :=
  h.issues (.of_given rfl rfl) ((Pools.pooled_park h.nodup hid).trans h.pooled)

theorem wait (h : w.Partitioned) (hid : id ∈ w.pools.pooled) (p : PromiseId) :
    (w.wait p id).Partitioned :=
  h.issues (.of_given rfl rfl) ((Pools.pooled_block h.nodup hid).trans h.pooled)

/-- The worlds of a turn. -/
theorem leads (h : w.Partitioned) (hrunning : w.running = some id) (hid : id ∈ w.pools.pooled)
    {p : Progress} (hp : w.Leads p) : p.machine.world.Partitioned := by
  have hmem {w₁ : World} (hw₁ : w.Evolves w₁) : w₁.running.getD 0 ∈ w₁.pools.pooled := by
    obtain ⟨htasks, hsame⟩ := hw₁.keeps
    obtain ⟨t, ht, hid⟩ := h.mem_pooled.1 hid
    rw [hsame, hrunning, (h.evolves hw₁).mem_pooled]
    exact ⟨t, by simpa only [World.unfinished, htasks] using ht, hid⟩
  obtain ⟨w₁, hw₁, hp | hp | ⟨q, _, hp⟩⟩ := hp.moves
  · exact hp ▸ h.evolves hw₁
  · exact hp ▸ (h.evolves hw₁).park (hmem hw₁)
  · exact hp ▸ (h.evolves hw₁).wait (hmem hw₁) q

/-- Putting a task back leaves the others as they are, and takes one that has ended out of its
pool. -/
theorem putBack (h : w.Partitioned) (t : Task) (o : RunOutcome) (c : Context) :
    (Scheduler.putBack w t o c).Partitioned := by
  refine h.issues (.putBack w t o c) ?_
  rw [Scheduler.putBack_unfinished, Scheduler.putBack_pools]
  split
  · exact (Pools.pooled_remove h.nodup t.id).trans (h.pooled.filter _)
  · exact h.pooled

/-- A new tasklet joins the pools. -/
theorem pooled_newTask (h : w.Partitioned) (hid : id ∉ w.pools.pooled) (c : Context)
    (spawned : List Spawn) (lastId : Nat) :
    ({ w.pools with
      unblocked := joinPool w.pools.unblocked id, spawned, lastId } : Pools).pooled.Perm
      (({ w with tasks := w.tasks ++ [{ id, context := c }] } : World).unfinished.map Task.id) := by
  have hunblocked : id ∉ w.pools.unblocked := by
    intro hmem
    exact hid (by simp [Pools.pooled, hmem])
  have htasks : ({ w with tasks := w.tasks ++ [{ id, context := c }] } : World).unfinished.map
      Task.id = w.unfinished.map Task.id ++ [id] := by
    simp [World.unfinished, TaskStatus.isFinished]
  rw [htasks]
  refine List.Perm.trans ?_ (h.pooled.append_right [id])
  refine List.perm_iff_count.2 ?_
  intro a
  simp only [Pools.count_pooled, List.count_append, joinPool_of_notMem hunblocked]
  omega

end World.Partitioned

/-! ## Schedulers -/

/-- A world with another queue of tasklets to be started. -/
def World.queue (w : World) (spawned : List Spawn) : World :=
  { w with pools := { w.pools with spawned } }

namespace Scheduler

variable {fit : Context → Prop} {s s' : Scheduler} {w : World}

theorem partitioned_schedule (h : s.world.Partitioned) (c : Context) :
    s.world.Issues (s.scheduleContext c).2.world ∧ (s.scheduleContext c).2.world.Partitioned := by
  have hfresh : s.world.pools.lastId + 1 ∉ s.world.pools.pooled := by
    intro hid
    obtain ⟨t, ht, hid⟩ := h.mem_pooled.1 hid
    have hgiven : t.id ∈ s.world.given :=
      List.mem_append_left _ (List.mem_map_of_mem (List.mem_filter.1 ht).1)
    exact Nat.not_succ_le_self _ (hid ▸ h.le_lastId t.id hgiven)
  have hissues : s.world.Issues (s.scheduleContext c).2.world := by
    refine .next ?_ rfl
    simp only [World.given, scheduleContext, insertTasklet, Pools.nextId, List.map_append,
      List.map_singleton, List.append_assoc]
    exact List.perm_append_comm.append_left _
  exact ⟨hissues, h.issues hissues (h.pooled_newTask hfresh _ _ _)⟩

/-- Starting the first of the queued tasklets. -/
theorem partitioned_startSpawn {spawn : Spawn} {spawns : List Spawn}
    (h : (s.world.queue (spawn :: spawns)).Partitioned) :
    (s.world.queue (spawn :: spawns)).Issues ((s.startSpawn spawn).world.queue spawns) ∧
    ((s.startSpawn spawn).world.queue spawns).Partitioned := by
  have hgiven := h.given
  rw [World.given, List.nodup_append] at hgiven
  have hfresh : spawn.id ∉ s.world.pools.pooled := by
    intro hid
    obtain ⟨t, ht, hid⟩ := h.mem_pooled.1 hid
    exact hgiven.2.2 t.id (List.mem_map_of_mem (List.mem_filter.1 ht).1) spawn.id
      List.mem_cons_self hid
  have hissues : (s.world.queue (spawn :: spawns)).Issues
      ((s.startSpawn spawn).world.queue spawns) := by
    refine .of_given ?_ rfl
    simp [World.given, World.queue, startSpawn, insertTasklet]
  exact ⟨hissues, h.issues hissues (h.pooled_newTask hfresh _ _ _)⟩

theorem partitioned_foldl_startSpawn {spawns : List Spawn} (hnil : s.world.pools.spawned = [])
    (h : (s.world.queue spawns).Partitioned) :
    (s.world.queue spawns).Issues (spawns.foldl startSpawn s).world ∧
    (spawns.foldl startSpawn s).world.Partitioned := by
  induction spawns generalizing s with
  | nil =>
    have hqueue : s.world.queue [] = s.world := by
      rw [← hnil]
      rfl
    rw [hqueue] at h ⊢
    exact ⟨.refl _, h⟩
  | cons spawn spawns ih =>
    obtain ⟨hissues, hfirst⟩ := partitioned_startSpawn h
    have hstarted : (s.startSpawn spawn).world.pools.spawned = [] := hnil
    obtain ⟨hrest, hpartitioned⟩ := ih hstarted hfirst
    exact ⟨hissues.trans hrest, hpartitioned⟩

theorem partitioned_startSpawned (h : s.world.Partitioned) :
    s.world.Issues s.startSpawned.world ∧ s.startSpawned.world.Partitioned := by
  let s₁ : Scheduler := { s with world := s.world.queue [] }
  have hqueue : s₁.world.queue s.world.pools.spawned = s.world := rfl
  rw [← hqueue] at h
  exact partitioned_foldl_startSpawn (s := s₁) rfl h

theorem partitioned_beginTick (h : s.world.Partitioned) :
    s.world.Issues s.beginTick.world ∧ s.beginTick.world.Partitioned := by
  have hissues : s.world.Issues s.beginTick.world := by
    refine .of_given ?_ ?_
    · simp only [World.given, beginTick, Pools.gather_eq h.nodup]
    · simp only [beginTick, Pools.gather_eq h.nodup]
  exact ⟨hissues, h.issues hissues ((Pools.pooled_gather h.nodup).trans h.pooled)⟩

theorem partitioned_register (h : s.world.Partitioned) (r : Request) :
    s.world.Issues (s.register r).world ∧ (s.register r).world.Partitioned := by
  obtain ⟨_, _, hworld⟩ := s.informs_register r
  rw [hworld]
  exact ⟨.of_given rfl rfl, h.pooled, h.given, h.le_lastId⟩

theorem partitioned_machine (h : s.world.Partitioned) {t : Task} (ht : t ∈ s.world.unfinished)
    {p : Progress} (hp : (s.machine t).world.Leads p) : p.machine.world.Partitioned := by
  have hmachine : (s.machine t).world.Partitioned := ⟨h.pooled, h.given, h.le_lastId⟩
  exact hmachine.leads rfl (h.mem_pooled.2 ⟨t, ht, rfl⟩) hp

/-- Every event keeps the pools a partition, and gives out only new ids. -/
theorem partitioned_act (h : s.world.Partitioned)
    (hplain : ∀ t ∈ s.world.tasks, t.continuation.Plain) {e : Event} (hact : s.act e = some s') :
    s.world.Issues s'.world ∧ s'.world.Partitioned := by
  cases e with
  | schedule c =>
    cases hact
    exact partitioned_schedule h c
  | signal signal =>
    cases hact
    exact ⟨.change (.signal _ signal), h.change (.signal _ signal)⟩
  | newPromise =>
    cases hact
    exact ⟨.of_given rfl rfl, h.pooled, h.given, h.le_lastId⟩
  | setHeap heap =>
    cases hact
    exact ⟨.of_given rfl rfl, h.pooled, h.given, h.le_lastId⟩
  | register r =>
    cases hact
    exact partitioned_register h r
  | startSpawned =>
    cases hact
    exact partitioned_startSpawned h
  | beginTick =>
    cases hact
    exact partitioned_beginTick h
  | turn steps id =>
    rcases turn_cases hact with ⟨rfl, _⟩ | ⟨t, o, m, rfl, hruns, rfl⟩
    · exact ⟨.refl _, h⟩
    · have hleads := hruns.leads (hplain t hruns.mem_tasks)
      have hissues : s.world.Issues (s.machine t).world := .of_given rfl rfl
      refine ⟨(hissues.trans (.leads hleads)).trans (.putBack m.world t o m.context), ?_⟩
      exact (partitioned_machine h hruns.task hleads).putBack t o m.context

theorem Reachable.partitioned (h : Reachable fit s) : s.world.Partitioned := by
  refine h.invariant (P := fun s => s.world.Partitioned) ?_ ?_
  · intro vm builtins loader heap
    exact ⟨.refl _, List.nodup_nil, fun id hid => absurd hid List.not_mem_nil⟩
  · intro s e s' hs hp _ hact
    exact (partitioned_act hp hs.plain hact).2

/-- So are the pools of the worlds that native functions see. -/
theorem Reachable.partitioned_of_sees (h : Reachable fit s) (hw : s.Sees w) : w.Partitioned := by
  cases hw with
  | own => exact h.partitioned
  | turn t hactive ht hm hw =>
    have hleads := hm.leads (h.plain t (List.mem_filter.1 ht).1)
    exact (partitioned_machine h.partitioned ht hleads).evolves hw

theorem Reachable.issues (h : Reachable fit s) {events : List Event}
    (hfits : ∀ e ∈ events, e.Fits fit) (hacts : s.acts events = some s') :
    s.world.Issues s'.world := by
  induction events generalizing s with
  | nil =>
    cases hacts
    exact .refl _
  | cons e events ih =>
    obtain ⟨s₁, hact, hrest⟩ := Option.bind_eq_some_iff.1 hacts
    have hfirst := (partitioned_act h.partitioned h.plain hact).1
    exact hfirst.trans (ih (h.act (hfits e List.mem_cons_self) hact)
      (fun e he => hfits e (List.mem_cons_of_mem _ he)) hrest)

/-- In every state of a scheduler, and in every world that native functions see, a tasklet that has
started and has not ended is in exactly one pool and not in the queue of those to be started, the
pools hold nothing else, and a tasklet that has ended is in none. The scheduler is done if no
tasklet is left and none is queued. No id is given out twice. -/
theorem Reachable.partition (h : Reachable fit s) :
    (∀ w, s.Sees w →
      (w.pools.active ++ w.pools.unblocked ++ w.pools.blocked ++ w.pools.yielded ++
        w.pools.spawned.map Spawn.id).Nodup ∧
      (∀ id, (id ∈ w.pools.active ∨ id ∈ w.pools.unblocked ∨ id ∈ w.pools.blocked ∨
        id ∈ w.pools.yielded) ↔ ∃ t ∈ w.unfinished, t.id = id) ∧
      ∀ t ∈ w.tasks, t.status.isFinished → w.pools.state? t.id = none) ∧
    (s.isDone ↔ s.taskletCount = 0 ∧ s.world.pools.spawned = []) ∧
    s.world.given.Nodup ∧
    ∀ events s', (∀ e ∈ events, e.Fits fit) → s.acts events = some s' →
      ∃ new, s'.world.given.Perm (s.world.given ++ new) ∧
        ∀ id ∈ new, ∀ id' ∈ s.world.given, id' < id := by
  refine ⟨fun w hw => ?_, ?_, h.partitioned.given, ?_⟩
  · have hp := h.partitioned_of_sees hw
    have hgiven := hp.given
    rw [World.given, List.nodup_append] at hgiven
    have htask {t : Task} (ht : t ∈ w.tasks) : t.id ∉ w.pools.spawned.map Spawn.id := by
      intro hid
      exact hgiven.2.2 t.id (List.mem_map_of_mem ht) t.id hid rfl
    refine ⟨List.nodup_append.2 ⟨hp.nodup, hgiven.2.1, ?_⟩, fun id => ?_, fun t ht hfinished => ?_⟩
    · intro id hid id' hid' heq
      obtain ⟨t, ht, rfl⟩ := hp.mem_pooled.1 hid
      exact htask (List.mem_filter.1 ht).1 (heq ▸ hid')
    · rw [← hp.mem_pooled]
      simp [Pools.pooled]
    · refine Pools.state?_eq_none_iff.2 ⟨fun hid => ?_, htask ht⟩
      obtain ⟨u, hu, hid⟩ := hp.mem_pooled.1 hid
      obtain ⟨hu, hrunning⟩ := List.mem_filter.1 hu
      have heq : u = t := List.inj_on_of_nodup_map hgiven.1 hu ht hid
      simp [heq, hfinished] at hrunning
  · have hpooled : s.world.pools.pooled = [] ↔ s.taskletCount = 0 := by
      rw [← List.length_eq_zero_iff, h.partitioned.pooled.length_eq, List.length_map]
      rfl
    rw [isDone, Pools.isDone_iff, hpooled]
  · intro events s' hfits hacts
    obtain ⟨_, new, hperm, _, hlater⟩ := h.issues hfits hacts
    refine ⟨new, hperm, fun id hid id' hid' => ?_⟩
    exact Nat.lt_of_le_of_lt (h.partitioned.le_lastId id' hid') (hlater id hid).1

/-- A tasklet without code ends in its first turn, and is in no pool afterwards. -/
theorem partition_of_one_tasklet :
    ∃ s, ((new default none none {}).scheduleContext (Context.start {} [] [])).2.tick 1 = some s ∧
      s.isDone ∧ s.taskletCount = 0 ∧ s.world.pools.state? 1 = none := by
  have hscheduled : Reachable (fun _ => True)
      ((new default none none {}).scheduleContext (Context.start {} [] [])).2 :=
    .act (.new default none none {}) (e := .schedule (Context.start {} [] [])) trivial rfl
  have hreachable := hscheduled.tick (show Scheduler.tick _ 1 = some _ from rfl)
  obtain ⟨hworlds, hdone, _⟩ := hreachable.partition
  obtain ⟨_, _, hended⟩ := hworlds _ .own
  exact ⟨_, rfl, hdone.2 ⟨rfl, rfl⟩, rfl, hended _ (List.mem_singleton_self _) rfl⟩

end Scheduler

end TaskletMachine
