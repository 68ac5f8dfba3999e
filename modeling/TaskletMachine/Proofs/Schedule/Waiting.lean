import TaskletMachine.Proofs.Schedule.Partition

/-!
# Waiting for promises

A blocked tasklet is registered with the promise that it waits for, and only tasklets that wait for
a promise are registered with it while it is pending. Settling it unblocks those that are blocked.

## Main definitions

* `World.Wakes`: the invariant.
* `World.Wakes.settle_pools`: settling a promise unblocks its waiters, in order.
-/
namespace TaskletMachine

/-! ## Promises -/

namespace World

variable {w w' : World}

theorem promise_setPromise (w : World) (p q : Nat) (x : Promise) :
    (w.setPromise p x).promise q = if q = p then x else w.promise q := by
  simp only [promise, setPromise, Array.getD_eq_getD_getElem?, Array.getElem?_setIfInBounds,
    Array.getElem?_append, Array.getElem?_replicate, Array.size_append, Array.size_replicate]
  by_cases hq : q = p
  · subst hq
    have hlt : q < w.promises.size + (q + 1 - w.promises.size) := by omega
    simp [hlt]
  · by_cases hsize : q < w.promises.size
    · simp [hq, Ne.symm hq, hsize]
    · have hnone : w.promises[q]? = none := Array.getElem?_eq_none (by omega)
      simp only [hq, Ne.symm hq, hsize, hnone, if_false, Option.getD_none]
      split <;> rfl

theorem promise_newPromise (w : World) (q : Nat) :
    w.newPromise.2.promise q = w.promise q := by
  simp only [promise, newPromise, Array.getD_eq_getD_getElem?, Array.getElem?_push]
  by_cases hq : q = w.promises.size
  · simp [hq]
    rfl
  · simp [hq]

/-- A promise that has been settled stays as it was settled. -/
def Settles (w w' : World) : Prop :=
  ∀ p r, (w.promise p).settled = some r → (w'.promise p).settled = some r

theorem Settles.of_promises (h : w'.promises = w.promises) : w.Settles w' := by
  intro p r hp
  simpa only [promise, h] using hp

theorem Settles.trans {w₁ : World} (h : w.Settles w₁) (h₁ : w₁.Settles w') : w.Settles w' :=
  fun p r hp => h₁ p r (h p r hp)

theorem settles_settle (w : World) (p : PromiseId) (r : Settlement) : w.Settles (w.settle p r) := by
  cases hp : (w.promise p).settled with
  | some r' =>
    rw [settle_of_settled (by simp [hp])]
    exact .of_promises rfl
  | none =>
    intro q r' hq
    rw [settle_eq hp]
    show ((w.setPromise p _).promise q).settled = some r'
    have hne : q ≠ p := by
      rintro rfl
      simp [hp] at hq
    rw [promise_setPromise, if_neg hne, hq]

theorem Settles.change (h : w.Change w') : w.Settles w' := by
  cases h with
  | output heap printed => exact .of_promises rfl
  | spawn unit globals => exact .of_promises rfl
  | signal s =>
    cases s with
    | unblock id => exact .of_promises rfl
    | settle p r => exact settles_settle w p r

theorem Settles.evolves (h : w.Evolves w') : w.Settles w' := by
  induction h with
  | refl => exact .of_promises rfl
  | tail _ hchange ih => exact ih.trans (change hchange)

theorem settles_wait (w : World) (p : PromiseId) (id : TaskletId) : w.Settles (w.wait p id) := by
  intro q r hq
  show ((w.setPromise p _).promise q).settled = some r
  rw [promise_setPromise]
  by_cases hqp : q = p
  · subst hqp
    simpa using hq
  · rwa [if_neg hqp]

theorem Settles.leads {p : Progress} (h : w.Leads p) : w.Settles p.machine.world := by
  obtain ⟨w₁, hw₁, hp | hp | ⟨q, _, hp⟩⟩ := h.moves
  · exact hp ▸ evolves hw₁
  · exact hp ▸ (evolves hw₁).trans (.of_promises rfl)
  · exact hp ▸ (evolves hw₁).trans (settles_wait w₁ q _)

end World

/-! ## Unblocking in order -/

namespace Pools

variable {p : Pools} {id : TaskletId}

theorem unblock_of_mem (h : p.pooled.Nodup) (hid : id ∈ p.blocked) :
    p.unblock id =
      { p with blocked := p.blocked.erase id, unblocked := p.unblocked ++ [id] } := by
  have hready : id ∉ p.unblocked := by
    intro hmem
    have hone := List.nodup_iff_count.1 h id
    have hblocked := List.count_pos_iff.2 hid
    have hunblocked := List.count_pos_iff.2 hmem
    rw [count_pooled] at hone
    omega
  simp [unblock, hid, joinPool_of_notMem hready]

theorem unblock_of_notMem (hid : id ∉ p.blocked) : p.unblock id = p := by
  simp [unblock, hid]

/-- Unblocking tasklets one after the other moves those that are blocked, in the order in which they
first occur. -/
theorem foldl_unblock (h : p.pooled.Nodup) (ids : List TaskletId) :
    ∃ moved, ids.foldl unblock p =
        { p with
          blocked := p.blocked.filter (· ∉ ids), unblocked := p.unblocked ++ moved } ∧
      (∀ id, id ∈ moved ↔ id ∈ p.blocked ∧ id ∈ ids) ∧
      moved.Pairwise fun a b => ids.idxOf a < ids.idxOf b := by
  induction ids generalizing p with
  | nil => exact ⟨[], by simp, by simp, .nil⟩
  | cons id ids ih =>
    obtain ⟨moved, hpools, hmem, horder⟩ := ih ((pooled_unblock h id).nodup_iff.2 h)
    by_cases hid : id ∈ p.blocked
    · have hnodup : p.blocked.Nodup := by
        refine h.sublist ?_
        exact (List.sublist_append_right _ _).trans (List.sublist_append_left _ _)
      rw [unblock_of_mem h hid] at hpools hmem
      have hrest {a : TaskletId} (ha : a ∈ moved) : id ≠ a := by
        rintro rfl
        exact hnodup.not_mem_erase ((hmem id).1 ha).1
      refine ⟨id :: moved, ?_, fun a => ?_, ?_⟩
      · have hfilter : (p.blocked.filter (· != id)).filter (· ∉ ids) =
            p.blocked.filter (· ∉ id :: ids) := by
          rw [List.filter_filter]
          refine List.filter_congr ?_
          intro a _
          by_cases ha : a = id <;> simp [ha]
        rw [List.foldl_cons, unblock_of_mem h hid, hpools, hnodup.erase_eq_filter, hfilter]
        simp
      · rw [List.mem_cons, hmem, hnodup.mem_erase_iff, List.mem_cons]
        by_cases ha : a = id
        · simp [ha, hid]
        · simp [ha]
      · rw [List.pairwise_cons]
        refine ⟨fun a ha => ?_, horder.imp_of_mem fun ha hb hlt => ?_⟩
        · simp [List.idxOf_cons_ne _ (hrest ha)]
        · simpa [List.idxOf_cons_ne _ (hrest ha), List.idxOf_cons_ne _ (hrest hb)] using hlt
    · rw [unblock_of_notMem hid] at hpools hmem
      have hrest {a : TaskletId} (ha : a ∈ p.blocked) : id ≠ a := by
        rintro rfl
        exact hid ha
      refine ⟨moved, ?_, fun a => ?_, horder.imp_of_mem fun ha hb hlt => ?_⟩
      · rw [List.foldl_cons, unblock_of_notMem hid, hpools]
        congr 1
        refine List.filter_congr ?_
        intro a ha
        simp [Ne.symm (hrest ha)]
      · rw [hmem, List.mem_cons]
        refine and_congr_right ?_
        intro ha
        simp [Ne.symm (hrest ha)]
      · have ha' := hrest ((hmem _).1 ha).1
        have hb' := hrest ((hmem _).1 hb).1
        simpa [List.idxOf_cons_ne _ ha', List.idxOf_cons_ne _ hb'] using hlt

end Pools

/-! ## Wakers -/

/-- A blocked tasklet waits for a pending promise and is registered with it, and only tasklets that
wait for a pending promise are registered with it. What a tasklet waits for is given from outside,
since the table of tasks does not say it of the one that is being run. -/
structure World.Wakes (w : World) (awaits : TaskletId → Option PromiseId) : Prop where
  blocked : ∀ id ∈ w.pools.blocked, ∃ p, awaits id = some p ∧ (w.promise p).settled = none ∧
    id ∈ (w.promise p).waiters
  waiters : ∀ p, (w.promise p).settled = none → ∀ id ∈ (w.promise p).waiters, awaits id = some p

namespace World.Wakes

variable {w w' : World} {awaits : TaskletId → Option PromiseId} {id : TaskletId}

theorem of_same (h : w.Wakes awaits) (hblocked : ∀ id ∈ w'.pools.blocked, id ∈ w.pools.blocked)
    (hpromises : ∀ p, w'.promise p = w.promise p) : w'.Wakes awaits := by
  refine ⟨fun id hid => ?_, fun p hp => ?_⟩
  · simp only [hpromises]
    exact h.blocked id (hblocked id hid)
  · rw [hpromises] at hp ⊢
    exact h.waiters p hp

/-- Settling a promise moves the tasklets that are blocked on it, in the order in which they were
first registered. -/
theorem settle_pools (h : w.Wakes awaits) (hnodup : w.pools.pooled.Nodup) {p : PromiseId}
    (hp : (w.promise p).settled = none) (r : Settlement) :
    ∃ moved, (w.settle p r).pools = { w.pools with
        blocked := w.pools.blocked.filter (· ∉ moved)
        unblocked := w.pools.unblocked ++ moved } ∧
      (∀ id, id ∈ moved ↔ id ∈ w.pools.blocked ∧ awaits id = some p) ∧
      moved.Pairwise fun a b =>
        (w.promise p).waiters.idxOf a < (w.promise p).waiters.idxOf b := by
  obtain ⟨moved, hpools, hmem, horder⟩ := Pools.foldl_unblock hnodup (w.promise p).waiters
  refine ⟨moved, ?_, fun id => ?_, horder⟩
  · rw [settle_eq hp, hpools]
    simp only [Pools.mk.injEq, true_and, and_true]
    refine List.filter_congr ?_
    intro id hid
    simp [hmem, hid]
  · rw [hmem]
    refine and_congr_right fun hid => ⟨h.waiters p hp id, fun hawaits => ?_⟩
    obtain ⟨q, hq, _, hwaiter⟩ := h.blocked id hid
    rw [hawaits, Option.some.injEq] at hq
    exact hq ▸ hwaiter

theorem settle (h : w.Wakes awaits) (hnodup : w.pools.pooled.Nodup) (p : PromiseId)
    (r : Settlement) : (w.settle p r).Wakes awaits := by
  cases hp : (w.promise p).settled with
  | some r' =>
    rw [settle_of_settled (by simp [hp])]
    exact h
  | none =>
    obtain ⟨moved, hpools, hmem, _⟩ := h.settle_pools hnodup hp r
    have hpromise (q : PromiseId) : (w.settle p r).promise q =
        if q = p then { settled := some r, waiters := [] } else w.promise q := by
      rw [settle_eq hp]
      exact promise_setPromise w p q _
    refine ⟨fun id hid => ?_, fun q hq id hid => ?_⟩
    · rw [hpools] at hid
      obtain ⟨hid, hstays⟩ := List.mem_filter.1 hid
      obtain ⟨q, hq, hpending, hwaiter⟩ := h.blocked id hid
      have hne : q ≠ p := by
        rintro rfl
        simp [hmem, hid, hq] at hstays
      refine ⟨q, hq, ?_⟩
      rw [hpromise, if_neg hne]
      exact ⟨hpending, hwaiter⟩
    · rw [hpromise] at hq hid
      by_cases hqp : q = p
      · simp [hqp] at hq
      · rw [if_neg hqp] at hq hid
        exact h.waiters q hq id hid

theorem unblock (h : w.Wakes awaits) (id : TaskletId) : (w.unblock id).Wakes awaits := by
  refine h.of_same (fun a ha => ?_) fun _ => rfl
  unfold World.unblock Pools.unblock at ha
  split at ha
  · exact List.mem_of_mem_erase ha
  · exact ha

theorem evolves (h : w.Wakes awaits) (hp : w.Partitioned) (he : w.Evolves w') :
    w'.Wakes awaits := by
  induction he with
  | refl => exact h
  | tail he hc ih =>
    cases hc with
    | output heap printed => exact ih.of_same (fun _ hid => hid) fun _ => rfl
    | spawn unit globals => exact ih.of_same (fun _ hid => hid) fun _ => rfl
    | signal s =>
      cases s with
      | unblock id => exact ih.unblock id
      | settle p r => exact ih.settle (hp.evolves he).nodup p r

theorem park (h : w.Wakes awaits) (id : TaskletId) : (w.park id).Wakes awaits :=
  h.of_same (fun _ hid => List.mem_of_mem_erase hid) fun _ => rfl

/-- A tasklet that waits for no pending promise may go on. -/
theorem release (h : w.Wakes awaits)
    (hid : ∀ p, awaits id = some p → (w.promise p).settled ≠ none) :
    w.Wakes (Function.update awaits id none) := by
  refine ⟨fun a ha => ?_, fun p hp a ha => ?_⟩
  · obtain ⟨p, hp, hpending, hwaiter⟩ := h.blocked a ha
    have hne : a ≠ id := by
      rintro rfl
      exact hid p hp hpending
    exact ⟨p, by rwa [Function.update_of_ne hne], hpending, hwaiter⟩
  · have hawaits := h.waiters p hp a ha
    have hne : a ≠ id := by
      rintro rfl
      exact hid p hawaits hp
    rwa [Function.update_of_ne hne]

/-- A tasklet waits for a pending promise, again or for the first time. -/
theorem wait (h : w.Wakes awaits) {p : PromiseId} (hp : (w.promise p).settled = none)
    (hid : ∀ q, awaits id = some q → q = p) :
    (w.wait p id).Wakes (Function.update awaits id (some p)) := by
  have hpromise (q : PromiseId) : (w.wait p id).promise q =
      if q = p then { w.promise p with waiters := (w.promise p).waiters ++ [id] }
      else w.promise q :=
    promise_setPromise w p q _
  have hpending (q : PromiseId) :
      ((w.wait p id).promise q).settled = none ↔ (w.promise q).settled = none := by
    rw [hpromise]
    by_cases hqp : q = p <;> simp [hqp]
  have hwaiters (q : PromiseId) (a : TaskletId) :
      a ∈ ((w.wait p id).promise q).waiters ↔
        a ∈ (w.promise q).waiters ∨ q = p ∧ a = id := by
    rw [hpromise]
    by_cases hqp : q = p <;> simp [hqp]
  refine ⟨fun a ha => ?_, fun q hq a ha => ?_⟩
  · by_cases hne : a = id
    · subst hne
      exact ⟨p, Function.update_self .., (hpending p).2 hp, (hwaiters p a).2 (.inr ⟨rfl, rfl⟩)⟩
    · have hblocked : a ∈ w.pools.blocked := by
        have hjoin : a ∈ joinPool (w.pools.blocked.erase id) id := ha
        unfold joinPool at hjoin
        split at hjoin
        · exact List.mem_of_mem_erase hjoin
        · simp only [List.mem_append, List.mem_singleton, hne, or_false] at hjoin
          exact List.mem_of_mem_erase hjoin
      obtain ⟨q, hq, hsettled, hwaiter⟩ := h.blocked a hblocked
      refine ⟨q, ?_, (hpending q).2 hsettled, (hwaiters q a).2 (.inl hwaiter)⟩
      rwa [Function.update_of_ne hne]
  · rw [hpending] at hq
    rw [hwaiters] at ha
    by_cases hne : a = id
    · subst hne
      rw [Function.update_self]
      rcases ha with ha | ⟨rfl, _⟩
      · rw [hid q (h.waiters q hq a ha)]
      · rfl
    · rw [Function.update_of_ne hne]
      rcases ha with ha | ⟨_, rfl⟩
      · exact h.waiters q hq a ha
      · exact absurd rfl hne

theorem putBack (h : w.Wakes awaits) (t : Task) (o : RunOutcome) (c : Context) :
    (Scheduler.putBack w t o c).Wakes awaits := by
  refine h.of_same (fun id hid => ?_) fun p => ?_
  · rw [Scheduler.putBack_pools] at hid
    split at hid
    · exact List.mem_of_mem_erase hid
    · exact hid
  · rw [promise, Scheduler.putBack_promises, promise]

end World.Wakes

end TaskletMachine
