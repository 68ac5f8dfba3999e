import Mathlib.Data.List.Perm.Basic
import TaskletMachine.Schedule.Scheduler

/-!
# Registering callbacks

A callback that is registered is called at once, waits for the end of its task, or is dropped. The
same goes for every callback that one of these calls registers in its turn, however deep. Nothing
else in the world changes.

## Main definitions

* `Ledger`: an account of callbacks.
* `World.Records`: what registering callbacks does to the world.
* `World.Informs`: nothing but callbacks and their calls has changed.
-/
namespace TaskletMachine

/-! ## Accounts -/

/-- The callbacks that a callback registers while it is called. -/
def Notice.made (n : Notice) : List Request :=
  n.request.more n.news n.heap

/-- An account of callbacks, given what there is to tell about tasks. Those that were made, also by
calls, were called, are waiting, or were dropped, each of them once. -/
structure Ledger (news? : TaskletId → Option News) (made : List Request) (calls : List Notice)
    (waiting dropped : List Request) : Prop where
  balanced : (made ++ calls.flatMap Notice.made).Perm
    (calls.map Notice.request ++ waiting ++ dropped)
  called : ∀ n ∈ calls, news? n.request.task = some n.news ∧ n.news.ending = n.request.ending
  waits : ∀ r ∈ waiting, news? r.task = none
  drops : ∀ r ∈ dropped, ∃ news, news? r.task = some news ∧ news.ending ≠ r.ending

namespace Ledger

variable {news? : TaskletId → Option News} {calls calls' : List Notice} {r : Request}
  {made made' waiting waiting' dropped dropped' : List Request}

theorem nil : Ledger news? [] [] [] [] :=
  ⟨.refl _, by simp, by simp, by simp⟩

theorem wait (h : news? r.task = none) : Ledger news? [r] [] [r] [] :=
  ⟨.refl _, by simp, by simpa using h, by simp⟩

theorem drop {news : News} (h : news? r.task = some news) (hending : news.ending ≠ r.ending) :
    Ledger news? [r] [] [] [r] :=
  ⟨.refl _, by simp, by simp, by simp [h, hending]⟩

theorem append (h : Ledger news? made calls waiting dropped)
    (h' : Ledger news? made' calls' waiting' dropped') :
    Ledger news? (made ++ made') (calls ++ calls') (waiting ++ waiting') (dropped ++ dropped') := by
  refine ⟨?_, List.forall_mem_append.2 ⟨h.called, h'.called⟩,
    List.forall_mem_append.2 ⟨h.waits, h'.waits⟩, List.forall_mem_append.2 ⟨h.drops, h'.drops⟩⟩
  classical
  refine List.perm_iff_count.2 ?_
  intro a
  have hcount := h.balanced.count_eq a
  have hcount' := h'.balanced.count_eq a
  simp only [List.flatMap_append, List.map_append, List.count_append] at hcount hcount' ⊢
  omega

/-- What a callback makes while it is called is part of the account. -/
theorem call {news : News} {heap : Heap} (hnews : news? r.task = some news)
    (hending : news.ending = r.ending)
    (h : Ledger news? (r.more news heap) calls waiting dropped) :
    Ledger news? [r] (⟨r, news, heap⟩ :: calls) waiting dropped := by
  refine ⟨?_, List.forall_mem_cons.2 ⟨⟨hnews, hending⟩, h.called⟩, h.waits, h.drops⟩
  exact h.balanced.cons r

/-- A task ends: those that have waited for this ending are called, and those that have waited for
the other one are dropped. -/
theorem ends {news'? : TaskletId → Option News} {id : TaskletId} {news : News}
    (h : Ledger news? made calls waiting dropped) (hrunning : news? id = none)
    (hended : news'? id = some news) (hothers : ∀ id', id' ≠ id → news'? id' = news? id')
    (hcalls : Ledger news'?
      ((waiting.filter (·.task == id)).filter (·.ending = news.ending)) calls' waiting' dropped') :
    ∃ dropped, Ledger news'? made (calls ++ calls') (waiting.filter (·.task != id) ++ waiting')
      dropped := by
  have hkept {id' : TaskletId} {news' : News} (h : news? id' = some news') :
      news'? id' = some news' := by
    rw [hothers id' ?_, h]
    rintro rfl
    rw [hrunning] at h
    cases h
  let released := waiting.filter (·.task == id)
  let others := released.filter fun r => !decide (r.ending = news.ending)
  refine ⟨dropped ++ others ++ dropped', ?_, ?_, ?_, ?_⟩
  · have hwaiting : (released ++ waiting.filter (·.task != id)).Perm waiting :=
      List.filter_append_perm _ waiting
    have hreleased : (released.filter (·.ending = news.ending) ++ others).Perm released :=
      List.filter_append_perm _ released
    classical
    refine List.perm_iff_count.2 ?_
    intro a
    have hwaiting := hwaiting.count_eq a
    have hreleased := hreleased.count_eq a
    have hcount := h.balanced.count_eq a
    have hcount' : (released.filter (·.ending = news.ending) ++
      calls'.flatMap Notice.made).count a = _ := hcalls.balanced.count_eq a
    simp only [List.count_append] at hwaiting hreleased
    simp only [List.flatMap_append, List.map_append, List.count_append] at hcount hcount' ⊢
    omega
  · refine List.forall_mem_append.2 ⟨fun n hn => ?_, hcalls.called⟩
    obtain ⟨hnews, hending⟩ := h.called n hn
    exact ⟨hkept hnews, hending⟩
  · refine List.forall_mem_append.2 ⟨fun r hr => ?_, hcalls.waits⟩
    obtain ⟨hr, hne⟩ := List.mem_filter.1 hr
    rw [hothers r.task (by simpa using hne), h.waits r hr]
  · refine List.forall_mem_append.2 ⟨List.forall_mem_append.2 ⟨fun r hr => ?_, fun r hr => ?_⟩,
      hcalls.drops⟩
    · obtain ⟨news', hnews, hne⟩ := h.drops r hr
      exact ⟨news', hkept hnews, hne⟩
    · obtain ⟨hr, hne⟩ := List.mem_filter.1 hr
      obtain ⟨_, rfl⟩ : r ∈ waiting ∧ r.task = id := by simpa using List.mem_filter.1 hr
      exact ⟨news, hended, fun heq => by simp [heq] at hne⟩

section Calls

variable {id : TaskletId} {news : News} (h : Ledger news? made calls waiting dropped)
include h

theorem calls_of_none (hid : news? id = none) : calls.filter (·.request.task = id) = [] := by
  refine List.filter_eq_nil_iff.2 ?_
  intro n hn htask
  obtain rfl : n.request.task = id := by simpa using htask
  rw [(h.called n hn).1] at hid
  cases hid

theorem calls_of_some (hid : news? id = some news) :
    ∀ n ∈ calls.filter (·.request.task = id), n.news = news ∧ n.request.ending = news.ending := by
  intro n hn
  obtain ⟨hmem, htask⟩ := List.mem_filter.1 hn
  obtain rfl : n.request.task = id := by simpa using htask
  obtain ⟨hsome, hending⟩ := h.called n hmem
  obtain rfl : news = n.news := Option.some.inj (hid.symm.trans hsome)
  exact ⟨rfl, hending.symm⟩

/-- The callbacks for the way in which a task has ended were called once each. -/
theorem perm_of_some (hid : news? id = some news) :
    ((calls.filter (·.request.task = id)).map Notice.request).Perm
      ((made ++ calls.flatMap Notice.made).filter fun r =>
        r.task = id ∧ r.ending = news.ending) := by
  let p (r : Request) : Bool := r.task = id ∧ r.ending = news.ending
  have hcalls : (calls.map Notice.request).filter p =
      (calls.filter (·.request.task = id)).map Notice.request := by
    rw [List.filter_map]
    refine congrArg (List.map Notice.request) (List.filter_congr ?_)
    intro n hn
    by_cases htask : n.request.task = id
    · have hmem : n ∈ calls.filter (·.request.task = id) :=
        List.mem_filter.2 ⟨hn, by simpa using htask⟩
      simp [p, htask, (h.calls_of_some hid n hmem).2]
    · simp [p, htask]
  have hwaiting : waiting.filter p = [] := by
    refine List.filter_eq_nil_iff.2 ?_
    intro r hr hp
    obtain ⟨rfl, _⟩ : r.task = id ∧ r.ending = news.ending := by simpa [p] using hp
    rw [h.waits r hr] at hid
    cases hid
  have hdropped : dropped.filter p = [] := by
    refine List.filter_eq_nil_iff.2 ?_
    intro r hr hp
    obtain ⟨rfl, hending⟩ : r.task = id ∧ r.ending = news.ending := by simpa [p] using hp
    obtain ⟨news', hsome, hne⟩ := h.drops r hr
    obtain rfl : news = news' := Option.some.inj (hid.symm.trans hsome)
    exact hne hending.symm
  have hbalanced := (h.balanced.filter p).symm
  rwa [List.filter_append, List.filter_append, hcalls, hwaiting, hdropped, List.append_nil,
    List.append_nil] at hbalanced

end Calls

end Ledger

/-! ## Worlds -/

/-- The callbacks that have waited for an ending of a task. -/
def World.released (w : World) (id : TaskletId) (ending : Ending) : List Request :=
  (w.callbacks.filter (·.task == id)).filter (·.ending = ending)

theorem World.mem_released {w : World} {id : TaskletId} {ending : Ending} {r : Request}
    (h : r ∈ w.released id ending) : r.task = id ∧ r.ending = ending := by
  obtain ⟨hr, hending⟩ := List.mem_filter.1 h
  exact ⟨by simpa using (List.mem_filter.1 hr).2, by simpa using hending⟩

/-- Nothing but callbacks and their calls has changed. -/
def World.Informs (w w' : World) : Prop :=
  ∃ callbacks notices, w' = { w with callbacks, notices }

/-- Callbacks were made, and each of them and of those that calls have made is accounted for. -/
def World.Records (w : World) (made : List Request) (w' : World) : Prop :=
  ∃ calls waiting dropped, Ledger w.news? made calls waiting dropped ∧
    w' = { w with
      callbacks := w.callbacks ++ waiting, notices := w.notices ++ calls.toArray }

namespace World

variable {w w₁ w' : World} {made made' : List Request}

theorem Informs.trans (h : w.Informs w₁) (h' : w₁.Informs w') : w.Informs w' := by
  obtain ⟨_, _, rfl⟩ := h
  obtain ⟨callbacks, notices, rfl⟩ := h'
  exact ⟨callbacks, notices, rfl⟩

theorem Records.informs (h : w.Records made w') : w.Informs w' := by
  obtain ⟨_, _, _, _, rfl⟩ := h
  exact ⟨_, _, rfl⟩

theorem Informs.news? (h : w.Informs w') : w'.news? = w.news? := by
  obtain ⟨_, _, rfl⟩ := h
  rfl

namespace Records

theorem ledger (h : w.Records made w') : ∃ calls waiting dropped,
    Ledger w'.news? made calls waiting dropped ∧
    w'.callbacks = w.callbacks ++ waiting ∧ w'.notices = w.notices ++ calls.toArray := by
  obtain ⟨calls, waiting, dropped, hledger, rfl⟩ := h
  exact ⟨calls, waiting, dropped, hledger, rfl, rfl⟩

theorem nil (w : World) : w.Records [] w :=
  ⟨[], [], [], .nil, by simp⟩

theorem append (h : w.Records made w₁) (h' : w₁.Records made' w') :
    w.Records (made ++ made') w' := by
  obtain ⟨calls, waiting, dropped, hledger, rfl⟩ := h
  obtain ⟨calls', waiting', dropped', hledger', rfl⟩ := h'
  exact ⟨_, _, _, hledger.append hledger', by simp⟩

/-- A callback is called, and makes others. -/
theorem tell {r : Request} {news : News} (hnews : w.news? r.task = some news)
    (hending : news.ending = r.ending) (h : (w.tell r news).Records (r.more news w.heap) w') :
    w.Records [r] w' := by
  obtain ⟨calls, waiting, dropped, hledger, rfl⟩ := h
  exact ⟨_, _, _, hledger.call hnews hending, by simp [World.tell]⟩

/-! The induction is on the callback that is registered: those that it makes are smaller. -/

mutual

theorem register (w : World) : ∀ r, w.Records [r] (w.register r)
  | ⟨watcher, id, ending, more⟩ => by
    simp only [World.register]
    split
    · next hnews => exact ⟨_, _, _, .wait hnews, by simp⟩
    · next news hnews =>
      split
      · next hending => exact tell hnews hending (registerAll _ (more news w.heap))
      · next hending => exact ⟨_, _, _, .drop hnews hending, by simp⟩

theorem registerAll (w : World) : ∀ rs, w.Records rs (w.registerAll rs)
  | [] => nil w
  | r :: rest => append (register w r) (registerAll (w.register r) rest)

end

theorem call {r : Request} {news : News} (hnews : w.news? r.task = some news)
    (hending : news.ending = r.ending) : w.Records [r] (w.call news r) :=
  tell hnews hending (registerAll _ _)

/-- Callbacks for the way in which a task has ended are called in order. -/
theorem foldl_call {id : TaskletId} {news : News} {rs : List Request}
    (hnews : w.news? id = some news) (h : ∀ r ∈ rs, r.task = id ∧ r.ending = news.ending) :
    w.Records rs (rs.foldl (World.call · news) w) := by
  induction rs generalizing w with
  | nil => exact nil w
  | cons r rs ih =>
    obtain ⟨⟨rfl, hending⟩, hrest⟩ := List.forall_mem_cons.1 h
    have hcall := call hnews hending.symm
    refine hcall.append (ih ?_ hrest)
    rwa [hcall.informs.news?]

end Records

theorem Informs.call (w : World) (news : News) (r : Request) : w.Informs (w.call news r) := by
  have htell : w.Informs (w.tell r news) := ⟨_, _, rfl⟩
  exact htell.trans (Records.registerAll (w.tell r news) _).informs

theorem Informs.foldl_call (w : World) (news : News) (rs : List Request) :
    w.Informs (rs.foldl (World.call · news) w) := by
  induction rs generalizing w with
  | nil => exact ⟨_, _, rfl⟩
  | cons r rs ih => exact (Informs.call w news r).trans (ih (w.call news r))

end World

end TaskletMachine
