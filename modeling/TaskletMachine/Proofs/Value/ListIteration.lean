import TaskletMachine.Proofs.Value.Tables
import TaskletMachine.Value.Iterator

/-!
# Iterating over a growing list

An iterator over a list counts its requests, and each is answered by the item whose index is the
number of requests before it, if the list has got that far. Items that are appended while the
iterator has not run out are therefore met in their turn. A request that finds nothing is counted as
well: the item that comes to stand there later is passed over.

## Main definitions

* `Heap.Extends`: a list has grown at its end, and an iterator has not been asked.
* `ListIteration`: the history of an iterator over a list.
* `ListIteration.reads_in_turn`: what the requests of a history are answered with.
-/
namespace TaskletMachine

/-- The list has grown at its end, if at all, and the iterator stands where it stood. -/
structure Heap.Extends (l : ListRef) (it : IteratorRef) (h h' : Heap) : Prop where
  list : h.list l <+: h'.list l
  cursor : h'.cursor it = h.cursor it

/-- The history of an iterator over a list, with the answers to its requests, oldest first. Between
two requests the list may grow, and all else may change. -/
inductive ListIteration (l : ListRef) (it : IteratorRef) : Heap → List (Option Value) → Prop
  /-- The iterator is made. -/
  | start {h h' : Heap} (hmade : h.iteratorOf? (.list l) = some (it, h')) : ListIteration l it h' []
  /-- A value is requested. -/
  | request {h : Heap} {answers : List (Option Value)} (hrun : ListIteration l it h answers) :
      ListIteration l it (h.advance it).2 (answers ++ [(h.advance it).1])
  /-- Values are appended to the list. -/
  | append {h h' : Heap} {answers : List (Option Value)} (hrun : ListIteration l it h answers)
      (hextends : h.Extends l it h') : ListIteration l it h' answers

/-! ## Appending -/

section Appending

variable {l : ListRef} {it : IteratorRef}

theorem Heap.extends_append (h : Heap) (l : ListRef) (it : IteratorRef) (v : Value) :
    h.Extends l it (h.setList l (h.list l ++ [v])) := by
  refine ⟨?_, rfl⟩
  by_cases hl : l.index < h.lists.size
  · simp [Heap.list, Heap.setList, hl]
  · simp [Heap.list, Heap.setList, hl]

end Appending

/-! ## Requests -/

/-- An answer of a history that has gone on is one from before or the last one. -/
theorem getElem?_concat_cases {α : Type} {answers : List α} {last answer : α} {k : Nat}
    (hk : (answers ++ [last])[k]? = some answer) :
    answers[k]? = some answer ∨ k = answers.length ∧ last = answer := by
  rcases Nat.lt_trichotomy k answers.length with hlt | rfl | hgt
  · rw [List.getElem?_append_left hlt] at hk
    exact .inl hk
  · rw [List.getElem?_concat_length, Option.some_inj] at hk
    exact .inr ⟨rfl, hk⟩
  · rw [List.getElem?_eq_none (by simp; omega)] at hk
    cases hk

/-- Values that stand in a list where their answers do, with no value after an answer without one,
are the first of the list. -/
theorem filterMap_prefix_of_getElem? {α : Type} {answers : List (Option α)} {xs : List α}
    (hread : ∀ (k : Nat) v, answers[k]? = some (some v) → xs[k]? = some v)
    (hlast : ∀ (j k : Nat) v, j < k → answers[j]? = some none → answers[k]? ≠ some (some v)) :
    answers.filterMap id <+: xs := by
  induction answers generalizing xs with
  | nil => exact List.nil_prefix
  | cons answer rest ih =>
    cases answer with
    | none =>
      have hnone : rest.filterMap id = [] := by
        rw [List.filterMap_eq_nil_iff]
        intro a ha
        obtain ⟨k, hk⟩ := List.mem_iff_getElem?.1 ha
        cases a with
        | none => rfl
        | some v => exact absurd hk (hlast 0 (k + 1) v (Nat.succ_pos k) rfl)
      rw [List.filterMap_cons_none rfl, hnone]
      exact List.nil_prefix
    | some v =>
      obtain ⟨xs', rfl⟩ : ∃ xs', xs = v :: xs' := by
        have hfirst := hread 0 v rfl
        cases xs with
        | nil => cases hfirst
        | cons x xs' => exact ⟨xs', by rw [Option.some_inj.1 hfirst]⟩
      have hfirst : (some v :: rest).filterMap id = v :: rest.filterMap id := rfl
      rw [hfirst, List.cons_prefix_cons]
      refine ⟨rfl, ih (fun k w hk => hread (k + 1) w hk) ?_⟩
      exact fun j k w hjk hj => hlast (j + 1) (k + 1) w (Nat.succ_lt_succ hjk) hj

namespace ListIteration

variable {l : ListRef} {it : IteratorRef} {h : Heap} {answers : List (Option Value)}

theorem advance_of_cursor {index : Nat} (h' : h.cursor it = .overList l index) :
    h.advance it = ((h.list l)[index]?, h.setCursor it (.overList l (index + 1))) := by
  rw [Heap.advance, h']
  rfl

/-- An iterator counts its requests, whatever they are answered with. -/
theorem cursor_eq (hrun : ListIteration l it h answers) :
    h.cursor it = .overList l answers.length := by
  induction hrun with
  | start hmade =>
    cases hmade
    simp [Heap.cursor]
  | @request h answers hrun ih =>
    have hlt : it.index < h.iterators.size := Heap.lt_size_of_cursor fun hempty => by
      rw [ih] at hempty
      cases hempty
    rw [advance_of_cursor ih, Heap.cursor_setCursor hlt, List.length_append,
      List.length_singleton]
  | append hrun hextends ih => rw [hextends.cursor, ih]

/-- The next request is answered by the item whose index is the number of requests so far. -/
theorem next_eq (hrun : ListIteration l it h answers) :
    (h.advance it).1 = (h.list l)[answers.length]? := by
  rw [advance_of_cursor hrun.cursor_eq]

/-- A value that has been produced stands in the list where its request has led. -/
theorem getElem?_list (hrun : ListIteration l it h answers) {k : Nat} {v : Value}
    (hk : answers[k]? = some (some v)) : (h.list l)[k]? = some v := by
  induction hrun with
  | start hmade => cases hk
  | @request h answers hrun ih =>
    have hlist : (h.advance it).2.list l = h.list l := rfl
    rw [hlist]
    rcases getElem?_concat_cases hk with hbefore | ⟨rfl, hlast⟩
    · exact ih hbefore
    · rw [← hrun.next_eq, hlast]
  | append hrun hextends ih =>
    obtain ⟨more, hmore⟩ := hextends.list
    have hbefore := ih hk
    rw [← hmore, List.getElem?_append_left (List.getElem?_eq_some_iff.1 hbefore).1]
    exact hbefore

/-- An iterator over a list that grows answers each request by the item whose index is the number of
requests before it. What it has produced stands in the list at these indexes, in order, and is the
beginning of the list as long as no value was produced after a request that found nothing. -/
theorem reads_in_turn (hrun : ListIteration l it h answers) :
    (h.advance it).1 = (h.list l)[answers.length]? ∧
    (∀ (k : Nat) v, answers[k]? = some (some v) → (h.list l)[k]? = some v) ∧
    ((∀ (j k : Nat) v, j < k → answers[j]? = some none → answers[k]? ≠ some (some v)) →
      answers.filterMap id <+: h.list l) :=
  ⟨hrun.next_eq, fun _ _ hk => hrun.getElem?_list hk,
    filterMap_prefix_of_getElem? fun _ _ hk => hrun.getElem?_list hk⟩

end ListIteration

namespace LateItems

/-- A list of one item. -/
def heap : Heap :=
  { lists := #[[.int 1]] }

/-- The list and an iterator over it. -/
def made : Heap :=
  { heap with iterators := #[.overList ⟨0⟩ 0] }

/-- An item is requested. -/
def request (h : Heap) : Heap :=
  (h.advance ⟨0⟩).2

/-- An item is appended to the list. -/
def append (h : Heap) (v : Value) : Heap :=
  h.setList ⟨0⟩ (h.list ⟨0⟩ ++ [v])

theorem iteration_request_made : ListIteration ⟨0⟩ ⟨0⟩ (request made) [some (.int 1)] :=
  .request (.start (h := heap) rfl)

theorem iteration_append {h : Heap} {answers : List (Option Value)}
    (hrun : ListIteration ⟨0⟩ ⟨0⟩ h answers) (v : Value) :
    ListIteration ⟨0⟩ ⟨0⟩ (append h v) answers :=
  hrun.append (h.extends_append ⟨0⟩ ⟨0⟩ v)

/-- An item that is appended in time is met in its turn. -/
theorem met_in_time :
    ListIteration ⟨0⟩ ⟨0⟩ (request (append (request made) (.int 2)))
      [some (.int 1), some (.int 2)] ∧
    [.int 1, .int 2] <+: (request (append (request made) (.int 2))).list ⟨0⟩ := by
  have hrun : ListIteration ⟨0⟩ ⟨0⟩ (request (append (request made) (.int 2)))
      [some (.int 1), some (.int 2)] := .request (iteration_append iteration_request_made _)
  refine ⟨hrun, hrun.reads_in_turn.2.2 fun j k v _ hj => ?_⟩
  rcases j with _ | _ | j <;> cases hj

/-- After a request that found nothing, the first of two items that are appended is passed over: the
iterator has produced the first and the third item of the list. -/
theorem skipped_after_end : ∃ h answers, ListIteration ⟨0⟩ ⟨0⟩ h answers ∧
    h.list ⟨0⟩ = [.int 1, .int 2, .int 3] ∧ answers.filterMap id = [.int 1, .int 3] ∧
    ¬ answers.filterMap id <+: h.list ⟨0⟩ := by
  have hrun := ListIteration.request (iteration_append
    (iteration_append (.request iteration_request_made) (.int 2)) (.int 3))
  refine ⟨_, _, hrun, rfl, rfl, fun hprefix => ?_⟩
  have hsecond : Value.int 3 = .int 2 :=
    (List.cons_prefix_cons.1 (List.cons_prefix_cons.1 hprefix).2).1
  cases hsecond

end LateItems

end TaskletMachine
