import Mathlib.Tactic.Linarith
import Mathlib.Tactic.Ring
import TaskletMachine.Library.Call
import TaskletMachine.Proofs.Number.Word
import TaskletMachine.Proofs.Value.ListIteration

/-!
# Iterating over a range

A range counts in exact steps from its start. Its cursor is a word, which cannot leave the range of
words: where the next number would, the cursor stops at the limit. No end lies beyond the limit, so
the range is over there, as it is for the number that the cursor could not reach.

## Main definitions

* `Due`: the numbers before the end of a range.
* `Iteration`: the history of an iterator.
* `AnswersNumber`: what the request of a number is answered with.
* `Cursor.StandsFor`: where a cursor stands that has come to an exact number.

## Main results

* `range_counts_exactly`: what the requests of a history are answered with.
-/
namespace TaskletMachine

/-- A number lies before the end in the direction of the steps. -/
def Due (stop step n : Int) : Prop :=
  if 0 < step then n < stop else stop < n

/-- The history of an iterator from when it was made, with the answers to its requests, oldest
first. Between two requests all but the iterator may change. -/
inductive Iteration (it : IteratorRef) (made : Heap) : Heap → List (Option Value) → Prop
  /-- The iterator has just been made. -/
  | start : Iteration it made made []
  /-- A value is requested. -/
  | request {h : Heap} {answers : List (Option Value)} (hrun : Iteration it made h answers) :
      Iteration it made (h.advance it).2 (answers ++ [(h.advance it).1])
  /-- Something else happens. -/
  | other {h h' : Heap} {answers : List (Option Value)} (hrun : Iteration it made h answers)
      (hcursor : h'.cursor it = h.cursor it) : Iteration it made h' answers

/-- What the request of a number is answered with: the number if it is due, and nothing if not. -/
structure AnswersNumber (stop step n : Int) (answer : Option Value) : Prop where
  number : Due stop step n → ∃ k : Int64, k.toInt = n ∧ answer = some (.int k)
  exhausted : ¬ Due stop step n → answer = none

/-! ## Numbers -/

/-- A range does not come back before its end. -/
theorem not_due_add {stop step n : Int} (h : ¬ Due stop step n) : ¬ Due stop step (n + step) := by
  unfold Due at *
  split_ifs at * <;> omega

/-- The sum of words is exact, or the limit that it would pass. -/
theorem toInt_saturatingAdd (a b : Int64) :
    (saturatingAdd a b).toInt = max (-2 ^ 63) (min (2 ^ 63 - 1) (a.toInt + b.toInt)) := by
  rw [saturatingAdd, Int64.toInt_minValue, Int64.toInt_maxValue]
  exact Int64.toInt_ofInt_of_le (by omega) (by omega)

/-! ## Cursors -/

namespace Cursor

variable {stop step k : Int64} {n : Int} {c : Cursor}

theorem inRange_iff :
    (if 0 < step then k < stop else stop < k) ↔ Due stop.toInt step.toInt k.toInt := by
  simp only [Due, Int64.lt_iff_toInt_lt, Int64.toInt_zero]

/-- A cursor before the end is not at the limit that it moves towards, so that it always moves. -/
theorem next_overRange_of_due (hstep : step ≠ 0) (h : Heap)
    (hdue : Due stop.toInt step.toInt k.toInt) :
    (overRange k stop step).next h =
      (some (.int k), overRange (saturatingAdd k step) stop step) := by
  have hmoves : saturatingAdd k step ≠ k := by
    -- Only a sum that stops at the limit could be `k`, and the end would have to lie beyond it.
    intro heq
    have hsum := toInt_saturatingAdd k step
    have hnonzero : step.toInt ≠ 0 := fun hzero => hstep (Int64.toInt_inj.1 hzero)
    have hlt := stop.toInt_lt
    have hge := stop.le_toInt
    rw [heq] at hsum
    unfold Due at hdue
    split at hdue <;> omega
  simp only [next, if_pos (inRange_iff.2 hdue), beq_iff_eq, if_neg hmoves]

theorem next_overRange_of_not_due (h : Heap) (hdue : ¬ Due stop.toInt step.toInt k.toInt) :
    (overRange k stop step).next h = (none, overRange k stop step) := by
  simp only [next, if_neg (mt inRange_iff.1 hdue)]

/-- Where a cursor stands that has come to an exact number: there, or past the end as that number
is. -/
inductive StandsFor (stop step : Int64) (n : Int) : Cursor → Prop
  | exact {k : Int64} (hk : k.toInt = n) : StandsFor stop step n (overRange k stop step)
  | past {k : Int64} (hk : ¬ Due stop.toInt step.toInt k.toInt)
      (hn : ¬ Due stop.toInt step.toInt n) : StandsFor stop step n (overRange k stop step)

/-- A limit that a sum stopped at is past the end, since the end is a word. -/
theorem standsFor_saturatingAdd (k : Int64) :
    StandsFor stop step (k.toInt + step.toInt) (overRange (saturatingAdd k step) stop step) := by
  by_cases hword : (saturatingAdd k step).toInt = k.toInt + step.toInt
  · exact .exact hword
  · have hsum := toInt_saturatingAdd k step
    have hlt := stop.toInt_lt
    have hge := stop.le_toInt
    have hklt := k.toInt_lt
    have hkge := k.le_toInt
    refine .past ?_ ?_ <;>
    · unfold Due
      split <;> omega

/-- A request is answered by the number that the cursor has come to, as long as that is due, and the
cursor comes to the number after it. -/
theorem StandsFor.next (hstep : step ≠ 0) (h : Heap) (hc : c.StandsFor stop step n) :
    (c.next h).2.StandsFor stop step (n + step.toInt) ∧
      AnswersNumber stop.toInt step.toInt n (c.next h).1 := by
  have hpast {k : Int64} (hk : ¬ Due stop.toInt step.toInt k.toInt)
      (hn : ¬ Due stop.toInt step.toInt n) :
      ((overRange k stop step).next h).2.StandsFor stop step (n + step.toInt) ∧
        AnswersNumber stop.toInt step.toInt n ((overRange k stop step).next h).1 := by
    rw [next_overRange_of_not_due h hk]
    exact ⟨.past hk (not_due_add hn), fun hdue => absurd hdue hn, fun _ => rfl⟩
  cases hc with
  | @exact k hk =>
    subst hk
    by_cases hdue : Due stop.toInt step.toInt k.toInt
    · rw [next_overRange_of_due hstep h hdue]
      exact ⟨standsFor_saturatingAdd k, fun _ => ⟨k, rfl, rfl⟩, fun hnot => absurd hdue hnot⟩
    · exact hpast hdue hdue
  | past hk hn => exact hpast hk hn

/-- A cursor over a range is in the table, since a reference past it reads as another kind. -/
theorem StandsFor.lt_size {h : Heap} {it : IteratorRef}
    (hc : (h.cursor it).StandsFor stop step n) : it.index < h.iterators.size := by
  refine Heap.lt_size_of_cursor fun hempty => ?_
  rw [hempty] at hc
  cases hc

end Cursor

/-! ## Requests -/

section Requests

variable {start stop step : Int64} {made h : Heap} {it : IteratorRef}
  {answers : List (Option Value)}

theorem Heap.cursor_advance (hlt : it.index < h.iterators.size) :
    (h.advance it).2.cursor it = ((h.cursor it).next h).2 :=
  cursor_setCursor hlt _

/-- After some requests the cursor has come to the number that is as many steps from the start. -/
theorem Iteration.standsFor (hstep : step ≠ 0) (hmade : made.cursor it = .overRange start stop step)
    (hrun : Iteration it made h answers) :
    (h.cursor it).StandsFor stop step (start.toInt + answers.length * step.toInt) := by
  induction hrun with
  | start =>
    rw [hmade]
    exact .exact (by simp)
  | @request h answers hrun ih =>
    have hnext := (ih.next hstep h).1
    rw [Heap.cursor_advance ih.lt_size]
    have hnumber : start.toInt + answers.length * step.toInt + step.toInt =
        start.toInt + (answers ++ [(h.advance it).1]).length * step.toInt := by
      rw [List.length_append, List.length_singleton]
      push_cast
      ring
    rwa [hnumber] at hnext
  | other hrun hcursor ih => rwa [hcursor]

/-- Each request is answered by the number that is as many steps from the start as there were
requests before. -/
theorem Iteration.answersNumber (hstep : step ≠ 0)
    (hmade : made.cursor it = .overRange start stop step) (hrun : Iteration it made h answers) :
    ∀ (k : Nat) answer, answers[k]? = some answer →
      AnswersNumber stop.toInt step.toInt (start.toInt + k * step.toInt) answer := by
  induction hrun with
  | start => simp
  | @request h answers hrun ih =>
    intro k answer hk
    rcases getElem?_concat_cases hk with hbefore | ⟨rfl, hlast⟩
    · exact ih k answer hbefore
    · exact hlast ▸ ((hrun.standsFor hstep hmade).next hstep h).2
  | other hrun hcursor ih => exact ih

/-- A value is only an answer if the number is due. -/
theorem AnswersNumber.of_some {stop step n : Int} {v : Value}
    (h : AnswersNumber stop step n (some v)) :
    Due stop step n ∧ ∃ k : Int64, k.toInt = n ∧ v = .int k := by
  have hdue : Due stop step n := by
    by_contra hnot
    cases h.exhausted hnot
  obtain ⟨k, hk, hv⟩ := h.number hdue
  exact ⟨hdue, k, hk, Option.some_inj.1 hv⟩

theorem AnswersNumber.not_due {stop step n : Int} (h : AnswersNumber stop step n none) :
    ¬ Due stop step n := by
  intro hdue
  obtain ⟨k, -, hv⟩ := h.number hdue
  cases hv

theorem not_due_of_le {n : Int} {step stop : Int} {j k : Nat} (hjk : j ≤ k)
    (h : ¬ Due stop step (n + j * step)) : ¬ Due stop step (n + k * step) := by
  induction hjk with
  | refl => exact h
  | @step k hle ih =>
    have hnumber : n + (k + 1 : Nat) * step = n + k * step + step := by
      push_cast
      ring
    rw [hnumber]
    exact not_due_add ih

/-- Different requests are answered by different numbers. -/
theorem nodup_of_answersNumber {stop step n : Int} (hstep : step ≠ 0)
    (hanswers : ∀ (k : Nat) answer, answers[k]? = some answer →
      AnswersNumber stop step (n + k * step) answer) : (answers.filterMap id).Nodup := by
  rw [List.Nodup, List.pairwise_filterMap, List.pairwise_iff_getElem]
  intro j k hj hk hjk v hv v' hv' heq
  have hfirst := hanswers j (some v) (by rw [List.getElem?_eq_getElem hj]; exact congrArg _ hv)
  have hsecond := hanswers k (some v') (by rw [List.getElem?_eq_getElem hk]; exact congrArg _ hv')
  obtain ⟨-, x, hx, rfl⟩ := hfirst.of_some
  obtain ⟨-, x', hx', rfl⟩ := hsecond.of_some
  cases heq
  have hsame : (j : Int) * step = k * step := by linarith
  have hjk' := Int.eq_of_mul_eq_mul_right hstep hsame
  omega

end Requests

theorem Builtin.range_eq (host : Host) (keywords : Namespace) (w : World)
    {start stop step : Int64} (hstep : step ≠ 0) :
    callNative host (.builtin .range) [.int start, .int stop, .int step] keywords w =
      let (it, made) := w.heap.newIterator (.overRange start stop step)
      .ok (.value (.iterator it)) { w with heap := made } := by
  have hcall : callNative host (.builtin .range) [.int start, .int stop, .int step] keywords w =
      makeRange start stop step w := rfl
  rw [hcall, makeRange, if_neg (by simpa using hstep)]
  rfl

/-- A range of words with a step other than zero counts in exact integers: a request is answered by
the number that is as many steps from the start as there were requests before, as long as that
number is before the end. After that there is no answer any more, and no number comes twice. -/
theorem range_counts_exactly (host : Host) (keywords : Namespace) (w : World)
    {start stop step : Int64} (hstep : step ≠ 0) :
    let (it, made) := w.heap.newIterator (.overRange start stop step)
    callNative host (.builtin .range) [.int start, .int stop, .int step] keywords w =
      .ok (.value (.iterator it)) { w with heap := made } ∧
    ∀ h answers, Iteration it made h answers →
      (∀ (k : Nat) answer, answers[k]? = some answer →
        AnswersNumber stop.toInt step.toInt (start.toInt + k * step.toInt) answer) ∧
      (∀ (j k : Nat) answer, j ≤ k → answers[j]? = some none → answers[k]? = some answer →
        answer = none) ∧
      (answers.filterMap id).Nodup := by
  refine ⟨Builtin.range_eq host keywords w hstep, fun h answers hrun => ?_⟩
  have hanswers := hrun.answersNumber hstep (w.heap.cursor_newIterator _)
  refine ⟨hanswers, fun j k answer hjk hj hk => ?_, ?_⟩
  · exact (hanswers k _ hk).exhausted (not_due_of_le hjk (hanswers j _ hj).not_due)
  · exact nodup_of_answersNumber (fun hzero => hstep (Int64.toInt_inj.1 hzero)) hanswers

/-- A range that comes within a step of the greatest word. -/
def LastNumbers.made : Heap where
  iterators := #[.overRange (Int64.maxValue - 3) Int64.maxValue 2]

/-- A value of the range is requested. -/
def LastNumbers.request (h : Heap) : Heap :=
  (h.advance ⟨0⟩).2

/-- The answers to four requests. -/
def LastNumbers.answers : List (Option Value) :=
  [some (.int (Int64.maxValue - 3)), some (.int (Int64.maxValue - 1)), none, none]

/-- The range is over where its next number would pass the greatest word. -/
theorem LastNumbers.over_at_limit :
    (2 : Int64) ≠ 0 ∧
    callNative .empty (.builtin .range)
        [.int (Int64.maxValue - 3), .int Int64.maxValue, .int 2] [] {} =
      .ok (.value (.iterator ⟨0⟩)) { heap := made } ∧
    Iteration ⟨0⟩ made (request (request (request (request made)))) answers ∧
    (∀ (k : Nat) answer, answers[k]? = some answer →
      AnswersNumber (2 ^ 63 - 1) 2 (2 ^ 63 - 4 + k * 2) answer) ∧
    (answers.filterMap id).Nodup := by
  have hstep : (2 : Int64) ≠ 0 := by decide
  have hrun : Iteration ⟨0⟩ made (request (request (request (request made)))) answers :=
    .request (.request (.request (.request .start)))
  obtain ⟨hcall, hanswers⟩ := @range_counts_exactly .empty [] {} (Int64.maxValue - 3)
    Int64.maxValue 2 hstep
  obtain ⟨hnumbers, -, hdistinct⟩ := hanswers _ _ hrun
  exact ⟨hstep, hcall, hrun, hnumbers, hdistinct⟩

end TaskletMachine
