import Mathlib.Algebra.Group.Nat.Defs
import TaskletMachine.Library.Call
import TaskletMachine.Proofs.Value.Tables

/-!
# Indexing lists

Reading, assigning, deleting and popping find the item at an index in the same way: an index counts
from the start, or from the end if it is negative. So they all act on the same item, or all raise an
index error, which they do exactly if the index is out of range.

## Main definitions

* `resolveWord?`: the position that an index denotes, found in words.
* `ListIndex.ActsOn`, `ListIndex.Refused`: what the four operations do at an index.

## Main results

* `resolveIndex?_eq_some_iff`, `resolveIndex?_eq_none_iff`: the positions that indexes denote.
* `resolveWord?_eq`: no index leaves the words on the way to its position.
* `ListIndex.operations_agree`: how the four operations compare.
-/
namespace TaskletMachine

/-! ## Positions -/

section Positions

variable {n k : Nat} {i : Int}

/-- A position is counted from the start, or from the end. -/
theorem resolveIndex?_eq_some_iff :
    resolveIndex? n i = some k ↔ k < n ∧ (i = k ∨ i = (k : Int) - n) := by
  simp only [resolveIndex?, Option.ite_none_right_eq_some, Option.some_inj]
  split <;> omega

theorem resolveIndex?_eq_none_iff : resolveIndex? n i = none ↔ ¬ (-(n : Int) ≤ i ∧ i < n) := by
  simp only [resolveIndex?, ite_eq_right_iff]
  split <;> simp <;> omega

/-- The position that an index denotes in a sequence, found in words. -/
def resolveWord? (length index : Int64) : Option Nat :=
  let position := if index < 0 then index + length else index
  if 0 ≤ position ∧ position < length then some position.toNatClampNeg else none

/-- A length is not negative, so that adding it to a negative index does not leave the words, and
the position found in words is the exact one. -/
theorem resolveWord?_eq (hn : n < 2 ^ 63) (index : Int64) :
    resolveWord? (Int64.ofNat n) index = resolveIndex? n index.toInt := by
  have hlength : (Int64.ofNat n).toInt = n := Int64.toInt_ofNat_of_lt hn
  have hposition : (if index < 0 then index + Int64.ofNat n else index).toInt =
      if index.toInt < 0 then index.toInt + n else index.toInt := by
    simp only [Int64.lt_iff_toInt_lt, Int64.toInt_zero]
    split
    · have hge := index.le_toInt
      rw [Int64.toInt_add, hlength, Int.bmod_eq_of_le (by omega) (by omega)]
    · rfl
  simp only [resolveWord?, resolveIndex?, Int64.le_iff_toInt_le, Int64.lt_iff_toInt_lt,
    Int64.toInt_zero, hlength, Int64.toNatClampNeg] at hposition ⊢
  rw [hposition]

end Positions

/-! ## Lists -/

namespace Heap

theorem subscript_list (h : Heap) (r : ListRef) (i : Int64) :
    h.subscript (.list r) (.int i) =
      match resolveIndex? (h.list r).length i.toInt with
      | some k => .ok ((h.list r).getD k .none)
      | none => .error (.raise .indexError "list index out of range") := by
  simp only [subscript, sequenceIndex]
  cases resolveIndex? (h.list r).length i.toInt <;> rfl

theorem storeSubscript_list (h : Heap) (r : ListRef) (i : Int64) (v : Value) :
    h.storeSubscript (.list r) (.int i) v =
      match resolveIndex? (h.list r).length i.toInt with
      | some k => .ok (h.setList r ((h.list r).set k v))
      | none => .error (.raise .indexError "list assignment index out of range") := by
  simp only [storeSubscript, sequenceIndex]
  cases resolveIndex? (h.list r).length i.toInt <;> rfl

theorem deleteSubscript_list (h : Heap) (r : ListRef) (i : Int64) :
    h.deleteSubscript (.list r) (.int i) =
      match resolveIndex? (h.list r).length i.toInt with
      | some k => .ok (h.setList r ((h.list r).eraseIdx k))
      | none => .error (.raise .indexError "list assignment index out of range") := by
  simp only [deleteSubscript, sequenceIndex]
  cases resolveIndex? (h.list r).length i.toInt <;> rfl

end Heap

/-! ## The operations -/

namespace ListIndex

section Operations

variable (host : Host) (keywords : Namespace) (w : World) (r : ListRef) (i : Int64)

/-- At the index, all operations on the list act on the same item. -/
structure ActsOn (before : List Value) (item : Value) (after : List Value) : Prop where
  items : w.heap.list r = before ++ item :: after
  /-- The item is as far from the start, or from the end, as the index says. -/
  position : i.toInt = before.length ∨ i.toInt = -(after.length + 1 : Int)
  load : w.heap.subscript (.list r) (.int i) = .ok item
  /-- What is assigned takes the place of the item and is what is read there next. -/
  store (v : Value) : ∃ h, w.heap.storeSubscript (.list r) (.int i) v = .ok h ∧
    h = w.heap.setList r (before ++ v :: after) ∧ h.list r = before ++ v :: after ∧
    h.subscript (.list r) (.int i) = .ok v
  /-- Deleting takes the item out, and popping does the same and replies with it. -/
  remove : ∃ h, w.heap.deleteSubscript (.list r) (.int i) = .ok h ∧
    h = w.heap.setList r (before ++ after) ∧ h.list r = before ++ after ∧
    callNative host (.listMethod .pop) [.list r, .int i] keywords w =
      .ok (.value item) { w with heap := h }

/-- At the index, all operations on the list raise an index error. -/
structure Refused : Prop where
  load : ∃ message, w.heap.subscript (.list r) (.int i) = .error (.raise .indexError message)
  store (v : Value) : ∃ message,
    w.heap.storeSubscript (.list r) (.int i) v = .error (.raise .indexError message)
  delete : ∃ message,
    w.heap.deleteSubscript (.list r) (.int i) = .error (.raise .indexError message)
  pop : ∃ message, callNative host (.listMethod .pop) [.list r, .int i] keywords w =
    .error (.raise .indexError message) w

end Operations

variable {host : Host} {keywords : Namespace} {w : World} {r : ListRef} {i : Int64}

/-- An empty list has no item at any index, so that its own message is all that is special. -/
theorem pop_eq (host : Host) (keywords : Namespace) (w : World) (r : ListRef) (i : Int64) :
    callNative host (.listMethod .pop) [.list r, .int i] keywords w =
      match resolveIndex? (w.heap.list r).length i.toInt with
      | some k =>
        .ok (.value ((w.heap.list r).getD k .none))
          { w with heap := w.heap.setList r ((w.heap.list r).eraseIdx k) }
      | none =>
        .error (.raise .indexError
          (if (w.heap.list r).isEmpty then "pop from empty list" else "pop index out of range"))
          w := by
  have hstart : callNative host (.listMethod .pop) [.list r, .int i] keywords w =
      ListMethod.popAt r i w := rfl
  rw [hstart, ListMethod.popAt, Effect.bind_heap]
  by_cases hempty : (w.heap.list r).isEmpty
  · have hnone : resolveIndex? (w.heap.list r).length i.toInt = none := by
      rw [List.isEmpty_iff] at hempty
      rw [resolveIndex?_eq_none_iff, hempty]
      simp
    rw [hnone, if_pos hempty, if_pos hempty]
    rfl
  · rw [if_neg hempty, if_neg hempty]
    cases resolveIndex? (w.heap.list r).length i.toInt <;> rfl

theorem actsOn {k : Nat} (hk : resolveIndex? (w.heap.list r).length i.toInt = some k) :
    ∃ before item after, ActsOn host keywords w r i before item after := by
  obtain ⟨hlt, hposition⟩ := resolveIndex?_eq_some_iff.1 hk
  obtain ⟨before, item, after, hitems, rfl⟩ : ∃ before item after,
      w.heap.list r = before ++ item :: after ∧ k = before.length :=
    ⟨(w.heap.list r).take k, _, _, by rw [← List.drop_eq_getElem_cons hlt, List.take_append_drop],
      by rw [List.length_take, Nat.min_eq_left (Nat.le_of_lt hlt)]⟩
  have hr : r.index < w.heap.lists.size := Heap.lt_size_of_list (by simp [hitems])
  refine ⟨before, item, after, hitems, ?_, ?_, fun v => ?_, ?_⟩
  · rw [hitems] at hposition
    simp at hposition
    omega
  · rw [Heap.subscript_list, hk, hitems]
    simp
  · -- The length stays, so that the index denotes the same position afterwards.
    have hstored := Heap.list_setList_of_lt hr (before ++ v :: after)
    refine ⟨_, ?_, rfl, hstored, ?_⟩
    · rw [Heap.storeSubscript_list, hk, hitems]
      simp
    · have hlength : (before ++ v :: after).length = (w.heap.list r).length := by
        rw [hitems]
        simp
      rw [Heap.subscript_list, hstored, hlength, hk]
      simp
  · have herased : (before ++ item :: after).eraseIdx before.length = before ++ after := by
      rw [List.eraseIdx_append_of_length_le (Nat.le_refl _)]
      simp
    refine ⟨_, ?_, rfl, Heap.list_setList_of_lt hr _, ?_⟩
    · rw [Heap.deleteSubscript_list, hk, hitems]
      simp [herased]
    · rw [pop_eq, hk, hitems]
      simp [herased]

theorem refused (hk : resolveIndex? (w.heap.list r).length i.toInt = none) :
    Refused host keywords w r i where
  load := ⟨_, by rw [Heap.subscript_list, hk]⟩
  store v := ⟨_, by rw [Heap.storeSubscript_list, hk]⟩
  delete := ⟨_, by rw [Heap.deleteSubscript_list, hk]⟩
  pop := ⟨_, by rw [pop_eq, hk]⟩

/-- Reading, assigning, deleting and popping at an index of a list act on the same item if the index
is in range, and otherwise all raise an index error. In a list that fits into memory the position is
found in words, whatever the index. -/
theorem operations_agree (host : Host) (keywords : Namespace) (w : World) (r : ListRef)
    (i : Int64) :
    (if -((w.heap.list r).length : Int) ≤ i.toInt ∧ i.toInt < (w.heap.list r).length then
      ∃ before item after, ActsOn host keywords w r i before item after
    else Refused host keywords w r i) ∧
    ((w.heap.list r).length < 2 ^ 63 →
      resolveWord? (Int64.ofNat (w.heap.list r).length) i =
        resolveIndex? (w.heap.list r).length i.toInt) := by
  refine ⟨?_, fun hlength => resolveWord?_eq hlength i⟩
  split
  · next hrange =>
    obtain ⟨k, hk⟩ := Option.ne_none_iff_exists'.1 fun hnone =>
      absurd hrange (resolveIndex?_eq_none_iff.1 hnone)
    exact actsOn hk
  · next hrange => exact refused (resolveIndex?_eq_none_iff.2 hrange)

/-- A list of three items. -/
def threeItems : World where
  heap := { lists := #[[.int 10, .int 20, .int 30]] }

/-- The last item but one is popped, and the least word is no index. -/
theorem pop_of_three_items :
    (threeItems.heap.list ⟨0⟩).length < 2 ^ 63 ∧
    (∃ h, threeItems.heap.deleteSubscript (.list ⟨0⟩) (.int (-2)) = .ok h ∧
      h.list ⟨0⟩ = [.int 10, .int 30] ∧
      callNative .empty (.listMethod .pop) [.list ⟨0⟩, .int (-2)] [] threeItems =
        .ok (.value (.int 20)) { threeItems with heap := h }) ∧
    Refused .empty [] threeItems ⟨0⟩ Int64.minValue ∧
    resolveWord? 3 Int64.minValue = none := by
  have hlength : (threeItems.heap.list ⟨0⟩).length < 2 ^ 63 := by decide
  have hpop := (operations_agree .empty [] threeItems ⟨0⟩ (-2)).1
  rw [if_pos (by decide)] at hpop
  obtain ⟨before, item, after, hacts⟩ := hpop
  obtain ⟨hleast, hword⟩ := operations_agree .empty [] threeItems ⟨0⟩ Int64.minValue
  rw [if_neg (by decide)] at hleast
  refine ⟨hlength, ?_, hleast, hword hlength⟩
  obtain ⟨h, hdelete, -, -, hpopped⟩ := hacts.remove
  cases hdelete
  cases hpopped
  exact ⟨_, rfl, rfl, rfl⟩

end ListIndex

end TaskletMachine
