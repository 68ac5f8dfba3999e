import TaskletMachine.Value.Heap

/-!
# Tables of the heap

A reference that leads past the end of its table reads as something empty. What reads otherwise is
in the table, so that it can be replaced; what has just been made is in the table as well.

## Main results

* `Heap.lt_size_of_list`, `Heap.lt_size_of_dict`, `Heap.lt_size_of_cursor`: references that are in
  the table.
* `Heap.list_setList`, `Heap.list_newList`, `Heap.dict_newDict`, `Heap.cursor_setCursor`,
  `Heap.cursor_newIterator`: reading what has been written.
-/
namespace TaskletMachine

theorem lt_size_of_getD_ne {α : Type} {table : Array α} {i : Nat} {empty : α}
    (h : table.getD i empty ≠ empty) : i < table.size :=
  Nat.lt_of_not_le fun hle => h (dif_neg (Nat.not_lt.2 hle))

namespace Heap

variable {h : Heap}

/-! ## References -/

theorem lt_size_of_list {r : ListRef} (hr : h.list r ≠ []) : r.index < h.lists.size :=
  lt_size_of_getD_ne hr

theorem lt_size_of_dict {r : DictRef} (hr : h.dict r ≠ []) : r.index < h.dicts.size :=
  lt_size_of_getD_ne hr

theorem lt_size_of_cursor {r : IteratorRef} (hr : h.cursor r ≠ default) :
    r.index < h.iterators.size :=
  lt_size_of_getD_ne hr

/-! ## Reading what was written -/

theorem list_setList_of_lt {r : ListRef} (hr : r.index < h.lists.size) (items : List Value) :
    (h.setList r items).list r = items := by
  simp [list, setList, hr]

/-- A list that has items takes others; one that has none takes none. -/
theorem list_setList {r : ListRef} {items : List Value}
    (hlength : items.length = (h.list r).length) : (h.setList r items).list r = items := by
  by_cases hr : r.index < h.lists.size
  · exact list_setList_of_lt hr items
  · have hempty : h.list r = [] := dif_neg hr
    rw [hempty] at hlength
    rw [List.length_eq_zero_iff.1 hlength, setList, Array.setIfInBounds, dif_neg hr]
    exact hempty

theorem list_newList (h : Heap) (items : List Value) :
    (h.newList items).2.list (h.newList items).1 = items := by
  simp [newList, list]

theorem dict_newDict (h : Heap) (entries : Entries Value Value) :
    (h.newDict entries).2.dict (h.newDict entries).1 = entries := by
  simp [newDict, dict]

theorem cursor_setCursor {r : IteratorRef} (hr : r.index < h.iterators.size) (c : Cursor) :
    (h.setCursor r c).cursor r = c := by
  simp [cursor, setCursor, hr]

theorem cursor_newIterator (h : Heap) (c : Cursor) :
    (h.newIterator c).2.cursor (h.newIterator c).1 = c := by
  simp [newIterator, cursor]

end Heap

end TaskletMachine
