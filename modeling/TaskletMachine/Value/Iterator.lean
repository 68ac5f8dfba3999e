import TaskletMachine.Value.Traits

/-!
# Iterators

How a cursor moves. An iterator over a list reads the list when an item is due, and counts every
request, also those past the end; the others run through a fixed sequence.

## Main definitions

* `Cursor.next`: the value at a cursor and the cursor after it.
* `Cursor.drain`: all values from a cursor on.
* `Heap.iteratorOf?`: an iterator over a native container.
-/
namespace TaskletMachine

/-- The sum of two words, kept within the range of words. -/
def saturatingAdd (a b : Int64) : Int64 :=
  Int64.ofInt (max Int64.minValue.toInt (min Int64.maxValue.toInt (a.toInt + b.toInt)))

namespace Cursor

/-- The value at a cursor, if there is one, and the cursor after the request. A range ends where the
next number would leave the words. -/
def next (h : Heap) : Cursor → Option Value × Cursor
  | overList r index => ((h.list r)[index]?, overList r (index + 1))
  | overItems [] => (none, overItems [])
  | overItems (v :: rest) => (some v, overItems rest)
  | overChars [] => (none, overChars [])
  | overChars (c :: rest) => (some (.str c.toString), overChars rest)
  | overRange n stop step =>
    if (if 0 < step then n < stop else stop < n) then
      let sum := saturatingAdd n step
      (some (.int n), overRange (if sum == n then stop else sum) stop step)
    else (none, overRange n stop step)

/-- A number of requests after which a cursor is past its end. -/
def bound (h : Heap) : Cursor → Nat
  | overList r index => (h.list r).length - index
  | overItems rest => rest.length
  | overChars rest => rest.length
  | overRange n stop step =>
    if step == 0 then 0 else (stop.toInt - n.toInt).natAbs / step.toInt.natAbs + 1

/-- Requests values until there is none, at most `count` of them; those read so far are passed
newest first. -/
def drainUpTo (h : Heap) : (count : Nat) → (read : List Value) → Cursor → List Value × Cursor
  | 0, read, c => (read.reverse, c)
  | count + 1, read, c =>
    match c.next h with
    | (none, c) => (read.reverse, c)
    | (some v, c) => drainUpTo h count (v :: read) c

/-- All values from a cursor on, and the cursor past its end. -/
def drain (h : Heap) (c : Cursor) : List Value × Cursor :=
  drainUpTo h (c.bound h + 1) [] c

end Cursor

namespace Heap

/-- The cursor before the first value of a native container; a dict is run through by the keys that
it has now. -/
def cursorOf? (h : Heap) : Value → Option Cursor
  | .list r => some (.overList r 0)
  | .tuple _ items => some (.overItems items)
  | .str s => some (.overChars s.toList)
  | .dict r => some (.overItems ((h.dict r).map Prod.fst))
  | _ => none

/-- An iterator over a native container; an iterator is its own. -/
def iteratorOf? (h : Heap) : Value → Option (IteratorRef × Heap)
  | .iterator r => some (r, h)
  | v => (h.cursorOf? v).map h.newIterator

/-- The next value of an iterator, which moves on. -/
def advance (h : Heap) (r : IteratorRef) : Option Value × Heap :=
  let (v, c) := (h.cursor r).next h
  (v, h.setCursor r c)

/-- All values of a native container, or those that an iterator has left. -/
def collect? (h : Heap) : Value → Option (List Value × Heap)
  | .iterator r =>
    let (vs, c) := (h.cursor r).drain h
    some (vs, h.setCursor r c)
  | v => (h.cursorOf? v).map fun c => ((c.drain h).1, h)

end Heap

end TaskletMachine
