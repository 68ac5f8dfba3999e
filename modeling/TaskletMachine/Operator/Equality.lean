import TaskletMachine.Operator.Number
import TaskletMachine.Value.Key

/-!
# Equality

Numbers are equal by value, strings and containers by content, and all else by identity. Containers
may contain themselves: a pair of containers that is met again while it is being compared counts as
equal. Only finitely many pairs can be met anew, so comparing ends.

## Main definitions

* `Heap.equalWith`: equality, given how two containers are compared.
* `Heap.equalWithin`: equality that can enter a number of pairs of containers.
* `Heap.equal`: equality.
-/
namespace TaskletMachine

/-- Pairs of containers that are being compared, innermost first. -/
abbrev Comparing := List (Container × Container)

namespace Heap

mutual

/-- Equality, given how two containers with different identities are compared. -/
def equalWith (h : Heap) (nested : Container → Container → Bool) : Value → Value → Bool
  | .tuple _ xs, .tuple _ ys => equalItems h nested xs ys
  | .list r, .list s => r == s || nested (.list r) (.list s)
  | .dict r, .dict s => r == s || nested (.dict r) (.dict s)
  | a, b =>
    match a.numeric?, b.numeric? with
    | some m, some n => m.equal n
    | _, _ => h.identical a b

/-- Equality of sequences item by item. -/
def equalItems (h : Heap) (nested : Container → Container → Bool) : List Value → List Value → Bool
  | [], [] => true
  | a :: as, b :: bs => equalWith h nested a b && equalItems h nested as bs
  | _, _ => false

end

/-- Equality of the contents of two containers, given how values are compared: lists by position,
dicts by key. -/
def equalContents (h : Heap) (equal : Value → Value → Bool) : Container → Container → Bool
  | .list r, .list s =>
    let xs := h.list r
    let ys := h.list s
    xs.length == ys.length && (xs.zip ys).all fun (a, b) => equal a b
  | .dict r, .dict s =>
    let xs := h.dict r
    let ys := h.dict s
    xs.length == ys.length && xs.all fun (key, a) =>
      match Entries.get? (Value.sameKey key) ys with
      | some b => equal a b
      | none => false
  | _, _ => false

/-- Equality that enters at most `budget` pairs of containers on one way down. -/
def equalWithin (h : Heap) : (budget : Nat) → Comparing → Value → Value → Bool
  | 0, _ => h.equalWith fun _ _ => true
  | budget + 1, comparing => h.equalWith fun c d =>
    comparing.contains (c, d) || h.equalContents (h.equalWithin budget ((c, d) :: comparing)) c d

/-- More than the number of pairs of containers of one kind. -/
def pairBudget (h : Heap) : Nat :=
  h.lists.size * h.lists.size + h.dicts.size * h.dicts.size + 1

/-- Whether two values are equal. -/
def equal (h : Heap) : Value → Value → Bool :=
  h.equalWithin h.pairBudget []

end Heap

end TaskletMachine
