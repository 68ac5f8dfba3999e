import TaskletMachine.Operator.Equality

/-!
# Ordering

Numbers are ordered by value, strings by their characters, tuples and lists by their first items
that differ. Other values cannot be compared. As for equality, a pair of lists that is met again
while it is being compared counts as equal.

## Main definitions

* `Heap.orderWith`: the order, given how items and lists are compared.
* `Heap.order`: the order.
-/
namespace TaskletMachine.Heap

/-- The order of values that are neither tuples nor lists. -/
def orderAtoms (a b : Value) : Verdict :=
  match a.numeric?, b.numeric? with
  | some m, some n => m.compare n
  | _, _ =>
    match a, b with
    | .str s, .str t => .ordered (compare s t)
    | _, _ => .incomparable

mutual

/-- The order, given when items are equal and how two lists compare. -/
def orderWith (equal : Value → Value → Bool) (nested : ListRef → ListRef → Verdict) :
    Value → Value → Verdict
  | .tuple _ xs, .tuple _ ys => orderItems equal nested xs ys
  | .list r, .list s => nested r s
  | a, b => orderAtoms a b

/-- The order of sequences: that of the first items that are not equal, and if there are none that
of the lengths. -/
def orderItems (equal : Value → Value → Bool) (nested : ListRef → ListRef → Verdict) :
    List Value → List Value → Verdict
  | [], [] => .ordered .eq
  | [], _ :: _ => .ordered .lt
  | _ :: _, [] => .ordered .gt
  | a :: as, b :: bs =>
    if equal a b then orderItems equal nested as bs else orderWith equal nested a b

end

/-- The order that enters at most `budget` pairs of lists on one way down. -/
def orderWithin (h : Heap) : (budget : Nat) → Comparing → Value → Value → Verdict
  | 0, comparing => orderWith (h.equalWithin 0 comparing) fun _ _ => .ordered .eq
  | budget + 1, comparing =>
    orderWith (h.equalWithin (budget + 1) comparing) fun r s =>
      if comparing.contains (.list r, .list s) then .ordered .eq
      else
        let comparing := (.list r, .list s) :: comparing
        orderItems (h.equalWithin budget comparing) (fun r s =>
          h.orderWithin budget comparing (.list r) (.list s)) (h.list r) (h.list s)

/-- Which of two values comes first. -/
def order (h : Heap) : Value → Value → Verdict :=
  h.orderWithin h.pairBudget []

end TaskletMachine.Heap
