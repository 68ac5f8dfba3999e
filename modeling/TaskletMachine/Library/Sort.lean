import TaskletMachine.Library.StableSort
import TaskletMachine.Operator.Compare

/-!
# Sorting values

Values cannot always be compared, but a sort goes on until it is done, and reports the first failure
once it is complete. Since all items count as equal after a failure, the answers that the sort gets
need not be those of an order, and it can break down.

## Main definitions

* `Heap.compareValues`: which of two values comes first.
* `sortValues`: the values in ascending order.
-/
namespace TaskletMachine

/-- Which of two values comes first, by the comparison operators. -/
def Heap.compareValues (h : Heap) (a b : Value) : Except Error Ordering := do
  if ← h.compare .less a b then return .lt
  else if ← h.compare .greater a b then return .gt
  else return .eq

/-- The values in ascending order, as a sort finds it. -/
def sortValues (sorter : (n : Nat) → Sorter n) (h : Heap) (values : List Value) :
    Except Error (List Value) :=
  match (sorter values.length).run (fun i j => h.compareValues (values.get i) (values.get j))
    none with
  | some (order, none) => .ok (order.map values.get)
  | some (_, some e) => .error e
  | none => .error { cause := .noOrder }

end TaskletMachine
