/-!
# Computations that compare items

A comparison sort knows its items by their positions. It asks how two of them compare and goes on
from the answer. Comparisons can fail: the first failure is kept, and from then on all items are
taken for equal, which need not fit the answers before. A computation that notices that its answers
are not those of an order may break off.

## Main definitions

* `Asking`: computations that ask how items compare.
* `Asking.run`: what a computation finds if comparisons can fail.
* `Row`, `Sorter`: comparison sorts.
-/
namespace TaskletMachine

/-- A computation that asks how items compare, which it knows by their positions. -/
inductive Asking (n : Nat) (α : Type) where
  | done (result : α)
  /-- How does the item at one position compare with that at another one? -/
  | ask (i j : Fin n) (next : Ordering → Asking n α)
  /-- The answers are not those of an order. -/
  | breakOff

namespace Asking

variable {n : Nat} {α β ε : Type}

/-- Goes on with the result of a computation. -/
def bind : Asking n α → (α → Asking n β) → Asking n β
  | done a, f => f a
  | ask i j next, f => ask i j fun o => (next o).bind f
  | breakOff, _ => breakOff

instance : Monad (Asking n) where
  pure := done
  bind := bind

/-- Whether one item is less than another one. -/
def less (i j : Fin n) : Asking n Bool :=
  ask i j fun o => done (o == .lt)

/-- Whether one item is not less than another one. -/
def notLess (i j : Fin n) : Asking n Bool :=
  return !(← less i j)

/-- What a computation finds, and the first comparison that failed. Nothing is found if the
computation breaks off. -/
def run (compare : Fin n → Fin n → Except ε Ordering) :
    Asking n α → (failure : Option ε) → Option (α × Option ε)
  | done a, failure => some (a, failure)
  | breakOff, _ => none
  | ask _ _ next, some e => (next .eq).run compare (some e)
  | ask i j next, none =>
    match compare i j with
    | .ok o => (next o).run compare none
    | .error e => (next .eq).run compare (some e)

end Asking

/-- Items one after the other, which are known by their positions. -/
abbrev Row (n : Nat) :=
  List (Fin n)

/-- A comparison sort of `n` items: it finds their final order. -/
abbrev Sorter (n : Nat) :=
  Asking n (Row n)

end TaskletMachine
