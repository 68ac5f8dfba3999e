import TaskletMachine.Library.Asking

/-!
# A stable sort

The sort of lists. Few items are sorted by insertion. Otherwise a row is cut into runs: parts that
are in order already are taken as they are, and others are sorted at once or left for later. The
runs are merged in pairs, in the order of a tree that is balanced by their lengths; neighbouring
runs that are left for later become one, which is sorted by partitioning when it is to be merged
with a sorted one.

## Main definitions

* `Row.insertAll`, `Sorter.insertion`: sorting by insertion.
* `Row.sortSmall`: sorts the halves of a short row and merges them from both ends.
* `Row.quicksort`: sorts a row by partitioning it.
* `Row.sortRuns`: merges the runs of a row.
* `Sorter.standard`: the sort of lists.
-/
namespace TaskletMachine

open Asking

variable {n : Nat}

namespace Row

/-! ## Insertion -/

/-- Puts an item in its place among sorted ones, which are passed greatest first: below all that it
comes before. -/
def insert (i : Fin n) : Row n → Asking n (Row n)
  | [] => return [i]
  | j :: rest => do
    if ← less i j then return j :: (← insert i rest)
    else return i :: j :: rest

/-- Inserts items one by one among sorted ones, which are passed greatest first. -/
def insertAll : (items sorted : Row n) → Asking n (Row n)
  | [], sorted => return sorted.reverse
  | i :: rest, sorted => do insertAll rest (← insert i sorted)

/-! ## Merging -/

/-- Puts an item into a sorted row, behind those that go before it, and goes on with what is left of
the row. -/
def mergeItem (goesBefore : Fin n → Fin n → Asking n Bool) (x : Fin n)
    (next : Row n → Asking n (Row n)) : Row n → Asking n (Row n)
  | [] => return x :: (← next [])
  | y :: other => do
    if ← goesBefore y x then return y :: (← mergeItem goesBefore x next other)
    else return x :: (← next (y :: other))

/-- Merges two sorted rows, where an item of the second one may go before one of the first one. -/
def mergeBy (goesBefore : Fin n → Fin n → Asking n Bool) : (row other : Row n) →
    Asking n (Row n)
  | [], other => return other
  | x :: row, other => mergeItem goesBefore x (mergeBy goesBefore row) other

/-- Merges two sorted rows, from the end at which the shorter one stands. -/
def merge (left right : Row n) : Asking n (Row n) :=
  if left.length ≤ right.length then mergeBy less left right
  else return (← mergeBy (fun l r => less r l) right.reverse left.reverse).reverse

/-- Takes the item that is to come next from one of two sorted rows. -/
def takeNext (goesBefore : Fin n → Fin n → Asking n Bool) : (row other : Row n) →
    Asking n (Fin n × Row n × Row n)
  | x :: row, y :: other => do
    if ← goesBefore y x then return (y, x :: row, other)
    else return (x, row, y :: other)
  | _, _ => breakOff

/-- What two rows have become that are merged from both ends at once: the items taken so far, and
those not yet passed in either direction. -/
structure Ends (n : Nat) where
  front : Row n := []
  left : Row n
  right : Row n
  leftBack : Row n
  rightBack : Row n
  back : Row n := []

/-- Takes so many items from each end. -/
def Ends.take : Nat → Ends n → Asking n (Ends n)
  | 0, e => return e
  | k + 1, e => do
    let (x, left, right) ← takeNext less e.left e.right
    let (y, rightBack, leftBack) ← takeNext (fun l r => less r l) e.rightBack e.leftBack
    take k { front := x :: e.front, left, right, leftBack, rightBack, back := y :: e.back }

/-- Takes the item that is left between both ends of an odd number of items. -/
def Ends.takeMiddle (e : Ends n) (lefts : Nat) : Ends n :=
  if lefts < e.left.length + e.leftBack.length then
    { e with front := e.left.take 1 ++ e.front, left := e.left.drop 1 }
  else { e with front := e.right.take 1 ++ e.front, right := e.right.drop 1 }

/-- Merges two sorted rows of nearly the same length from both ends at once. If the ends do not meet
in both rows, the answers were not those of an order. -/
def mergeEnds (left right : Row n) : Asking n (Row n) := do
  let length := left.length + right.length
  let e ← Ends.take (length / 2)
    { left, right, leftBack := left.reverse, rightBack := right.reverse }
  let e := if length % 2 = 0 then e else e.takeMiddle left.length
  if e.left.length + e.leftBack.length = left.length ∧
      e.right.length + e.rightBack.length = right.length then
    return e.front.reverse ++ e.back
  else breakOff

/-! ## Short rows -/

/-- Merges two sorted pairs with three comparisons. -/
def mergePairs (a b c d : Fin n) : Asking n (Row n) := do
  let lower ← less c a
  let upper ← less d b
  let least := if lower then c else a
  let greatest := if upper then b else d
  let left := if lower then a else if upper then c else b
  let right := if upper then d else if lower then b else c
  if ← less right left then return [least, right, left, greatest]
  else return [least, left, right, greatest]

/-- Sorts four items with five comparisons. -/
def sortFour (w x y z : Fin n) : Asking n (Row n) := do
  let first ← less x w
  let second ← less z y
  mergePairs (if first then x else w) (if first then w else x) (if second then z else y)
    (if second then y else z)

/-- Sorts the first four items of a row, or none of them. What is sorted is returned greatest first,
with the rest of the row. -/
def sortStart : (four : Bool) → Row n → Asking n (Row n × Row n)
  | true, w :: x :: y :: z :: rest => return ((← sortFour w x y z).reverse, rest)
  | _, row => return ([], row)

/-- Sorts both halves of a row by insertion and merges them. -/
def sortSmall (row : Row n) : Asking n (Row n) := do
  if row.length < 2 then return row
  let middle := row.length / 2
  let (leftStart, leftRest) ← sortStart (8 ≤ row.length) (row.take middle)
  let (rightStart, rightRest) ← sortStart (8 ≤ row.length) (row.drop middle)
  let left ← insertAll leftRest leftStart
  let right ← insertAll rightRest rightStart
  mergeEnds left right

/-- The length up to which a row is short. -/
def shortLength : Nat := 32

/-! ## Runs -/

/-- How many items go on in a direction. -/
def runOn (descending : Bool) (last : Fin n) : Row n → Asking n Nat
  | [] => return 0
  | x :: rest => do
    if (← less x last) = descending then return (← runOn descending x rest) + 1
    else return 0

/-- The length of the run with which a row begins, and whether it strictly descends. -/
def firstRun : Row n → Asking n (Nat × Bool)
  | x :: y :: rest => do
    let descending ← less y x
    return ((← runOn descending y rest) + 2, descending)
  | row => return (row.length, false)

/-- A part of a row, which is sorted or left for later. -/
structure Run (n : Nat) where
  items : Row n
  sorted : Bool

/-- The run with which a row begins, if it is long enough. -/
def longRun? (least : Nat) (row : Row n) : Asking n (Option (Run n)) := do
  if row.length < least then return none
  let (length, descending) ← firstRun row
  if length < least then return none
  let items := row.take length
  return some { items := if descending then items.reverse else items, sorted := true }

/-- The first run of a row: a long one, or else a part that is sorted at once or left for later. -/
def takeRun (least : Nat) (eager : Bool) (row : Row n) : Asking n (Run n) := do
  match ← longRun? least row with
  | some run => return run
  | none =>
    if eager then return { items := ← sortSmall (row.take shortLength), sorted := true }
    else return { items := row.take least, sorted := false }

section Runs

variable (quick : Row n → Asking n (Row n))

/-- Sorts a run that was left for later. -/
def Run.sort (run : Run n) : Asking n (Row n) :=
  if run.sorted then return run.items else quick run.items

/-- Makes one run of two. It is left for later if both are, as long as there is space to sort it by
partitioning. -/
def Run.join (space : Nat) (left right : Run n) : Asking n (Run n) := do
  if left.items.length + right.items.length ≤ space ∧ !left.sorted ∧ !right.sorted then
    return { items := left.items ++ right.items, sorted := false }
  else
    let lefts ← left.sort quick
    let rights ← right.sort quick
    return { items := ← merge lefts rights, sorted := true }

/-- Where two neighbouring runs meet in the tree of merges: at the first bit in which their middles
differ, as fractions of the whole row. -/
def mergeDepth (total start middle stop : Nat) : Nat :=
  let scale := ((1 <<< 62) + total - 1) / total
  let differing := (scale * (start + middle)) ^^^ (scale * (middle + stop))
  if differing = 0 then 64 else 63 - differing.log2

/-- Joins the last run with earlier ones, as long as they meet at such a depth or deeper. With each
earlier run goes the depth at which it meets the run behind it. -/
def collapse (space depth : Nat) : (earlier : List (Run n × Nat)) → (last : Run n) →
    Asking n (List (Run n × Nat) × Run n)
  | [], last => return ([], last)
  | (run, d) :: earlier, last => do
    if depth ≤ d then collapse space depth earlier (← run.join quick space last)
    else return ((run, d) :: earlier, last)

/-- Takes runs from the rest of a row and joins them with earlier ones, until there is one run. No
more runs are taken than there are items. -/
def joinRuns (space least total : Nat) (eager : Bool) : Nat → (earlier : List (Run n × Nat)) →
    (last : Run n) → (rest : Row n) → Asking n (Run n)
  | _, earlier, last, [] => return (← collapse quick space 0 earlier last).2
  | 0, _, _, _ :: _ => breakOff
  | k + 1, earlier, last, x :: rest => do
    let run ← takeRun least eager (x :: rest)
    let middle := total - (x :: rest).length
    let depth :=
      mergeDepth total (middle - last.items.length) middle (middle + run.items.length)
    let (earlier, joined) ← collapse quick space depth earlier last
    joinRuns space least total eager k ((joined, depth) :: earlier) run
      ((x :: rest).drop run.items.length)

/-- A number near the square root. -/
def approximateRoot (k : Nat) : Nat :=
  let shift := (1 + k.log2) / 2
  ((1 <<< shift) + (k >>> shift)) / 2

/-- The length of a run that is long enough to be taken as it is. -/
def leastRun (length : Nat) : Nat :=
  if length ≤ 4096 then min (length - length / 2) 64 else approximateRoot length

/-- Sorts a row by its runs. What they leave for later is sorted in another way. -/
def sortRuns (space : Nat) (eager : Bool) (row : Row n) : Asking n (Row n) := do
  let least := leastRun row.length
  let first ← takeRun least eager row
  let run ← joinRuns quick space least row.length eager row.length [] first
    (row.drop first.items.length)
  run.sort quick

end Runs

/-! ## Partitions -/

/-- The one of three items that is neither the least nor the greatest one. -/
def median (a b c : Fin n) : Asking n (Fin n) := do
  let ab ← less a b
  let ac ← less a c
  if ab = ac then return if (← less b c) = ab then b else c
  else return a

/-- An item for a whole row: the median of items for three of its eighths, or just the first one of
a few. There are no more levels than items. -/
def choosePivot : Nat → Row n → Asking n (Fin n)
  | _, [] => breakOff
  | 0, x :: _ => return x
  | levels + 1, x :: rest => do
    let row := x :: rest
    let eighth := row.length / 8
    if row.length < 8 then return x
    else
      let a ← choosePivot levels (row.take eighth)
      let b ← choosePivot levels ((row.drop (4 * eighth)).take eighth)
      let c ← choosePivot levels ((row.drop (7 * eighth)).take eighth)
      median a b c

/-- Whether an item goes to the left part of a row that is split at a pivot. -/
def side (goesLeft : Fin n → Asking n Bool) (pivot : Fin n) (pivotLeft : Bool) (x : Fin n) :
    Asking n Bool :=
  if x = pivot then return pivotLeft else goesLeft x

/-- Splits a row in two, each part in the order of the row. -/
def partition (goesLeft : Fin n → Asking n Bool) (pivot : Fin n) (pivotLeft : Bool) : Row n →
    Asking n (Row n × Row n)
  | [] => return ([], [])
  | x :: rest => do
    let left ← side goesLeft pivot pivotLeft x
    let (lefts, rights) ← partition goesLeft pivot pivotLeft rest
    return if left then (x :: lefts, rights) else (lefts, x :: rights)

/-- Whether a pivot equals an earlier one that no item of the row is less than. -/
def repeats (pivot : Fin n) : (ancestor : Option (Fin n)) → Asking n Bool
  | none => return false
  | some a => notLess a pivot

/-- Splits off the items that are less than a pivot. There are none if the pivot repeats an earlier
one. -/
def splitLess (pivot : Fin n) (ancestor : Option (Fin n)) (row : Row n) :
    Asking n (Row n × Row n) := do
  if ← repeats pivot ancestor then return ([], row)
  else partition (fun x => less x pivot) pivot false row

/-- Sorts a row by partitioning it, for so many levels. Items that equal a least one need not be
sorted further. -/
def quicksort (space : Nat) : (levels : Nat) → (ancestor : Option (Fin n)) → Row n →
    Asking n (Row n)
  | 0, _, row =>
    if row.length ≤ shortLength then sortSmall row else sortRuns sortSmall space true row
  | levels + 1, ancestor, row =>
    if row.length ≤ shortLength then sortSmall row
    else do
      let pivot ← choosePivot row.length row
      let (lefts, rights) ← splitLess pivot ancestor row
      if lefts.isEmpty then
        let (same, rights) ← partition (fun x => notLess pivot x) pivot true row
        return same ++ (← quicksort space levels none rights)
      else
        let rights ← quicksort space levels (some pivot) rights
        let lefts ← quicksort space levels ancestor lefts
        return lefts ++ rights

end Row

namespace Sorter

/-- Sorts by insertion. In every comparison the item that came later stands on the left. -/
def insertion (n : Nat) : Sorter n :=
  Row.insertAll (List.finRange n) []

/-- How many items there is space for, besides the items themselves. -/
def space (n : Nat) : Nat :=
  max (max (max (n - n / 2) (min n 142857)) 48) 73

/-- The sort of lists. -/
def standard (n : Nat) : Sorter n :=
  if n ≤ 20 then insertion n
  else Row.sortRuns (fun row => Row.quicksort (space n) (2 * row.length.log2) none row) (space n)
    (n ≤ 64) (List.finRange n)

end Sorter

end TaskletMachine
