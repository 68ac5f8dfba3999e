import TaskletMachine.Value.Traits

/-!
# Dict keys

Which values can be keys, and when two keys are the same. Numbers are keys by their value: a truth
value and a double that equals a 64-bit integer are the key of that integer.

## Main definitions

* `Value.isHashable`, `Value.sameKey`.
* `Heap.dictGet?`, `Heap.dictInsert`, `Heap.dictErase`: dicts by key.
-/
namespace TaskletMachine

/-- The key of a number. -/
inductive NumberKey where
  | int (n : Int64)
  | float (bits : UInt64)
deriving DecidableEq, Repr

namespace Value

/-- The 64-bit integer that a double equals. -/
def floatInt? (x : Float) : Option Int64 :=
  match Binary64.integer? x with
  | some n =>
    if Int64.minValue.toInt ≤ n ∧ n ≤ Int64.maxValue.toInt then some (Int64.ofInt n)
    else Option.none
  | Option.none => Option.none

/-- The key of a value that is a number. -/
def numberKey? : Value → Option NumberKey
  | bool b => some (.int (if b then 1 else 0))
  | int n => some (.int n)
  | float x =>
    match floatInt? x with
    | some n => some (.int n)
    | Option.none => some (.float x.toBits)
  | _ => Option.none

mutual

/-- Whether a value can be a key. -/
def isHashable : Value → Bool
  | none | bool _ | int _ | float _ | str _ | classObj _ | function _ => true
  | tuple _ items => areHashable items
  | _ => false

/-- Whether several values can be keys. -/
def areHashable : List Value → Bool
  | [] => true
  | v :: rest => isHashable v && areHashable rest

end

/-- Whether two keys that are not tuples are the same. -/
def sameAtomKey (a b : Value) : Bool :=
  match numberKey? a, numberKey? b with
  | some m, some n => m == n
  | _, _ =>
    match a, b with
    | none, none => true
    | str s, str t => s == t
    | classObj c, classObj d => c == d
    | function f, function g => f == g
    | _, _ => false

mutual

/-- Whether two keys are the same. -/
def sameKey : Value → Value → Bool
  | tuple _ xs, tuple _ ys => sameKeys xs ys
  | a, b => sameAtomKey a b

/-- Whether two rows of keys are the same. -/
def sameKeys : List Value → List Value → Bool
  | [], [] => true
  | a :: as, b :: bs => sameKey a b && sameKeys as bs
  | _, _ => false

end

end Value

namespace Heap

/-- The value of a key in a dict. -/
def dictGet? (h : Heap) (r : DictRef) (key : Value) : Option Value :=
  Entries.get? (Value.sameKey key) (h.dict r)

/-- Puts a value under a key of a dict; a key that is there already stays. -/
def dictInsert (h : Heap) (r : DictRef) (key value : Value) : Heap :=
  h.setDict r (Entries.insert (Value.sameKey key) key value (h.dict r))

/-- Takes a key out of a dict. -/
def dictErase (h : Heap) (r : DictRef) (key : Value) : Heap :=
  h.setDict r (Entries.erase (Value.sameKey key) (h.dict r))

end Heap

end TaskletMachine
