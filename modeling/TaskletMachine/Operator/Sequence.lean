import TaskletMachine.Operator.Number

/-!
# Binary operators

The binary operators on native values: numbers, and concatenation and repetition of sequences. A
repetition that would be very long is refused.

## Main definitions

* `repeated`: a sequence repeated.
* `binary`: the binary operators.
-/
namespace TaskletMachine

/-- The most items, for strings bytes, that a repetition can make. -/
def maxRepeated : Nat := 268435456

/-- The length of a sequence as repetition counts it. -/
def repeatLength? (h : Heap) : Value → Option Nat
  | .str s => some s.utf8ByteSize
  | .list r => some (h.list r).length
  | .tuple _ items => some items.length
  | _ => none

/-- Items repeated. -/
def repeatItems {α : Type} (count : Nat) (items : List α) : List α :=
  (List.replicate count items).flatten

/-- A sequence repeated, or nothing if the value is no sequence. -/
def repeated (h : Heap) (v : Value) (count : Int64) : Option (Except Error (Value × Heap)) :=
  (repeatLength? h v).map fun length =>
    let count := if length == 0 then 0 else count.toInt.toNat
    if maxRepeated < length * count then
      .error (.raise .overflowError ("repeated " ++ h.typeName v ++ " is too long"))
    else
      match v with
      | .str s => .ok (.str (String.join (List.replicate count s)), h)
      | .list r =>
        let (ref, h) := h.newList (repeatItems count (h.list r))
        .ok (.list ref, h)
      | .tuple _ items => .ok (h.newTuple (repeatItems count items))
      | _ => .ok (v, h)

/-- The binary operators on native values. -/
def binary (h : Heap) (op : BinaryOp) (a b : Value) : Except Error (Value × Heap) :=
  match a.numeric?, b.numeric? with
  | some m, some n =>
    let result := if op.isBitwise then bitwise h op a b else Numeric.arithmetic op m n
    result.map fun v => (v, h)
  | _, _ =>
    let unsupported := .error (.unsupported h op.symbol a b)
    match op, a, b with
    | .add, .str s, .str t => .ok (.str (s ++ t), h)
    | .add, .list r, .list s =>
      let (ref, h) := h.newList (h.list r ++ h.list s)
      .ok (.list ref, h)
    | .add, .tuple _ xs, .tuple _ ys => .ok (h.newTuple (xs ++ ys))
    | .multiply, _, .int n => (repeated h a n).getD unsupported
    | .multiply, .int n, _ => (repeated h b n).getD unsupported
    | _, _, _ => unsupported

end TaskletMachine
