import TaskletMachine.Operator.Ordering
import TaskletMachine.Text.Search

/-!
# Comparisons

The comparison operators on native values, membership and exception matching included.

## Main definitions

* `Heap.contains`: membership in a native container.
* `Heap.exceptionMatches`: whether a raised value is of a class, or of one of a tuple of classes.
* `Heap.compare`: the comparisons.
-/
namespace TaskletMachine

/-- The exception for a value that cannot be a key. -/
def Error.unhashable (h : Heap) (v : Value) : Error :=
  .raise .typeError ("unhashable type: '" ++ h.typeName v ++ "'")

namespace Heap

/-- A value as a key. -/
def key (h : Heap) (v : Value) : Except Error Value :=
  if v.isHashable then .ok v else .error (.unhashable h v)

/-- Whether a native container contains an item. -/
def contains (h : Heap) (container item : Value) : Except Error Bool :=
  match container, item with
  | .str s, .str needle => .ok (Text.occursIn needle.toList s.toList)
  | .str _, _ =>
    .error (.raise .typeError
      ("'in <string>' requires string as left operand, not " ++ h.typeName item))
  | .list r, _ => .ok ((h.list r).any fun v => h.equal v item)
  | .tuple _ items, _ => .ok (items.any fun v => h.equal v item)
  | .dict r, _ => (h.key item).map fun key => (h.dictGet? r key).isSome
  | _, _ =>
    .error (.raise .typeError ("argument of type '" ++ h.typeName container ++ "' is not iterable"))

/-- The class by which a raised value is matched. -/
def matchClass? (h : Heap) : Value → Option ClassRef
  | .instanceObj r => some (h.instanceObj r).cls
  | .classObj c => some c
  | _ => none

mutual

/-- Whether a class is, or derives from, a class or one of a tuple of classes. -/
def classMatches (h : Heap) (c : ClassRef) : Value → Except Error Bool
  | .classObj target => .ok (h.isSubclass c target)
  | .tuple _ targets => anyMatches h c targets
  | _ =>
    .error (.raise .typeError
      "catching classes that do not inherit from BaseException is not allowed")

/-- Whether one of several targets matches; later ones are not looked at. -/
def anyMatches (h : Heap) (c : ClassRef) : List Value → Except Error Bool
  | [] => .ok false
  | target :: rest =>
    match classMatches h c target with
    | .error e => .error e
    | .ok true => .ok true
    | .ok false => anyMatches h c rest

end

/-- Whether a raised value is of the class, or of one of the tuple of classes, that a handler
names. -/
def exceptionMatches (h : Heap) (exception target : Value) : Except Error Bool :=
  match h.matchClass? exception with
  | some c => h.classMatches c target
  | none => .ok false

/-- Whether an ordering comparison holds of a verdict. -/
def holds (op : CompareOp) (o : Ordering) : Bool :=
  match op with
  | .less => o == .lt
  | .greater => o == .gt
  | .lessOrEqual => o != .gt
  | _ => o != .lt

/-- The exception for values that cannot be ordered. -/
def notOrdered (h : Heap) (op : CompareOp) (a b : Value) : Error :=
  .raise .typeError
    ("'" ++ op.symbol ++ "' not supported between instances of '" ++ h.typeName a ++ "' and '" ++
      h.typeName b ++ "'")

/-- The comparisons on native values. -/
def compare (h : Heap) (op : CompareOp) (a b : Value) : Except Error Bool :=
  match op with
  | .equal => .ok (h.equal a b)
  | .notEqual => .ok !h.equal a b
  | .is => .ok (h.identical a b)
  | .isNot => .ok !h.identical a b
  | .isIn => h.contains b a
  | .notIn => (h.contains b a).map (!·)
  | .exceptionMatch => h.exceptionMatches a b
  | .less | .greater | .lessOrEqual | .greaterOrEqual =>
    match h.order a b with
    | .ordered o => .ok (holds op o)
    | .unordered => .ok false
    | .incomparable => .error (h.notOrdered op a b)

end Heap

end TaskletMachine
