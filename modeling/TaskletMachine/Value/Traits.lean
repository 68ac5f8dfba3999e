import TaskletMachine.Value.Class

/-!
# What can be asked of a value

Truth, identity, the name of the type, whether it can be called, and its hooks.

## Main definitions

* `Heap.isTruthy`, `Heap.identical`, `Heap.typeName`, `Heap.isCallable`.
* `Heap.hook?`, `Heap.rawValue?`: instances and host objects take operators over
  through hooks, and a host object may stand for a native value.
* `Heap.ofConstant`: the value of a constant.
-/
namespace TaskletMachine.Heap

/-- Whether a value counts as true. -/
def isTruthy (h : Heap) : Value → Bool
  | .none => false
  | .bool b => b
  | .int n => n != 0
  | .float x => x != 0.0
  | .str s => !s.isEmpty
  | .tuple _ items => !items.isEmpty
  | .list r => !(h.list r).isEmpty
  | .dict r => !(h.dict r).isEmpty
  | _ => true

/-- Whether two values are the same object. -/
def identical (h : Heap) : Value → Value → Bool :=
  Value.identicalBy fun a b => (h.moduleObj a).name == (h.moduleObj b).name

/-- The name of the type of a value; a host object that is being called does not tell its own. -/
def typeName (h : Heap) : Value → String
  | .none => "NoneType"
  | .bool _ => "bool"
  | .int _ => "int"
  | .float _ => "float"
  | .str _ => "str"
  | .tuple _ _ => "tuple"
  | .list _ => "list"
  | .dict _ => "dict"
  | .function _ => "function"
  | .native _ => "builtin_function"
  | .method _ _ => "method"
  | .classObj _ => "type"
  | .instanceObj r => (h.classObj (h.instanceObj r).cls).name
  | .hostObj r => if (h.hostObj r).busy then "object" else (h.hostObj r).typeName
  | .foreignType _ _ => "type"
  | .moduleObj _ => "module"
  | .iterator _ => "iterator"
  | .code _ => "code"

/-- Whether a value can be called; an instance can if its class says how. -/
def isCallable (h : Heap) : Value → Bool
  | .function _ | .native _ | .method _ _ | .classObj _ | .foreignType _ _ | .hostObj _ => true
  | .instanceObj r => (h.classAttr? (h.instanceObj r).cls "__call__").isSome
  | _ => false

/-- The hook of a value with the given name. -/
def hook? (h : Heap) (v : Value) (name : String) : Option Value :=
  match v with
  | .instanceObj r => h.instanceAttr? r name
  | .hostObj r => if (h.hostObj r).busy then none else (h.hostObj r).attrs.find? name
  | _ => none

/-- The native value that a value stands for. -/
def rawValue? (h : Heap) : Value → Option Value
  | .hostObj r => if (h.hostObj r).busy then none else (h.hostObj r).raw
  | _ => none

mutual

/-- The value of a constant; tuples are made afresh. -/
def ofConstant (h : Heap) : Constant → Value × Heap
  | .none => (.none, h)
  | .bool b => (.bool b, h)
  | .int n => (.int n, h)
  | .float x => (.float x, h)
  | .str s => (.str s, h)
  | .unit u => (.code u, h)
  | .tuple constants =>
    let (items, h) := ofConstants h constants
    h.newTuple items

/-- The values of several constants. -/
def ofConstants (h : Heap) : List Constant → List Value × Heap
  | [] => ([], h)
  | c :: rest =>
    let (v, h) := ofConstant h c
    let (vs, h) := ofConstants h rest
    (v :: vs, h)

end

end TaskletMachine.Heap
