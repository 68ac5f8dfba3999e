import TaskletMachine.Code.Unit
import TaskletMachine.Value.Entries

/-!
# Values

The values of guest code. Scalars, tuples, methods and code are plain data; everything that can
change, or that has an identity of its own, is a reference into a heap.

## Main definitions

* `Store`, `Ref`: the kinds of heap objects and references to them.
* `Value`: the values.
* `Namespace`: values by name.
-/
namespace TaskletMachine

/-- The kinds of heap objects. -/
inductive Store where
  | list
  | dict
  | function
  | native
  | classObj
  | instanceObj
  | host
  | module
  | iterator
deriving DecidableEq, Repr

/-- A reference to a heap object of a kind. -/
structure Ref (store : Store) where
  index : Nat
deriving DecidableEq, Repr, Inhabited

/-- References to lists. -/
abbrev ListRef := Ref .list
/-- References to dicts. -/
abbrev DictRef := Ref .dict
/-- References to functions of guest code. -/
abbrev FunctionRef := Ref .function
/-- References to functions that are not guest code. -/
abbrev NativeRef := Ref .native
/-- References to classes. -/
abbrev ClassRef := Ref .classObj
/-- References to instances of classes. -/
abbrev InstanceRef := Ref .instanceObj
/-- References to objects of the host. -/
abbrev HostRef := Ref .host
/-- References to modules. -/
abbrev ModuleRef := Ref .module
/-- References to iterators. -/
abbrev IteratorRef := Ref .iterator

/-- The values of guest code. -/
inductive Value where
  | none
  | bool (b : Bool)
  | int (n : Int64)
  | float (x : Float)
  | str (s : String)
  /-- A tuple; the token is its identity. -/
  | tuple (token : Nat) (items : List Value)
  | list (ref : ListRef)
  | dict (ref : DictRef)
  | function (ref : FunctionRef)
  | native (ref : NativeRef)
  /-- A callable with the receiver that it takes as its first argument. -/
  | method (receiver callee : Value)
  | classObj (ref : ClassRef)
  | instanceObj (ref : InstanceRef)
  | hostObj (ref : HostRef)
  /-- A type of the host; calling it calls the constructor. -/
  | foreignType (name : String) (constructor : NativeRef)
  | moduleObj (ref : ModuleRef)
  | iterator (ref : IteratorRef)
  | code (unit : CodeUnit)

instance : Inhabited Value := ⟨.none⟩

/-- Values by name, in the order in which the names came in. -/
abbrev Namespace := Names Value

namespace Value

/-- Whether two values are the same object. Scalars are compared by value, methods by their parts,
and all else by identity; only modules go by their name, which `sameModule` compares. -/
def identicalBy (sameModule : ModuleRef → ModuleRef → Bool) : Value → Value → Bool
  | none, none => true
  | bool a, bool b => a == b
  | int a, int b => a == b
  | float a, float b => a.toBits == b.toBits
  | str a, str b => a == b
  | tuple a _, tuple b _ => a == b
  | list a, list b => a == b
  | dict a, dict b => a == b
  | function a, function b => a == b
  | native a, native b => a == b
  | method r f, method s g => identicalBy sameModule r s && identicalBy sameModule f g
  | classObj a, classObj b => a == b
  | instanceObj a, instanceObj b => a == b
  | hostObj a, hostObj b => a == b
  | foreignType _ a, foreignType _ b => a == b
  | moduleObj a, moduleObj b => sameModule a b
  | iterator a, iterator b => a == b
  | code a, code b => a.serial == b.serial
  | _, _ => false

/-- Whether operators on a value are looked up as hooks. -/
def isHooked : Value → Bool
  | instanceObj _ | hostObj _ => true
  | _ => false

/-- Whether the value is the absence of a value. -/
def isNone : Value → Bool
  | none => true
  | _ => false

end Value

end TaskletMachine
