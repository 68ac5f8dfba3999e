import TaskletMachine.Value.Traits

/-!
# Identity as data

What makes a value the object that it is, is plain data, and two values are identical if it is the
same. So identity is an equivalence.

## Main definitions

* `Identity`, `Heap.identity`: what makes a value the object that it is.
-/
namespace TaskletMachine

/-- What makes a value the object that it is. -/
inductive Identity where
  | none
  | bool (b : Bool)
  | int (n : Int64)
  | float (bits : UInt64)
  | str (s : String)
  | tuple (token : Nat)
  | list (ref : ListRef)
  | dict (ref : DictRef)
  | function (ref : FunctionRef)
  | native (ref : NativeRef)
  | method (receiver callee : Identity)
  | classObj (ref : ClassRef)
  | instanceObj (ref : InstanceRef)
  | hostObj (ref : HostRef)
  | foreignType (constructor : NativeRef)
  | moduleObj (name : String)
  | iterator (ref : IteratorRef)
  | code (serial : Nat)

namespace Heap

/-- What makes a value the object that it is; modules go by their names. -/
def identity (h : Heap) : Value → Identity
  | .none => .none
  | .bool b => .bool b
  | .int n => .int n
  | .float x => .float x.toBits
  | .str s => .str s
  | .tuple token _ => .tuple token
  | .list r => .list r
  | .dict r => .dict r
  | .function r => .function r
  | .native r => .native r
  | .method receiver callee => .method (h.identity receiver) (h.identity callee)
  | .classObj r => .classObj r
  | .instanceObj r => .instanceObj r
  | .hostObj r => .hostObj r
  | .foreignType _ constructor => .foreignType constructor
  | .moduleObj r => .moduleObj (h.moduleObj r).name
  | .iterator r => .iterator r
  | .code unit => .code unit.serial

/-- Two values are identical if what makes them the objects that they are is the same. -/
theorem identical_iff (h : Heap) (a b : Value) :
    h.identical a b = true ↔ h.identity a = h.identity b := by
  unfold identical
  fun_induction Value.identicalBy with
  | case19 a b =>
    refine iff_of_false Bool.false_ne_true fun hab => ?_
    -- the same constructor twice is one of the cases before, different ones differ in identity
    cases a <;> cases b <;> first | (cases hab; done) | grind
  | _ => simp_all [identity]

theorem identical_self (h : Heap) (v : Value) : h.identical v v = true :=
  (h.identical_iff v v).2 rfl

theorem identical_symm {h : Heap} {a b : Value} (hab : h.identical a b = true) :
    h.identical b a = true :=
  (h.identical_iff b a).2 ((h.identical_iff a b).1 hab).symm

theorem identical_trans {h : Heap} {a b c : Value} (hab : h.identical a b = true)
    (hbc : h.identical b c = true) : h.identical a c = true :=
  (h.identical_iff a c).2 (((h.identical_iff a b).1 hab).trans ((h.identical_iff b c).1 hbc))

end Heap

end TaskletMachine
