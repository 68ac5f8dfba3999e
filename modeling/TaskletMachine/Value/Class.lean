import TaskletMachine.Value.Heap

/-!
# Classes

Attribute lookup through a class and its bases, and the subclass relation. Both take classes from a
stack until one answers, and put the bases of each class that does not onto the stack. Attribute
lookup puts the first base on top, the subclass relation the last one. No class is marked as met, so
a shared ancestor is looked at once for every way that leads to it.

A search ends because bases are older than their class: the lineages of the classes on the stack get
shorter by one with every class that is taken.

## Main definitions

* `Heap.lineage`: a class, then the lineages of its bases.
* `Heap.search`: the search of a class that answers.
* `Heap.classAttr?`, `Heap.instanceAttr?`: attribute lookup.
* `Heap.isSubclass`: whether a class is another one or derives from it.
-/
namespace TaskletMachine

/-! ## Stacks of classes -/

/-- The order in which the bases of a class go onto a stack. -/
inductive PushOrder where
  /-- The last base ends on top. -/
  | listed
  /-- The first base ends on top. -/
  | reversed

/-- The bases of a class in the order in which they are put onto a stack. -/
def PushOrder.arrange : PushOrder → List ClassRef → List ClassRef
  | listed, bases => bases
  | reversed, bases => bases.reverse

/-- Puts bases onto a stack one by one. The head of the stack is its top. -/
def PushOrder.push (order : PushOrder) (stack bases : List ClassRef) : List ClassRef :=
  (order.arrange bases).foldl (fun stack base => base :: stack) stack

theorem PushOrder.push_eq (order : PushOrder) (stack bases : List ClassRef) :
    order.push stack bases = (order.arrange bases).reverse ++ stack := by
  simp [push]

/-- What is on a stack does not depend on the order. -/
theorem PushOrder.push_perm (order : PushOrder) (stack bases : List ClassRef) :
    (order.push stack bases).Perm (bases ++ stack) := by
  rw [push_eq]
  refine List.Perm.append_right stack ?_
  cases order with
  | listed => exact bases.reverse_perm
  | reversed => rw [arrange, List.reverse_reverse]

namespace Heap

/-! ## Lineages -/

theorem index_lt_of_mem_bases {h : Heap} {c base : ClassRef}
    (hbase : base ∈ (h.classObj c).bases) : base.index < c.index := by
  rw [classObj, Array.getD] at hbase
  split at hbase
  · next hi => exact h.bases_older c.index hi base hbase
  · cases hbase

/-- The lineage of a class: the class itself, then the whole lineage of its first base, then that of
the next. Semireducible, so that closed hierarchies can be searched by evaluation. -/
@[semireducible] def lineage (h : Heap) (c : ClassRef) : List ClassRef :=
  c :: (h.classObj c).bases.attach.flatMap fun base => h.lineage base.1
termination_by c.index
decreasing_by exact index_lt_of_mem_bases base.2

theorem lineage_eq (h : Heap) (c : ClassRef) :
    h.lineage c = c :: (h.classObj c).bases.flatMap h.lineage := by
  rw [lineage]
  simp [List.flatMap]

/-- The number of classes that a search takes from a stack if none of them answers. -/
def classesAhead (h : Heap) (pending : List ClassRef) : Nat :=
  (pending.flatMap h.lineage).length

/-- A class that is taken from a stack is one less ahead, though its bases are put there. -/
theorem classesAhead_cons (h : Heap) (order : PushOrder) (c : ClassRef)
    (pending : List ClassRef) :
    h.classesAhead (c :: pending) =
      h.classesAhead (order.push pending (h.classObj c).bases) + 1 := by
  have hperm := ((order.push_perm pending (h.classObj c).bases).flatMap_right h.lineage).length_eq
  rw [List.flatMap_append, List.length_append] at hperm
  rw [classesAhead, classesAhead, List.flatMap_cons, lineage_eq, List.length_append,
    List.length_cons, hperm]
  omega

/-! ## Searching -/

/-- Takes classes from a stack until one answers; the bases of one that does not are put onto the
stack. -/
@[semireducible] def search {α : Type} (h : Heap) (order : PushOrder)
    (answer? : ClassRef → Option α) : (pending : List ClassRef) → Option α
  | [] => none
  | c :: pending =>
    match answer? c with
    | some a => some a
    | none => h.search order answer? (order.push pending (h.classObj c).bases)
termination_by pending => h.classesAhead pending
decreasing_by
  rw [h.classesAhead_cons order]
  exact Nat.lt_succ_self _

/-- An attribute that was set on a class itself. -/
def classOwnAttr? (h : Heap) (c : ClassRef) (name : String) : Option Value :=
  (h.classObj c).attrs.find? name

/-- An attribute of a class, or else of the bases from the first to the last. -/
def classAttr? (h : Heap) (c : ClassRef) (name : String) : Option Value :=
  h.search .reversed (h.classOwnAttr? · name) [c]

/-- Whether a class is another one or derives from it. -/
def isSubclass (h : Heap) (c d : ClassRef) : Bool :=
  (h.search .listed (fun e => if e = d then some () else none) [c]).isSome

/-! ## Instances -/

/-- A function that is found on a class becomes a method of the instance; other values are left as
they are. -/
def bindTo (receiver : Value) : Value → Value
  | v@(.function _) | v@(.native _) => .method receiver v
  | v => v

/-- An attribute that was set on an instance itself. -/
def ownAttr? (h : Heap) (i : InstanceRef) (name : String) : Option Value :=
  (h.instanceObj i).attrs.find? name

/-- An attribute of an instance: its own, or that of its class with functions bound to it. -/
def instanceAttr? (h : Heap) (i : InstanceRef) (name : String) : Option Value :=
  (h.ownAttr? i name).or
    ((h.classAttr? (h.instanceObj i).cls name).map (bindTo (.instanceObj i)))

/-- Whether an instance belongs to a class or to one that derives from it; a reference past the
table belongs to none. -/
def isInstance (h : Heap) (i : InstanceRef) (c : ClassRef) : Bool :=
  h.instances[i.index]?.any fun o => h.isSubclass o.cls c

/-- Makes an instance without attributes. -/
def instantiate (h : Heap) (c : ClassRef) : InstanceRef × Heap :=
  h.newInstance { cls := c, attrs := [] }

end Heap

end TaskletMachine
