import TaskletMachine.Proofs.Effect.Caution
import TaskletMachine.Proofs.Value.Growth

/-!
# Native functions keep objects

No function of the core library takes an object away or changes what it is: the heap grows, whether
the call ends in a reply or in an error. So does every native function, if those of the host do.

## Main definitions

* `World.Grows`: the heap of a world grows.
* `Host.Grows`: the functions of a host keep objects.
* `Keeps.callNative`: so do all native functions.
-/
namespace TaskletMachine

/-- Every class is kept with its bases, and every instance with its class. -/
def World.Grows (w w' : World) : Prop :=
  w.heap.Grows w'.heap

instance : IsPreorder World World.Grows where
  refl w := .refl w.heap
  trans _ _ _ h h' := Heap.Grows.trans h h'

theorem World.heap_settle (w : World) (p : PromiseId) (s : Settlement) :
    (w.settle p s).heap = w.heap := by
  have hwaiters (ids : List TaskletId) (w : World) :
      (ids.foldl World.unblock w).heap = w.heap := by
    induction ids generalizing w with
    | nil => rfl
    | cons id ids ih => exact ih (w.unblock id)
  unfold World.settle
  split
  · rfl
  · exact hwaiters _ _

/-- Signals do not touch the heap. -/
theorem World.heap_signal (w : World) (signal : Signal) : (w.signal signal).heap = w.heap := by
  cases signal with
  | settle p s => exact w.heap_settle p s
  | unblock id => rfl

theorem World.heap_signals (signals : List Signal) (w : World) :
    (signals.foldl World.signal w).heap = w.heap := by
  induction signals generalizing w with
  | nil => rfl
  | cons signal rest ih => exact (ih (w.signal signal)).trans (w.heap_signal signal)

/-- The functions of a host keep objects. -/
def Host.Grows (host : Host) : Prop :=
  ∀ id args keywords (w : World), w.heap.Grows (host.call id args keywords w).heap

namespace Keeps

open World (Grows)

variable {α : Type}

/-! ## Writing -/

@[grind ←] theorem of_intact {x : Effect α} (hx : Keeps World.Intact x) : Keeps Grows x :=
  hx.mono fun _ _ ⟨_, _, h⟩ => h ▸ .of_tables rfl rfl

/-- The heap is replaced by one to which it has grown. -/
theorem setHeap {k : PUnit → Effect α} {w : World} {h : Heap} (hh : w.heap.Grows h)
    (hk : Keeps Grows (k ⟨⟩)) : KeepsAt Grows (Effect.setHeap h >>= k) w :=
  KeepsAt.bind hh fun _ w' _ => hk w'

theorem onHeap {make : Heap → α × Heap} (h : ∀ h : Heap, h.Grows (make h).2) :
    Keeps Grows (Effect.onHeap make) :=
  fun w => h w.heap

@[grind .] theorem setList (r : ListRef) (items : List Value) :
    Keeps Grows (Effect.setList r items) :=
  fun _ => Heap.Grows.of_tables rfl rfl

@[grind .] theorem setDict (r : DictRef) (entries : Entries Value Value) :
    Keeps Grows (Effect.setDict r entries) :=
  fun _ => Heap.Grows.of_tables rfl rfl

@[grind .] theorem newList (items : List Value) : Keeps Grows (Effect.newList items) :=
  bind (onHeap fun _ => .of_tables rfl rfl) fun _ => pure _

@[grind .] theorem newDict (entries : Entries Value Value) : Keeps Grows (Effect.newDict entries) :=
  bind (onHeap fun _ => .of_tables rfl rfl) fun _ => pure _

/-! ## Builtins and conversions -/

theorem callIter (args : List Value) : Keeps Grows (Builtin.callIter args) := by
  unfold Builtin.callIter
  split
  · refine ofHeap fun w => ?_
    split
    · exact KeepsAt.pure _
    · split
      · next hv => exact setHeap (.iteratorOf? hv) (reply _)
      · exact KeepsAt.throw _
  · exact unexpected _ _

theorem builtin (f : Builtin) (args : List Value) (keywords : Namespace) :
    Keeps Grows (f.call args keywords) := by
  cases f with
  | len => exact callLen args
  | isinstance => exact callIsinstance args
  | issubclass => exact callIssubclass args
  | range => exact of_intact (callRange args)
  | print => exact bind heap fun _ => bind (fun w => Heap.Grows.refl w.heap) fun _ => pure _
  | repr => exact callRepr args
  | iter => exact callIter args
  | next => exact of_intact (callNext args)
  | callable => exact callCallable args
  | hasattr => exact callHasattr args

theorem typeOf (types : Namespace) (args : List Value) : Keeps Grows (typeOf types args) := by
  unfold TaskletMachine.typeOf
  split
  · exact bind heap fun _ => reply _
  · exact bind (readHost _) fun _ => bind (onHeap fun _ => .of_tables rfl rfl) fun _ => reply _
  · grind
  · exact unexpected _ _

theorem conversion (target : Conversion) (args : List Value) (keywords : Namespace) :
    Keeps Grows (target.call args keywords) := by
  have hentries : Keeps World.Intact (TaskletMachine.dictEntries args) := dictEntries args
  unfold Conversion.call
  grind

/-! ## Methods -/

@[local grind .] theorem popAt (r : ListRef) (index : Int64) :
    Keeps Grows (ListMethod.popAt r index) := by
  unfold ListMethod.popAt
  grind

@[local grind .] theorem sortItems (sorter : (n : Nat) → Sorter n) (r : ListRef)
    (keywords : Namespace) : Keeps Grows (ListMethod.sortItems sorter r keywords) := by
  unfold ListMethod.sortItems
  grind

theorem listMethod (m : ListMethod) (args : List Value) (keywords : Namespace) :
    Keeps Grows (m.call args keywords) := by
  unfold ListMethod.call
  grind

@[local grind .] theorem take (r : DictRef) (k : Value) (default? : Option Value) :
    Keeps Grows (DictMethod.take r k default?) := by
  refine bind (key k) fun k => ofHeap fun w => ?_
  split
  · exact setHeap (.of_tables rfl rfl) (reply _)
  · exact KeepsAt.pure _
  · exact KeepsAt.throw _

@[local grind .] theorem lookupOrSet (r : DictRef) (k default : Value) :
    Keeps Grows (DictMethod.lookupOrSet r k default) := by
  refine bind (key k) fun k => ofHeap fun w => ?_
  split
  · exact KeepsAt.pure _
  · exact setHeap (.of_tables rfl rfl) (reply _)

theorem dictMethod (m : DictMethod) (args : List Value) : Keeps Grows (m.call args) := by
  have htuples := entryTuples
  refine ofHeap fun w => ?_
  dsimp only
  split
  case h_14 => exact setHeap (.dictInserts _ _ _) (pure _)
  all_goals exact (show Keeps Grows _ by grind) w

@[local grind .] theorem newStrings (texts : List String) :
    Keeps Grows (StrMethod.newStrings texts) :=
  bind (newList _) fun _ => reply _

theorem strMethod (m : StrMethod) (args : List Value) : Keeps Grows (m.call args) := by
  unfold StrMethod.call
  grind

/-! ## Exceptions and tasklets -/

theorem initException (args : List Value) : Keeps Grows (initException args) := by
  unfold TaskletMachine.initException
  split
  · exact bind (of_intact (newTuple _)) fun _ => ofHeap fun w =>
      setHeap (.setInstanceAttr w.heap _ _ _) (pure _)
  · exact bind heap fun _ => throw _
  · exact bind heap fun _ => throw _

theorem spawnCall (callee : Value) (args : List Value) : Keeps Grows (spawnCall callee args) :=
  bind (ofExcept _) fun (_, _) w => Heap.Grows.refl w.heap

theorem schedule (args : List Value) : Keeps Grows (schedule args) := by
  cases args with
  | nil => exact unexpected _ _
  | cons callee rest =>
    refine bind heap fun h => ?_
    split
    · exact bind (unexpected _ _) fun _ => spawnCall callee rest
    · exact spawnCall callee rest

theorem listTasklets (pool : PoolName) (args : List Value) :
    Keeps Grows (listTasklets pool args) := by
  unfold TaskletMachine.listTasklets
  grind

/-! ## All native functions -/

theorem hostFunction {host : Host} (hhost : host.Grows) (id : Nat) (args : List Value)
    (keywords : Namespace) : Keeps Grows (host.run id args keywords) := by
  intro w
  have hrun : host.run id args keywords w =
      (MonadExcept.ofExcept (host.call id args keywords w).outcome : Effect Reply)
        ((host.call id args keywords w).signals.foldl World.signal
          { w with heap := (host.call id args keywords w).heap }) := rfl
  have hheap := World.heap_signals (host.call id args keywords w).signals
    { w with heap := (host.call id args keywords w).heap }
  have hgrows : w.Grows ((host.call id args keywords w).signals.foldl World.signal
      { w with heap := (host.call id args keywords w).heap }) := by
    rw [Grows, hheap]
    exact hhost id args keywords w
  unfold KeepsAt
  rw [hrun]
  cases (host.call id args keywords w).outcome <;> exact hgrows

theorem callNative {host : Host} (hhost : host.Grows) (f : Behaviour) (args : List Value)
    (keywords : Namespace) : Keeps Grows (callNative host f args keywords) := by
  cases f with
  | builtin f => exact builtin f args keywords
  | typeOf types => exact typeOf types args
  | convert target => exact conversion target args keywords
  | notInstantiable => exact raise _ _
  | exceptionInit => exact initException args
  | listMethod m => exact listMethod m args keywords
  | dictMethod m => exact dictMethod m args
  | strMethod m => exact strMethod m args
  | schedule => exact schedule args
  | tasklets pool => exact listTasklets pool args
  | host id => exact hostFunction hhost id args keywords

end Keeps

end TaskletMachine
