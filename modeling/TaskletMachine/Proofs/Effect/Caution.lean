import TaskletMachine.Library.Attributes
import TaskletMachine.Machine.Operators
import TaskletMachine.Proofs.Effect.Keeping

/-!
# Errors leave the heap intact

The functions of the core library validate their arguments, hash keys, run through iterables and
compare items before they change anything: what can still fail moves iterators at most, and what
changes the heap comes last and cannot fail. So if a function ends in an error, all containers and
all attributes are what they were, whether or not the arguments share containers or contain
themselves.

## Main definitions

* `World.Intact`: nothing has changed but iterators and the count of tuples.
* `Cautious`, `Total`: computations whose errors keep to a relation, or that have none.
* `Behaviour.IsCore`: the functions of the core library.
-/
namespace TaskletMachine

/-! ## Intact worlds -/

/-- Nothing has changed but where iterators stand, which there are, and the token of the next
tuple. -/
def World.Intact (w w' : World) : Prop :=
  ∃ iterators nextToken, w' = { w with heap := { w.heap with iterators, nextToken } }

instance : IsPreorder World World.Intact where
  refl w := ⟨w.heap.iterators, w.heap.nextToken, rfl⟩
  trans := by
    rintro w _ _ ⟨_, _, rfl⟩ ⟨iterators, nextToken, rfl⟩
    exact ⟨iterators, nextToken, rfl⟩

/-! ## Effects that move iterators at most -/

namespace Keeps

open World (Intact)

@[grind .] theorem newTuple (items : List Value) : Keeps Intact (Effect.newTuple items) :=
  fun w => ⟨w.heap.iterators, w.heap.nextToken + 1, rfl⟩

theorem newIterator (c : Cursor) : Keeps Intact (Effect.onHeap fun h => h.newIterator c) :=
  fun w => ⟨w.heap.iterators.push c, w.heap.nextToken, rfl⟩

theorem advance (r : IteratorRef) : Keeps Intact (Effect.onHeap fun h => h.advance r) :=
  fun w => ⟨_, w.heap.nextToken, rfl⟩

/-- Running through an iterator moves it, and running through a container changes nothing. -/
theorem eq_of_collect? {h h' : Heap} {v : Value} {items : List Value}
    (hv : h.collect? v = some (items, h')) : ∃ iterators, h' = { h with iterators } := by
  unfold Heap.collect? at hv
  split at hv
  · cases hv
    exact ⟨_, rfl⟩
  · obtain ⟨c, _, hc⟩ := Option.map_eq_some_iff.1 hv
    cases hc
    exact ⟨h.iterators, rfl⟩

@[grind .] theorem collect (v : Value) : Keeps Intact (Effect.collect v) := by
  refine ofHeap fun w => ?_
  split
  · next items h hv =>
    obtain ⟨iterators, rfl⟩ := eq_of_collect? hv
    refine KeepsAt.bind ?_ fun _ _ _ => KeepsAt.pure _
    exact ⟨iterators, w.heap.nextToken, rfl⟩
  · exact bind (typeName v) (fun _ => raise _ _) w

theorem pairEntries (pairs : List Value) (entries : Entries Value Value) :
    Keeps Intact (pairEntries pairs entries) := by
  induction pairs generalizing entries with
  | nil => exact pure entries
  | cons pair rest ih =>
    unfold TaskletMachine.pairEntries
    grind

theorem dictEntries (args : List Value) : Keeps Intact (dictEntries args) := by
  have hpairs (items : List Value) : Keeps Intact (TaskletMachine.pairEntries items []) :=
    pairEntries items []
  unfold TaskletMachine.dictEntries
  grind

theorem makeRange (start stop step : Int64) :
    Keeps Intact (Builtin.makeRange start stop step) := by
  unfold Builtin.makeRange
  split
  · exact bind (raise _ _) fun _ => bind (newIterator _) fun _ => reply _
  · exact bind (newIterator _) fun _ => reply _

theorem callRange (args : List Value) : Keeps Intact (Builtin.callRange args) := by
  unfold Builtin.callRange
  split
  · exact makeRange _ _ _
  · exact makeRange _ _ _
  · exact makeRange _ _ _
  · exact unexpected _ _

theorem advanceOr (iterator : Value) (default? : Option Value) :
    Keeps Intact (Builtin.advanceOr iterator default?) := by
  unfold Builtin.advanceOr
  split
  · exact bind (advance _) fun v => by grind
  · grind

theorem callNext (args : List Value) : Keeps Intact (Builtin.callNext args) := by
  unfold Builtin.callNext
  split
  · exact advanceOr _ _
  · exact advanceOr _ _
  · exact unexpected _ _

theorem entryTuples (entries : Entries Value Value) :
    Keeps Intact (DictMethod.entryTuples entries) := by
  induction entries with
  | nil => exact pure []
  | cons entry rest ih => exact bind (newTuple _) fun _ => bind ih fun _ => pure _

end Keeps

/-! ## Cautious computations -/

section

variable {σ α β : Type} {R : σ → σ → Prop}

/-- A computation always gives a result. -/
def Total (x : EStateM Error σ α) : Prop :=
  ∀ s, ∃ a s', x s = .ok a s'

/-- If a computation ends in an error, the state that it leaves is related to the one it found. -/
def Cautious (R : σ → σ → Prop) (x : EStateM Error σ α) : Prop :=
  ∀ s e s', x s = .error e s' → R s s'

namespace Total

@[grind .] theorem pure (a : α) : Total (Pure.pure a : EStateM Error σ α) :=
  fun s => ⟨a, s, rfl⟩

theorem modify (f : σ → σ) : Total (modify f : EStateM Error σ PUnit) :=
  fun s => ⟨⟨⟩, f s, rfl⟩

@[grind ←] theorem bind {x : EStateM Error σ α} {f : α → EStateM Error σ β} (hx : Total x)
    (hf : ∀ a, Total (f a)) : Total (x >>= f) := by
  intro s
  obtain ⟨a, s₁, hs⟩ := hx s
  obtain ⟨b, s₂, hs₁⟩ := hf a s₁
  refine ⟨b, s₂, ?_⟩
  simp only [Bind.bind, EStateM.bind, hs, hs₁]

end Total

namespace Cautious

/-- What keeps to the relation may fail at any time. -/
@[grind ←] theorem of_keeps {x : EStateM Error σ α} (hx : Keeps R x) : Cautious R x :=
  fun s _ _ h => (hx s).of_error h

/-- What does not keep to the relation may not fail. -/
@[grind ←] theorem of_total {x : EStateM Error σ α} (hx : Total x) : Cautious R x := by
  intro s e s' h
  obtain ⟨a, s₁, hs⟩ := hx s
  cases h.symm.trans hs

/-- First what keeps to the relation, then the rest. -/
@[grind ←] theorem bind [IsPreorder σ R] {x : EStateM Error σ α} {f : α → EStateM Error σ β}
    (hx : Keeps R x) (hf : ∀ a, Cautious R (f a)) : Cautious R (x >>= f) := by
  intro s e s' h
  cases hs : x s with
  | error e₁ s₁ =>
    simp only [Bind.bind, EStateM.bind, hs] at h
    cases h
    exact (hx s).of_error hs
  | ok a s₁ =>
    simp only [Bind.bind, EStateM.bind, hs] at h
    exact trans_of R ((hx s).of_ok hs) (hf a s₁ e s' h)

end Cautious

end

/-! ## Effects that change the heap -/

namespace Total

open Effect

variable {α : Type}

theorem heap : Total heap :=
  fun w => ⟨w.heap, w, rfl⟩

@[grind .] theorem reply (v : Value) : Total (reply v) :=
  pure _

@[grind .] theorem setHeap (h : Heap) : Total (setHeap h) :=
  modify _

@[grind .] theorem onHeap (f : Heap → α × Heap) : Total (onHeap f) :=
  bind heap fun _ => bind (setHeap _) fun _ => pure _

@[grind .] theorem setList (r : ListRef) (items : List Value) : Total (setList r items) :=
  bind heap fun _ => setHeap _

@[grind .] theorem setDict (r : DictRef) (entries : Entries Value Value) :
    Total (setDict r entries) :=
  bind heap fun _ => setHeap _

@[grind .] theorem newTuple (items : List Value) : Total (newTuple items) :=
  onHeap _

@[grind .] theorem newList (items : List Value) : Total (newList items) :=
  bind (onHeap _) fun _ => pure _

@[grind .] theorem newDict (entries : Entries Value Value) : Total (newDict entries) :=
  bind (onHeap _) fun _ => pure _

end Total

/-! ## Builtins and conversions -/

namespace Cautious

open Effect
open World (Intact)

theorem callIter (args : List Value) : Cautious Intact (Builtin.callIter args) := by
  unfold Builtin.callIter
  grind

theorem builtin (f : Builtin) (args : List Value) (keywords : Namespace) :
    Cautious Intact (f.call args keywords) := by
  cases f with
  | len => exact of_keeps (Keeps.callLen args)
  | isinstance => exact of_keeps (Keeps.callIsinstance args)
  | issubclass => exact of_keeps (Keeps.callIssubclass args)
  | range => exact of_keeps (Keeps.callRange args)
  | print =>
    exact bind Keeps.heap fun _ => of_total (.bind (.modify _) fun _ => .pure _)
  | repr => exact of_keeps (Keeps.callRepr args)
  | iter => exact callIter args
  | next => exact of_keeps (Keeps.callNext args)
  | callable => exact of_keeps (Keeps.callCallable args)
  | hasattr => exact of_keeps (Keeps.callHasattr args)

theorem typeOf (types : Namespace) (args : List Value) : Cautious Intact (typeOf types args) := by
  unfold TaskletMachine.typeOf
  split
  · exact of_keeps (Keeps.bind Keeps.heap fun _ => Keeps.reply _)
  · exact bind (Keeps.readHost _) fun _ => of_total (.bind (.onHeap _) fun _ => .pure _)
  · grind
  · exact of_keeps (Keeps.unexpected _ _)

theorem conversion (target : Conversion) (args : List Value) (keywords : Namespace) :
    Cautious Intact (target.call args keywords) := by
  have hentries : Keeps Intact (TaskletMachine.dictEntries args) := Keeps.dictEntries args
  unfold Conversion.call
  grind

/-! ## Methods -/

@[local grind .] theorem popAt (r : ListRef) (index : Int64) :
    Cautious Intact (ListMethod.popAt r index) := by
  unfold ListMethod.popAt
  grind

@[local grind .] theorem sortItems (sorter : (n : Nat) → Sorter n) (r : ListRef)
    (keywords : Namespace) : Cautious Intact (ListMethod.sortItems sorter r keywords) := by
  unfold ListMethod.sortItems
  grind

theorem listMethod (m : ListMethod) (args : List Value) (keywords : Namespace) :
    Cautious Intact (m.call args keywords) := by
  unfold ListMethod.call
  grind

@[local grind .] theorem take (r : DictRef) (k : Value) (default? : Option Value) :
    Cautious Intact (DictMethod.take r k default?) := by
  unfold DictMethod.take
  grind

@[local grind .] theorem lookupOrSet (r : DictRef) (k default : Value) :
    Cautious Intact (DictMethod.lookupOrSet r k default) := by
  unfold DictMethod.lookupOrSet
  grind

theorem dictMethod (m : DictMethod) (args : List Value) : Cautious Intact (m.call args) := by
  have htuples := Keeps.entryTuples
  unfold DictMethod.call
  grind

@[local grind .] theorem newStrings (texts : List String) :
    Cautious Intact (StrMethod.newStrings texts) :=
  of_total (.bind (.newList _) fun _ => .reply _)

theorem strMethod (m : StrMethod) (args : List Value) : Cautious Intact (m.call args) := by
  unfold StrMethod.call
  grind

/-! ## Exceptions and tasklets -/

theorem initException (args : List Value) : Cautious Intact (initException args) := by
  unfold TaskletMachine.initException
  grind

theorem spawnCall (callee : Value) (args : List Value) :
    Cautious Intact (spawnCall callee args) := by
  refine bind (Keeps.ofExcept _) fun p => of_total ?_
  obtain ⟨unit, globals⟩ := p
  exact fun w => ⟨_, _, rfl⟩

theorem schedule (args : List Value) : Cautious Intact (schedule args) := by
  cases args with
  | nil => exact of_keeps (Keeps.unexpected _ _)
  | cons callee rest =>
    refine bind Keeps.heap fun h => ?_
    split
    · exact bind (Keeps.unexpected _ _) fun _ => spawnCall callee rest
    · exact spawnCall callee rest

theorem listTasklets (pool : PoolName) (args : List Value) :
    Cautious Intact (listTasklets pool args) := by
  unfold TaskletMachine.listTasklets
  grind

end Cautious

/-! ## The core library -/

/-- The functions of the core library, as against those of a host. -/
def Behaviour.IsCore : Behaviour → Prop
  | .host _ => False
  | _ => True

theorem Cautious.callNative (host : Host) {f : Behaviour} (hf : f.IsCore)
    (args : List Value) (keywords : Namespace) : Cautious World.Intact (callNative host f args keywords) := by
  cases f with
  | builtin f => exact builtin f args keywords
  | typeOf types => exact typeOf types args
  | convert target => exact conversion target args keywords
  | notInstantiable => exact of_keeps (Keeps.raise _ _)
  | exceptionInit => exact initException args
  | listMethod m => exact listMethod m args keywords
  | dictMethod m => exact dictMethod m args
  | strMethod m => exact strMethod m args
  | schedule => exact schedule args
  | tasklets pool => exact listTasklets pool args
  | host id => exact hf.elim

/-- The native functions that a heap has over an older one all belong to the core library. -/
def Heap.Furnished (h h' : Heap) : Prop :=
  ∃ added : Array NativeFunction,
    h'.natives = h.natives ++ added ∧ ∀ f ∈ added, f.behaviour.IsCore

namespace Heap.Furnished

variable {h h₁ h₂ : Heap}

theorem of_natives_eq (heq : h₁.natives = h.natives) : h.Furnished h₁ :=
  ⟨#[], by simpa using heq, by simp⟩

theorem trans (hh : h.Furnished h₁) (hh₁ : h₁.Furnished h₂) : h.Furnished h₂ := by
  obtain ⟨added, heq, hadded⟩ := hh
  obtain ⟨more, heq₁, hmore⟩ := hh₁
  refine ⟨added ++ more, by rw [heq₁, heq, Array.append_assoc], ?_⟩
  intro f hf
  exact (Array.mem_append.1 hf).elim (hadded f) (hmore f)

theorem newNative (h : Heap) {f : NativeFunction} (hf : f.behaviour.IsCore) :
    h.Furnished (h.newNative f).2 := by
  refine ⟨#[f], rfl, ?_⟩
  simpa using hf

theorem makeNatives {entries : List (String × Behaviour)} (hall : ∀ e ∈ entries, e.2.IsCore)
    (h : Heap) : h.Furnished (Library.makeNatives entries h).2 := by
  induction entries generalizing h with
  | nil => exact of_natives_eq rfl
  | cons e rest ih =>
    obtain ⟨he, hrest⟩ := List.forall_mem_cons.1 hall
    exact (newNative h he).trans (ih hrest _)

theorem makeTypes {entries : List (String × Behaviour)} (hall : ∀ e ∈ entries, e.2.IsCore)
    (h : Heap) : h.Furnished (Library.makeTypes entries h).2 := by
  induction entries generalizing h with
  | nil => exact of_natives_eq rfl
  | cons e rest ih =>
    obtain ⟨he, hrest⟩ := List.forall_mem_cons.1 hall
    exact (newNative h he).trans (ih hrest _)

theorem makeException (made : Namespace) (kind : ExceptionKind) (h : Heap) :
    h.Furnished (Library.makeException made kind h).2 := by
  unfold Library.makeException
  split
  · exact (newNative h (f := ⟨"__init__", .exceptionInit⟩) trivial).trans (of_natives_eq rfl)
  · exact of_natives_eq rfl

theorem makeExceptions (kinds : List ExceptionKind) (made : Namespace) (h : Heap) :
    h.Furnished (Library.makeExceptions kinds made h).2 := by
  induction kinds generalizing made h with
  | nil => exact of_natives_eq rfl
  | cons kind rest ih => exact (makeException made kind h).trans (ih _ _)

/-- All that the core library installs on a heap are functions of its own. -/
theorem install (h : Heap) : h.Furnished (Library.install h).2 := by
  have htypes : ∀ e ∈ Library.conversions ++ Library.otherTypes, e.2.IsCore := by
    simp [Library.conversions, Library.otherTypes, Behaviour.IsCore]
  have hfunctions (types : Namespace) : ∀ e ∈ Library.functions types, e.2.IsCore := by
    simp [Library.functions, Behaviour.IsCore]
  have hlist : ∀ e ∈ Library.listMethods, e.2.IsCore := by
    simp [Library.listMethods, Behaviour.IsCore]
  have hdict : ∀ e ∈ Library.dictMethods, e.2.IsCore := by
    simp [Library.dictMethods, Behaviour.IsCore]
  have hstring : ∀ e ∈ Library.strMethods, e.2.IsCore := by
    simp [Library.strMethods, Behaviour.IsCore]
  have h₁ := makeExceptions ExceptionKind.all [] h
  rcases he : Library.makeExceptions ExceptionKind.all [] h with ⟨exceptions, h'⟩
  have h₂ := makeTypes htypes h'
  rcases ht : Library.makeTypes (Library.conversions ++ Library.otherTypes) h' with ⟨types, h''⟩
  rw [he] at h₁
  rw [ht] at h₂
  simp only [Library.install, he, ht]
  exact h₁.trans <| h₂.trans <| (makeNatives (hfunctions types) h'').trans <|
    (makeNatives hlist _).trans <| (makeNatives hdict _).trans <| makeNatives hstring _

/-- So are those of the module through which guest code reaches its scheduler. -/
theorem installSys (h : Heap) : h.Furnished (installSys h).2 := by
  have hfunctions : ∀ e ∈ schedulerFunctions, e.2.IsCore := by
    simp [schedulerFunctions, Behaviour.IsCore]
  exact (makeNatives hfunctions h).trans (of_natives_eq rfl)

end Heap.Furnished

/-! ## Subscripts -/

/-- The world stays as it is, whatever becomes of the context. -/
def Machine.SameWorld (m m' : Machine) : Prop :=
  m'.world = m.world

instance : IsPreorder Machine Machine.SameWorld where
  refl _ := rfl
  trans _ _ _ h h₁ := h₁.trans h

namespace Keeps

open Machine (SameWorld)

theorem execHeap : Keeps SameWorld Exec.heap :=
  bind get fun _ => pure _

theorem frame : Keeps SameWorld Exec.frame := by
  refine bind (bind get fun _ => pure _) fun c => ?_
  split
  · exact pure _
  · exact throw _

theorem modifyFrame (f : Frame → Frame) : Keeps SameWorld (Exec.modifyFrame f) :=
  bind frame fun _ => modify fun _ => rfl

theorem pop : Keeps SameWorld Exec.pop := by
  refine bind frame fun f => ?_
  split
  · exact bind (modifyFrame _) fun _ => pure _
  · exact throw _

theorem pushResult (r : Except Error Value) : Keeps SameWorld (pushResult r) :=
  bind (ofExcept r) fun _ => bind (modifyFrame _) fun _ => pure _

/-- Reading an entry never changes the world, not even if it is there. -/
theorem runSubscript : Keeps SameWorld runSubscript := by
  refine bind pop fun index => bind pop fun container => bind execHeap fun h => ?_
  split
  · exact pure _
  · exact pushResult _

end Keeps

namespace Cautious

open Machine (SameWorld)

/-- A change of the heap that fails is not made. -/
theorem setHeap (r : Except Error Heap) :
    Cautious SameWorld (do Exec.setHeap (← ofExcept r); return Control.next) :=
  bind (.ofExcept r) fun _ => of_total (.bind (.modify _) fun _ => .pure _)

theorem runStoreSubscript : Cautious SameWorld runStoreSubscript := by
  refine bind .pop fun _ => bind .pop fun _ => bind .pop fun _ =>
    bind .execHeap fun h => ?_
  split
  · exact of_total (.pure _)
  · exact setHeap _

theorem runDeleteSubscript : Cautious SameWorld runDeleteSubscript := by
  refine bind .pop fun index => bind .pop fun container => bind .execHeap fun h => ?_
  split
  · exact of_total (.pure _)
  · exact setHeap _

end Cautious

/-! ## The guarantee -/

/-- Errors leave the heap intact. All functions that the core library and the module of the
scheduler put on a heap are functions of the core. If one of those ends in an error, on any
arguments and in any world, then nothing has changed but iterators and the count of tuples: not the
items of a list, not the entries of a dict, no attribute, and no tasklet has been asked for. If
reading, assigning or deleting an entry ends in an error, nothing at all has changed but the operand
stack. -/
theorem Library.errors_leave_intact (host : Host) :
    (∀ h : Heap, h.Furnished (Library.install h).2 ∧ h.Furnished (installSys h).2) ∧
    (∀ (f : Behaviour) (args : List Value) (keywords : Namespace) (w w' : World) (e : Error),
      f.IsCore → callNative host f args keywords w = .error e w' → w.Intact w') ∧
    ∀ (m m' : Machine) (e : Error),
      runSubscript m = .error e m' ∨
        runStoreSubscript m = .error e m' ∨
        runDeleteSubscript m = .error e m' →
      m'.world = m.world := by
  refine ⟨fun h => ⟨.install h, .installSys h⟩, ?_, ?_⟩
  · intro f args keywords w w' e hf h
    exact Cautious.callNative host hf args keywords w e w' h
  · rintro m m' e (h | h | h)
    · exact (Keeps.runSubscript m).of_error h
    · exact Cautious.runStoreSubscript m e m' h
    · exact Cautious.runDeleteSubscript m e m' h

/-- A list that contains itself and a number. -/
def SelfContaining.world : World where
  heap := { lists := #[[.list ⟨0⟩, .int 1]] }

/-- A machine that is about to assign past the end of that list. -/
def SelfContaining.machine : Machine where
  context := { (default : Context) with
    frames := [{ (default : Frame) with stack := [.int 2, .list ⟨0⟩, .none] }] }
  world := world

/-- The list cannot be sorted, nor assigned to past its end; both leave it as it was. -/
theorem SelfContaining.left_intact :
    (∃ e w', callNative .empty (.listMethod .sort) [.list ⟨0⟩] [] world = .error e w' ∧
      world.Intact w') ∧
    ∃ e m', runStoreSubscript machine = .error e m' ∧ m'.world = world := by
  refine ⟨⟨_, _, rfl, ?_⟩, ⟨_, _, rfl, ?_⟩⟩
  · exact (Library.errors_leave_intact .empty).2.1 (.listMethod .sort) [.list ⟨0⟩] [] world _ _
      trivial rfl
  · exact (Library.errors_leave_intact .empty).2.2 machine _ _ (.inr (.inl rfl))

end TaskletMachine
