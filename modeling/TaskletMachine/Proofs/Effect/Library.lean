import TaskletMachine.Library.Call
import TaskletMachine.Proofs.Effect.Tame

/-!
# Native functions are tame

Every native function of the library is tame, and so are the functions of a host, whose errors are
given from outside.

## Main definitions

* `Host.Gives`: the errors that the functions of a host end in.
-/
namespace TaskletMachine

/-- An error that a function of a host ends in. -/
def Host.Gives (host : Host) (e : Error) : Prop :=
  ∃ id args keywords w, (host.call id args keywords w).outcome = .error e

namespace Effect.Tame

variable {given : Error → Prop}

/-! ## Builtins -/

theorem readHost (r : HostRef) : Tame given (readHost r) := by
  unfold Effect.readHost
  grind

theorem callLen (args : List Value) : Tame given (Builtin.callLen args) := by
  unfold Builtin.callLen
  grind

theorem checkClassInfo (function : String) (info : Value) :
    Tame given (Builtin.checkClassInfo function info) := by
  unfold Builtin.checkClassInfo
  grind

attribute [local grind .] readHost checkClassInfo

theorem callIsinstance (args : List Value) : Tame given (Builtin.callIsinstance args) := by
  unfold Builtin.callIsinstance
  split
  · refine bind (checkClassInfo _ _) fun _ => ?_
    grind
  · exact unexpected _ _

theorem callIssubclass (args : List Value) : Tame given (Builtin.callIssubclass args) := by
  unfold Builtin.callIssubclass
  grind

theorem callRange (args : List Value) : Tame given (Builtin.callRange args) := by
  unfold Builtin.callRange Builtin.makeRange
  grind

theorem callPrint (args : List Value) (keywords : Namespace) :
    Tame given (Builtin.callPrint args keywords) := by
  refine bind heap fun h => bind ?_ fun _ => pure _
  exact fun w => w.evolves_output w.heap _

theorem callRepr (args : List Value) : Tame given (Builtin.callRepr args) := by
  unfold Builtin.callRepr
  grind

theorem callIter (args : List Value) : Tame given (Builtin.callIter args) := by
  unfold Builtin.callIter
  grind

theorem advanceOr (iterator : Value) (default? : Option Value) :
    Tame given (Builtin.advanceOr iterator default?) := by
  unfold Builtin.advanceOr
  grind

theorem callNext (args : List Value) : Tame given (Builtin.callNext args) := by
  unfold Builtin.callNext
  split
  · exact advanceOr _ _
  · exact advanceOr _ _
  · exact unexpected _ _

theorem callCallable (args : List Value) : Tame given (Builtin.callCallable args) := by
  unfold Builtin.callCallable
  grind

theorem callHasattr (args : List Value) : Tame given (Builtin.callHasattr args) := by
  unfold Builtin.callHasattr
  grind

theorem builtin (f : Builtin) (args : List Value) (keywords : Namespace) :
    Tame given (f.call args keywords) := by
  cases f with
  | len => exact callLen args
  | isinstance => exact callIsinstance args
  | issubclass => exact callIssubclass args
  | range => exact callRange args
  | print => exact callPrint args keywords
  | repr => exact callRepr args
  | iter => exact callIter args
  | next => exact callNext args
  | callable => exact callCallable args
  | hasattr => exact callHasattr args

theorem typeOf (types : Namespace) (args : List Value) : Tame given (typeOf types args) := by
  unfold TaskletMachine.typeOf
  grind

/-! ## Conversions -/

theorem toInt (v : Value) : Tame given (toInt v) := by
  unfold TaskletMachine.toInt Error.overflow
  grind

theorem toFloat (v : Value) : Tame given (toFloat v) := by
  unfold TaskletMachine.toFloat
  grind

theorem key (v : Value) : Tame given (key v) :=
  bind heap fun h => ofExcept (Harmless.key h v)

attribute [local grind .] toInt toFloat key

theorem pairEntries (pairs : List Value) (entries : Entries Value Value) :
    Tame given (pairEntries pairs entries) := by
  induction pairs generalizing entries with
  | nil => exact pure entries
  | cons pair rest ih =>
    unfold TaskletMachine.pairEntries
    grind

theorem dictEntries (args : List Value) : Tame given (dictEntries args) := by
  unfold TaskletMachine.dictEntries
  have hpairs (items : List Value) : Tame given (TaskletMachine.pairEntries items []) :=
    pairEntries items []
  grind

theorem conversion (target : Conversion) (args : List Value) (keywords : Namespace) :
    Tame given (target.call args keywords) := by
  unfold Conversion.call
  have hentries : Tame given (TaskletMachine.dictEntries args) := dictEntries args
  grind

/-! ## Methods -/

theorem popAt (r : ListRef) (index : Int64) : Tame given (ListMethod.popAt r index) := by
  unfold ListMethod.popAt
  grind

theorem sortItems (sorter : (n : Nat) → Sorter n) (r : ListRef) (keywords : Namespace) :
    Tame given (ListMethod.sortItems sorter r keywords) := by
  unfold ListMethod.sortItems
  grind

theorem listMethod (m : ListMethod) (args : List Value) (keywords : Namespace) :
    Tame given (m.call args keywords) := by
  have hpop (r : ListRef) (index : Int64) : Tame given (ListMethod.popAt r index) := popAt r index
  have hsort (r : ListRef) : Tame given (ListMethod.sortItems Sorter.standard r keywords) :=
    sortItems _ r keywords
  unfold ListMethod.call
  grind

theorem entryTuples (entries : Entries Value Value) :
    Tame given (DictMethod.entryTuples entries) := by
  induction entries with
  | nil => exact pure []
  | cons entry rest ih => exact bind (newTuple _) fun _ => bind ih fun _ => pure _

theorem lookup (r : DictRef) (k default : Value) : Tame given (DictMethod.lookup r k default) :=
  bind (key k) fun _ => bind heap fun _ => reply _

theorem take (r : DictRef) (k : Value) (default? : Option Value) :
    Tame given (DictMethod.take r k default?) := by
  unfold DictMethod.take
  grind

theorem lookupOrSet (r : DictRef) (k default : Value) :
    Tame given (DictMethod.lookupOrSet r k default) := by
  unfold DictMethod.lookupOrSet
  grind

attribute [local grind .] entryTuples lookup take lookupOrSet

theorem dictMethod (m : DictMethod) (args : List Value) : Tame given (m.call args) := by
  unfold DictMethod.call
  grind

theorem strings (values : List Value) (count : Nat) :
    Tame given (StrMethod.strings values count) := by
  induction values generalizing count with
  | nil => exact pure []
  | cons v rest ih =>
    unfold StrMethod.strings
    grind

theorem newStrings (texts : List String) : Tame given (StrMethod.newStrings texts) :=
  bind (newList _) fun _ => reply _

attribute [local grind .] strings newStrings

theorem strMethod (m : StrMethod) (args : List Value) : Tame given (m.call args) := by
  unfold StrMethod.call
  grind

/-! ## Tasklets -/

theorem spawnCall (callee : Value) (args : List Value) :
    Tame given (spawnCall callee args) := by
  refine bind (ofExcept (Harmless.spawnedCall callee args)) fun p => ?_
  obtain ⟨unit, globals⟩ := p
  exact fun w => .single (.spawn w unit globals)

theorem schedule (args : List Value) : Tame given (schedule args) := by
  cases args with
  | nil => exact unexpected _ _
  | cons callee rest =>
    refine bind heap fun h => ?_
    split
    · exact bind (unexpected _ _) fun _ => spawnCall callee rest
    · exact spawnCall callee rest

theorem listTasklets (pool : PoolName) (args : List Value) :
    Tame given (listTasklets pool args) := by
  unfold TaskletMachine.listTasklets
  grind

/-! ## All native functions -/

theorem initException (args : List Value) : Tame given (initException args) := by
  unfold TaskletMachine.initException Error.typeMismatch
  grind

theorem host {host : Host} (hgiven : ∀ e, host.Gives e → given e) (id : Nat) (args : List Value)
    (keywords : Namespace) : Tame given (host.run id args keywords) := by
  intro w
  have hw : w.Evolves ((host.call id args keywords w).signals.foldl World.signal
      { w with heap := (host.call id args keywords w).heap }) :=
    (w.evolves_output _ w.printed).trans (World.evolves_signals _ _)
  have hrun : host.run id args keywords w =
      (MonadExcept.ofExcept (host.call id args keywords w).outcome : Effect Reply)
        ((host.call id args keywords w).signals.foldl World.signal
          { w with heap := (host.call id args keywords w).heap }) := rfl
  rw [hrun]
  cases hr : (host.call id args keywords w).outcome with
  | ok reply => exact hw
  | error e => exact ⟨hw, fun _ => hgiven e ⟨id, args, keywords, w, hr⟩⟩

theorem callNative {host : Host} (hgiven : ∀ e, host.Gives e → given e) (f : Behaviour)
    (args : List Value) (keywords : Namespace) :
    Tame given (callNative host f args keywords) := by
  cases f with
  | builtin f => exact builtin f args keywords
  | typeOf types => exact typeOf types args
  | convert target => exact conversion target args keywords
  | notInstantiable => exact raise _ _
  | exceptionInit => exact initException args
  | listMethod m => exact listMethod m args keywords
  | dictMethod m => exact dictMethod m args
  | strMethod m => exact strMethod m args
  | schedule => exact schedule args
  | tasklets pool => exact listTasklets pool args
  | host id => exact Tame.host hgiven id args keywords

theorem whileBusy {α : Type} (r : HostRef) {x : Effect α} (hx : Tame given x) :
    Tame given (whileBusy r x) := by
  intro w
  have hbusy := w.evolves_output (w.heap.setBusy r true) w.printed
  have hw := hx { w with heap := w.heap.setBusy r true }
  unfold TaskletMachine.whileBusy
  cases h : x { w with heap := w.heap.setBusy r true } with
  | ok a w' =>
    rw [h] at hw
    exact (hbusy.trans hw).trans (w'.evolves_output _ w'.printed)
  | error e w' =>
    rw [h] at hw
    exact ⟨(hbusy.trans hw.1).trans (w'.evolves_output _ w'.printed), hw.2⟩

theorem callHost {host : Host} (hgiven : ∀ e, host.Gives e → given e) (r : HostRef)
    (args : List Value) (keywords : Namespace) : Tame given (callHost host r args keywords) := by
  have hcall (f : Behaviour) :=
    whileBusy r (callNative hgiven f args keywords)
  unfold TaskletMachine.callHost Error.notCallable
  grind

end Effect.Tame

end TaskletMachine
