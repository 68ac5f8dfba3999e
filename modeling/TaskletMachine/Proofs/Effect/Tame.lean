import Mathlib.Logic.Relation
import TaskletMachine.Library.Reply
import TaskletMachine.Proofs.Effect.Harmless

/-!
# Tame effects

A native function may do anything to the heap, print, ask for tasklets and, through the host, give
signals; it touches neither the table of tasklets nor the pools in any other way. An effect that
keeps to this, and that does not make up failures of the machine itself, is tame. Effects made of
tame ones are tame.

## Main definitions

* `World.Change`, `World.Evolves`: what native functions do to the world.
* `Effect.Tame`: an effect under which the world evolves; errors of a given kind may pass through.
-/
namespace TaskletMachine

/-! ## Changes of the world -/

/-- One change that a native function can make. -/
inductive World.Change : World → World → Prop
  | output (w : World) (heap : Heap) (printed : Array String) : Change w { w with heap, printed }
  | signal (w : World) (s : Signal) : Change w (w.signal s)
  | spawn (w : World) (unit : CodeUnit) (globals : Namespace) : Change w (w.spawn unit globals).2

/-- Any number of changes. -/
abbrev World.Evolves : World → World → Prop :=
  Relation.ReflTransGen World.Change

theorem World.evolves_output (w : World) (heap : Heap) (printed : Array String) :
    w.Evolves { w with heap, printed } :=
  .single (.output w heap printed)

theorem World.evolves_signals (signals : List Signal) (w : World) :
    w.Evolves (signals.foldl World.signal w) := by
  induction signals generalizing w with
  | nil => exact .refl
  | cons s rest ih => exact .head (.signal w s) (ih (w.signal s))

/-! ## Tame effects -/

namespace Effect

variable {α β : Type} {given : Error → Prop}

/-- The world evolves under an effect, and its errors are no internal failures, unless they are
given by somebody else. -/
def Tame (given : Error → Prop) (x : Effect α) : Prop :=
  ∀ w, match x w with
    | .ok _ w' => w.Evolves w'
    | .error e w' => w.Evolves w' ∧ (e.IsInternal → given e)

namespace Tame

@[grind .] theorem pure (a : α) : Tame given (Pure.pure a : Effect α) :=
  fun _ => .refl

@[grind ←] theorem bind {x : Effect α} {f : α → Effect β} (hx : Tame given x)
    (hf : ∀ a, Tame given (f a)) : Tame given (x >>= f) := by
  intro w
  have hw := hx w
  simp only [Bind.bind, EStateM.bind]
  cases h : x w with
  | error e w₁ => simpa only [h] using hw
  | ok a w₁ =>
    rw [h] at hw
    have hfw := hf a w₁
    cases h₁ : f a w₁ with
    | ok b w₂ =>
      rw [h₁] at hfw
      simpa only [h₁] using hw.trans hfw
    | error e w₂ =>
      rw [h₁] at hfw
      simpa only [h₁] using And.intro (hw.trans hfw.1) hfw.2

@[grind ←] theorem throw {e : Error} (he : e.IsInternal → given e) :
    Tame given (MonadExcept.throw e : Effect α) :=
  fun _ => ⟨.refl, he⟩

@[grind .] theorem get : Tame given (MonadState.get : Effect World) :=
  fun _ => .refl

@[grind .] theorem heap : Tame given heap :=
  fun _ => .refl

@[grind .] theorem setHeap (h : Heap) : Tame given (setHeap h) :=
  fun w => w.evolves_output h w.printed

@[grind .] theorem onHeap (f : Heap → α × Heap) : Tame given (onHeap f) :=
  fun w => w.evolves_output (f w.heap).2 w.printed

@[grind ←] theorem ofExcept {r : Except Error α} (h : Harmless r) :
    Tame given (MonadExcept.ofExcept r : Effect α) := by
  cases r with
  | ok a => exact pure a
  | error e => exact throw fun he => absurd he (h e rfl)

@[grind .] theorem raise (kind : ExceptionKind) (message : String) :
    Tame given (raise kind message : Effect α) :=
  throw fun he => absurd he (Error.not_isInternal_raise kind message)

@[grind .] theorem unexpected (expected : String) (args : List Value) :
    Tame given (unexpected expected args : Effect α) :=
  bind heap fun _ => throw fun he => absurd he (Error.not_isInternal_raise _ _)

@[grind .] theorem reply (v : Value) : Tame given (reply v) :=
  pure _

@[grind .] theorem typeName (v : Value) : Tame given (typeName v) :=
  bind heap fun _ => pure _

@[grind .] theorem inspect (v : Value) : Tame given (inspect v) :=
  bind heap fun _ => pure _

@[grind .] theorem newTuple (items : List Value) : Tame given (newTuple items) :=
  onHeap _

@[grind .] theorem newList (items : List Value) : Tame given (newList items) :=
  bind (onHeap _) fun _ => pure _

@[grind .] theorem newDict (entries : Entries Value Value) : Tame given (newDict entries) :=
  bind (onHeap _) fun _ => pure _

@[grind .] theorem setList (r : ListRef) (items : List Value) : Tame given (setList r items) :=
  bind heap fun _ => setHeap _

@[grind .] theorem setDict (r : DictRef) (entries : Entries Value Value) :
    Tame given (setDict r entries) :=
  bind heap fun _ => setHeap _

@[grind .] theorem collect (v : Value) : Tame given (collect v) := by
  unfold Effect.collect
  grind

end Tame

end Effect

end TaskletMachine
