import Mathlib.Order.Defs.Unbundled
import TaskletMachine.Proofs.Effect.Library

/-!
# Computations that keep to a relation

A computation keeps to a relation if the state that it leaves is related to the one that it found,
also if it ends in an error. Whatever only looks at the state keeps to every preorder, and so does
what is made of parts that do.

## Main definitions

* `KeepsAt`, `Keeps`: a computation keeps to a relation, from one state or from every state.
-/
namespace TaskletMachine

variable {σ α β : Type} {R : σ → σ → Prop}

/-- Whichever way a computation ends that starts from a state, the state that it leaves is related
to that one. -/
def KeepsAt (R : σ → σ → Prop) (x : EStateM Error σ α) (s : σ) : Prop :=
  match x s with
  | .ok _ s' | .error _ s' => R s s'

/-- A computation keeps to a relation from every state. -/
def Keeps (R : σ → σ → Prop) (x : EStateM Error σ α) : Prop :=
  ∀ s, KeepsAt R x s

/-! ## From one state -/

namespace KeepsAt

variable {s s' : σ}

theorem of_ok {x : EStateM Error σ α} (hx : KeepsAt R x s) {a : α} (h : x s = .ok a s') :
    R s s' := by
  unfold KeepsAt at hx
  rwa [h] at hx

theorem of_error {x : EStateM Error σ α} (hx : KeepsAt R x s) {e : Error}
    (h : x s = .error e s') : R s s' := by
  unfold KeepsAt at hx
  rwa [h] at hx

variable [IsPreorder σ R]

theorem pure (a : α) : KeepsAt R (Pure.pure a : EStateM Error σ α) s :=
  refl_of R s

theorem throw (e : Error) : KeepsAt R (MonadExcept.throw e : EStateM Error σ α) s :=
  refl_of R s

theorem bind {x : EStateM Error σ α} {f : α → EStateM Error σ β} (hx : KeepsAt R x s)
    (hf : ∀ a s', x s = .ok a s' → KeepsAt R (f a) s') : KeepsAt R (x >>= f) s := by
  simp only [KeepsAt, Bind.bind, EStateM.bind]
  cases h : x s with
  | error e s₁ => exact hx.of_error h
  | ok a s₁ =>
    cases h₁ : f a s₁ with
    | ok b s₂ => simpa only [h₁] using trans_of R (hx.of_ok h) ((hf a s₁ h).of_ok h₁)
    | error e s₂ => simpa only [h₁] using trans_of R (hx.of_ok h) ((hf a s₁ h).of_error h₁)

theorem ofExcept {r : Except Error α} {f : α → EStateM Error σ β}
    (hf : ∀ a, r = .ok a → KeepsAt R (f a) s) : KeepsAt R (MonadExcept.ofExcept r >>= f) s := by
  cases r with
  | ok a => exact hf a rfl
  | error e => exact throw e

end KeepsAt

/-! ## From every state -/

namespace Keeps

theorem modify {f : σ → σ} (h : ∀ s, R s (f s)) :
    Keeps R (modify f : EStateM Error σ PUnit) :=
  h

theorem mono {S : σ → σ → Prop} (hRS : ∀ s s', R s s' → S s s') {x : EStateM Error σ α}
    (hx : Keeps R x) : Keeps S x := by
  intro s
  unfold KeepsAt
  cases h : x s with
  | ok a s' => exact hRS s s' ((hx s).of_ok h)
  | error e s' => exact hRS s s' ((hx s).of_error h)

section Preorder

variable [IsPreorder σ R]

@[grind .] theorem pure (a : α) : Keeps R (Pure.pure a : EStateM Error σ α) :=
  fun _ => KeepsAt.pure a

@[grind .] theorem throw (e : Error) : Keeps R (MonadExcept.throw e : EStateM Error σ α) :=
  fun s => refl_of R s

@[grind .] theorem get : Keeps R (MonadState.get : EStateM Error σ σ) :=
  fun s => refl_of R s

@[grind .] theorem ofExcept (r : Except Error α) :
    Keeps R (MonadExcept.ofExcept r : EStateM Error σ α) := by
  cases r with
  | ok a => exact pure a
  | error e => exact throw e

@[grind ←] theorem bind {x : EStateM Error σ α} {f : α → EStateM Error σ β} (hx : Keeps R x)
    (hf : ∀ a, Keeps R (f a)) : Keeps R (x >>= f) :=
  fun s => (hx s).bind fun a s' _ => hf a s'

end Preorder

/-! ## Effects that only look at the world -/

section Effect

variable {R : World → World → Prop}

/-- An effect that goes on from the heap as it is. -/
theorem ofHeap {f : Heap → Effect α} (h : ∀ w, KeepsAt R (f w.heap) w) :
    Keeps R (Effect.heap >>= f) :=
  h

variable [IsPreorder World R]

@[grind .] theorem heap : Keeps R Effect.heap :=
  bind get fun _ => pure _

@[grind .] theorem raise (kind : ExceptionKind) (message : String) :
    Keeps R (Effect.raise kind message : Effect α) :=
  throw _

@[grind .] theorem unexpected (expected : String) (args : List Value) :
    Keeps R (Effect.unexpected expected args : Effect α) :=
  bind heap fun _ => throw _

@[grind .] theorem reply (v : Value) : Keeps R (Effect.reply v) :=
  pure _

@[grind .] theorem typeName (v : Value) : Keeps R (Effect.typeName v) :=
  bind heap fun _ => pure _

@[grind .] theorem inspect (v : Value) : Keeps R (Effect.inspect v) :=
  bind heap fun _ => pure _

@[grind .] theorem key (v : Value) : Keeps R (Effect.key v) :=
  bind heap fun _ => ofExcept _

@[grind .] theorem readHost (r : HostRef) : Keeps R (Effect.readHost r) := by
  unfold Effect.readHost
  grind

@[grind .] theorem checkClassInfo (function : String) (info : Value) :
    Keeps R (Builtin.checkClassInfo function info) := by
  unfold Builtin.checkClassInfo
  grind

@[grind .] theorem toInt (v : Value) : Keeps R (toInt v) := by
  unfold TaskletMachine.toInt
  grind

@[grind .] theorem toFloat (v : Value) : Keeps R (toFloat v) := by
  unfold TaskletMachine.toFloat
  grind

@[grind .] theorem lookup (r : DictRef) (k default : Value) :
    Keeps R (DictMethod.lookup r k default) :=
  bind (key k) fun _ => bind heap fun _ => reply _

@[grind .] theorem strings (values : List Value) (count : Nat) :
    Keeps R (StrMethod.strings values count) := by
  induction values generalizing count with
  | nil => exact pure []
  | cons v rest ih =>
    unfold StrMethod.strings
    grind

theorem callLen (args : List Value) : Keeps R (Builtin.callLen args) := by
  unfold Builtin.callLen
  grind

theorem callIsinstance (args : List Value) : Keeps R (Builtin.callIsinstance args) := by
  unfold Builtin.callIsinstance
  grind

theorem callIssubclass (args : List Value) : Keeps R (Builtin.callIssubclass args) := by
  unfold Builtin.callIssubclass
  grind

theorem callRepr (args : List Value) : Keeps R (Builtin.callRepr args) := by
  unfold Builtin.callRepr
  grind

theorem callCallable (args : List Value) : Keeps R (Builtin.callCallable args) := by
  unfold Builtin.callCallable
  grind

theorem callHasattr (args : List Value) : Keeps R (Builtin.callHasattr args) := by
  unfold Builtin.callHasattr
  grind

end Effect

end Keeps

end TaskletMachine
