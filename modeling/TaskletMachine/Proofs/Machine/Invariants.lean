import TaskletMachine.Proofs.Effect.Keeping
import TaskletMachine.Proofs.Machine.Lifecycle

/-!
# Invariants of frames

A property that every new frame has and that every change of a frame keeps. A computation that works
on frames by such changes only keeps the property for all frames of the call stack, and so does a
computation that is made of such ones.

## Main definitions

* `Context.storeName?_eq`: the frame in which a name is stored.
* `FrameInvariant`: a property of frames that is kept.
* `FrameInvariant.storeName?`, `FrameInvariant.unwindFrames`: binding names, and unwinding the call
  stack.
* `Exec.Retains`: a computation that keeps the property for all frames of the call stack.
-/
namespace TaskletMachine

open Exec

/-! ## Storing a name -/

namespace Context

variable {c : Context} {name : String} {v : Value}

/-- The frame that gets the value is below frames that do not have the name. -/
theorem storeInNearest?_eq_some {frames frames' : List Frame}
    (h : storeInNearest? name v frames = some frames') :
    ∃ above f below, frames = above ++ f :: below ∧ frames' = above ++ f.setLocal name v :: below ∧
      ∀ g ∈ above, g.local? name = none := by
  induction frames generalizing frames' with
  | nil => cases h
  | cons f rest ih =>
    unfold storeInNearest? at h
    split at h
    · cases h
      exact ⟨[], f, rest, rfl, rfl, List.forall_mem_nil _⟩
    · next hf =>
      obtain ⟨rest', hrest, rfl⟩ := Option.map_eq_some_iff.1 h
      obtain ⟨above, f', below, rfl, rfl, habove⟩ := ih hrest
      refine ⟨f :: above, f', below, rfl, rfl, List.forall_mem_cons.2 ⟨?_, habove⟩⟩
      exact Option.not_isSome_iff_eq_none.1 hf

/-- Storing a name gives it the value in one frame, below frames that do not have the name. -/
theorem storeName?_eq (hne : c.frames ≠ []) (name : String) (v : Value) :
    ∃ above f below, c.frames = above ++ f :: below ∧
      c.storeName? name v = some { c with frames := above ++ f.setLocal name v :: below } ∧
      ∀ g ∈ above, g.local? name = none := by
  obtain ⟨f, rest, hframes⟩ := List.exists_cons_of_ne_nil hne
  unfold storeName?
  rw [hframes]
  dsimp only
  by_cases hown : bindsOwn f name
  · rw [if_pos hown]
    exact ⟨[], f, rest, rfl, rfl, List.forall_mem_nil _⟩
  · rw [if_neg hown]
    cases hrest : storeInNearest? name v rest with
    | none => exact ⟨[], f, rest, rfl, rfl, List.forall_mem_nil _⟩
    | some rest' =>
      obtain ⟨above, f', below, rfl, rfl, habove⟩ := storeInNearest?_eq_some hrest
      refine ⟨f :: above, f', below, rfl, rfl, List.forall_mem_cons.2 ⟨?_, habove⟩⟩
      have hlocal : ¬ f.hasLocal name := fun h => hown (by simp [bindsOwn, h])
      exact Option.not_isSome_iff_eq_none.1 hlocal

end Context

/-! ## Frames -/

/-- The unit of a frame and the two stores of its locals. -/
@[grind =] def Frame.bindings (f : Frame) : CodeUnit × Array (Option Value) × Namespace :=
  (f.unit, f.slots, f.names)

/-- A property that every new frame has and that every change of a frame keeps, be it of where the
frame stands or of what it binds. -/
structure FrameInvariant where
  Holds : Frame → Prop
  start (unit : CodeUnit) (d : Delivery) : Holds (.start unit d)
  frameOf {unit : CodeUnit} {bound : List Value} {d : Delivery} {f : Frame}
    (h : Vm.frameOf unit bound d = .ok f) : Holds f
  moved {f g : Frame} (h : Holds f) (hg : g.bindings = f.bindings) : Holds g
  setSlot {f : Frame} (h : Holds f) (index : Nat) (slot : Option Value) :
    Holds { f with slots := f.slots.setIfInBounds index slot }
  setName {f : Frame} (h : Holds f) {name : String} (hname : f.unit.localIndex? name = none)
    (v : Value) : Holds { f with names := f.names.set name v }
  removeName {f : Frame} (h : Holds f) (name : String) :
    Holds { f with names := f.names.remove name }

section Frames

variable {I : FrameInvariant} {f g : Frame} {fault : Fault}

theorem FrameInvariant.setLocal (h : I.Holds f) (name : String) (v : Value) :
    I.Holds (f.setLocal name v) := by
  unfold Frame.setLocal
  split
  · exact I.setSlot h _ _
  · next hname => exact I.setName h hname v

theorem FrameInvariant.setLocals (h : I.Holds f) (attrs : Namespace) :
    I.Holds (attrs.foldl (fun f (name, v) => f.setLocal name v) f) := by
  induction attrs generalizing f with
  | nil => exact h
  | cons attr rest ih => exact ih (I.setLocal h attr.1 attr.2)

theorem FrameInvariant.removeLocal? (h : I.Holds f) {name : String}
    (hg : f.removeLocal? name = some g) : I.Holds g := by
  unfold Frame.removeLocal? at hg
  split at hg
  · cases hg
    exact I.setSlot h _ _
  · split at hg
    · cases hg
      exact I.removeName h name
    · cases hg

/-- Names are bound in some frame, and the others stay. -/
theorem FrameInvariant.mapRoot {frames : List Frame} (h : ∀ f ∈ frames, I.Holds f) (name : String)
    (v : Value) : ∀ f ∈ Context.mapRoot (·.setLocal name v) frames, I.Holds f := by
  induction frames with
  | nil => exact h
  | cons f rest ih =>
    rw [List.forall_mem_cons] at h
    cases rest with
    | nil => exact List.forall_mem_singleton.2 (I.setLocal h.1 name v)
    | cons g rest => exact List.forall_mem_cons.2 ⟨h.1, ih h.2⟩

theorem FrameInvariant.storeName? {c c' : Context} {name : String} {v : Value}
    (h : ∀ f ∈ c.frames, I.Holds f) (hs : c.storeName? name v = some c') :
    ∀ f ∈ c'.frames, I.Holds f := by
  have hne : c.frames ≠ [] := by
    intro hnil
    simp [Context.storeName?, hnil] at hs
  obtain ⟨above, f, below, hframes, hstore, -⟩ := Context.storeName?_eq hne name v
  obtain rfl := Option.some.inj (hstore.symm.trans hs)
  rw [hframes, List.forall_mem_append, List.forall_mem_cons] at h
  obtain ⟨habove, hf, hbelow⟩ := h
  exact List.forall_mem_append.2 ⟨habove, List.forall_mem_cons.2 ⟨I.setLocal hf name v, hbelow⟩⟩

theorem Frame.bindings_popBlock? (h : f.popBlock? = some g) : g.bindings = f.bindings := by
  unfold popBlock? at h
  grind [Frame.restore]

theorem Frame.bindings_breakFrom (f : Frame) (blocks : List Block) :
    (f.breakFrom blocks).1.bindings = f.bindings := by
  induction blocks generalizing f with
  | nil => rfl
  | cons b rest ih =>
    unfold breakFrom
    dsimp only
    split
    · rfl
    · exact ih _

theorem Frame.bindings_continueLoop? {target : Nat} (h : f.continueLoop? target = some g) :
    g.bindings = f.bindings := by
  unfold continueLoop? at h
  grind [Frame.restore]

theorem Frame.bindings_endFinally (f : Frame) :
    match f.endFinally with
    | .outside => True
    | .done g | .fault _ g => g.bindings = f.bindings := by
  unfold endFinally
  grind [Frame.restore]

/-- What is left of the frame in which a fault lands. -/
def Landing.frame : Landing → Frame
  | caught f | cleanup f | passed f => f

/-- What is left of a call stack. -/
def Unwound.frames : Unwound → List Frame
  | caught _ frames | cleanup frames | loopEnded _ frames | unhandled _ frames => frames
  | noFrames => []

theorem Frame.bindings_landIn (f : Frame) (fault : Fault) (blocks : List Block) :
    (f.landIn fault blocks).frame.bindings = f.bindings := by
  induction blocks generalizing f with
  | nil => rfl
  | cons b rest ih =>
    have hrest := ih { f.restore b.depth with blocks := rest }
    unfold landIn
    dsimp only
    split
    · rfl
    · split
      · rfl
      · exact hrest
    · exact hrest
    · exact hrest

/-- Wherever a fault lands, the frames that are left have the property. -/
theorem FrameInvariant.unwindFrames {frames : List Frame} (h : ∀ f ∈ frames, I.Holds f)
    (stops : Value → Bool) (fault : Fault) :
    ∀ f ∈ (unwindFrames stops fault frames).frames, I.Holds f := by
  induction frames generalizing fault with
  | nil => exact h
  | cons f callers ih =>
    rw [List.forall_mem_cons] at h
    have hland {g : Frame} (hg : (f.land fault).frame = g) : ∀ f ∈ g :: callers, I.Holds f :=
      List.forall_mem_cons.2 ⟨I.moved h.1 (hg ▸ f.bindings_landIn fault f.blocks), h.2⟩
    unfold TaskletMachine.unwindFrames
    cases hlanding : f.land fault with
    | caught g => exact hland (hlanding ▸ rfl)
    | cleanup g => exact hland (hlanding ▸ rfl)
    | passed g =>
      dsimp only
      split
      · exact hland (hlanding ▸ rfl)
      · split
        · split
          · exact h.2
          · exact ih h.2 _
        · exact ih h.2 _

end Frames

/-! ## Computations -/

/-- All frames have the property afterwards if all had it before. -/
def Machine.Inherits (I : FrameInvariant) (m m' : Machine) : Prop :=
  (∀ f ∈ m.context.frames, I.Holds f) → ∀ f ∈ m'.context.frames, I.Holds f

instance (I : FrameInvariant) : IsPreorder Machine (Machine.Inherits I) where
  refl _ := id
  trans _ _ _ h h' := h' ∘ h

/-- Whichever way the computation ends, all frames have the property if all had it before. -/
def Exec.Retains {α : Type} (I : FrameInvariant) (x : Exec α) : Prop :=
  Keeps (Machine.Inherits I) x

namespace Exec.Retains

variable {α β : Type} {I : FrameInvariant} {vm : Vm}

@[grind .] theorem pure (a : α) : Retains I (Pure.pure a : Exec α) :=
  Keeps.pure a

@[grind .] theorem throw (e : Error) : Retains I (MonadExcept.throw e : Exec α) :=
  Keeps.throw e

@[grind .] theorem get : Retains I (MonadState.get : Exec Machine) :=
  Keeps.get

@[grind .] theorem ofExcept (r : Except Error α) : Retains I (MonadExcept.ofExcept r : Exec α) :=
  Keeps.ofExcept r

@[grind ←] theorem bind {x : Exec α} {k : α → Exec β} (hx : Retains I x)
    (hk : ∀ a, Retains I (k a)) : Retains I (x >>= k) :=
  Keeps.bind hx hk

theorem of_left {x : Exec α} {m : Machine} (h : m.Inherits I (Exec.left (x m))) :
    KeepsAt (Machine.Inherits I) x m := by
  unfold KeepsAt
  cases hx : x m <;> rwa [hx] at h

theorem left {x : Exec α} (h : Retains I x) (m : Machine) : m.Inherits I (Exec.left (x m)) := by
  cases hx : x m with
  | ok a m' => exact (h m).of_ok hx
  | error e m' => exact (h m).of_error hx

/-- A computation that leaves the context alone. -/
theorem of_aside {x : Exec α} (hx : Aside x) : Retains I x := by
  intro m
  have hm := hx m
  unfold KeepsAt
  cases h : x m with
  | ok a m' =>
    rw [h] at hm
    exact fun hf => hm.1 ▸ hf
  | error e m' =>
    rw [h] at hm
    exact fun hf => hm.1 ▸ hf

@[grind .] theorem heap : Retains I Exec.heap :=
  fun _ => id

@[grind .] theorem setHeap (h : Heap) : Retains I (Exec.setHeap h) :=
  fun _ => id

@[grind .] theorem onHeap (f : Heap → α × Heap) : Retains I (Exec.onHeap f) :=
  fun _ => id

@[grind .] theorem ofEffect (effect : Effect α) : Retains I (Exec.ofEffect effect) := by
  intro m
  unfold KeepsAt Exec.ofEffect
  cases effect m.world <;> exact id

@[grind .] theorem context : Retains I Exec.context :=
  fun _ => id

@[grind ←] theorem modifyContext {change : Context → Context}
    (h : ∀ c : Context, (∀ f ∈ c.frames, I.Holds f) → ∀ f ∈ (change c).frames, I.Holds f) :
    Retains I (Exec.modifyContext change) :=
  fun m => h m.context

@[grind .] theorem frame : Retains I Exec.frame := by
  unfold Exec.frame
  grind

/-- What is done with the machine as it is. -/
theorem withMachine {k : Machine → Exec α}
    (hk : ∀ m, KeepsAt (Machine.Inherits I) (k m) m) : Retains I (MonadState.get >>= k) :=
  hk

/-- What is done with the context as it is. -/
theorem withContext {k : Context → Exec α}
    (hk : ∀ m, KeepsAt (Machine.Inherits I) (k m.context) m) : Retains I (Exec.context >>= k) :=
  hk

/-- What is done with the innermost frame, which has the property. -/
theorem withFrame {k : Frame → Exec α}
    (hk : ∀ m f callers, m.context.frames = f :: callers → I.Holds f →
      KeepsAt (Machine.Inherits I) (k f) m) : Retains I (Exec.frame >>= k) := by
  intro m
  cases hm : m.context.frames with
  | nil =>
    unfold KeepsAt
    rw [bind_error (frame_nil hm)]
    exact refl_of (Machine.Inherits I) m
  | cons f callers =>
    unfold KeepsAt
    rw [bind_ok (frame_cons hm)]
    by_cases hf : I.Holds f
    · exact hk m f callers hm hf
    · have hnot (m' : Machine) : m.Inherits I m' := fun hall => absurd (hall f (hm ▸ .head _)) hf
      cases k f m <;> exact hnot _

/-- A change of the innermost frame that keeps the property. -/
@[grind ←] theorem modifyFrame {change : Frame → Frame} (h : ∀ f, I.Holds f → I.Holds (change f)) :
    Retains I (Exec.modifyFrame change) := by
  refine withFrame fun m f callers hm hf hall => ?_
  rw [hm, List.forall_mem_cons] at hall
  refine List.forall_mem_cons.2 ⟨h f hf, ?_⟩
  rw [hm]
  exact hall.2

@[grind ←] theorem move {change : Frame → Frame} (h : ∀ f, (change f).bindings = f.bindings) :
    Retains I (Exec.modifyFrame change) :=
  modifyFrame fun f hf => I.moved hf (h f)

@[grind .] theorem push (v : Value) : Retains I (Exec.push v) :=
  move fun _ => rfl

@[grind .] theorem jump (ip : Nat) : Retains I (Exec.jump ip) :=
  move fun _ => rfl

@[grind .] theorem pop : Retains I Exec.pop := by
  unfold Exec.pop
  grind

@[grind .] theorem peek : Retains I Exec.peek := by
  unfold Exec.peek
  grind

@[grind .] theorem popN (count : Nat) : Retains I (Exec.popN count) := by
  unfold Exec.popN
  grind

@[grind .] theorem name (index : Nat) : Retains I (Exec.name index) := by
  unfold Exec.name
  grind

@[grind .] theorem slot (index : Nat) : Retains I (Exec.slot index) := by
  unfold Exec.slot
  grind

@[grind .] theorem raise (kind : ExceptionKind) (message : String) :
    Retains I (Exec.raise kind message : Exec α) :=
  throw _

@[grind .] theorem fail (message : String) : Retains I (Exec.fail message : Exec α) :=
  throw _

@[grind .] theorem failShowing (message : String) (v : Value) :
    Retains I (Exec.failShowing message v : Exec α) :=
  bind heap fun _ => throw _

end Exec.Retains

end TaskletMachine
