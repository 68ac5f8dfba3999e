import TaskletMachine.Proofs.Machine.HookEndings
import TaskletMachine.Proofs.Machine.Takeover

/-!
# Calling the functions for iteration

Guest code iterates by instructions, or by calling `iter` and `next`. Such a call is one link: a
native iterator answers it at once, an object with a hook gets the call handed over, and all other
values end it in an exception. A default belongs to a native iterator only. An object with a hook
never sees it, and once the call has been handed over nothing is left that could put the default in
the place of the exception that stops the iteration.

## Main definitions

* `PendingCall.Calls`: calls of builtin functions.
* `Vm.link_iter`: a call of `iter` does what the instruction does.
* `Vm.follow_next`: so does a call of `next` whose result a loop waits for.
* `Vm.next_with_default`: what becomes of a default.
-/
namespace TaskletMachine

open Exec

/-- The call passes arguments to a builtin function. Arguments by keyword may come along. -/
def PendingCall.Calls (c : PendingCall) (h : Heap) (f : Builtin) (args : List Value) : Prop :=
  (∃ r, c.callee = .native r ∧ (h.native r).behaviour = .builtin f) ∧ c.args = args

/-- The exception for a value that is asked for its next value and has none. -/
def Heap.notIterator (h : Heap) (v : Value) : Error :=
  .raise .typeError ("'" ++ h.typeName v ++ "' object is not an iterator")

/-- The exception for a value that cannot be iterated over. -/
def Heap.notIterable (h : Heap) (v : Value) : Error :=
  .raise .typeError ("'" ++ h.typeName v ++ "' object is not iterable")

/-- A value that stands for a native one is an object, and no container itself. -/
theorem nativeIterator?_eq (h : Heap) (v : Value) :
    nativeIterator? h v = h.iteratorOf? ((h.rawValue? v).getD v) := by
  unfold nativeIterator?
  cases hraw : h.rawValue? v with
  | none => rfl
  | some raw =>
    have hv : h.iteratorOf? v = none := by
      cases v with
      | hostObj r => rfl
      | _ => cases hraw
    rw [hv, Option.or_none]
    rfl

/-! ## What the functions reply -/

namespace Builtin

variable {v : Value} {w : World}

theorem callIter_eq (v : Value) (w : World) :
    callIter [v] w =
      match w.heap.hook? v "__iter__", nativeIterator? w.heap v with
      | some hook, _ => .ok (.tailCall hook []) w
      | none, some (r, heap) => .ok (.value (.iterator r)) { w with heap }
      | none, none => .error (w.heap.notIterable v) w := by
  rw [nativeIterator?_eq]
  unfold callIter
  dsimp only
  rw [Effect.bind_heap]
  cases w.heap.hook? v "__iter__" with
  | some hook => rfl
  | none => cases w.heap.iteratorOf? ((w.heap.rawValue? v).getD v) <;> rfl

theorem advanceOr_iterator (r : IteratorRef) (default? : Option Value) (w : World) :
    advanceOr (.iterator r) default? w =
      match (w.heap.advance r).1.or default? with
      | some v => .ok (.value v) { w with heap := (w.heap.advance r).2 }
      | none =>
        .error (.raise .stopIteration "") { w with heap := (w.heap.advance r).2 } := by
  unfold advanceOr
  dsimp only
  rw [Effect.bind_onHeap]
  cases (w.heap.advance r).1 with
  | some v => rfl
  | none => cases default? <;> rfl

/-- The default of any other value is not looked at. -/
theorem advanceOr_object (hv : ∀ r, v ≠ .iterator r) (default? : Option Value) (w : World) :
    advanceOr v default? w =
      match w.heap.hook? v "__next__" with
      | some hook => .ok (.tailCall hook []) w
      | none => .error (w.heap.notIterator v) w := by
  have hrun : advanceOr v default? w =
      (match w.heap.hook? v "__next__" with
        | some hook => return .tailCall hook []
        | none => do
          Effect.raise .typeError ("'" ++ (← Effect.typeName v) ++ "' object is not an iterator") :
        Effect Reply) w := by
    cases v with
    | iterator r => exact absurd rfl (hv r)
    | _ => rfl
  rw [hrun]
  cases w.heap.hook? v "__next__" <;> rfl

end Builtin

/-! ## The instruction -/

section Instruction

variable {m : Machine} {frame : Frame} {callers : List Frame} {v : Value} {below : List Value}

theorem runForIter_iterator {r : IteratorRef} (hm : m.context.frames = frame :: callers)
    (hstack : frame.stack = .iterator r :: below) (exit : Nat) :
    runForIter exit m =
      (match (m.world.heap.advance r).1 with
        | some next => do
          push next
          return .next
        | none => Vm.endLoop exit : Exec Control)
        { m with world := { m.world with heap := (m.world.heap.advance r).2 } } := by
  have hadvance : onHeap (fun h => h.advance r) m = .ok (m.world.heap.advance r).1
      { m with world := { m.world with heap := (m.world.heap.advance r).2 } } := rfl
  rw [runForIter, bind_ok (peek_cons hm hstack)]
  exact bind_ok hadvance

theorem runForIter_object (hm : m.context.frames = frame :: callers)
    (hstack : frame.stack = v :: below) (hv : ∀ r, v ≠ .iterator r) (exit : Nat) :
    runForIter exit m =
      match m.world.heap.hook? v "__next__" with
      | some hook => .ok (callHook hook [] (.iteration exit)) m
      | none => .error (m.world.heap.notIterator v) m := by
  rw [runForIter, bind_ok (peek_cons hm hstack)]
  cases v with
  | iterator r => exact absurd rfl (hv r)
  | _ =>
    dsimp only
    rw [bind_heap]
    cases m.world.heap.hook? _ "__next__" <;> rfl

end Instruction

/-! ## Calls of the functions -/

namespace Vm

variable {vm : Vm} {m : Machine} {c : PendingCall} {f : Builtin} {args : List Value} {frame : Frame}
  {callers : List Frame} {v : Value} {below : List Value}

theorem effect?_calls (hc : c.Calls m.world.heap f args) :
    c.effect? vm.host m.world.heap = some (f.call args c.keywords) := by
  obtain ⟨⟨r, hcallee, hf⟩, rfl⟩ := hc
  rw [PendingCall.effect?, hcallee]
  dsimp only
  rw [hf]
  rfl

theorem link_error {effect : Effect Reply} {e : Error} {w : World}
    (heffect : c.effect? vm.host m.world.heap = some effect)
    (herror : effect m.world = .error e w) :
    vm.link c m = .error e { m with world := w } := by
  have hrun : ofEffect effect m = .error e { m with world := w } := by
    simp only [ofEffect, herror]
  rw [link_of_effect heffect, bind_error hrun]

/-- A call of `iter` does what the instruction does in the same frame. -/
theorem link_iter (hm : m.context.frames = frame :: callers) (hstack : frame.stack = v :: below)
    (hc : c.Calls m.world.heap .iter [v]) (hd : c.delivery = .push) :
    vm.link c (m.withFrames ({ frame with stack := below } :: callers)) = runGetIter m := by
  have heffect : c.effect? vm.host (m.withFrames
      ({ frame with stack := below } :: callers)).world.heap = some (Builtin.callIter [v]) :=
    effect?_calls hc
  rw [runGetIter, bind_pop hm hstack, bind_heap]
  generalize m.withFrames ({ frame with stack := below } :: callers) = m₁ at heffect ⊢
  have hreply := Builtin.callIter_eq v m₁.world
  cases hhook : m₁.world.heap.hook? v "__iter__" with
  | some hook =>
    rw [hhook] at hreply
    rw [link_reply heffect hreply, hd]
    rfl
  | none =>
    cases hnative : nativeIterator? m₁.world.heap v with
    | some found =>
      rw [hhook, hnative] at hreply
      rw [link_reply heffect hreply, hd]
      rfl
    | none =>
      rw [hhook, hnative] at hreply
      exact link_error heffect hreply

/-- A call of `next` whose result a loop waits for does what the instruction does. -/
theorem follow_next {exit : Nat} (hm : m.context.frames = frame :: callers)
    (hstack : frame.stack = v :: below) (hc : c.Calls m.world.heap .next [v])
    (hd : c.delivery = .iteration exit) : vm.follow c m = runForIter exit m := by
  have heffect : c.effect? vm.host m.world.heap = some (Builtin.advanceOr v none) :=
    effect?_calls hc
  by_cases hnative : ∃ r, v = .iterator r
  · obtain ⟨r, rfl⟩ := hnative
    have hreply := Builtin.advanceOr_iterator r none m.world
    rw [runForIter_iterator hm hstack]
    cases hnext : (m.world.heap.advance r).1 with
    | some next =>
      rw [hnext] at hreply
      have hgiven (w : World) : (do push next; return .next : Exec Control) { m with world := w } =
          .ok .next _ := bind_ok (push_cons (m := { m with world := w }) hm next)
      refine (follow_ok ((link_reply heffect hreply).trans ?_)).trans (hgiven _).symm
      rw [hd]
      exact hgiven _
    | none =>
      rw [hnext] at hreply
      rw [follow_error (link_error heffect hreply) hd]
      rfl
  · have hv : ∀ r, v ≠ .iterator r := fun r h => hnative ⟨r, h⟩
    have hreply := Builtin.advanceOr_object hv none m.world
    rw [runForIter_object hm hstack hv]
    cases hhook : m.world.heap.hook? v "__next__" with
    | some hook =>
      rw [hhook] at hreply
      refine follow_ok ((link_reply heffect hreply).trans ?_)
      rw [hd]
      rfl
    | none =>
      rw [hhook] at hreply
      rw [follow_error (link_error heffect hreply) hd]
      rfl

/-- A native iterator answers with its next value, or with the default. -/
theorem advance_iterator {default? : Option Value} {r : IteratorRef}
    (hm : m.context.frames = frame :: callers)
    (heffect : c.effect? vm.host m.world.heap = some (Builtin.advanceOr (.iterator r) default?))
    (hv : (m.world.heap.advance r).1.or default? = some v) (hd : deliver v c.delivery = push v) :
    vm.advance (.link c) m = vm.afterInstruction
      { (m.withFrames ({ frame with stack := v :: frame.stack } :: callers)) with
        world := { m.world with heap := (m.world.heap.advance r).2 } } := by
  have hreply := Builtin.advanceOr_iterator r default? m.world
  rw [hv] at hreply
  have hlink := link_reply heffect hreply
  rw [complete, hd] at hlink
  have hgiven (w : World) : (do push v; return .next : Exec Control) { m with world := w } =
    .ok .next _ := bind_ok (push_cons (m := { m with world := w }) hm v)
  exact conclude_ok vm (follow_ok (hlink.trans (hgiven _)))

/-- An object with a hook gets the call handed over, without a default. -/
theorem advance_hook {default? : Option Value} {hook : Value}
    (heffect : c.effect? vm.host m.world.heap = some (Builtin.advanceOr v default?))
    (hhook : m.world.heap.hook? v "__next__" = some hook) :
    vm.advance (.link c) m =
      .running (.link { callee := hook, args := [], delivery := c.delivery }) m := by
  have hv : ∀ r, v ≠ .iterator r := by
    rintro r rfl
    cases hhook
  have hreply := Builtin.advanceOr_object hv default? m.world
  rw [hhook] at hreply
  exact conclude_ok vm (follow_ok (link_reply heffect hreply))

/-- A value that is no iterator ends the call in an exception, and no loop. -/
theorem advance_notIterator {default? : Option Value}
    (heffect : c.effect? vm.host m.world.heap = some (Builtin.advanceOr v default?))
    (hv : ∀ r, v ≠ .iterator r) (hhook : m.world.heap.hook? v "__next__" = none) :
    vm.advance (.link c) m =
      proceed vm.afterInstruction (vm.raiseError (m.world.heap.notIterator v) m) := by
  have hreply := Builtin.advanceOr_object hv default? m.world
  rw [hhook] at hreply
  have hlink := link_error heffect hreply
  have hfollow : vm.follow c m = .error (m.world.heap.notIterator v) m := by
    simp only [follow, hlink]
    split
    · exact if_neg Bool.false_ne_true
    · rfl
  exact conclude_of_error hfollow vm.afterInstruction

/-- A native iterator that is called with a default never ends in an exception: the call completes
with the next value, or with the default. For every other value the default makes no difference. An
object with a hook gets the call handed over without it, so the exception that stops the iteration
is raised as if there were no default, and a value without one ends in the same exception. -/
theorem next_with_default {d : Value} (hm : m.context.frames = frame :: callers)
    (hc : c.Calls m.world.heap .next [v, d]) (hd : c.delivery = .push) :
    (∀ r, v = .iterator r → vm.advance (.link c) m = vm.afterInstruction
      { (m.withFrames ({ frame with
          stack := (m.world.heap.advance r).1.getD d :: frame.stack } :: callers)) with
        world := { m.world with heap := (m.world.heap.advance r).2 } }) ∧
    ((∀ r, v ≠ .iterator r) →
      vm.advance (.link c) m = vm.advance (.link { c with args := [v] }) m ∧
      ∀ hook, m.world.heap.hook? v "__next__" = some hook →
        vm.advance (.link c) m =
          .running (.link { callee := hook, args := [], delivery := .push }) m) := by
  have heffect : c.effect? vm.host m.world.heap = some (Builtin.advanceOr v (some d)) :=
    effect?_calls hc
  constructor
  · rintro r rfl
    refine advance_iterator hm heffect ?_ (by rw [hd]; rfl)
    cases (m.world.heap.advance r).1 <;> rfl
  · intro hv
    have hc' : ({ c with args := [v] } : PendingCall).Calls m.world.heap .next [v] := ⟨hc.1, rfl⟩
    have heffect' : ({ c with args := [v] } : PendingCall).effect? vm.host m.world.heap =
        some (Builtin.advanceOr v none) := effect?_calls hc'
    constructor
    · have hsame : ofEffect (Builtin.advanceOr v (some d)) m =
          ofEffect (Builtin.advanceOr v none) m := by
        rw [ofEffect, ofEffect, Builtin.advanceOr_object hv, Builtin.advanceOr_object hv]
      have hlink : vm.link c m = vm.link { c with args := [v] } m := by
        rw [link_of_effect heffect, link_of_effect heffect']
        simp only [Bind.bind, EStateM.bind, hsame]
      have hfollow : vm.follow c m = vm.follow { c with args := [v] } m := by
        rw [follow, follow, hlink]
      simp only [advance, conclude, catching, perform, hfollow]
    · intro hook hhook
      rw [advance_hook heffect hhook, hd]

end Vm

namespace EndedIteration

/-- The method of an object that has no next value. -/
def stop : CodeUnit :=
  { name := "stop", bytes := #[0x65, 0, 0, 0x82, 1, 0], names := #["StopIteration"]
    localNames := #["self"], argCount := 1 }

/-- Code that calls `next` with the object and a default, and stores the result. -/
def unit : CodeUnit :=
  { bytes := #[0x65, 0, 0, 0x65, 1, 0, 0x64, 0, 0, 0x83, 2, 0, 0x5A, 2, 0]
    names := #["next", "it", "r"], constants := #[.int 7] }

/-- The classes of exceptions, the object, and a native iterator past its end. -/
def heap : Heap :=
  { natives := #[{ name := "next", behaviour := .builtin .next }]
    functions := #[{ name := "stop", unit := stop, defaults := [] }]
    classes := #[{ name := "BaseException", bases := [], attrs := [] },
      { name := "StopIteration", bases := [⟨0⟩], attrs := [] },
      { name := "It", bases := [], attrs := [("__next__", .function ⟨0⟩)] }]
    instances := #[{ cls := ⟨2⟩, attrs := [] }]
    iterators := #[.overItems []] }

/-- The machine before the call, with the value that is iterated over. -/
def machine (it : Value) : Machine :=
  { context :=
      { frames := [{ Frame.start unit .push with names := [("it", it)] }]
        builtins := [("next", .native ⟨0⟩), ("BaseException", .classObj ⟨0⟩),
          ("StopIteration", .classObj ⟨1⟩)] }
    world := { heap } }

/-- The call. -/
def call (it : Value) : PendingCall :=
  { callee := .native ⟨0⟩, args := [it, .int 7], delivery := .push }

/-- The native iterator answers with the default, and the object gets the call without it. -/
theorem answers :
    (∃ m, (default : Vm).advance (.link (call (.iterator ⟨0⟩))) (machine (.iterator ⟨0⟩)) =
      .running .fetch m ∧ m.context.frames.map Frame.stack = [[.int 7]]) ∧
    (default : Vm).advance (.link (call (.instanceObj ⟨0⟩))) (machine (.instanceObj ⟨0⟩)) =
      .running (.link { callee := .method (.instanceObj ⟨0⟩) (.function ⟨0⟩), delivery := .push })
        (machine (.instanceObj ⟨0⟩)) := by
  have hc (it : Value) : (call it).Calls (machine it).world.heap .next [it, .int 7] :=
    ⟨⟨_, rfl, rfl⟩, rfl⟩
  constructor
  · exact ⟨_, (Vm.next_with_default rfl (hc _) rfl).1 _ rfl, rfl⟩
  · exact ((Vm.next_with_default rfl (hc _) rfl).2 (fun _ h => by cases h)).2 _ rfl

/-- The call with the object does not complete with the default. The exception by which the object
stops the iteration ends the tasklet. -/
theorem default_is_lost :
    ((default : Vm).resume 20 .start (machine (.instanceObj ⟨0⟩))).any fun r =>
      r.1.name == "Faulted" && r.2.context.unhandled?.any fun fault =>
        (default : Vm).isStopIteration r.2.context r.2.world.heap fault.value := by
  decide +kernel

end EndedIteration

end TaskletMachine
