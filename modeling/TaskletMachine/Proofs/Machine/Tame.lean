import TaskletMachine.Machine.Run
import TaskletMachine.Proofs.Effect.Library

/-!
# Tame computations of the machine

Most instructions work on the operand stack of the innermost frame and on the heap, and bind names.
They leave the outline of the call stack alone: its frames, their blocks, and what becomes of their
results. A computation that keeps to this, and that does not make up internal failures, is tame;
computations made of tame ones are tame.

## Main definitions

* `Frame.outline`, `Frame.standing`, `Context.Quiet`, `Machine.Quiet`: what tame computations leave
  alone.
* `World.Brings`: the errors that come from outside.
* `Exec.Tame`: a tame computation.
* `World.Follows`: what becomes of the world, for each way of going on.
* `Vm.Stays`, `Exec.Steady`: a result, and a computation, that stays within the same frame.
-/
namespace TaskletMachine

/-! ## Outlines -/

/-- The blocks of a frame and what becomes of its result. -/
@[grind =] def Frame.outline (f : Frame) : List Block × Delivery :=
  (f.blocks, f.delivery)

/-- Where a frame stands: its unit, the offsets of the next and of the current instruction, and the
operand stack. -/
def Frame.standing (f : Frame) : CodeUnit × Nat × Nat × List Value :=
  (f.unit, f.ip, f.instructionIp, f.stack)

/-- The outline of the call stack stays, all callers stand where they stood, and no fault or failure
comes or goes. -/
structure Context.Quiet (c c' : Context) : Prop where
  outlines : c'.frames.map Frame.outline = c.frames.map Frame.outline
  standings : c'.frames.tail.map Frame.standing = c.frames.tail.map Frame.standing
  fault : c'.fault = c.fault
  fatal : c'.fatal = c.fatal

theorem Context.Quiet.refl (c : Context) : c.Quiet c :=
  ⟨rfl, rfl, rfl, rfl⟩

theorem Context.Quiet.trans {c c₁ c₂ : Context} (h : c.Quiet c₁) (h₁ : c₁.Quiet c₂) : c.Quiet c₂ :=
  ⟨h₁.outlines.trans h.outlines, h₁.standings.trans h.standings, h₁.fault.trans h.fault,
    h₁.fatal.trans h.fatal⟩

theorem Context.Quiet.frames_eq_nil {c c' : Context} (h : c.Quiet c') :
    c'.frames = [] ↔ c.frames = [] := by
  rw [← List.map_eq_nil_iff (f := Frame.outline), h.outlines, List.map_eq_nil_iff]

/-- The innermost frame changes within its outline. -/
theorem Context.Quiet.top {c : Context} {f g : Frame} {callers : List Frame}
    (hc : c.frames = f :: callers) (hg : g.outline = f.outline) :
    c.Quiet { c with frames := g :: callers } := by
  refine ⟨?_, ?_, rfl, rfl⟩
  · simp only [hc, List.map_cons, hg]
  · simp only [hc, List.tail_cons]

/-- The context is quiet while the world evolves. -/
structure Machine.Quiet (m m' : Machine) : Prop where
  context : m.context.Quiet m'.context
  world : m.world.Evolves m'.world

theorem Machine.Quiet.refl (m : Machine) : m.Quiet m :=
  ⟨.refl _, .refl⟩

theorem Machine.Quiet.trans {m m₁ m₂ : Machine} (h : m.Quiet m₁) (h₁ : m₁.Quiet m₂) : m.Quiet m₂ :=
  ⟨h.context.trans h₁.context, h.world.trans h₁.world⟩

/-! ## Tame computations -/

/-- An error that comes from outside: a function of the host ends in it, or a promise was rejected
with it. -/
def World.Brings (host : Host) (w : World) (e : Error) : Prop :=
  host.Gives e ∨ ∃ p, (w.promise p).settled = some (.rejected e)

namespace Exec

variable {α β : Type} {vm : Vm}

/-- The machine is quiet under a computation. As long as there is a frame, internal failures come
only from outside. -/
def Tame (vm : Vm) (x : Exec α) : Prop :=
  ∀ m, match x m with
    | .ok _ m' => m.Quiet m'
    | .error e m' =>
      m.Quiet m' ∧ (m.context.frames ≠ [] → e.IsInternal → m'.world.Brings vm.host e)

theorem bind_ok {x : Exec α} {f : α → Exec β} {m m₁ : Machine} {a : α} (h : x m = .ok a m₁) :
    (x >>= f) m = f a m₁ := by
  simp only [Bind.bind, EStateM.bind, h]

theorem bind_error {x : Exec α} {f : α → Exec β} {m m₁ : Machine} {e : Error}
    (h : x m = .error e m₁) : (x >>= f) m = .error e m₁ := by
  simp only [Bind.bind, EStateM.bind, h]

namespace Tame

theorem quiet_of_ok {x : Exec α} (hx : Tame vm x) {m m' : Machine} {a : α} (h : x m = .ok a m') :
    m.Quiet m' := by
  have hm := hx m
  rwa [h] at hm

theorem quiet_of_error {x : Exec α} (hx : Tame vm x) {m m' : Machine} {e : Error}
    (h : x m = .error e m') : m.Quiet m' := by
  have hm := hx m
  rw [h] at hm
  exact hm.1

theorem brings_of_error {x : Exec α} (hx : Tame vm x) {m m' : Machine} {e : Error}
    (h : x m = .error e m') (hm : m.context.frames ≠ []) (he : e.IsInternal) :
    m'.world.Brings vm.host e := by
  have hx := hx m
  rw [h] at hx
  exact hx.2 hm he

@[grind .] theorem pure (a : α) : Tame vm (Pure.pure a : Exec α) :=
  fun m => .refl m

@[grind ←] theorem bind {x : Exec α} {f : α → Exec β} (hx : Tame vm x)
    (hf : ∀ a, Tame vm (f a)) : Tame vm (x >>= f) := by
  intro m
  cases h : x m with
  | error e m₁ =>
    rw [bind_error h]
    exact ⟨hx.quiet_of_error h, hx.brings_of_error h⟩
  | ok a m₁ =>
    rw [bind_ok h]
    have hq := hx.quiet_of_ok h
    cases h₁ : f a m₁ with
    | ok b m₂ => exact hq.trans ((hf a).quiet_of_ok h₁)
    | error e m₂ =>
      refine ⟨hq.trans ((hf a).quiet_of_error h₁), fun hm => (hf a).brings_of_error h₁ ?_⟩
      intro hnil
      exact hm (hq.context.frames_eq_nil.1 hnil)

@[grind ←] theorem throw {e : Error} (he : ¬ e.IsInternal) :
    Tame vm (MonadExcept.throw e : Exec α) :=
  fun m => ⟨.refl m, fun _ h => absurd h he⟩

@[grind ←] theorem ofExcept {r : Except Error α} (h : Harmless r) :
    Tame vm (MonadExcept.ofExcept r : Exec α) := by
  cases r with
  | ok a => exact pure a
  | error e => exact throw (h e rfl)

theorem ofEffect {x : Effect α} (hx : x.Tame vm.host.Gives) : Tame vm (Exec.ofEffect x) := by
  intro m
  have hw := hx m.world
  simp only [Exec.ofEffect]
  cases h : x m.world with
  | ok a w =>
    rw [h] at hw
    exact ⟨.refl _, hw⟩
  | error e w =>
    rw [h] at hw
    exact ⟨⟨.refl _, hw.1⟩, fun _ he => .inl (hw.2 he)⟩

/-! ## The world and the context -/

@[grind .] theorem heap : Tame vm Exec.heap :=
  fun m => .refl m

@[grind .] theorem setHeap (h : Heap) : Tame vm (Exec.setHeap h) :=
  fun m => ⟨.refl _, m.world.evolves_output h m.world.printed⟩

@[grind .] theorem onHeap (f : Heap → α × Heap) : Tame vm (Exec.onHeap f) :=
  fun m => ⟨.refl _, m.world.evolves_output (f m.world.heap).2 m.world.printed⟩

@[grind .] theorem context : Tame vm Exec.context :=
  fun m => .refl m

theorem modifyContext {f : Context → Context} (hf : ∀ c : Context, c.Quiet (f c)) :
    Tame vm (Exec.modifyContext f) :=
  fun m => ⟨hf m.context, .refl⟩

/-! ## The innermost frame -/

end Tame

theorem frame_cons {m : Machine} {f : Frame} {callers : List Frame}
    (h : m.context.frames = f :: callers) : frame m = .ok f m := by
  rcases m with ⟨⟨_⟩, _⟩
  subst h
  rfl

theorem frame_nil {m : Machine} (h : m.context.frames = []) :
    frame m = .error { cause := .emptyCallStack } m := by
  rcases m with ⟨⟨_⟩, _⟩
  subst h
  rfl

theorem modifyFrame_nil {m : Machine} (h : m.context.frames = []) (f : Frame → Frame) :
    modifyFrame f m = .error { cause := .emptyCallStack } m :=
  bind_error (frame_nil h)

theorem modifyFrame_cons {m : Machine} {g : Frame} {callers : List Frame}
    (h : m.context.frames = g :: callers) (f : Frame → Frame) :
    modifyFrame f m =
      .ok () { m with context := { m.context with frames := f g :: callers } } := by
  simp only [modifyFrame]
  rw [bind_ok (frame_cons h)]
  rcases m with ⟨⟨_⟩, _⟩
  subst h
  rfl

namespace Tame

@[grind .] theorem frame : Tame vm Exec.frame := by
  intro m
  cases h : m.context.frames with
  | nil =>
    rw [frame_nil h]
    exact ⟨.refl m, fun hm => absurd rfl hm⟩
  | cons f callers =>
    rw [frame_cons h]
    exact .refl m

/-- A change of the innermost frame within its outline. -/
@[grind ←] theorem modifyFrame {f : Frame → Frame} (hf : ∀ g, (f g).outline = g.outline) :
    Tame vm (Exec.modifyFrame f) := by
  intro m
  cases h : m.context.frames with
  | nil =>
    rw [modifyFrame_nil h]
    exact ⟨.refl m, fun hm => absurd rfl hm⟩
  | cons g callers =>
    rw [modifyFrame_cons h]
    exact ⟨.top h (hf g), .refl⟩

@[grind .] theorem push (v : Value) : Tame vm (Exec.push v) :=
  modifyFrame fun _ => rfl

@[grind .] theorem jump (ip : Nat) : Tame vm (Exec.jump ip) :=
  modifyFrame fun _ => rfl

@[grind .] theorem pop : Tame vm Exec.pop := by
  simp only [Exec.pop]
  have hunderflow : ¬ ({ cause := .stackUnderflow } : Error).IsInternal := id
  grind

@[grind .] theorem peek : Tame vm Exec.peek := by
  simp only [Exec.peek]
  have hunderflow : ¬ ({ cause := .stackUnderflow } : Error).IsInternal := id
  grind

@[grind .] theorem popN (count : Nat) : Tame vm (Exec.popN count) := by
  simp only [Exec.popN]
  have hunderflow : ¬ ({ cause := .stackUnderflow } : Error).IsInternal := id
  grind

@[grind .] theorem name (index : Nat) : Tame vm (Exec.name index) := by
  simp only [Exec.name]
  have hmissing : ¬ ({ cause := .missingName index } : Error).IsInternal := id
  grind

@[grind .] theorem slot (index : Nat) : Tame vm (Exec.slot index) := by
  simp only [Exec.slot]
  have hmissing : ¬ ({ cause := .missingLocal index } : Error).IsInternal := id
  grind

@[grind .] theorem raise (kind : ExceptionKind) (message : String) :
    Tame vm (Exec.raise kind message : Exec α) :=
  throw (Error.not_isInternal_raise kind message)

end Tame

end Exec

/-! ## Steady computations -/

/-- Whether the result of a call goes on within the frame that made the call. -/
def Delivery.Plain : Delivery → Prop
  | replace _ next => next.Plain
  | finishClass _ _ => False
  | _ => True

/-- What becomes of the world, for each way of going on. -/
def World.Follows (w : World) : Control → World → Prop
  | .call c, w' => w.Evolves w' ∧ c.delivery.Plain
  | .suspend .resume, w' => ∃ w₁, w.Evolves w₁ ∧ w' = w₁.park (w₁.running.getD 0)
  | .suspend (.await p d), w' =>
    d.Plain ∧ ∃ w₁, w.Evolves w₁ ∧ (w₁.promise p).settled = none ∧
      w' = w₁.wait p (w₁.running.getD 0)
  | .suspend .start, _ => False
  | _, w' => w.Evolves w'

theorem World.Follows.of_evolves {w w₁ w' : World} {control : Control} (h : w.Evolves w₁)
    (hf : w₁.Follows control w') : w.Follows control w' := by
  match control, hf with
  | .next, hf => exact h.trans hf
  | .call c, hf => exact ⟨h.trans hf.1, hf.2⟩
  | .suspend .start, hf => exact hf
  | .suspend .resume, ⟨w₂, hw₂, hw'⟩ => exact ⟨w₂, h.trans hw₂, hw'⟩
  | .suspend (.await p d), ⟨hd, w₂, hw₂, hw'⟩ => exact ⟨hd, w₂, h.trans hw₂, hw'⟩
  | .finished, hf => exact h.trans hf
  | .faulted, hf => exact h.trans hf

/-- Whether the tasklet goes on, now or later. -/
def Control.Lasts : Control → Prop
  | finished | faulted => False
  | _ => True

/-- A result after which the tasklet goes on, now or later, within the same frame, or ends in an
error there. -/
def Vm.Stays (vm : Vm) (m : Machine) : EStateM.Result Error Machine Control → Prop
  | .ok control m' =>
    m.context.Quiet m'.context ∧ m.world.Follows control m'.world ∧ control.Lasts
  | .error e m' =>
    m.Quiet m' ∧ (m.context.frames ≠ [] → e.IsInternal → m'.world.Brings vm.host e)

theorem Vm.Stays.of_quiet {vm : Vm} {m m₁ : Machine} {r : EStateM.Result Error Machine Control}
    (hq : m.Quiet m₁) (h : vm.Stays m₁ r) : vm.Stays m r := by
  cases r with
  | ok control m' => exact ⟨hq.context.trans h.1, h.2.1.of_evolves hq.world, h.2.2⟩
  | error e m' =>
    refine ⟨hq.trans h.1, fun hne => h.2 ?_⟩
    intro hnil
    exact hne (hq.context.frames_eq_nil.1 hnil)

namespace Exec

variable {α : Type} {vm : Vm}

/-- A computation that stays within the frame, whatever the machine. -/
def Steady (vm : Vm) (x : Exec Control) : Prop :=
  ∀ m, vm.Stays m (x m)

namespace Steady

@[grind ←] theorem bind {x : Exec α} {f : α → Exec Control} (hx : Tame vm x)
    (hf : ∀ a, Steady vm (f a)) : Steady vm (x >>= f) := by
  intro m
  cases h : x m with
  | error e m₁ =>
    rw [bind_error h]
    exact ⟨hx.quiet_of_error h, hx.brings_of_error h⟩
  | ok a m₁ =>
    rw [bind_ok h]
    exact .of_quiet (hx.quiet_of_ok h) (hf a m₁)

@[grind .] theorem next : Steady vm (Pure.pure .next) :=
  fun m => ⟨.refl m.context, .refl, trivial⟩

@[grind ←] theorem call {c : PendingCall} (h : c.delivery.Plain) :
    Steady vm (Pure.pure (.call c)) :=
  fun m => ⟨.refl m.context, ⟨.refl, h⟩, trivial⟩

@[grind ←] theorem throw {e : Error} (he : ¬ e.IsInternal) :
    Steady vm (MonadExcept.throw e : Exec Control) :=
  fun m => ⟨.refl m, fun _ h => absurd h he⟩

@[grind .] theorem raise (kind : ExceptionKind) (message : String) :
    Steady vm (Exec.raise kind message : Exec Control) :=
  throw (Error.not_isInternal_raise kind message)

end Steady

end Exec

end TaskletMachine
