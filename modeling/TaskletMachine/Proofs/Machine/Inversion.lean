import TaskletMachine.Proofs.Machine.Locality

/-!
# What a step has done

The invariants of a run need little of what an instruction does: whether it has stayed within the
innermost frame, has entered a frame or left one, or has raised a fault. For a link of a call they
need the way it has gone. Both are read off here, once.

## Main definitions

* `Context.Within`: only the innermost frame has changed.
* `Vm.Links`, `Vm.links_link`: the ways of a link of a call.
* `Vm.Fetches`, `Vm.fetches_fetch`: what the next instruction has done with the call stack.
* `Context.Unwinds`, `Vm.unwinds_raiseFault`: what a fault has done with it.
-/
namespace TaskletMachine

open Exec

/-! ## The innermost frame -/

/-- The innermost frame is what has become of `f`, for the same caller; the others stand where they
stood. -/
def Context.Within (f : Frame) (callers : List Frame) (c : Context) : Prop :=
  ∃ g callers', c.frames = g :: callers' ∧ g.delivery = f.delivery ∧ SameFrames callers callers'

section Within

variable {c c' : Context} {f g : Frame} {callers : List Frame}

theorem SameFrames.refl (frames : List Frame) : SameFrames frames frames :=
  ⟨rfl, rfl⟩

theorem SameFrames.trans {frames frames₁ frames₂ : List Frame} (h : SameFrames frames frames₁)
    (h₁ : SameFrames frames₁ frames₂) : SameFrames frames frames₂ :=
  ⟨h₁.outlines.trans h.outlines, h₁.standings.trans h.standings⟩

theorem Context.Within.of_frames (hc : c.frames = g :: callers) (hd : g.delivery = f.delivery) :
    c.Within f callers :=
  ⟨g, callers, hc, hd, .refl callers⟩

theorem Context.Within.ne_nil (h : c.Within f callers) : c.frames ≠ [] := by
  obtain ⟨g, callers', hc, -, -⟩ := h
  rw [hc]
  exact List.cons_ne_nil g callers'

theorem Context.Quiet.within (h : c.Quiet c') (hc : c.frames = f :: callers) :
    c'.Within f callers := by
  obtain ⟨g, callers', hc', hg, hsame⟩ := h.cons hc
  exact ⟨g, callers', hc', congrArg Prod.snd hg, hsame⟩

theorem Context.Within.of_quiet (h : c.Within f callers) (hq : c.Quiet c') :
    c'.Within f callers := by
  obtain ⟨g, callers', hc, hd, hsame⟩ := h
  obtain ⟨g', callers'', hc', hd', hsame'⟩ := hq.within hc
  exact ⟨g', callers'', hc', hd'.trans hd, hsame.trans hsame'⟩

theorem Context.Within.of_delivery (h : c.Within g callers) (hd : g.delivery = f.delivery) :
    c.Within f callers := by
  obtain ⟨g', callers', hc, hd', hsame⟩ := h
  exact ⟨g', callers', hc, hd'.trans hd, hsame⟩

end Within

/-! ## Links -/

/-- The instance that calling a class makes. -/
def Machine.made (m : Machine) (r : ClassRef) : Value :=
  .instanceObj (m.world.heap.instantiate r).1

/-- The machine in which it is on the heap. -/
def Machine.instantiated (m : Machine) (r : ClassRef) : Machine :=
  { m with world := { m.world with heap := (m.world.heap.instantiate r).2 } }

/-- What a native callee does, if the callee is a native function or an object of the host. -/
def PendingCall.effect? (host : Host) (h : Heap) (c : PendingCall) : Option (Effect Reply) :=
  match c.callee with
  | .native r => some (callNative host (h.native r).behaviour c.args c.keywords)
  | .hostObj r => some (callHost host r c.args c.keywords)
  | _ => none

/-- The ways of a link of a call. -/
inductive Vm.Links (vm : Vm) (c : PendingCall) (m : Machine) :
    EStateM.Result Error Machine Control → Prop
  /-- The call goes on with another callee. -/
  | call (c' : PendingCall) (m' : Machine) (hcallee : ∀ r, c.callee ≠ .classObj r)
      (hm : m'.context = m.context) (hd : c'.delivery = c.delivery) :
      Links vm c m (.ok (.call c') m')
  /-- The call goes on with the initializer of a new instance, which takes the place of the
  result. -/
  | construct (r : ClassRef) (c' : PendingCall) (m' : Machine) (hcallee : c.callee = .classObj r)
      (hm : m'.context = m.context) (hd : c'.delivery = .replace (m.made r) c.delivery) :
      Links vm c m (.ok (.call c') m')
  /-- A new instance is the result. -/
  | make (r : ClassRef) (m' : Machine) (hcallee : c.callee = .classObj r)
      (hm : m'.context = m.context) :
      Links vm c m ((do deliver (m.made r) c.delivery; return .next : Exec Control) m')
  /-- Guest code is entered. -/
  | enter (r : FunctionRef) (f : Frame) (m' : Machine) (hcallee : c.callee = .function r)
      (hm : m'.context = { m.context with frames := f :: m.context.frames })
      (hd : f.delivery = c.delivery) : Links vm c m (.ok .next m')
  /-- A native callee replies. -/
  | replies (effect : Effect Reply) (reply : Reply) (w : World)
      (heffect : c.effect? vm.host m.world.heap = some effect)
      (hreply : effect m.world = .ok reply w) :
      Links vm c m (Vm.complete reply c.delivery { m with world := w })
  | error (e : Error) (m' : Machine) (hm : m'.context = m.context) : Links vm c m (.error e m')

namespace Vm

variable {vm : Vm} {c : PendingCall} {m : Machine}

theorem link_of_effect {effect : Effect Reply} (h : c.effect? vm.host m.world.heap = some effect) :
    vm.link c m = (do Vm.complete (← ofEffect effect) c.delivery : Exec Control) m := by
  have hheap : Exec.heap m = .ok m.world.heap m := rfl
  unfold PendingCall.effect? at h
  simp only [link]
  rw [bind_ok hheap]
  split at h
  · next r hcallee =>
    cases h
    rw [hcallee]
  · next r hcallee =>
    cases h
    rw [hcallee]
  · cases h

theorem checkDepth_cases (m : Machine) :
    vm.checkDepth m = .ok () m ∨ ∃ e, vm.checkDepth m = .error e m := by
  rcases Nat.lt_or_ge m.context.frames.length vm.maxCallDepth with hroom | hfull
  · exact .inl (checkDepth_of_room hroom)
  · exact .inr ⟨_, checkDepth_of_full hfull⟩

/-- If there is room for a frame, the arguments are matched, and a frame is made of the values. -/
theorem enterFunction_of_room (hroom : m.context.frames.length < vm.maxCallDepth)
    (r : FunctionRef) (c : PendingCall) :
    let f := m.world.heap.function r
    vm.enterFunction r c m =
      match matchArguments m.world.heap f.unit f.defaults c.args c.keywords with
      | .error e => .error e m
      | .ok (values, heap) =>
        let m' : Machine := { m with world := { m.world with heap } }
        match frameOf f.unit values c.delivery with
        | .error e => .error e m'
        | .ok frame =>
          .ok .next
            { m' with context := { m.context with frames := frame :: m.context.frames } } := by
  have hheap : Exec.heap m = .ok m.world.heap m := rfl
  unfold enterFunction
  rw [bind_ok (checkDepth_of_room hroom), bind_ok hheap]
  dsimp only
  cases matchArguments m.world.heap (m.world.heap.function r).unit
      (m.world.heap.function r).defaults c.args c.keywords with
  | error e => rfl
  | ok bound =>
    let m₁ : Machine := { m with world := { m.world with heap := bound.2 } }
    rw [bind_ok (rfl : (ofExcept (.ok bound) : Exec _) m = .ok bound m),
      bind_ok (rfl : setHeap bound.2 m = .ok () m₁)]
    dsimp only
    cases frameOf (m.world.heap.function r).unit bound.1 c.delivery with
    | error e => rfl
    | ok frame => rfl

/-- A function is entered in a new frame, or the call is refused. -/
theorem enterFunction_cases (vm : Vm) (r : FunctionRef) (c : PendingCall) (m : Machine) :
    (∃ f m', vm.enterFunction r c m = .ok .next m' ∧
        m'.context = { m.context with frames := f :: m.context.frames } ∧
        f.delivery = c.delivery) ∨
      ∃ e m', vm.enterFunction r c m = .error e m' ∧ m'.context = m.context := by
  rcases Nat.lt_or_ge m.context.frames.length vm.maxCallDepth with hroom | hfull
  · rw [enterFunction_of_room hroom]
    dsimp only
    cases matchArguments m.world.heap (m.world.heap.function r).unit
        (m.world.heap.function r).defaults c.args c.keywords with
    | error e => exact .inr ⟨e, m, rfl, rfl⟩
    | ok bound =>
      dsimp only
      cases hframe : frameOf (m.world.heap.function r).unit bound.1 c.delivery with
      | error e => exact .inr ⟨e, _, rfl, rfl⟩
      | ok f => exact .inl ⟨f, _, rfl, rfl, (frameOf_fresh hframe).2⟩
  · rw [enterFunction, bind_error (checkDepth_of_full hfull)]
    exact .inr ⟨_, m, rfl, rfl⟩

theorem links_enterFunction {r : FunctionRef} (hcallee : c.callee = .function r) :
    vm.Links c m (vm.enterFunction r c m) := by
  rcases vm.enterFunction_cases r c m with ⟨f, m', hrun, hm', hd⟩ | ⟨e, m', hrun, hm'⟩
  · rw [hrun]
    exact .enter r f m' hcallee hm' hd
  · rw [hrun]
    exact .error e m' hm'

theorem link_of_classObj {r : ClassRef} (hcallee : c.callee = .classObj r) :
    vm.link c m = instantiate r c m := by
  simp only [link]
  rw [bind_ok (rfl : Exec.heap m = .ok m.world.heap m), hcallee]

/-- A class is called by making an instance. Its initializer is called with the instance, and without
one the instance is delivered. -/
theorem instantiate_eq (r : ClassRef) (c : PendingCall) (m : Machine) :
    instantiate r c m =
      match (m.instantiated r).world.heap.classAttr? r "__init__" with
      | some callee =>
        .ok (.call { c with
            callee, args := m.made r :: c.args, delivery := .replace (m.made r) c.delivery })
          (m.instantiated r)
      | none =>
        (do
          if !c.args.isEmpty || !c.keywords.isEmpty then
            raise .typeError
              (((m.instantiated r).world.heap.classObj r).name ++ "() takes no arguments")
          deliver (m.made r) c.delivery
          return .next : Exec Control) (m.instantiated r) := by
  have hmade : onHeap (fun h => h.instantiate r) m =
      .ok (m.world.heap.instantiate r).1 (m.instantiated r) := rfl
  have hheap : Exec.heap (m.instantiated r) =
      .ok (m.instantiated r).world.heap (m.instantiated r) := rfl
  unfold instantiate
  rw [bind_ok hmade, bind_ok hheap]
  cases (m.instantiated r).world.heap.classAttr? r "__init__" with
  | some callee => rfl
  | none => rfl

theorem links_instantiate {r : ClassRef} (hcallee : c.callee = .classObj r) :
    vm.Links c m (instantiate r c m) := by
  rw [instantiate_eq]
  split
  · exact .construct r _ _ hcallee rfl rfl
  · split
    · exact .error _ _ rfl
    · exact .make r _ hcallee rfl

/-- Every link of a call goes one of these ways. -/
theorem links_link (vm : Vm) (c : PendingCall) (m : Machine) : vm.Links c m (vm.link c m) := by
  have hheap : Exec.heap m = .ok m.world.heap m := rfl
  have hnative (effect : Effect Reply) (heffect : c.effect? vm.host m.world.heap = some effect) :
      vm.Links c m (vm.link c m) := by
    rw [link_of_effect heffect]
    cases hreply : effect m.world with
    | ok reply w =>
      have hrun : ofEffect effect m = .ok reply { m with world := w } := by
        simp only [ofEffect, hreply]
      rw [bind_ok hrun]
      exact .replies effect reply w heffect hreply
    | error e w =>
      have hrun : ofEffect effect m = .error e { m with world := w } := by
        simp only [ofEffect, hreply]
      rw [bind_error hrun]
      exact .error e _ rfl
  cases hcallee : c.callee with
  | native r => exact hnative _ (by rw [PendingCall.effect?, hcallee])
  | hostObj r => exact hnative _ (by rw [PendingCall.effect?, hcallee])
  | function r =>
    rw [link_of_function hcallee]
    exact links_enterFunction hcallee
  | classObj r =>
    rw [link_of_classObj hcallee]
    exact links_instantiate hcallee
  | method receiver callee =>
    simp only [link]
    rw [bind_ok hheap, hcallee]
    exact .call _ m (by simp [hcallee]) rfl rfl
  | foreignType name constructor =>
    simp only [link]
    rw [bind_ok hheap, hcallee]
    exact .call _ m (by simp [hcallee]) rfl rfl
  | instanceObj r =>
    simp only [link]
    rw [bind_ok hheap, hcallee]
    dsimp only
    cases hcall : m.world.heap.instanceAttr? r "__call__" with
    | some callee => exact .call _ m (by simp [hcallee]) rfl rfl
    | none => exact .error _ m rfl
  | _ =>
    simp only [link]
    rw [bind_ok hheap, hcallee]
    exact .error _ m rfl

end Vm

/-! ## Instructions -/

/-- The result with which the next instruction leaves the innermost frame, if it does. -/
inductive Context.Leaves (c : Context) : Value → Prop
  | returnValue (f : Frame) (callers : List Frame) (v : Value) (stack : List Value)
      (hi : c.instruction? = some .returnValue) (hc : c.frames = f :: callers)
      (hf : f.stack = v :: stack) : Leaves c v
  | atEnd (f : Frame) (callers : List Frame) (hc : c.frames = f :: callers) (hf : f.atEnd) :
      Leaves c .none

/-- What the next instruction of the frame `f` can do with the call stack. -/
inductive Vm.Fetches (vm : Vm) (m : Machine) (f : Frame) (callers : List Frame) :
    EStateM.Result Error Machine Control → Prop
  /-- It stays within the frame. -/
  | stays (control : Control) (m' : Machine) (h : m'.context.Within f callers)
      (hlasts : control.Lasts) : Fetches vm m f callers (.ok control m')
  | fails (e : Error) (m' : Machine) (h : m'.context.Within f callers) :
      Fetches vm m f callers (.error e m')
  /-- The body of a class is entered. -/
  | enters (entered : Frame) (c : Context) (m' : Machine) (name : String) (bases : List ClassRef)
      (hentered : entered.delivery = .finishClass name bases) (h : c.Within f callers)
      (hm' : m'.context.frames = entered :: c.frames) : Fetches vm m f callers (.ok .next m')
  /-- The frame is left with a result. -/
  | returns (v : Value) (g : Frame) (hv : m.context.Leaves v) (hd : g.delivery = f.delivery)
      (hcallers : callers ≠ []) :
      Fetches vm m f callers (returnFrom v (m.withFrames (g :: callers)))
  /-- The root frame ends. -/
  | finishes (m' : Machine) (h : m'.context.Within f callers) (hcallers : callers = []) :
      Fetches vm m f callers (.ok .finished m')
  /-- A fault is raised again. -/
  | raises (fault : Fault) (g : Frame) (hd : g.delivery = f.delivery)
      (hi : m.context.instruction? = some .endFinally ∨ m.context.instruction? = some (.raise 0)) :
      Fetches vm m f callers (vm.raiseFault fault (m.withFrames (g :: callers)))

namespace Vm

variable {vm : Vm} {m : Machine} {f g : Frame} {callers : List Frame}

theorem Fetches.of_stays {m₁ : Machine} {r : EStateM.Result Error Machine Control}
    (hm : m₁.context.frames = g :: callers) (hd : g.delivery = f.delivery) (h : vm.Stays m₁ r) :
    vm.Fetches m f callers r := by
  cases r with
  | ok control m' => exact .stays control m' ((h.1.within hm).of_delivery hd) h.2.2
  | error e m' => exact .fails e m' ((h.1.context.within hm).of_delivery hd)

/-- The frame is replaced by what has become of it. -/
theorem fetches_replace {g' : Frame} (hd : g'.delivery = f.delivery) :
    vm.Fetches m f callers
      ((do modifyFrame fun _ => g'; return .next : Exec Control) (m.withFrames (g :: callers))) := by
  rw [bind_ok (modifyFrame_cons (rfl : (m.withFrames (g :: callers)).context.frames = _) _)]
  exact .stays .next _ (.of_frames rfl hd) trivial

theorem fetches_malformed (message : String) (hd : g.delivery = f.delivery) :
    vm.Fetches m f callers (Vm.malformed message (m.withFrames (g :: callers))) :=
  .fails _ _ (.of_frames rfl hd)

theorem fetches_popBlock (hd : g.delivery = f.delivery) :
    vm.Fetches m f callers (Vm.popBlock (m.withFrames (g :: callers))) := by
  unfold popBlock Frame.popBlock?
  rw [bind_ok (frame_cons (rfl : (m.withFrames (g :: callers)).context.frames = _))]
  cases g.blocks with
  | nil => exact fetches_malformed _ hd
  | cons b rest => exact fetches_replace hd

theorem fetches_breakLoop (hd : g.delivery = f.delivery) :
    vm.Fetches m f callers (Vm.breakLoop (m.withFrames (g :: callers))) := by
  have hleft : g.breakLoop.1.delivery = f.delivery :=
    (Frame.breakFrom_below g.blocks g rfl).1.trans hd
  unfold breakLoop
  rw [bind_ok (frame_cons (rfl : (m.withFrames (g :: callers)).context.frames = _))]
  dsimp only
  rw [bind_ok (modifyFrame_cons (rfl : (m.withFrames (g :: callers)).context.frames = _) _)]
  split
  · exact .stays .next _ (.of_frames rfl hleft) trivial
  · exact .fails _ _ (.of_frames rfl hleft)

theorem fetches_continueLoop (target : Nat) (hd : g.delivery = f.delivery) :
    vm.Fetches m f callers (Vm.continueLoop target (m.withFrames (g :: callers))) := by
  unfold continueLoop
  rw [bind_ok (frame_cons (rfl : (m.withFrames (g :: callers)).context.frames = _))]
  cases hg : g.continueLoop? target with
  | none => exact fetches_malformed _ hd
  | some g' =>
    have hturns := Frame.turns_continueLoop? hg none
    exact fetches_replace (hturns.delivery_eq.trans hd)

theorem fetches_endFinally (hi : m.context.instruction? = some .endFinally)
    (hd : g.delivery = f.delivery) :
    vm.Fetches m f callers (vm.endFinally (m.withFrames (g :: callers))) := by
  unfold endFinally Frame.endFinally
  rw [bind_ok (frame_cons (rfl : (m.withFrames (g :: callers)).context.frames = _))]
  cases g.blocks with
  | nil => exact .stays .next _ (.of_frames rfl hd) trivial
  | cons b rest =>
    dsimp only
    cases b.kind with
    | loop => exact .stays .next _ (.of_frames rfl hd) trivial
    | exceptGuard => exact .stays .next _ (.of_frames rfl hd) trivial
    | finallyGuard =>
      dsimp only
      split
      · exact fetches_replace hd
      · exact .stays .next _ (.of_frames rfl hd) trivial
    | finallyBody fault =>
      dsimp only
      rw [bind_ok (modifyFrame_cons (rfl : (m.withFrames (g :: callers)).context.frames = _) _)]
      exact .raises fault { g.restore b.depth with blocks := rest } hd (.inl hi)

theorem fetches_runRaise (hi : m.context.instruction? = some (.raise 0))
    (hd : g.delivery = f.delivery) :
    vm.Fetches m f callers (vm.runRaise 0 (m.withFrames (g :: callers))) := by
  have hcontext : Exec.context (m.withFrames (g :: callers)) =
      .ok (m.withFrames (g :: callers)).context (m.withFrames (g :: callers)) := rfl
  cases hhandled : m.context.handled with
  | none =>
    have hrun : vm.runRaise 0 (m.withFrames (g :: callers)) =
        Exec.raise .runtimeError "No active exception to reraise" (m.withFrames (g :: callers)) :=
      (bind_ok hcontext).trans (by simp only [Machine.withFrames, hhandled])
    rw [hrun]
    exact .fails _ _ (.of_frames rfl hd)
  | some fault =>
    have hrun : vm.runRaise 0 (m.withFrames (g :: callers)) =
        vm.raiseFault fault (m.withFrames (g :: callers)) :=
      (bind_ok hcontext).trans (by simp only [Machine.withFrames, hhandled])
    rw [hrun]
    exact .raises fault g hd (.inr hi)

theorem fetches_returnValue (hi : m.context.instruction? = some .returnValue)
    (hm : m.context.frames = f :: callers) (hd : g.delivery = f.delivery)
    (hs : g.stack = f.stack) :
    vm.Fetches m f callers (Vm.returnValue (m.withFrames (g :: callers))) := by
  have hg : (m.withFrames (g :: callers)).context.frames = g :: callers := rfl
  unfold returnValue
  cases hstack : g.stack with
  | nil =>
    rw [bind_error (pop_nil hg hstack)]
    exact .fails _ _ (.of_frames rfl hd)
  | cons v stack =>
    rw [bind_ok (pop_cons hg hstack)]
    cases callers with
    | nil => exact .finishes _ (.of_frames rfl hd) rfl
    | cons caller rest =>
      exact .returns v { g with stack } (.returnValue f _ v stack hi hm (hs ▸ hstack)) hd
        (List.cons_ne_nil caller rest)

theorem fetches_endOfUnit (hm : m.context.frames = f :: callers) (hend : f.atEnd) :
    vm.Fetches m f callers (Vm.endOfUnit m) := by
  have hwithin : m.context.Within f callers := .of_frames hm rfl
  unfold endOfUnit
  rw [bind_ok (rfl : Exec.context m = .ok m.context m), hm]
  cases callers with
  | nil =>
    dsimp only
    split
    · exact .finishes m hwithin rfl
    · exact .fails _ m hwithin
  | cons caller rest =>
    have hsame : m.withFrames (f :: caller :: rest) = m := by
      rw [Machine.withFrames, ← hm]
    have hreturns : vm.Fetches m f (caller :: rest)
        (returnFrom .none (m.withFrames (f :: caller :: rest))) :=
      .returns .none f (.atEnd f _ hm hend) rfl (List.cons_ne_nil caller rest)
    rwa [hsame] at hreturns

theorem fetches_bind {α : Type} {x : Exec α} {k : α → Exec Control} {m₁ : Machine}
    (hx : Tame vm x) (hm₁ : m₁.context.Within f callers)
    (hk : ∀ a m₂, m₂.context.Within f callers → vm.Fetches m f callers (k a m₂)) :
    vm.Fetches m f callers ((x >>= k) m₁) := by
  cases h : x m₁ with
  | error e m₂ =>
    rw [bind_error h]
    exact .fails e m₂ (hm₁.of_quiet (hx.quiet_of_error h).context)
  | ok a m₂ =>
    rw [bind_ok h]
    exact hk a m₂ (hm₁.of_quiet (hx.quiet_of_ok h).context)

/-- The innermost frame gives its operands to the body of a class. -/
theorem fetches_buildClass (hd : g.delivery = f.delivery) :
    vm.Fetches m f callers (vm.buildClass (m.withFrames (g :: callers))) := by
  refine fetches_bind .popBases (.of_frames rfl hd) fun bases m₁ hm₁ => ?_
  refine fetches_bind .popClassName hm₁ fun name m₂ hm₂ => ?_
  refine fetches_bind .popClassBody hm₂ fun body m₃ hm₃ => ?_
  rcases vm.checkDepth_cases m₃ with hdepth | ⟨e, hdepth⟩
  · rw [bind_ok hdepth]
    exact .enters _ m₃.context _ name bases rfl hm₃ rfl
  · rw [bind_error hdepth]
    exact .fails e m₃ hm₃

/-- Every instruction does one of these things. -/
theorem fetches_execute {i : Instruction} (hi : m.context.instruction? = some i)
    (hm : m.context.frames = f :: callers) (next : Nat) :
    vm.Fetches m f callers (vm.execute i (m.withFrames (f.reading next :: callers))) := by
  have hd : (f.reading next).delivery = f.delivery := rfl
  have hsteady (h : i.Common) :
      vm.Fetches m f callers (vm.execute i (m.withFrames (f.reading next :: callers))) :=
    .of_stays rfl hd (vm.steady_execute h _)
  cases i with
  | popBlock => exact fetches_popBlock hd
  | breakLoop => exact fetches_breakLoop hd
  | continueLoop target => exact fetches_continueLoop target hd
  | setupLoop exit => exact .stays .next _ (.of_frames rfl hd) trivial
  | setupExcept handler => exact .stays .next _ (.of_frames rfl hd) trivial
  | setupFinally handler => exact .stays .next _ (.of_frames rfl hd) trivial
  | endFinally => exact fetches_endFinally hi hd
  | returnValue => exact fetches_returnValue hi hm hd rfl
  | buildClass => exact fetches_buildClass hd
  | raise count =>
    by_cases hcount : count = 0
    · subst hcount
      exact fetches_runRaise hi hd
    · exact hsteady hcount
  | _ => exact hsteady trivial

/-- The next instruction, and the end of the code, do one of these things. -/
theorem fetches_fetch (vm : Vm) (hm : m.context.frames = f :: callers) :
    vm.Fetches m f callers (vm.perform .fetch m) := by
  cases hd : decodeAt f.unit.bytes f.ip with
  | some d =>
    have hi : m.context.instruction? = some d.instruction := by
      rw [Context.instruction?, hm, List.head?_cons, Option.bind_some, hd, Option.map_some]
    rw [perform_fetch vm hm hd]
    exact fetches_execute hi hm d.next
  | none =>
    have hend : f.atEnd := decide_eq_true (decodeAt_eq_none.1 hd)
    have hrun : vm.perform .fetch m = Vm.endOfUnit m := by
      simp only [perform, fetch]
      rw [bind_ok (frame_cons hm), if_pos hend]
    rw [hrun]
    exact fetches_endOfUnit hm hend

end Vm

/-! ## Faults -/

/-- What a fault can do with the call stack: frames are dropped from the top, and the next one takes
the fault, or its loop ends, or it is the root frame. -/
def Context.Unwinds (frames : List Frame) (c : Context) : Prop :=
  ∃ dropped f callers, frames = dropped ++ f :: callers ∧ c.Within f callers

theorem Context.Unwinds.of_frames {frames dropped callers : List Frame} {f g : Frame} {c : Context}
    (hframes : frames = dropped ++ f :: callers) (hc : c.frames = g :: callers)
    (hd : g.delivery = f.delivery) : c.Unwinds frames :=
  ⟨dropped, f, callers, hframes, .of_frames hc hd⟩

theorem Context.Unwinds.refl {c : Context} (hc : c.frames ≠ []) : c.Unwinds c.frames := by
  obtain ⟨f, callers, hframes⟩ := List.exists_cons_of_ne_nil hc
  exact ⟨[], f, callers, hframes, .of_frames hframes rfl⟩

theorem Context.Unwinds.ne_nil {frames : List Frame} {c : Context} (h : c.Unwinds frames) :
    c.frames ≠ [] := by
  obtain ⟨_, _, _, _, hwithin⟩ := h
  exact hwithin.ne_nil

theorem Frame.Lands.delivery_eq {fault : Fault} {f g : Frame}
    (h : f.Lands fault (.caught g) ∨ f.Lands fault (.cleanup g) ∨ f.Lands fault (.passed g)) :
    g.delivery = f.delivery := by
  rcases h with h | h | h <;> cases h <;> assumption

theorem Exec.Tame.endLoop (vm : Vm) (exit : Nat) : Tame vm (Vm.endLoop exit) :=
  .bind .pop fun _ => .bind (.jump exit) fun _ => .pure _

theorem Exec.left_tame {α : Type} {vm : Vm} {x : Exec α} (hx : Tame vm x) (m : Machine) :
    m.context.Quiet (left (x m)).context := by
  cases h : x m with
  | ok a m' => exact (hx.quiet_of_ok h).context
  | error e m' => exact (hx.quiet_of_error h).context

namespace Vm

variable {vm : Vm} {m : Machine}

theorem unwinds_raiseFault (vm : Vm) (fault : Fault) (hm : m.context.frames ≠ []) :
    (left (vm.raiseFault fault m)).context.Unwinds m.context.frames := by
  have hunwinds := unwinds_unwindFrames (vm.isStopIteration m.context m.world.heap) fault
    m.context.frames
  rw [raiseFault_eq]
  generalize unwindFrames (vm.isStopIteration m.context m.world.heap) fault m.context.frames = u
    at hunwinds
  cases hunwinds with
  | caught fault dropped f g callers hframes hlands =>
    exact .of_frames hframes rfl (Frame.Lands.delivery_eq (.inl hlands))
  | cleanup fault dropped f g callers hframes hlands =>
    exact .of_frames hframes rfl (Frame.Lands.delivery_eq (.inr (.inl hlands)))
  | loopEnded exit dropped f callers hframes =>
    have hquiet := left_tame (.endLoop vm exit)
      { m with context := { m.context with frames := f :: callers, fault := none } }
    exact ⟨dropped, f, callers, hframes, hquiet.within rfl⟩
  | unhandled fault dropped f g hframes hlands =>
    exact .of_frames hframes rfl (Frame.Lands.delivery_eq (.inr (.inr hlands)))
  | noFrames hframes => exact absurd hframes hm

theorem unwinds_raiseMade {x : Exec Value} (hx : Aside x) (hm : m.context.frames ≠ []) :
    (left ((do
      let value ← x
      vm.raiseFault { value, traceback := [(← frame).place] } : Exec Control) m)).context.Unwinds
      m.context.frames := by
  have hm₁ := hx m
  cases h : x m with
  | error e m₁ =>
    rw [h] at hm₁
    rw [bind_error h]
    show m₁.context.Unwinds m.context.frames
    rw [hm₁.1]
    exact .refl hm
  | ok value m₁ =>
    rw [h] at hm₁
    rw [bind_ok h, ← hm₁.1]
    rw [← hm₁.1] at hm
    obtain ⟨f, callers, hframes⟩ := List.exists_cons_of_ne_nil hm
    rw [bind_ok (frame_cons hframes)]
    exact unwinds_raiseFault vm _ hm

/-- Making an exception leaves the call stack alone. -/
theorem unwinds_raiseError (vm : Vm) (e : Error) (hm : m.context.frames ≠ []) :
    (left (vm.raiseError e m)).context.Unwinds m.context.frames := by
  unfold raiseError
  cases e.cause with
  | exception kind message => exact unwinds_raiseMade (.makeException vm kind message) hm
  | raised v => exact unwinds_raiseMade (.normalizeException vm v) hm
  | _ => exact .refl hm

end Vm

end TaskletMachine
