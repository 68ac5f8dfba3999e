import TaskletMachine.Proofs.Machine.Twins

/-!
# Two runs of one call in lockstep

While a call is under way the two runs do the same, step by step. They part when it is over: with a
value, which both callers get, or with an exception. A fault that leaves the frames above the
callers ends the loop if it stops the iteration, and goes on in the other caller. If the fault has
left the initializer of a class, it goes on in the frame of the loop as well: the loop has called
the class, and not the initializer.

## Main definitions

* `UnwindsAlike`, `TwinFrames.unwindsAlike`: where a fault lands in the two runs.
* `Progress.Lockstep`: the two runs while the call is under way.
* `Vm.Parted`: what comes of them when it is over.
* `Vm.together_raiseFault`: the runs after a fault.
-/
namespace TaskletMachine

open Exec

/-! ## Where a fault lands -/

/-- The landing in a frame with another delivery. -/
def Landing.withDelivery (d : Delivery) : Landing → Landing
  | caught f => caught (f.withDelivery d)
  | cleanup f => cleanup (f.withDelivery d)
  | passed f => passed (f.withDelivery d)

section Landings

variable {f g : Frame} {fault : Fault}

theorem Frame.landIn_withDelivery (fault : Fault) (f : Frame) (d : Delivery) (blocks : List Block) :
    (f.withDelivery d).landIn fault blocks = (f.landIn fault blocks).withDelivery d := by
  induction blocks generalizing f with
  | nil => rfl
  | cons b rest ih =>
    have hleft := ih { f.restore b.depth with blocks := rest }
    unfold landIn
    dsimp only
    cases b.kind with
    | exceptGuard => rfl
    | finallyGuard =>
      have hip : ((f.withDelivery d).restore b.depth).instructionIp =
        (f.restore b.depth).instructionIp := rfl
      dsimp only
      rw [hip]
      split
      · rfl
      · exact hleft
    | loop => exact hleft
    | finallyBody _ => exact hleft

theorem Frame.land_withDelivery (f : Frame) (d : Delivery) (fault : Fault) :
    (f.withDelivery d).land fault = (f.land fault).withDelivery d :=
  landIn_withDelivery fault f d f.blocks

theorem Frame.delivery_of_land (h : (f.land fault).frame = g) : g.delivery = f.delivery := by
  have hself : f.land fault = (f.land fault).withDelivery f.delivery :=
    f.land_withDelivery f.delivery fault
  rw [← h, hself]
  cases f.land fault <;> rfl

end Landings

/-- Where a fault lands in the call stacks of the two runs. It may land in both at the same place
above the callers. Otherwise it gets to the callers, unless it ends the loop that has called. -/
inductive UnwindsAlike (stops : Value → Bool) (fault : Fault) (base base' : List Frame)
    (d d' : Delivery) : Unwound → Unwound → Prop
  | caught (fault' : Fault) {frames frames' : List Frame}
      (h : TwinFrames base base' d d' frames frames') :
      UnwindsAlike stops fault base base' d d' (.caught fault' frames) (.caught fault' frames')
  | cleanup {frames frames' : List Frame} (h : TwinFrames base base' d d' frames frames') :
      UnwindsAlike stops fault base base' d d' (.cleanup frames) (.cleanup frames')
  | loopEnded (exit : Nat) {frames frames' : List Frame}
      (h : TwinFrames base base' d d' frames frames') :
      UnwindsAlike stops fault base base' d d' (.loopEnded exit frames) (.loopEnded exit frames')
  | leaves (exit : Nat) (passed : List Frame) {f g : Frame} {callers callers' : List Frame}
      (h : CallersAlike base base' (f :: callers) (g :: callers')) (hd : d = .iteration exit)
      (hstops : stops fault.value) :
      UnwindsAlike stops fault base base' d d' (.loopEnded exit (f :: callers))
        (unwindFrames stops ((fault.along passed).along [g]) (g :: callers'))
  | passes (passed : List Frame) {f g : Frame} {callers callers' : List Frame}
      (h : CallersAlike base base' (f :: callers) (g :: callers'))
      (hgoes : stops fault.value → ∃ v next, d = .replace v next) :
      UnwindsAlike stops fault base base' d d'
        (unwindFrames stops ((fault.along passed).along [f]) (f :: callers))
        (unwindFrames stops ((fault.along passed).along [g]) (g :: callers'))

section Unwinding

variable {stops : Value → Bool} {fault : Fault} {base base' frames frames' : List Frame}
  {d d' : Delivery} {exit : Nat}

theorem UnwindsAlike.of_along {caller : Frame} {u u' : Unwound}
    (h : UnwindsAlike stops (fault.along [caller]) base base' d d' u u') :
    UnwindsAlike stops fault base base' d d' u u' := by
  have halong (passed : List Frame) :
      (fault.along [caller]).along passed = fault.along (caller :: passed) :=
    fault.along_along [caller] passed
  cases h with
  | caught fault' h => exact .caught fault' h
  | cleanup h => exact .cleanup h
  | loopEnded exit h => exact .loopEnded exit h
  | leaves exit passed h hd hstops =>
    rw [halong]
    exact .leaves exit _ h hd hstops
  | passes passed h hgoes =>
    rw [halong]
    exact .passes _ h hgoes

theorem unwindFrames_cons (stops : Value → Bool) (fault : Fault) (f caller : Frame)
    (rest : List Frame) :
    unwindFrames stops fault (f :: caller :: rest) =
      match f.land fault, f.iterationExit? with
      | .caught g, _ => .caught fault (g :: caller :: rest)
      | .cleanup g, _ => .cleanup (g :: caller :: rest)
      | .passed _, some exit =>
        if stops fault.value then .loopEnded exit (caller :: rest)
        else unwindFrames stops (fault.along [caller]) (caller :: rest)
      | .passed _, none => unwindFrames stops (fault.along [caller]) (caller :: rest) := by
  rw [unwindFrames]
  cases hland : f.land fault with
  | caught g => rfl
  | cleanup g => rfl
  | passed g =>
    have hexit : g.iterationExit? = f.iterationExit? := by
      have hg : g.delivery = f.delivery := Frame.delivery_of_land (congrArg Landing.frame hland)
      unfold Frame.iterationExit?
      rw [hg]
    dsimp only
    rw [hexit]
    cases f.iterationExit? <;> rfl

/-- The induction is on the frames above the callers that the fault passes. -/
theorem TwinFrames.unwindsAlike (hd : d.Twin exit d') (hbase : base ≠ [])
    (h : TwinFrames base base' d d' frames frames') (stops : Value → Bool) (fault : Fault) :
    UnwindsAlike stops fault base base' d d' (unwindFrames stops fault frames)
      (unwindFrames stops fault frames') := by
  induction h generalizing fault with
  | @entered f callers callers' hf h =>
    obtain ⟨caller, caller', rest, rest', rfl, rfl⟩ := h.exists_cons hbase
    have hfirst (x : Frame) : fault.along [x] = (fault.along []).along [x] := by
      rw [Fault.along_nil]
    obtain ⟨hnone, hasks⟩ := hd.iterationExit? hf
    rw [unwindFrames_cons, unwindFrames_cons, Frame.land_withDelivery, hnone]
    cases hland : f.land fault with
    | caught g =>
      have hg := Frame.delivery_of_land (congrArg Landing.frame hland)
      exact .caught fault (.entered g (hg.trans hf) h)
    | cleanup g =>
      have hg := Frame.delivery_of_land (congrArg Landing.frame hland)
      exact .cleanup (.entered g (hg.trans hf) h)
    | passed g =>
      dsimp only [Landing.withDelivery]
      rw [hfirst, hfirst]
      rcases hasks with ⟨rfl, hexit⟩ | ⟨hreplaced, hexit⟩
      · rw [hexit]
        dsimp only
        split
        · next hstops => exact .leaves exit [] h rfl hstops
        · next hgoes => exact .passes [] h fun hstops => absurd hstops hgoes
      · rw [hexit]
        exact .passes [] h fun _ => hreplaced
  | @inner f callers callers' h ih =>
    obtain ⟨caller, e, rest, rest', rfl, rfl, -⟩ := h.top
    have hplace : fault.along [caller.withDelivery e] = fault.along [caller] := rfl
    rw [unwindFrames_cons, unwindFrames_cons, hplace]
    cases hland : f.land fault with
    | caught g => exact .caught fault (.inner g h)
    | cleanup g => exact .cleanup (.inner g h)
    | passed g =>
      cases f.iterationExit? with
      | none => exact (ih _).of_along
      | some exit =>
        dsimp only
        split
        · exact .loopEnded exit h
        · exact (ih _).of_along

end Unwinding

/-! ## How the runs go on, and how they part -/

/-- What is raised when a call ends in an exception: an error, or a fault that has left the frames
above the caller. -/
inductive Thrown where
  | error (e : Error)
  | fault (fault : Fault)

namespace Thrown

/-- A fault goes on at the place of the caller. -/
def inFrame (f : Frame) : Thrown → Thrown
  | error e => error e
  | fault x => fault (x.along [f])

/-- Raises it in the frame of the caller. -/
def raising (vm : Vm) : Thrown → Exec Control
  | error e => vm.raiseError e
  | fault x => vm.raiseFault x

/-- Whether it stops an iteration. -/
def Stops (vm : Vm) (m : Machine) : Thrown → Prop
  | error e => vm.stopsIteration m e
  | fault x => vm.isStopIteration m.context m.world.heap x.value

end Thrown

/-- The runs of the two calls, while they are under way. The delivery is that of the frame that was
entered first, or of the call itself. -/
inductive Progress.Lockstep (exit : Nat) (base base' : List Frame) :
    Delivery → Progress → Progress → Prop
  | linking (c : PendingCall) (m : Machine) {d' : Delivery} {frames : List Frame}
      (hd : c.delivery.Twin exit d') (h : CallersAlike base base' m.context.frames frames) :
      Lockstep exit base base' c.delivery (.running (.link c) m)
        (.running (.link { c with delivery := d' }) (m.withFrames frames))
  | running (phase : Phase) (m : Machine) {d d' : Delivery} {frames : List Frame}
      (hd : d.Twin exit d') (h : TwinFrames base base' d d' m.context.frames frames) :
      Lockstep exit base base' d (.running phase m) (.running phase (m.withFrames frames))
  | stopped (outcome : RunOutcome) (m : Machine) {d d' : Delivery} {frames : List Frame}
      (hd : d.Twin exit d') (h : TwinFrames base base' d d' m.context.frames frames) :
      Lockstep exit base base' d (.stopped outcome m) (.stopped outcome (m.withFrames frames))
  | waiting (p : PromiseId) (m : Machine) {d d' : Delivery} {frames : List Frame}
      (hd : d.Twin exit d') (h : CallersAlike base base' m.context.frames frames) :
      Lockstep exit base base' d (.stopped (.suspended (.await p d)) m)
        (.stopped (.suspended (.await p d')) (m.withFrames frames))

/-- What comes of the two calls when they are over. -/
inductive Vm.Parted (vm : Vm) (exit : Nat) (base base' : List Frame) (d : Delivery) :
    Progress → Progress → Prop
  /-- Both callers get the value. -/
  | value (v : Value) (m : Machine) (next : Machine → Progress) {f g : Frame}
      {callers callers' : List Frame} (h : CallersAlike base base' (f :: callers) (g :: callers'))
      (hnext : next = vm.afterInstruction ∨ next = .stopped (.suspended .resume)) :
      Parted vm exit base base' d
        (next (m.withFrames ({ f with stack := v :: f.stack } :: callers)))
        (next (m.withFrames ({ g with stack := v :: g.stack } :: callers')))
  /-- The loop is left, and the other caller gets the exception that stops the iteration. -/
  | leaves (t : Thrown) (m m₁ : Machine) {f g : Frame} {callers callers' : List Frame}
      (iterator : Value) (stack : List Value)
      (h : CallersAlike base base' (f :: callers) (g :: callers'))
      (hstack : f.stack = iterator :: stack)
      (hleft : m₁.context.frames = { f with stack, ip := exit } :: callers)
      (hworld : m₁.world = m.world) (hstops : t.Stops vm m) :
      Parted vm exit base base' d (vm.afterInstruction m₁)
        (proceed vm.afterInstruction ((t.inFrame g).raising vm (m.withFrames (g :: callers'))))
  /-- Both callers get the exception. It does not stop the iteration, or it is raised in the
  initializer of a class that the loop has called. -/
  | raises (t : Thrown) (m : Machine) {f g : Frame} {callers callers' : List Frame}
      (h : CallersAlike base base' (f :: callers) (g :: callers'))
      (hgoes : t.Stops vm m → (∃ fault, t = .fault fault) ∧ ∃ v next, d = .replace v next) :
      Parted vm exit base base' d
        (proceed vm.afterInstruction ((t.inFrame f).raising vm (m.withFrames (f :: callers))))
        (proceed vm.afterInstruction ((t.inFrame g).raising vm (m.withFrames (g :: callers'))))
  /-- Both tasklets end in the same failure. -/
  | fatal (e : Error) (m : Machine) (frames : List Frame) :
      Parted vm exit base base' d (.stopped .fatal (failWith e m))
        (.stopped .fatal (failWith e (m.withFrames frames)))

/-- The two calls go on together, or they are over. -/
def Vm.Together (vm : Vm) (exit : Nat) (base base' : List Frame) (d : Delivery)
    (p q : Progress) : Prop :=
  (∃ d', p.Lockstep exit base base' d' q) ∨ vm.Parted exit base base' d p q

section Steps

variable {vm : Vm} {exit : Nat} {base base' frames : List Frame} {d d' : Delivery} {m : Machine}
  {caller : Frame} {callers : List Frame} {iterator : Value} {stack : List Value}

theorem Vm.lockstep_ok (hd : d.Twin exit d')
    (h : TwinFrames base base' d d' m.context.frames frames) (control : Control) :
    (proceed vm.afterInstruction (.ok control m)).Lockstep exit base base' d
      (proceed vm.afterInstruction (.ok control (m.withFrames frames))) := by
  cases control with
  | next =>
    simp only [proceed, afterInstruction]
    split
    · exact .stopped _ m hd h
    · exact .running _ m hd h
  | call c => exact .running _ m hd h
  | suspend k => exact .stopped _ m hd h
  | finished => exact .stopped _ m hd h
  | faulted => exact .stopped _ m hd h

theorem Vm.together_ok (hd : d.Twin exit d')
    (h : TwinFrames base base' d d' m.context.frames frames) (control : Control) :
    vm.Together exit base base' d (proceed vm.afterInstruction (.ok control m))
      (proceed vm.afterInstruction (.ok control (m.withFrames frames))) :=
  .inl ⟨d, lockstep_ok hd h control⟩

theorem Vm.together_same (hd : d.Twin exit d') {r r' : EStateM.Result Error Machine Control}
    (h : SameResult (Machine.SameBut (TwinFrames base base' d d')) r r') :
    vm.Together exit base base' d (proceed vm.afterInstruction r)
      (proceed vm.afterInstruction r') := by
  cases h with
  | ok control h =>
    obtain ⟨frames, hframes, rfl⟩ := h
    exact together_ok hd hframes control
  | error e h =>
    obtain ⟨frames, -, rfl⟩ := h
    exact .inr (.fatal e _ frames)

theorem SameFrames.operands_head {f g : Frame} {rest rest' : List Frame}
    (h : SameFrames (f :: rest) (g :: rest')) : g.stack = f.stack :=
  (List.cons.inj h.operands).1

/-- The callers of the first call are a loop that waits for its next value, and its callers. -/
def AwaitsNext (base : List Frame) : Prop :=
  ∃ f callers iterator stack, base = f :: callers ∧ f.stack = iterator :: stack

theorem Vm.together_raiseFault (hd : d.Twin exit d') (hbase : AwaitsNext base)
    (h : TwinFrames base base' d d' m.context.frames frames) (fault : Fault) :
    vm.Together exit base base' d (proceed vm.afterInstruction (vm.raiseFault fault m))
      (proceed vm.afterInstruction (vm.raiseFault fault (m.withFrames frames))) := by
  obtain ⟨f₀, callers₀, iterator, stack, rfl, hstack⟩ := hbase
  have hunwinds := h.unwindsAlike hd (List.cons_ne_nil f₀ callers₀)
    (vm.isStopIteration m.context m.world.heap) fault
  have hrun := vm.raiseFault_eq fault m
  have hrun' := vm.raiseFault_eq fault (m.withFrames frames)
  generalize hu : unwindFrames (vm.isStopIteration m.context m.world.heap) fault
    m.context.frames = u at hunwinds hrun
  generalize hu' : unwindFrames (vm.isStopIteration m.context m.world.heap) fault frames = u'
    at hunwinds
  rw [show unwindFrames (vm.isStopIteration (m.withFrames frames).context
    (m.withFrames frames).world.heap) fault (m.withFrames frames).context.frames = u' from hu']
    at hrun'
  cases hunwinds with
  | caught fault' h =>
    rw [hrun, hrun']
    exact together_ok hd (m := { m with context := { m.context with
      frames := _, fault := none, handled := some fault' } }) h .next
  | cleanup h =>
    rw [hrun, hrun']
    exact together_ok hd (m := { m with context := { m.context with
      frames := _, fault := none } }) h .next
  | loopEnded exit' h =>
    rw [hrun, hrun']
    exact together_same hd ((Respects.endLoop (I := TwinFrames.relation _ _ hd) exit') _ _ h)
  | @leaves exit' passed f g callers callers' hcallers hexit hstops =>
    subst hexit
    cases hd
    have hf : f.stack = iterator :: stack := hcallers.left.operands_head.trans hstack
    have hends : vm.raiseFault fault m = .ok .next _ := hrun.trans (endLoop_cons rfl hf)
    rw [hends, raiseFault_of_unwind (m := m.withFrames frames) hu']
    exact .inr (.leaves (.fault (fault.along passed)) m _ iterator stack hcallers hf rfl rfl hstops)
  | passes passed h hgoes =>
    rw [raiseFault_of_unwind hu, raiseFault_of_unwind (m := m.withFrames frames) hu']
    exact .inr (.raises (.fault (fault.along passed)) m h fun hstops => ⟨⟨_, rfl⟩, hgoes hstops⟩)

end Steps

end TaskletMachine
