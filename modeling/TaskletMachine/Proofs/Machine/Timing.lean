import TaskletMachine.Proofs.Machine.Lifecycle

/-!
# The time of a result

A native function may reply that it waits for a promise. If the promise is settled already, the
result is handed over at once; otherwise the tasklet is suspended, and gets the result when it is
resumed. What handing it over does depends on nothing in the world but the heap, so the context
afterwards is the same, with one exception: a loop whose next value is rejected by the end of the
iteration ends if it did not have to wait, but after waiting the exception is raised.

## Main definitions

* `Machine.inWorld`: a machine in another world with the same heap.
* `Exec.HeapOnly`: computations that see nothing of the world but the heap.
* `Vm.Awaits`: calls of native functions that wait for a promise.
* `Vm.await_timing`: results that come early and late.
-/
namespace TaskletMachine

open Exec

/-! ## What is seen of the world -/

/-- The machine in another world with the same heap. -/
def Machine.inWorld (m : Machine) (w : World) : Machine :=
  { m with world := { w with heap := m.world.heap } }

/-- A result in another world with the same heap. -/
def Exec.inWorld {α : Type} (w : World) :
    EStateM.Result Error Machine α → EStateM.Result Error Machine α
  | .ok a m => .ok a (m.inWorld w)
  | .error e m => .error e (m.inWorld w)

namespace Exec

variable {α β : Type} {vm : Vm}

/-- A computation that sees nothing of the world but the heap. -/
def HeapOnly (x : Exec α) : Prop :=
  ∀ m w, x (m.inWorld w) = inWorld w (x m)

namespace HeapOnly

theorem pure (a : α) : HeapOnly (Pure.pure a : Exec α) :=
  fun _ _ => rfl

theorem throw (e : Error) : HeapOnly (MonadExcept.throw e : Exec α) :=
  fun _ _ => rfl

theorem bind {x : Exec α} {f : α → Exec β} (hx : HeapOnly x)
    (hf : ∀ a, HeapOnly (f a)) : HeapOnly (x >>= f) := by
  intro m w
  have hworld := hx m w
  cases h : x m with
  | ok a m₁ =>
    rw [h] at hworld
    rw [bind_ok h, bind_ok hworld]
    exact hf a m₁ w
  | error e m₁ =>
    rw [h] at hworld
    rw [bind_error h, bind_error hworld]
    rfl

theorem heap : HeapOnly Exec.heap :=
  fun _ _ => rfl

theorem setHeap (h : Heap) : HeapOnly (Exec.setHeap h) :=
  fun _ _ => rfl

theorem onHeap (f : Heap → α × Heap) : HeapOnly (Exec.onHeap f) :=
  fun _ _ => rfl

theorem context : HeapOnly Exec.context :=
  fun _ _ => rfl

theorem modifyContext (f : Context → Context) : HeapOnly (Exec.modifyContext f) :=
  fun _ _ => rfl

theorem ofExcept (r : Except Error α) : HeapOnly (MonadExcept.ofExcept r : Exec α) := by
  cases r with
  | ok a => exact pure a
  | error e => exact throw e

theorem frame : HeapOnly Exec.frame := by
  refine bind .context ?_
  intro c
  split
  · exact pure _
  · exact throw _

theorem modifyFrame (f : Frame → Frame) : HeapOnly (Exec.modifyFrame f) :=
  bind .frame fun _ => .modifyContext _

theorem push (v : Value) : HeapOnly (Exec.push v) :=
  .modifyFrame _

theorem pop : HeapOnly Exec.pop := by
  refine bind .frame ?_
  intro f
  split
  · exact bind (.modifyFrame _) fun _ => pure _
  · exact throw _

theorem jump (ip : Nat) : HeapOnly (Exec.jump ip) :=
  .modifyFrame _

/-! ## Raising -/

theorem endLoop (exit : Nat) : HeapOnly (Vm.endLoop exit) :=
  bind .pop fun _ => bind (.jump exit) fun _ => pure _

theorem raiseFault (vm : Vm) (fault : Fault) : HeapOnly (vm.raiseFault fault) := by
  intro m w
  have hunwinds : unwindFrames
      (vm.isStopIteration (m.inWorld w).context (m.inWorld w).world.heap) fault
      (m.inWorld w).context.frames =
      unwindFrames (vm.isStopIteration m.context m.world.heap) fault m.context.frames := rfl
  rw [Vm.raiseFault_eq, Vm.raiseFault_eq, hunwinds]
  cases unwindFrames (vm.isStopIteration m.context m.world.heap) fault m.context.frames with
  | loopEnded exit frames =>
    exact endLoop exit { m with context := { m.context with frames, fault := none } } w
  | _ => rfl

theorem makeInstance (c : ClassRef) (args : List Value) : HeapOnly (Vm.makeInstance c args) :=
  bind (.onHeap _) fun _ => bind (.onHeap _) fun _ => bind .heap fun _ =>
    bind (.setHeap _) fun _ => pure _

theorem makeException (vm : Vm) (kind : ExceptionKind) (message : String) :
    HeapOnly (vm.makeException kind message) :=
  bind .context fun _ => bind (.ofExcept _) fun _ => makeInstance _ _

theorem normalizeException (vm : Vm) (v : Value) : HeapOnly (vm.normalizeException v) := by
  have hcomplaint (message : String) : HeapOnly (vm.makeException .typeError message) :=
    makeException vm _ _
  refine bind .context fun c => bind (.ofExcept _) fun base => bind .heap fun h => ?_
  dsimp only
  split
  · split
    · exact pure _
    · exact hcomplaint _
  · split
    · exact makeInstance _ _
    · exact hcomplaint _
  · exact hcomplaint _

theorem raiseError (vm : Vm) (e : Error) : HeapOnly (vm.raiseError e) := by
  have hraise (v : Value) : HeapOnly (do
      vm.raiseFault { value := v, traceback := [(← Exec.frame).place] } : Exec Control) :=
    bind .frame fun _ => raiseFault vm _
  unfold Vm.raiseError
  split
  · exact bind (makeException vm _ _) hraise
  · exact bind (normalizeException vm _) hraise
  · exact bind (throw e) hraise

/-! ## Handing over -/

theorem raiseWithCause (exception : Value) (cause : Option Value) :
    HeapOnly (TaskletMachine.raiseWithCause exception cause : Exec α) := by
  simp only [TaskletMachine.raiseWithCause]
  split
  · exact bind .heap fun _ => bind (.setHeap _) fun _ => throw _
  · exact throw _

theorem deliver (v : Value) (d : Delivery) : HeapOnly (TaskletMachine.deliver v d) := by
  induction d generalizing v with
  | push => exact .push v
  | discard => exact pure _
  | truth negate => exact bind .heap fun _ => .push _
  | replace other next ih => exact ih other
  | finishClass name bases => exact throw _
  | iteration exit => exact .push v
  | raise cause => exact raiseWithCause v cause

theorem deliverSettled (s : Settlement) (d : Delivery) :
    HeapOnly (TaskletMachine.deliverSettled s d) := by
  cases s with
  | value v => exact deliver v d
  | noValue => exact deliver .none d
  | rejected e => exact throw e

theorem handOver (s : Settlement) (d : Delivery) : HeapOnly (Vm.handOver s d) :=
  bind (deliverSettled s d) fun _ => pure _

theorem catching {effect : Exec Control} (h : HeapOnly effect) : HeapOnly (vm.catching effect) := by
  intro m w
  have hworld := h m w
  unfold Vm.catching
  rw [hworld]
  cases effect m with
  | ok control m₁ => rfl
  | error e m₁ =>
    show (if e.isGuest then vm.raiseError e (m₁.inWorld w) else .error e (m₁.inWorld w)) =
      inWorld w (if e.isGuest then vm.raiseError e m₁ else .error e m₁)
    split
    · exact raiseError vm e m₁ w
    · rfl

end HeapOnly

end Exec

/-! ## Early and late results -/

/-- A machine in another world is the first one moved there, if nothing else has changed. -/
theorem Machine.eq_inWorld {m m' : Machine} (hcontext : m'.context = m.context)
    (hheap : m'.world.heap = m.world.heap) : m' = m.inWorld m'.world := by
  rcases m with ⟨c, w⟩
  rcases m' with ⟨c', w'⟩
  obtain rfl : c' = c := hcontext
  have hheap : w'.heap = w.heap := hheap
  simp only [inWorld, ← hheap]

/-- How a tasklet ends, if it does not go on with an instruction. -/
def Progress.ending? : Progress → Option RunOutcome
  | .running _ _ => none
  | .stopped (.suspended _) _ => none
  | .stopped outcome _ => some outcome

/-- A call of a native function, or of an object of the host, that waits for a promise and leaves a
world behind. -/
inductive Vm.Awaits (vm : Vm) (c : PendingCall) (m : Machine) (p : PromiseId) (w : World) : Prop
  | native (r : NativeRef) (hcallee : c.callee = .native r)
      (h : callNative vm.host (m.world.heap.native r).behaviour c.args c.keywords m.world =
        .ok (.await p) w)
  | hostObj (r : HostRef) (hcallee : c.callee = .hostObj r)
      (h : callHost vm.host r c.args c.keywords m.world = .ok (.await p) w)

namespace Vm

variable {vm : Vm} {c : PendingCall} {m : Machine} {p : PromiseId} {w : World} {s : Settlement}

theorem Awaits.link_eq (h : vm.Awaits c m p w) :
    vm.link c m = awaitPromise p c.delivery { m with world := w } := by
  have hheap : Exec.heap m = .ok m.world.heap m := rfl
  cases h with
  | native r hcallee h =>
    have heffect : ofEffect (callNative vm.host (m.world.heap.native r).behaviour c.args c.keywords)
        m = .ok (.await p) { m with world := w } := by
      simp only [ofEffect, h]
    simp only [link]
    rw [bind_ok hheap, hcallee]
    exact bind_ok heffect
  | hostObj r hcallee h =>
    have heffect : ofEffect (callHost vm.host r c.args c.keywords) m =
        .ok (.await p) { m with world := w } := by
      simp only [ofEffect, h]
    simp only [link]
    rw [bind_ok hheap, hcallee]
    exact bind_ok heffect

theorem awaitPromise_settled (hs : (m.world.promise p).settled = some s) (d : Delivery) :
    awaitPromise p d m = handOver s d m := by
  simp only [awaitPromise]
  rw [bind_ok (rfl : (MonadState.get : Exec Machine) m = .ok m m), hs]
  rfl

theorem awaitPromise_pending (hs : (m.world.promise p).settled = none) (d : Delivery) :
    awaitPromise p d m =
      .ok (.suspend (.await p d)) { m with world := m.world.wait p (m.world.running.getD 0) } := by
  simp only [awaitPromise]
  rw [bind_ok (rfl : (MonadState.get : Exec Machine) m = .ok m m), hs]
  rfl

/-! ## Loops that end -/

/-- A rejection that ends the loop that waits for the result, if it comes early. -/
def EndsLoop (vm : Vm) (d : Delivery) (s : Settlement) (m : Machine) : Prop :=
  ∃ exit e, d.loopExit? = some exit ∧ s = .rejected e ∧ vm.stopsIteration m e

theorem deliver_of_loopExit? {d : Delivery} {exit : Nat} (h : d.loopExit? = some exit) (v : Value) :
    ∃ v', deliver v d = push v' := by
  induction d generalizing v with
  | iteration exit' => exact ⟨v, rfl⟩
  | replace other next ih => exact ih h other
  | _ => cases h

/-- The value of a loop is pushed, which does not fail by the end of the iteration. -/
theorem stopsIteration_of_deliver {d : Delivery} {exit : Nat} (h : d.loopExit? = some exit)
    {v : Value} {m' : Machine} {e : Error} (he : (do deliver v d; return .next : Exec Control) m =
      .error e m') : vm.stopsIteration m' e = false := by
  obtain ⟨v', hpush⟩ := deliver_of_loopExit? h v
  rw [hpush, push] at he
  cases hm : m.context.frames with
  | nil =>
    rw [bind_error (modifyFrame_nil hm _)] at he
    cases he
    rfl
  | cons f callers =>
    rw [bind_ok (modifyFrame_cons hm _)] at he
    cases he

/-- A link that hands over a result does nothing else, unless that ends a loop. -/
theorem follow_settled (hlink : vm.link c m = handOver s c.delivery { m with world := w })
    (hs : ¬ vm.EndsLoop c.delivery s { m with world := w }) :
    vm.follow c m = handOver s c.delivery { m with world := w } := by
  simp only [follow, hlink]
  cases hr : handOver s c.delivery { m with world := w } with
  | ok control m₁ => rfl
  | error e m₁ =>
    dsimp only
    cases hexit : c.delivery.loopExit? with
    | none => rfl
    | some exit =>
      dsimp only
      have hstops : vm.stopsIteration m₁ e = false := by
        cases s with
        | value v => exact stopsIteration_of_deliver hexit hr
        | noValue => exact stopsIteration_of_deliver hexit hr
        | rejected e' =>
          cases hr
          exact Bool.eq_false_iff.2 fun hstops => hs ⟨exit, e, hexit, rfl, hstops⟩
      rw [if_neg (by simp [hstops])]

theorem follow_endsLoop (hlink : vm.link c m = handOver s c.delivery { m with world := w })
    {exit : Nat} {e : Error} (hexit : c.delivery.loopExit? = some exit) (hs : s = .rejected e)
    (hstops : vm.stopsIteration { m with world := w } e) :
    vm.follow c m = endLoop exit { m with world := w } := by
  subst hs
  have herror : vm.link c m = .error e { m with world := w } := hlink
  simp only [follow, herror, hexit, hstops, if_true]

theorem isGuest_of_stopsIteration {e : Error} (h : vm.stopsIteration m e) : e.isGuest := by
  unfold stopsIteration at h
  unfold Error.isGuest
  split at h
  · next hcause =>
    rw [hcause]
    rfl
  · next hcause =>
    rw [hcause]
    rfl
  · cases h

theorem catching_congr {x y : Exec Control} {m₁ : Machine} (h : x m = y m₁) :
    vm.catching x m = vm.catching y m₁ := by
  simp only [catching, h]

end Vm

/-! ## The context afterwards -/

/-- Two ways to go on agree: in the context, in the heap, and in how the tasklet ends if it does. -/
structure Progress.Agrees (p q : Progress) : Prop where
  context : p.machine.context = q.machine.context
  heap : p.machine.world.heap = q.machine.world.heap
  ending : p.ending? = q.ending?

theorem Vm.agrees_proceed (vm : Vm) (w : World) (r : EStateM.Result Error Machine Control) :
    (Vm.proceed (.running .fetch) (inWorld w r)).Agrees (Vm.proceed vm.afterInstruction r) := by
  cases r with
  | error e m => exact ⟨rfl, rfl, rfl⟩
  | ok control m =>
    cases control with
    | next =>
      show (Progress.running .fetch (m.inWorld w)).Agrees (vm.afterInstruction m)
      rw [afterInstruction]
      split
      · exact ⟨rfl, rfl, rfl⟩
      · exact ⟨rfl, rfl, rfl⟩
    | _ => exact ⟨rfl, rfl, rfl⟩

/-- A call waits for a promise that is settled already, or is suspended and resumed when the promise
has been settled in the same way and the heap is the same. The context is the same afterwards,
unless a loop waits for the result and the promise is rejected by what stops the iteration: the loop
ends if the result comes early, and the exception is raised in it if the result comes late. -/
theorem Vm.await_timing {vm : Vm} {c : PendingCall} {m m' : Machine} {p : PromiseId}
    {w w' later : World} {s : Settlement} (h : vm.Awaits c m p w) (h' : vm.Awaits c m' p w')
    (hcontext : m'.context = m.context) (hsettled : (w.promise p).settled = some s)
    (hpending : (w'.promise p).settled = none) (hlater : (later.promise p).settled = some s)
    (hheap : later.heap = w.heap) :
    ∃ m₁, vm.advance (.link c) m' = .stopped (.suspended (.await p c.delivery)) m₁ ∧
      m₁.context = m.context ∧
      (¬ vm.EndsLoop c.delivery s { m with world := w } →
        (vm.resumption (.await p c.delivery) { m₁ with world := later }).Agrees
          (vm.advance (.link c) m)) ∧
      ∀ exit e, c.delivery.loopExit? = some exit → s = .rejected e →
        vm.stopsIteration { m with world := w } e →
        vm.advance (.link c) m =
          vm.conclude vm.afterInstruction (endLoop exit) { m with world := w } ∧
        vm.resumption (.await p c.delivery) { m₁ with world := later } =
          Vm.proceed (.running .fetch) (vm.raiseError e { m₁ with world := later }) := by
  let early : Machine := { m with world := w }
  have hlink : vm.link c m = handOver s c.delivery early :=
    h.link_eq.trans (awaitPromise_settled hsettled c.delivery)
  have hwaits := h'.link_eq.trans (awaitPromise_pending hpending c.delivery)
  have hsuspended : vm.advance (.link c) m' = .stopped (.suspended (.await p c.delivery))
      { m' with world := w'.wait p (w'.running.getD 0) } := by
    simp only [advance, conclude, catching, perform, follow, hwaits, proceed]
  refine ⟨_, hsuspended, hcontext, fun hs => ?_, fun exit e hexit hs hstops => ?_⟩
  · have hworld : ({ m' with world := later } : Machine) = early.inWorld later :=
      Machine.eq_inWorld hcontext hheap
    have hresumed : vm.resumption (.await p c.delivery) { m' with world := later } =
        Vm.proceed (.running .fetch)
          (inWorld later (vm.catching (handOver s c.delivery) early)) := by
      simp only [resumption, hlater, conclude]
      rw [hworld, HeapOnly.catching (.handOver s c.delivery)]
    have hadvance : vm.advance (.link c) m =
        Vm.proceed vm.afterInstruction (vm.catching (handOver s c.delivery) early) := by
      simp only [advance, conclude, perform]
      rw [catching_congr (follow_settled hlink hs)]
    exact hresumed ▸ hadvance ▸ vm.agrees_proceed later _
  · refine ⟨?_, ?_⟩
    · simp only [advance, conclude, perform]
      rw [catching_congr (follow_endsLoop hlink hexit hs hstops)]
    · subst hs
      have hthrow : handOver (.rejected e) c.delivery { m' with world := later } =
          .error e { m' with world := later } := rfl
      simp only [resumption, hlater, conclude, catching, hthrow, isGuest_of_stopsIteration hstops,
        if_true]

namespace AwaitedIteration

/-- A loop over an object whose next values come from the host. -/
def unit : CodeUnit :=
  { bytes := #[0x65, 0, 0, 0x5D, 1, 0, 0x01], names := #["it"] }

/-- A machine whose only native function waits for the first promise. -/
def vm : Vm :=
  { (default : Vm) with
    host := ⟨fun _ _ _ w => { heap := w.heap, outcome := .ok (.await 0) }⟩ }

/-- The class of the end of an iteration, and the object with the native function. -/
def heap : Heap :=
  { natives := #[{ name := "next", behaviour := .host 0 }]
    classes := #[{ name := "StopIteration", bases := [], attrs := [] },
      { name := "It", bases := [], attrs := [] }]
    instances := #[{ cls := ⟨1⟩, attrs := [("__next__", .native ⟨0⟩)] }] }

/-- The machine before the loop, with the promise as it is then. -/
def machine (promise : Promise) : Machine :=
  { context := Context.start unit [("StopIteration", .classObj ⟨0⟩)] [("it", .instanceObj ⟨0⟩)]
    world := { heap, promises := #[promise] } }

/-- The promise is rejected by the end of the iteration. -/
def stop : Settlement :=
  .rejected (.raise .stopIteration "")

/-- The call of the native function in the loop. -/
def call : PendingCall :=
  { callee := .native ⟨0⟩, delivery := .iteration 7 }

/-- A value is the next one of the loop, whether it comes early or late. -/
theorem value_agrees :
    ∃ m, vm.advance (.link call) (machine {}) = .stopped (.suspended (.await 0 call.delivery)) m ∧
      (vm.resumption (.await 0 call.delivery)
        { m with world := (machine { settled := some .noValue }).world }).Agrees
        (vm.advance (.link call) (machine { settled := some .noValue })) := by
  have hawaits (promise : Promise) :
      vm.Awaits call (machine promise) 0 (machine promise).world :=
    .native ⟨0⟩ rfl rfl
  have hsettled : ((machine { settled := some .noValue }).world.promise 0).settled =
      some .noValue := rfl
  obtain ⟨m, hsuspended, _, hagrees, _⟩ := Vm.await_timing (hawaits { settled := some .noValue })
    (hawaits {}) rfl hsettled rfl hsettled rfl
  refine ⟨m, hsuspended, hagrees ?_⟩
  rintro ⟨_, _, _, hs, _⟩
  cases hs

/-- If the promise is rejected by the end of the iteration, a tasklet that did not have to wait for
it leaves the loop and completes, and one that did fails. -/
theorem stop_disagrees :
    ((vm.resume 10 .start (machine { settled := some stop })).map fun r => r.1.name) =
      some "Finished" ∧
    ((vm.resume 10 .start (machine {})).bind fun r =>
      (vm.resume 10 r.1.next { r.2 with world := r.2.world.settle 0 stop }).map fun r => r.1.name) =
      some "Faulted" := by
  decide +kernel

end AwaitedIteration

end TaskletMachine
