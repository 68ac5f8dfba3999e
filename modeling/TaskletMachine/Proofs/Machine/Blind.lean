import TaskletMachine.Proofs.Machine.Inversion

/-!
# Computations that do not look at the pools

Between two resumptions the scheduler may move tasklets from pool to pool. Instructions do not notice:
they look at nothing but the heap, and parking or blocking the tasklet changes the pools without
looking at them. So a step does the same on two machines that differ in the pools only, provided that
the native function that it may call does not look at them either.

## Main definitions

* `World.Alike`, `Machine.Alike`: equal up to the pools.
* `Effect.Blind`, `Exec.BlindAt`: what does the same whatever is in the pools.
* `Phase.Blind`, `Vm.blindAt_perform`: a step whose native function is blind is blind.
-/
namespace TaskletMachine

open Exec

/-! ## Equality up to the pools -/

/-- Two worlds that differ in the pools only; the next id is the same. -/
def World.Alike (w w' : World) : Prop :=
  ∃ pools : Pools, pools.lastId = w.pools.lastId ∧ w' = { w with pools }

/-- Two machines that differ in the pools only. -/
structure Machine.Alike (m m' : Machine) : Prop where
  context : m'.context = m.context
  world : m.world.Alike m'.world

/-- The same result on two states that are related. -/
inductive SameResult {σ α : Type} (R : σ → σ → Prop) :
    EStateM.Result Error σ α → EStateM.Result Error σ α → Prop
  | ok (a : α) {s s' : σ} (h : R s s') : SameResult R (.ok a s) (.ok a s')
  | error (e : Error) {s s' : σ} (h : R s s') : SameResult R (.error e s) (.error e s')

/-- An effect that does the same whatever is in the pools. -/
def Effect.Blind {α : Type} (effect : Effect α) : Prop :=
  ∀ w w', w.Alike w' → SameResult World.Alike (effect w) (effect w')

/-- On the given machine, the computation does the same whatever is in the pools. -/
def Exec.BlindAt {α : Type} (x : Exec α) (m : Machine) : Prop :=
  ∀ m', m.Alike m' → SameResult Machine.Alike (x m) (x m')

section Alike

variable {w w' w'' : World} {m m' m'' : Machine}

theorem World.Alike.refl (w : World) : w.Alike w :=
  ⟨w.pools, rfl, rfl⟩

theorem World.Alike.trans (h : w.Alike w') (h' : w'.Alike w'') : w.Alike w'' := by
  obtain ⟨pools, hid, rfl⟩ := h
  obtain ⟨pools', hid', rfl⟩ := h'
  exact ⟨pools', hid'.trans hid, rfl⟩

theorem World.Alike.heap_eq (h : w.Alike w') : w'.heap = w.heap := by
  obtain ⟨pools, _, rfl⟩ := h
  rfl

theorem World.Alike.running_eq (h : w.Alike w') : w'.running = w.running := by
  obtain ⟨pools, _, rfl⟩ := h
  rfl

theorem World.Alike.promise_eq (h : w.Alike w') (p : PromiseId) : w'.promise p = w.promise p := by
  obtain ⟨pools, _, rfl⟩ := h
  rfl

theorem World.Alike.setHeap (h : w.Alike w') (heap : Heap) :
    World.Alike { w with heap } { w' with heap } := by
  obtain ⟨pools, hid, rfl⟩ := h
  exact ⟨pools, hid, rfl⟩

theorem World.Alike.park (h : w.Alike w') (id : TaskletId) : (w.park id).Alike (w'.park id) := by
  obtain ⟨pools, hid, rfl⟩ := h
  exact ⟨pools.park id, hid, rfl⟩

theorem World.Alike.wait (h : w.Alike w') (p : PromiseId) (id : TaskletId) :
    (w.wait p id).Alike (w'.wait p id) := by
  obtain ⟨pools, hid, rfl⟩ := h
  exact ⟨pools.block id, hid, rfl⟩

theorem World.Alike.unblock (h : w.Alike w') (id : TaskletId) :
    (w.unblock id).Alike (w'.unblock id) := by
  have hid (p : Pools) : (p.unblock id).lastId = p.lastId := by
    unfold Pools.unblock
    split <;> rfl
  obtain ⟨pools, hpools, rfl⟩ := h
  exact ⟨pools.unblock id, (hid pools).trans (hpools.trans (hid w.pools).symm), rfl⟩

theorem World.Alike.settle (h : w.Alike w') (p : PromiseId) (s : Settlement) :
    (w.settle p s).Alike (w'.settle p s) := by
  have hwaiters (ids : List TaskletId) {v v' : World} (hv : v.Alike v') :
      (ids.foldl World.unblock v).Alike (ids.foldl World.unblock v') := by
    induction ids generalizing v v' with
    | nil => exact hv
    | cons id ids ih => exact ih (hv.unblock id)
  unfold World.settle
  rw [h.promise_eq]
  split
  · exact h
  · refine hwaiters _ ?_
    obtain ⟨pools, hid, rfl⟩ := h
    exact ⟨pools, hid, rfl⟩

theorem World.Alike.signal (h : w.Alike w') (signal : Signal) :
    (w.signal signal).Alike (w'.signal signal) := by
  cases signal with
  | settle p s => exact h.settle p s
  | unblock id => exact h.unblock id

theorem Machine.Alike.refl (m : Machine) : m.Alike m :=
  ⟨rfl, .refl m.world⟩

theorem Machine.Alike.trans (h : m.Alike m') (h' : m'.Alike m'') : m.Alike m'' :=
  ⟨h'.context.trans h.context, h.world.trans h'.world⟩

/-- The other machine is the first one with other pools. -/
theorem Machine.Alike.eq (h : m.Alike m') : m' = m.inWorld m'.world :=
  Machine.eq_inWorld h.context h.world.heap_eq

end Alike

/-! ## Blind computations -/

/-- A host function whose reply does not depend on the pools is blind: the signals that it gives
change them without looking at them. -/
theorem Host.blind_run {host : Host} {id : Nat} {args : List Value} {keywords : Namespace}
    (h : ∀ w w', w.Alike w' → host.call id args keywords w' = host.call id args keywords w) :
    (host.run id args keywords).Blind := by
  have hsignals (signals : List Signal) {w w' : World} (hw : w.Alike w') :
      (signals.foldl World.signal w).Alike (signals.foldl World.signal w') := by
    induction signals generalizing w w' with
    | nil => exact hw
    | cons signal signals ih => exact ih (hw.signal signal)
  have hrun (w : World) : host.run id args keywords w =
      (ofExcept (host.call id args keywords w).outcome : Effect Reply)
        ((host.call id args keywords w).signals.foldl World.signal
          { w with heap := (host.call id args keywords w).heap }) := rfl
  intro w w' hw
  rw [hrun, hrun, h w w' hw]
  have hworld := hsignals (host.call id args keywords w).signals
    (hw.setHeap (host.call id args keywords w).heap)
  cases (host.call id args keywords w).outcome with
  | ok reply => exact .ok reply hworld
  | error e => exact .error e hworld

namespace Exec

variable {α β : Type} {m : Machine}

/-- What sees the heap only changes the heap only. -/
theorem HeapOnly.world_eq {x : Exec α} (hx : HeapOnly x) (m : Machine) :
    inWorld m.world (x m) = x m :=
  (hx m m.world).symm

theorem HeapOnly.blindAt {x : Exec α} (hx : HeapOnly x) (m : Machine) : BlindAt x m := by
  intro m' h
  have hm' : x m' = inWorld m'.world (x m) := by
    rw [h.eq]
    exact hx m m'.world
  rw [hm', ← hx.world_eq m]
  cases x m with
  | ok a m₁ => exact .ok a ⟨rfl, h.world.setHeap m₁.world.heap⟩
  | error e m₁ => exact .error e ⟨rfl, h.world.setHeap m₁.world.heap⟩

theorem BlindAt.bind {x : Exec α} {f : α → Exec β} (hx : BlindAt x m)
    (hf : ∀ a m₁, x m = .ok a m₁ → BlindAt (f a) m₁) : BlindAt (x >>= f) m := by
  intro m' h
  have hresult := hx m' h
  cases hrun : x m with
  | ok a m₁ =>
    rw [hrun] at hresult
    generalize hrun' : x m' = r at hresult
    cases hresult with
    | ok _ h₁ =>
      rw [bind_ok hrun, bind_ok hrun']
      exact hf a m₁ hrun _ h₁
  | error e m₁ =>
    rw [hrun] at hresult
    generalize hrun' : x m' = r at hresult
    cases hresult with
    | error _ h₁ =>
      rw [bind_error hrun, bind_error hrun']
      exact .error e h₁

theorem BlindAt.ofEffect {effect : Effect α} (h : effect.Blind) (m : Machine) :
    BlindAt (ofEffect effect) m := by
  intro m' hm
  have hresult := h m.world m'.world hm.world
  unfold Exec.ofEffect
  generalize effect m.world = r, effect m'.world = r' at hresult ⊢
  cases hresult with
  | ok a hworld => exact .ok a ⟨hm.context, hworld⟩
  | error e hworld => exact .error e ⟨hm.context, hworld⟩

/-- Parking the tasklet changes the pools, but does not look at them. -/
theorem BlindAt.parkTasklet (m : Machine) : BlindAt TaskletMachine.parkTasklet m := by
  intro m' h
  have hrun (m : Machine) : TaskletMachine.parkTasklet m = .ok (.suspend .resume)
      { m with world := m.world.park (m.world.running.getD 0) } := rfl
  rw [hrun, hrun, h.world.running_eq]
  exact .ok _ ⟨h.context, h.world.park _⟩

theorem BlindAt.awaitPromise (p : PromiseId) (d : Delivery) (m : Machine) :
    BlindAt (TaskletMachine.awaitPromise p d) m := by
  intro m' h
  cases hs : (m.world.promise p).settled with
  | some s =>
    have hs' : (m'.world.promise p).settled = some s := by rw [h.world.promise_eq, hs]
    rw [Vm.awaitPromise_settled hs, Vm.awaitPromise_settled hs']
    exact (HeapOnly.handOver s d).blindAt m m' h
  | none =>
    have hs' : (m'.world.promise p).settled = none := by rw [h.world.promise_eq, hs]
    rw [Vm.awaitPromise_pending hs, Vm.awaitPromise_pending hs', h.world.running_eq]
    exact .ok _ ⟨h.context, h.world.wait p _⟩

theorem BlindAt.complete (reply : Reply) (d : Delivery) (m : Machine) :
    BlindAt (Vm.complete reply d) m := by
  cases reply with
  | value v =>
    exact .bind ((HeapOnly.deliver v d).blindAt m) fun _ m₁ _ => (HeapOnly.pure _).blindAt m₁
  | noValue =>
    exact .bind ((HeapOnly.deliver .none d).blindAt m) fun _ m₁ _ => (HeapOnly.pure _).blindAt m₁
  | tailCall callee args => exact (HeapOnly.pure _).blindAt m
  | yield => exact .bind ((HeapOnly.deliver .none d).blindAt m) fun _ m₁ _ => .parkTasklet m₁
  | await p => exact .awaitPromise p d m

end Exec

namespace Vm

variable {vm : Vm} {m : Machine}

/-! ## Links -/

theorem heapOnly_checkDepth (vm : Vm) : HeapOnly vm.checkDepth := by
  refine .bind .context fun c => ?_
  split
  · exact .throw _
  · exact .pure _

theorem heapOnly_enterFunction (vm : Vm) (r : FunctionRef) (c : PendingCall) :
    HeapOnly (vm.enterFunction r c) :=
  .bind (heapOnly_checkDepth vm) fun _ => .bind .heap fun _ => .bind (.ofExcept _) fun _ =>
    .bind (.setHeap _) fun _ => .bind (.ofExcept _) fun _ => .bind (.modifyContext _) fun _ =>
      .pure _

theorem heapOnly_instantiate (r : ClassRef) (c : PendingCall) : HeapOnly (instantiate r c) := by
  have hdeliver (v : Value) : HeapOnly (do deliver v c.delivery; return .next : Exec Control) :=
    .bind (.deliver v c.delivery) fun _ => .pure _
  refine .bind (.onHeap _) fun v => .bind .heap fun h => ?_
  split
  · exact .pure _
  · split
    · exact .bind (.throw _) fun _ => hdeliver _
    · exact hdeliver _

/-- A link that calls no native function. -/
theorem heapOnly_link {c : PendingCall} (hnative : ∀ r, c.callee ≠ .native r)
    (hhost : ∀ r, c.callee ≠ .hostObj r) : HeapOnly (vm.link c) := by
  refine .bind .heap fun h => ?_
  cases hcallee : c.callee with
  | native r => exact absurd hcallee (hnative r)
  | hostObj r => exact absurd hcallee (hhost r)
  | function r => exact heapOnly_enterFunction vm r c
  | classObj r => exact heapOnly_instantiate r c
  | instanceObj r =>
    dsimp only
    split
    · exact .pure _
    · exact .throw _
  | method receiver callee => exact .pure _
  | foreignType name constructor => exact .pure _
  | _ => exact .throw _

theorem blindAt_effect {c : PendingCall} {effect : Effect Reply}
    (heffect : c.effect? vm.host m.world.heap = some effect) (hblind : effect.Blind) :
    BlindAt (vm.link c) m := by
  intro m' h
  have heffect' : c.effect? vm.host m'.world.heap = some effect := by
    rw [h.world.heap_eq, heffect]
  rw [link_of_effect heffect, link_of_effect heffect']
  exact BlindAt.bind (.ofEffect hblind m) (fun reply m₁ _ => .complete reply c.delivery m₁) m' h

/-- A link of a call is blind if the native function that it calls is. -/
theorem blindAt_link {c : PendingCall}
    (hblind : ∀ effect, c.effect? vm.host m.world.heap = some effect → effect.Blind) :
    BlindAt (vm.link c) m := by
  cases heffect : c.effect? vm.host m.world.heap with
  | some effect => exact blindAt_effect heffect (hblind effect heffect)
  | none =>
    refine (heapOnly_link ?_ ?_).blindAt m
    · intro r hcallee
      rw [PendingCall.effect?, hcallee] at heffect
      cases heffect
    · intro r hcallee
      rw [PendingCall.effect?, hcallee] at heffect
      cases heffect

/-- An error of a link may end the loop instead. -/
theorem blindAt_follow {c : PendingCall}
    (hblind : ∀ effect, c.effect? vm.host m.world.heap = some effect → effect.Blind) :
    BlindAt (vm.follow c) m := by
  intro m' h
  have hlink := blindAt_link hblind m' h
  unfold follow
  generalize vm.link c m = r, vm.link c m' = r' at hlink ⊢
  cases hlink with
  | ok control h₁ => exact .ok control h₁
  | @error e m₁ m₁' h₁ =>
    have hstops : vm.stopsIteration m₁' e = vm.stopsIteration m₁ e := by
      rw [h₁.eq]
      rfl
    dsimp only
    rw [hstops]
    split
    · next exit _ =>
      split
      · exact (HeapOnly.endLoop exit).blindAt m₁ m₁' h₁
      · exact .error e h₁
    · exact .error e h₁

/-! ## Instructions -/

theorem blindAt_execute (vm : Vm) (i : Instruction) (m : Machine) : BlindAt (vm.execute i) m := by
  by_cases hwait : i = .wait
  · subst hwait
    exact .parkTasklet m
  · exact (heapOnly_execute hwait).blindAt m

theorem blindAt_fetch (vm : Vm) (m : Machine) : BlindAt vm.fetch m := by
  refine .bind (HeapOnly.frame.blindAt m) fun f m₁ _ => ?_
  split
  · exact Local.endOfUnit.heapOnly.blindAt m₁
  · split
    · exact .bind ((HeapOnly.modifyFrame _).blindAt m₁) fun _ m₂ _ => blindAt_execute vm _ m₂
    · exact (HeapOnly.throw _).blindAt m₁

end Vm

/-- The native function that the phase calls, if it calls one, is blind. -/
def Phase.Blind (host : Host) (h : Heap) : Phase → Prop
  | .fetch => True
  | .link c => ∀ effect, c.effect? host h = some effect → effect.Blind

namespace Vm

variable {vm : Vm} {m : Machine}

theorem blindAt_perform {phase : Phase} (h : phase.Blind vm.host m.world.heap) :
    BlindAt (vm.perform phase) m := by
  cases phase with
  | fetch => exact blindAt_fetch vm m
  | link c => exact blindAt_follow h

theorem blindAt_catching {effect : Exec Control} (h : BlindAt effect m) :
    BlindAt (vm.catching effect) m := by
  intro m' hm
  have hresult := h m' hm
  unfold catching
  generalize effect m = r, effect m' = r' at hresult ⊢
  cases hresult with
  | ok control h₁ => exact .ok control h₁
  | error e h₁ =>
    dsimp only
    split
    · exact (HeapOnly.raiseError vm e).blindAt _ _ h₁
    · exact .error e h₁

end Vm

end TaskletMachine
