import TaskletMachine.Proofs.Machine.LockstepSteps

/-!
# Links in lockstep

A link of a call that is made by the callers themselves does the same for both, but for what becomes
of the result. With the steps above the callers this covers the whole runs.

## Main definitions

* `LinksAlike`, `LinksAlike.link`: what a link leads to in the two runs.
* `Vm.together_link`: the runs after a link.
* `Vm.pursue`, `Vm.InLockstep`, `Vm.inLockstep`: runs of any number of steps.
-/
namespace TaskletMachine

open Exec

theorem Vm.frameOf_withDelivery (unit : CodeUnit) (bound : List Value) (d d' : Delivery) :
    frameOf unit bound d' = (frameOf unit bound d).map (·.withDelivery d') := by
  unfold frameOf
  dsimp only
  split <;> rfl

/-- What the links of the two calls lead to. -/
inductive LinksAlike (exit : Nat) (base base' : List Frame) :
    EStateM.Result Error Machine Control → EStateM.Result Error Machine Control → Prop
  /-- The calls go on with another callee, which is the same. -/
  | call (c : PendingCall) (m : Machine) {d' : Delivery} {frames : List Frame}
      (hd : c.delivery.Twin exit d') (h : CallersAlike base base' m.context.frames frames) :
      LinksAlike exit base base' (.ok (.call c) m)
        (.ok (.call { c with delivery := d' }) (m.withFrames frames))
  /-- Guest code is entered, which is the same. -/
  | enter (m : Machine) {d d' : Delivery} {frames : List Frame} (hd : d.Twin exit d')
      (h : TwinFrames base base' d d' m.context.frames frames) :
      LinksAlike exit base base' (.ok .next m) (.ok .next (m.withFrames frames))
  /-- There is a result, or there will be one when the tasklet goes on. -/
  | value (v : Value) (m : Machine) (control : Control) {f g : Frame}
      {callers callers' : List Frame} (h : CallersAlike base base' (f :: callers) (g :: callers'))
      (hcontrol : control = .next ∨ control = .suspend .resume) :
      LinksAlike exit base base'
        (.ok control (m.withFrames ({ f with stack := v :: f.stack } :: callers)))
        (.ok control (m.withFrames ({ g with stack := v :: g.stack } :: callers')))
  | await (p : PromiseId) (m : Machine) {d d' : Delivery} {frames : List Frame}
      (hd : d.Twin exit d') (h : CallersAlike base base' m.context.frames frames) :
      LinksAlike exit base base' (.ok (.suspend (.await p d)) m)
        (.ok (.suspend (.await p d')) (m.withFrames frames))
  | error (e : Error) (m : Machine) {frames : List Frame}
      (h : CallersAlike base base' m.context.frames frames) :
      LinksAlike exit base base' (.error e m) (.error e (m.withFrames frames))

namespace LinksAlike

variable {vm : Vm} {exit : Nat} {base base' frames : List Frame} {d d' : Delivery} {m : Machine}
  {c : PendingCall}

theorem bind {α : Type} {x : Exec α} {k k' : α → Exec Control}
    (hx : Respects (CallersAlike base base') x)
    (hk : ∀ a m₁ frames₁, CallersAlike base base' m₁.context.frames frames₁ →
      LinksAlike exit base base' (k a m₁) (k' a (m₁.withFrames frames₁)))
    (h : CallersAlike base base' m.context.frames frames) :
    LinksAlike exit base base' ((x >>= k) m) ((x >>= k') (m.withFrames frames)) := by
  have hsame := hx m frames h
  cases hrun : x m with
  | ok a m₁ =>
    rw [hrun] at hsame
    generalize hrun' : x (m.withFrames frames) = r at hsame
    cases hsame with
    | ok _ hsame =>
      obtain ⟨frames₁, h₁, rfl⟩ := hsame
      rw [bind_ok hrun, bind_ok hrun']
      exact hk a m₁ frames₁ h₁
  | error e m₁ =>
    rw [hrun] at hsame
    generalize hrun' : x (m.withFrames frames) = r at hsame
    cases hsame with
    | error _ hsame =>
      obtain ⟨frames₁, h₁, rfl⟩ := hsame
      rw [bind_error hrun, bind_error hrun']
      exact .error e m₁ h₁

section Links

variable (hbase : base ≠ []) (h : CallersAlike base base' m.context.frames frames)
include hbase h

/-- The result is handed over. -/
theorem deliver (hd : d.Twin exit d') (v : Value) :
    LinksAlike exit base base'
      ((do TaskletMachine.deliver v d; return .next : Exec Control) m)
      ((do TaskletMachine.deliver v d'; return .next : Exec Control) (m.withFrames frames)) := by
  obtain ⟨given, hdeliver, hdeliver'⟩ := hd.deliver v
  obtain ⟨f, g, callers, callers', halike, hpush, hpush'⟩ := h.push hbase given
  rw [hdeliver, hdeliver', bind_ok hpush, bind_ok hpush']
  exact .value given m .next halike (.inl rfl)

theorem awaitPromise (hd : d.Twin exit d') (p : PromiseId) :
    LinksAlike exit base base' (TaskletMachine.awaitPromise p d m)
      (TaskletMachine.awaitPromise p d' (m.withFrames frames)) := by
  cases hs : (m.world.promise p).settled with
  | none =>
    have hs' : ((m.withFrames frames).world.promise p).settled = none := hs
    rw [Vm.awaitPromise_pending hs, Vm.awaitPromise_pending hs']
    exact .await p { m with world := m.world.wait p (m.world.running.getD 0) } hd h
  | some s =>
    have hs' : ((m.withFrames frames).world.promise p).settled = some s := hs
    rw [Vm.awaitPromise_settled hs, Vm.awaitPromise_settled hs']
    cases s with
    | value v => exact deliver hbase h hd v
    | noValue => exact deliver hbase h hd .none
    | rejected e => exact .error e m h

theorem complete (hd : d.Twin exit d') (reply : Reply) :
    LinksAlike exit base base' (Vm.complete reply d m)
      (Vm.complete reply d' (m.withFrames frames)) := by
  cases reply with
  | value v => exact deliver hbase h hd v
  | noValue => exact deliver hbase h hd .none
  | tailCall callee args => exact .call { callee, args, delivery := d } m hd h
  | await p => exact awaitPromise hbase h hd p
  | yield =>
    obtain ⟨given, hdeliver, hdeliver'⟩ := hd.deliver .none
    obtain ⟨f, g, callers, callers', halike, hpush, hpush'⟩ := h.push hbase given
    unfold Vm.complete
    dsimp only
    rw [hdeliver, hdeliver', bind_ok hpush, bind_ok hpush']
    exact .value given { m with world := m.world.park (m.world.running.getD 0) } _ halike (.inr rfl)

theorem instantiate (hd : c.delivery.Twin exit d') (r : ClassRef) :
    LinksAlike exit base base' (Vm.instantiate r c m)
      (Vm.instantiate r { c with delivery := d' } (m.withFrames frames)) := by
  unfold Vm.instantiate
  refine bind (.onHeap _) (fun made m₁ frames₁ h₁ => ?_) h
  refine bind .heap (fun heap m₂ frames₂ h₂ => ?_) h₁
  cases heap.classAttr? r "__init__" with
  | some callee => exact .call { c with callee, args := _, delivery := _ } m₂ (.replace _ hd) h₂
  | none =>
    dsimp only
    split
    · exact .error _ m₂ h₂
    · exact deliver hbase h₂ hd _

omit hbase in
theorem enterFunction (hd : c.delivery.Twin exit d') (r : FunctionRef) :
    LinksAlike exit base base' (vm.enterFunction r c m)
      (vm.enterFunction r { c with delivery := d' } (m.withFrames frames)) := by
  unfold Vm.enterFunction
  refine bind (.checkDepth fun _ _ => CallersAlike.length_eq) (fun _ m₁ frames₁ h₁ => ?_) h
  refine bind .heap (fun heap m₂ frames₂ h₂ => ?_) h₁
  refine bind (.ofExcept _) (fun bound m₃ frames₃ h₃ => ?_) h₂
  refine bind (.setHeap _) (fun _ m₄ frames₄ h₄ => ?_) h₃
  dsimp only
  rw [Vm.frameOf_withDelivery _ _ c.delivery d']
  cases hframe : Vm.frameOf (heap.function r).unit bound.1 c.delivery with
  | error e => exact .error e m₄ h₄
  | ok f =>
    have hf := (Vm.frameOf_fresh hframe).2
    exact .enter { m₄ with context := { m₄.context with frames := f :: m₄.context.frames } } hd
      (.entered f hf h₄)

/-- Every link. -/
theorem link (hd : c.delivery.Twin exit d') :
    LinksAlike exit base base' (vm.link c m)
      (vm.link { c with delivery := d' } (m.withFrames frames)) := by
  unfold Vm.link
  refine bind .heap (fun heap m₁ frames₁ h₁ => ?_) h
  dsimp only
  cases hcallee : c.callee with
  | function r => exact enterFunction h₁ hd r
  | native r => exact bind (.ofEffect _) (fun reply _ _ h₂ => complete hbase h₂ hd reply) h₁
  | hostObj r => exact bind (.ofEffect _) (fun reply _ _ h₂ => complete hbase h₂ hd reply) h₁
  | method receiver callee => exact .call { c with callee, args := _ } m₁ hd h₁
  | foreignType name constructor => exact .call { c with callee := _ } m₁ hd h₁
  | classObj r => exact instantiate hbase h₁ hd r
  | instanceObj r =>
    dsimp only
    cases heap.instanceAttr? r "__call__" with
    | some callee => exact .call { c with callee } m₁ hd h₁
    | none => exact .error _ m₁ h₁
  | _ => exact .error _ m₁ h₁

end Links

end LinksAlike

section Steps

variable {vm : Vm} {exit : Nat} {base base' frames : List Frame} {d' : Delivery} {m : Machine}
  {c : PendingCall}

/-- A link of the two calls fails. The loop is left if the error stops the iteration. -/
theorem Vm.parted_error {d : Delivery} {e : Error} {x y : Exec Control} {m₀ m₀' : Machine}
    (hbase : AwaitsNext base) (h : CallersAlike base base' m.context.frames frames)
    (hx : x m₀ = if vm.stopsIteration m e then endLoop exit m else .error e m)
    (hy : y m₀' = .error e (m.withFrames frames)) :
    vm.Parted exit base base' d (vm.conclude vm.afterInstruction x m₀)
      (vm.conclude vm.afterInstruction y m₀') := by
  obtain ⟨f, g, callers, callers', hframes, rfl⟩ := h.exists_cons hbase.ne_nil
  obtain ⟨f₀, callers₀, iterator, stack, rfl, hstack⟩ := hbase
  rw [hframes] at h
  rw [conclude_of_error hy]
  by_cases hstops : vm.stopsIteration m e
  · have hf : f.stack = iterator :: stack := h.left.operands_head.trans hstack
    rw [if_pos hstops, endLoop_cons hframes hf] at hx
    rw [conclude_ok vm hx, if_pos (isGuest_of_stopsIteration hstops)]
    exact .leaves (.error e) m _ iterator stack h hf rfl rfl hstops
  · rw [if_neg hstops] at hx
    rw [conclude_of_error hx]
    by_cases hguest : e.isGuest
    · have hself : m = m.withFrames (f :: callers) := by rw [Machine.withFrames, ← hframes]
      rw [if_pos hguest, if_pos hguest, hself]
      exact .raises (.error e) m h fun hstop => absurd hstop hstops
    · rw [if_neg hguest, if_neg hguest]
      exact .fatal e m (g :: callers')

/-- A link of the two calls. -/
theorem Vm.together_link (hd : c.delivery.Twin exit d') (hbase : AwaitsNext base)
    (h : CallersAlike base base' m.context.frames frames) :
    vm.Together exit base base' c.delivery (vm.advance (.link c) m)
      (vm.advance (.link { c with delivery := d' }) (m.withFrames frames)) := by
  have hlinks : LinksAlike exit base base' (vm.link c m)
      (vm.link { c with delivery := d' } (m.withFrames frames)) :=
    .link hbase.ne_nil h hd
  obtain ⟨hexit, hnone⟩ := hd.loopExit?
  have hfollow' (m' : Machine) : vm.follow { c with delivery := d' } m' =
    vm.link { c with delivery := d' } m' := follow_of_loopExit? hnone
  generalize hlink : vm.link c m = r at hlinks
  generalize hlink' : vm.link { c with delivery := d' } (m.withFrames frames) = r' at hlinks
  have hok {control : Control} {m₁ : Machine} (hr : r = .ok control m₁) :
      vm.advance (.link c) m = proceed vm.afterInstruction (.ok control m₁) :=
    conclude_ok vm (follow_ok (hlink.trans hr))
  have hok' {control : Control} {m₁ : Machine} (hr : r' = .ok control m₁) :
      vm.advance (.link { c with delivery := d' }) (m.withFrames frames) =
        proceed vm.afterInstruction (.ok control m₁) :=
    conclude_ok vm (follow_ok (hlink'.trans hr))
  cases hlinks with
  | call c₁ m₁ hd₁ h₁ =>
    rw [hok rfl, hok' rfl]
    exact .inl ⟨c₁.delivery, .linking c₁ m₁ hd₁ h₁⟩
  | enter m₁ hd₁ h₁ =>
    rw [hok rfl, hok' rfl]
    exact .inl ⟨_, lockstep_ok hd₁ h₁ .next⟩
  | await p m₁ hd₁ h₁ =>
    rw [hok rfl, hok' rfl]
    exact .inl ⟨_, .waiting p m₁ hd₁ h₁⟩
  | value v m₁ control h₁ hcontrol =>
    rw [hok rfl, hok' rfl]
    rcases hcontrol with rfl | rfl
    · exact .inr (.value v m₁ vm.afterInstruction h₁ (.inl rfl))
    · exact .inr (.value v m₁ (.stopped (.suspended .resume)) h₁ (.inr rfl))
  | error e m₁ h₁ =>
    have hleft : vm.perform (.link c) m = _ := follow_loopError hlink hexit
    have hright : vm.perform (.link { c with delivery := d' }) (m.withFrames frames) = _ :=
      (hfollow' _).trans hlink'
    exact .inr (parted_error hbase h₁ hleft hright)

end Steps

/-! ## Runs -/

/-- Where a run goes on, one step at a time. It goes on as well after a stop that waits for nothing,
but stays where it is when it has ended or waits for a promise. -/
def Vm.pursue (vm : Vm) : Progress → Progress
  | .running phase m => vm.advance phase m
  | .stopped (.suspended .resume) m => .running .fetch m
  | p => p

section Runs

variable {vm : Vm} {exit : Nat} {base base' : List Frame} {d : Delivery} {p q : Progress}

/-- One step of the two runs. -/
theorem Vm.together_pursue (hbase : AwaitsNext base) (h : p.Lockstep exit base base' d q) :
    vm.Together exit base base' d (vm.pursue p) (vm.pursue q) := by
  cases h with
  | linking c m hd h => exact together_link hd hbase h
  | running phase m hd h =>
    cases phase with
    | fetch => exact together_fetch hd hbase h
    | link c =>
      exact together_conclude hd hbase
        (Respects.follow (I := TwinFrames.relation base base' hd) c m _ h)
  | waiting p m hd h => exact .inl ⟨_, .waiting p m hd h⟩
  | stopped outcome m hd h =>
    cases outcome with
    | suspended k =>
      cases k with
      | resume => exact .inl ⟨_, .running .fetch m hd h⟩
      | _ => exact .inl ⟨_, .stopped _ m hd h⟩
    | _ => exact .inl ⟨_, .stopped _ m hd h⟩

/-- After `n` steps the two runs are in lockstep, unless the calls have been over before. -/
def Vm.InLockstep (vm : Vm) (exit : Nat) (base base' : List Frame) (p q : Progress) (n : Nat) :
    Prop :=
  (∃ d, (vm.pursue^[n] p).Lockstep exit base base' d (vm.pursue^[n] q)) ∨
    ∃ k < n, ∃ d, (vm.pursue^[k] p).Lockstep exit base base' d (vm.pursue^[k] q) ∧
      vm.Parted exit base base' d (vm.pursue^[k + 1] p) (vm.pursue^[k + 1] q)

theorem Vm.inLockstep (hbase : AwaitsNext base) (h : p.Lockstep exit base base' d q) (n : Nat) :
    vm.InLockstep exit base base' p q n := by
  induction n with
  | zero => exact .inl ⟨d, h⟩
  | succ n ih =>
    rcases ih with ⟨d₁, h₁⟩ | ⟨k, hk, hparted⟩
    · have htogether : vm.Together exit base base' d₁ (vm.pursue (vm.pursue^[n] p))
        (vm.pursue (vm.pursue^[n] q)) := together_pursue hbase h₁
      rw [← Function.iterate_succ_apply' vm.pursue, ← Function.iterate_succ_apply' vm.pursue]
        at htogether
      exact htogether.imp_right fun hparted => ⟨n, n.lt_succ_self, d₁, h₁, hparted⟩
    · exact .inr ⟨k, hk.trans n.lt_succ_self, hparted⟩

end Runs

end TaskletMachine
