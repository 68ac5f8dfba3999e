import TaskletMachine.Proofs.Machine.Exceptions
import TaskletMachine.Proofs.Machine.Hooks

/-!
# How calls of hooks end

The call of a hook ends with a value, or with an exception. An exception stops the iteration if it
is an instance of the class for that; then the loop is left, whether a native function has failed
with it or it has left the frames above the loop. Every other exception is raised in the frame of
the loop.

## Main definitions

* `Heap.Stops`, `Error.Stops`: exceptions that stop iterations.
* `Vm.HookEnds`: the last stage of a call.
* `Vm.Reacts`, `Vm.HookEnds.reacts`: what becomes of the loop.
* `Vm.Stage.hookOver`: there are no other endings, but for fatal errors.
-/
namespace TaskletMachine

open Exec

/-! ## Stopping an iteration -/

/-- The value is an instance of the class that stops iterations, or of a class that derives from it,
or is such a class itself. -/
def Heap.Stops (h : Heap) (stop : ClassRef) (v : Value) : Prop :=
  (∃ r, v = .instanceObj r ∧ h.isInstance r stop) ∨ ∃ r, v = .classObj r ∧ h.isSubclass r stop

/-- The error is the builtin exception that stops iterations, or has such a value. -/
def Error.Stops (e : Error) (h : Heap) (stop : ClassRef) : Prop :=
  (∃ message, e.cause = .exception .stopIteration message) ∨
    ∃ v, e.cause = .raised v ∧ h.Stops stop v

section Stopping

variable {vm : Vm} {m : Machine} {stop : ClassRef} {v : Value} {e : Error}
  (hstop : m.context.builtins.find? ExceptionKind.stopIteration.name = some (.classObj stop))
include hstop

theorem isStopIteration_iff :
    vm.isStopIteration m.context m.world.heap v ↔ m.world.heap.Stops stop v := by
  unfold Vm.isStopIteration Vm.builtinClass Heap.Stops
  rw [hstop, Option.some_or]
  cases v <;> simp

theorem stopsIteration_iff : vm.stopsIteration m e ↔ e.Stops m.world.heap stop := by
  unfold Vm.stopsIteration Error.Stops
  cases hcause : e.cause with
  | raised v => simpa using isStopIteration_iff hstop
  | exception kind message => cases kind <;> simp
  | _ => simp

end Stopping

/-! ## Endings -/

/-- How the call of a hook ends. -/
inductive HookEnding where
  /-- The hook returns a value. -/
  | value (v : Value)
  /-- An exception stops the iteration. -/
  | stops
  /-- A native callee, or the call itself, fails with another exception, or a promise that the call
  has waited for is rejected. -/
  | fails (e : Error) (m : Machine)
  /-- Another exception is raised in guest code, and leaves it, or an exception leaves the
  initializer of a class to which the call has led. -/
  | raises (fault : Fault) (m : Machine)

/-- The last stage of the call of a hook. The call is over afterwards, so an exception that is
raised in the frames above the loop has found no handler there. Before the stage an instance has
taken the place of the result if the call has led to a class. -/
inductive Vm.HookEnds (vm : Vm) (stop : ClassRef) (depth : Nat) (made : Option Value)
    (p p' : Progress) : HookEnding → Prop
  /-- The frame that the call has entered is left with a result. -/
  | leaves (m : Machine) (v : Value) (hp : p = .running .fetch m)
      (hdepth : m.context.frames.length = depth + 1) (hv : m.context.Leaves v) :
      HookEnds vm stop depth made p p' (.value (made.getD v))
  /-- A native callee replies at once. -/
  | replies (c : PendingCall) (m : Machine) (v : Value) (hp : p = .running (.link c) m)
      (hdepth : m.context.frames.length = depth) (hclass : ∀ r, c.callee ≠ .classObj r)
      (hv : vm.Results p v) : HookEnds vm stop depth made p p' (.value (made.getD v))
  /-- A class without an initializer makes an instance. -/
  | makes (c : PendingCall) (m m₁ m' : Machine) (r : ClassRef) (hp : p = .running (.link c) m)
      (hdepth : m.context.frames.length = depth) (hm : m₁.context = m.context)
      (hlink : vm.link c m = .ok .next m')
      (hrun : (do deliver (m.made r) c.delivery; return .next : Exec Control) m₁ = .ok .next m') :
      HookEnds vm stop depth made p p' (.value (made.getD (m.made r)))
  /-- A promise that the call has waited for has a result. -/
  | resumes (j : PromiseId) (d : Delivery) (m : Machine) (v : Value)
      (hp : p = .stopped (.suspended (.await j d)) m)
      (hdepth : m.context.frames.length = depth) (hv : vm.Results p v) :
      HookEnds vm stop depth made p p' (.value (made.getD v))
  | failsToStop (c : PendingCall) (m m' : Machine) (e : Error) (hp : p = .running (.link c) m)
      (hdepth : m.context.frames.length = depth) (herror : vm.link c m = .error e m')
      (hstops : e.Stops m'.world.heap stop) : HookEnds vm stop depth made p p' .stops
  | raisesToStop (fault : Fault) (m : Machine) (origin : Origin)
      (hraises : vm.Raises p p' fault m origin) (hdepth : depth < m.context.frames.length)
      (hstops : m.world.heap.Stops stop fault.value) (hmade : made = none) :
      HookEnds vm stop depth made p p' .stops
  | fails (c : PendingCall) (m m' : Machine) (e : Error) (hp : p = .running (.link c) m)
      (hdepth : m.context.frames.length = depth) (herror : vm.link c m = .error e m')
      (hguest : e.isGuest) (hgoes : ¬ e.Stops m'.world.heap stop) :
      HookEnds vm stop depth made p p' (.fails e m')
  | rejects (j : PromiseId) (d : Delivery) (m : Machine) (e : Error)
      (hp : p = .stopped (.suspended (.await j d)) m)
      (hdepth : m.context.frames.length = depth)
      (hs : (m.world.promise j).settled = some (.rejected e)) (hguest : e.isGuest) :
      HookEnds vm stop depth made p p' (.fails e m)
  | raises (fault : Fault) (m : Machine) (origin : Origin)
      (hraises : vm.Raises p p' fault m origin) (hdepth : depth < m.context.frames.length)
      (hgoes : made = none → ¬ m.world.heap.Stops stop fault.value) :
      HookEnds vm stop depth made p p' (.raises fault m)

/-- The fault, with more places in its traceback, is raised in the frame of the loop, which stands
as it stood during the call, the iterator on its stack. -/
def Vm.Propagates (vm : Vm) (q : HookRequest) (fault : Fault) (m : Machine) (p' : Progress) :
    Prop :=
  ∃ next places frames, GoesOnWith next ∧ SameFrames (q.loop :: q.callers) frames ∧
    p' = proceed next (vm.raiseFault { fault with traceback := fault.traceback ++ places }
      (m.withFrames frames))

/-- What becomes of the loop. -/
def Vm.Reacts (vm : Vm) (q : HookRequest) (p' : Progress) : HookEnding → Prop
  | .value v => SameFrames (q.given v :: q.callers) p'.machine.context.frames
  | .stops =>
    (∃ m, p' = .running .fetch m ∨ p' = .stopped (.suspended .resume) m) ∧
      SameFrames (q.left :: q.callers) p'.machine.context.frames ∧
      p'.machine.context.fault = none
  | .fails e m => ∃ fault m', vm.exceptionOf e m = .ok fault.value m' ∧ vm.Propagates q fault m' p'
  | .raises fault m => vm.Propagates q fault m p'

section Reactions

variable {vm : Vm} {q : HookRequest} {limit : Nat} {stop : ClassRef} {m m' : Machine}
  {p p' : Progress} {v : Value} {c : PendingCall} {effect : Exec Control}
  {next : Machine → Progress} {control : Control} {made : Option Value} {d : Delivery}

theorem Vm.frames_conclude (hnext : GoesOnWith next) (hrun : effect m = .ok control m') :
    (vm.conclude next effect m).machine.context.frames = m'.context.frames := by
  rw [conclude_ok vm hrun, frames_proceed hnext]
  rfl

/-! ### Values -/

theorem SameFrames.given {g : Frame} {rest : List Frame}
    (h : SameFrames (q.loop :: q.callers) (g :: rest)) (hstack : g.stack = q.iterator :: q.below) :
    SameFrames (q.given v :: q.callers) ({ g with stack := v :: g.stack } :: rest) := by
  obtain ⟨g', rest', hcons, houtline, hstanding, hrest⟩ := h.of_cons
  cases hcons
  refine .cons houtline ?_ hrest
  have hunit : g.unit = q.loop.unit := congrArg (·.1) hstanding
  have hip : g.ip = q.loop.ip := congrArg (·.2.1) hstanding
  have hinstructionIp : g.instructionIp = q.loop.instructionIp := congrArg (·.2.2.1) hstanding
  simp only [Frame.standing, HookRequest.given, hstack, hunit, hip, hinstructionIp]

theorem SameFrames.left {g : Frame} {rest : List Frame}
    (h : SameFrames (q.loop :: q.callers) (g :: rest)) :
    SameFrames (q.left :: q.callers) ({ g with stack := q.below, ip := q.exit } :: rest) := by
  obtain ⟨g', rest', hcons, houtline, hstanding, hrest⟩ := h.of_cons
  cases hcons
  refine .cons houtline ?_ hrest
  have hunit : g.unit = q.loop.unit := congrArg (·.1) hstanding
  have hinstructionIp : g.instructionIp = q.loop.instructionIp := congrArg (·.2.2.1) hstanding
  simp only [Frame.standing, HookRequest.left, hunit, hinstructionIp]

theorem Vm.execute_returnValue {f caller : Frame} {rest : List Frame} {v : Value}
    {stack : List Value} (hm : m.context.frames = f :: caller :: rest) (hf : f.stack = v :: stack) :
    vm.execute .returnValue m = returnFrom v (m.withFrames ({ f with stack } :: caller :: rest)) :=
  bind_ok (pop_cons hm hf)

theorem Vm.perform_atEnd {f caller : Frame} {rest : List Frame}
    (hm : m.context.frames = f :: caller :: rest) (hend : f.atEnd) :
    vm.perform .fetch m = returnFrom .none m := by
  simp only [perform, fetch]
  rw [bind_ok (frame_cons hm), if_pos hend]
  unfold endOfUnit
  rw [bind_ok (rfl : Exec.context m = .ok m.context m), hm]

/-- The innermost frame is left with its result. -/
theorem Vm.perform_of_leaves {f caller : Frame} {rest : List Frame}
    (hm : m.context.frames = f :: caller :: rest) (hv : m.context.Leaves v) :
    ∃ g, g.delivery = f.delivery ∧
      vm.perform .fetch m = returnFrom v (m.withFrames (g :: caller :: rest)) := by
  cases hv with
  | returnValue f' callers v stack hi hc hf =>
    cases hm.symm.trans hc
    rw [Context.instruction?, hm, List.head?_cons, Option.bind_some, Option.map_eq_some_iff] at hi
    obtain ⟨⟨i, next⟩, hd, rfl⟩ := hi
    refine ⟨{ f.reading next with stack }, rfl, ?_⟩
    have hreading : (f.reading next).stack = v :: stack := hf
    exact (perform_fetch vm hm hd).trans (execute_returnValue rfl hreading)
  | atEnd f' callers hc hf =>
    cases hm.symm.trans hc
    have hsame : m.withFrames (f :: caller :: rest) = m := by rw [Machine.withFrames, ← hm]
    exact ⟨f, rfl, by rw [hsame, perform_atEnd hm hf]⟩

theorem returnFrom_iterates {f g : Frame} {rest : List Frame} {exit : Nat}
    (hd : f.delivery.Iterates exit made) (v : Value) (m : Machine) :
    returnFrom v (m.withFrames (f :: g :: rest)) =
      .ok .next (m.withFrames ({ g with stack := made.getD v :: g.stack } :: rest)) := by
  have hrun : returnFrom v (m.withFrames (f :: g :: rest)) =
      (do deliverFrom f v; return .next : Exec Control) (m.withFrames (g :: rest)) := rfl
  have hpush : push (made.getD v) (m.withFrames (g :: rest)) = .ok () _ := Vm.push_cons rfl _
  rw [hrun, deliverFrom_of_iterates hd, bind_ok hpush]
  rfl

theorem Vm.link_reply {effect : Effect Reply} {reply : Reply} {w : World}
    (heffect : c.effect? vm.host m.world.heap = some effect)
    (hreply : effect m.world = .ok reply w) :
    vm.link c m = complete reply c.delivery { m with world := w } := by
  have hrun : ofEffect effect m = .ok reply { m with world := w } := by
    simp only [ofEffect, hreply]
  rw [link_of_effect heffect, bind_ok hrun]

section Loops

variable (hstack : q.frame.stack = q.iterator :: q.below)
include hstack

theorem SameFrames.requested {frames : List Frame} (h : SameFrames (q.loop :: q.callers) frames) :
    ∃ g rest, frames = g :: rest ∧ g.stack = q.iterator :: q.below := by
  obtain ⟨g, rest, hframes, hg⟩ := h.innermost
  exact ⟨g, rest, hframes, hg.trans hstack⟩

/-- The frame that the call has entered hands its result over to the loop. -/
theorem Vm.reacts_leaves (habove : m.context.Above (q.loop :: q.callers) d)
    (hiterates : d.Iterates q.exit made) (hdepth : m.context.frames.length = q.depth + 1)
    (hv : m.context.Leaves v) : vm.Reacts q (vm.advance .fetch m) (.value (made.getD v)) := by
  obtain ⟨above, entered, base, hframes, rfl, hsame⟩ := habove
  have hlength := hsame.length_eq
  cases above with
  | cons f above =>
    rw [hframes, List.length_append, List.length_cons, List.length_cons, hlength, List.length_cons,
      HookRequest.depth] at hdepth
    omega
  | nil =>
    obtain ⟨g, rest, rfl, hg⟩ := hsame.requested hstack
    obtain ⟨f, hf, hrun⟩ := vm.perform_of_leaves hframes hv
    rw [returnFrom_iterates (hf ▸ hiterates)] at hrun
    rw [Reacts, advance, frames_conclude vm.goesOnWith_afterInstruction hrun]
    exact hsame.given hg

/-- A native callee hands its reply over to the loop. -/
theorem Vm.reacts_replies (hsame : SameFrames (q.loop :: q.callers) m.context.frames)
    (hd : c.delivery.Iterates q.exit made) (hclass : ∀ r, c.callee ≠ .classObj r)
    (hv : vm.Results (.running (.link c) m) v) :
    vm.Reacts q (vm.advance (.link c) m) (.value (made.getD v)) := by
  obtain ⟨g, rest, hframes, hg⟩ := hsame.requested hstack
  have hgiven : SameFrames (q.given (made.getD v) :: q.callers) _ := (hframes ▸ hsame).given hg
  have hreplied {reply : Reply} {w : World}
      (hlink : vm.link c m = complete reply c.delivery { m with world := w })
      (h : reply = .value v ∨ (reply = .noValue ∨ reply = .yield) ∧ v = .none) :
      vm.Reacts q (vm.advance (.link c) m) (.value (made.getD v)) := by
    have hm : ({ m with world := w } : Machine).context.frames = g :: rest := hframes
    obtain ⟨control, m', hrun, hcontrol, hm'⟩ := complete_iterates hm h hd
    have hperform : vm.perform (.link c) m = .ok control m' := follow_ok (hlink.trans hrun)
    rw [Reacts, advance, frames_conclude vm.goesOnWith_afterInstruction hperform, hm']
    exact hgiven
  cases hv with
  | value _ _ effect _ w heffect hreply =>
    exact hreplied (link_reply heffect hreply) (.inl rfl)
  | noValue _ _ effect reply w heffect hreply h =>
    exact hreplied (link_reply heffect hreply) (.inr ⟨h, rfl⟩)
  | settled _ _ effect q' w s _ heffect hreply hs hv =>
    have hlink := link_reply heffect hreply
    rw [complete, awaitPromise_settled hs] at hlink
    cases s with
    | value v' =>
      cases hv
      exact @hreplied (.value v) w hlink (.inl rfl)
    | noValue =>
      cases hv
      exact @hreplied .noValue w hlink (.inr ⟨.inl rfl, rfl⟩)
    | rejected e => cases hv
  | makes _ _ r hcallee => exact absurd hcallee (hclass r)

/-- A new instance is handed over to the loop. -/
theorem Vm.reacts_makes {m₁ : Machine} {r : ClassRef}
    (hsame : SameFrames (q.loop :: q.callers) m.context.frames)
    (hd : c.delivery.Iterates q.exit made) (hm : m₁.context = m.context)
    (hlink : vm.link c m = .ok .next m')
    (hrun : (do deliver (m.made r) c.delivery; return .next : Exec Control) m₁ = .ok .next m') :
    vm.Reacts q (vm.advance (.link c) m) (.value (made.getD (m.made r))) := by
  obtain ⟨g, rest, hframes, hg⟩ := hsame.requested hstack
  rw [bind_ok (deliver_cons (hm ▸ hframes) hd (m.made r))] at hrun
  cases hrun
  have hperform : vm.perform (.link c) m = .ok .next _ := follow_ok hlink
  rw [Reacts, advance, frames_conclude vm.goesOnWith_afterInstruction hperform]
  exact (hframes ▸ hsame).given hg

/-- The result of a promise is handed over to the loop. -/
theorem Vm.reacts_resumes {j : PromiseId}
    (hsame : SameFrames (q.loop :: q.callers) m.context.frames) (hd : d.Iterates q.exit made)
    (hv : vm.Results (.stopped (.suspended (.await j d)) m) v) :
    vm.Reacts q (vm.resumption (.await j d) m) (.value (made.getD v)) := by
  obtain ⟨g, rest, hframes, hg⟩ := hsame.requested hstack
  cases hv with
  | resumed _ _ _ s _ hs hv =>
    simp only [resumption]
    rw [hs]
    dsimp only
    rw [Reacts, frames_conclude (fun _ => .inl rfl) (handOver_iterates hframes hv hd)]
    exact (hframes ▸ hsame).given hg

/-! ### Errors of links -/

omit hstack in
/-- The loop is left. -/
theorem Vm.reacts_left (hnext : GoesOnWith next) {g : Frame} {rest : List Frame}
    (hsame : SameFrames (q.loop :: q.callers) (g :: rest))
    (hframes : m.context.frames = { g with stack := q.below, ip := q.exit } :: rest)
    (hfault : m.context.fault = none) : vm.Reacts q (next m) .stops := by
  refine ⟨⟨m, hnext m⟩, ?_, ?_⟩
  · rw [hnext.machine_eq, hframes]
    exact hsame.left
  · rw [hnext.machine_eq]
    exact hfault

theorem Vm.reacts_failsToStop {e : Error} (herror : vm.link c m = .error e m')
    (hd : c.delivery.Iterates q.exit made) (hstops : vm.stopsIteration m' e)
    (hsame : SameFrames (q.loop :: q.callers) m'.context.frames)
    (hfault : m'.context.fault = none) : vm.Reacts q (vm.advance (.link c) m) .stops := by
  obtain ⟨g, rest, hframes, hg⟩ := hsame.requested hstack
  have hperform := follow_loopError herror hd.loopExit?
  rw [if_pos hstops, endLoop_cons hframes hg] at hperform
  have hadvance : vm.advance (.link c) m = _ := conclude_ok vm hperform
  rw [hadvance]
  exact reacts_left vm.goesOnWith_afterInstruction (hframes ▸ hsame) rfl hfault

end Loops

/-- With the builtins of the exceptions, every error that guest code can catch can be raised. -/
theorem exists_exceptionOf {h : Heap} {base : ClassRef} {e : Error}
    (hbuiltins : h.DefinesExceptions m.context.builtins base) (hguest : e.isGuest) (vm : Vm) :
    ∃ v m', vm.exceptionOf e m = .ok v m' := by
  have hmake (kind : ExceptionKind) (message : String) :
      ∃ v m', vm.makeException kind message m = .ok v m' := by
    obtain ⟨c, hc, -⟩ := hbuiltins.derives kind
    have hclass : vm.builtinClass m.context kind.name = .ok c := by simp [Vm.builtinClass, hc]
    unfold Vm.makeException
    rw [bind_ok (rfl : Exec.context m = .ok m.context m), hclass]
    exact ⟨_, _, rfl⟩
  have hroot : vm.builtinClass m.context ExceptionKind.baseException.name = .ok base := by
    simp [Vm.builtinClass, hbuiltins.root]
  unfold Error.isGuest Cause.isGuest at hguest
  unfold Vm.exceptionOf
  cases hcause : e.cause with
  | exception kind message => exact hmake kind message
  | raised v =>
    unfold Vm.normalizeException
    dsimp only
    rw [bind_ok (rfl : Exec.context m = .ok m.context m), hroot,
      bind_ok (rfl : (MonadExcept.ofExcept (.ok base) : Exec ClassRef) m = .ok base m),
      bind_ok (rfl : Exec.heap m = .ok m.world.heap m)]
    split
    · split
      · exact ⟨_, m, rfl⟩
      · exact hmake _ _
    · split
      · exact ⟨_, _, rfl⟩
      · exact hmake _ _
    · exact hmake _ _
  | _ =>
    rw [hcause] at hguest
    cases hguest

theorem context_exceptionOf {e : Error} (h : vm.exceptionOf e m = .ok v m') :
    m'.context = m.context := by
  have hof {x : Exec Value} (hx : Aside x) (h : x m = .ok v m') : m'.context = m.context := by
    have hm := hx m
    rw [h] at hm
    exact hm.1
  unfold Vm.exceptionOf at h
  cases hcause : e.cause with
  | exception kind message =>
    rw [hcause] at h
    exact hof (.makeException vm kind message) h
  | raised v =>
    rw [hcause] at h
    exact hof (.normalizeException vm v) h
  | _ =>
    rw [hcause] at h
    cases h

theorem Vm.conclude_of_error {e : Error} (hrun : effect m = .error e m')
    (next : Machine → Progress) : vm.conclude next effect m =
      proceed next (if e.isGuest then vm.raiseError e m' else .error e m') := by
  rw [conclude, catching, hrun]

/-- An error that guest code can catch is raised as an exception, in the innermost frame. -/
theorem Vm.conclude_raises {h : Heap} {base : ClassRef} {e : Error} {f : Frame}
    {callers : List Frame} (hrun : effect m = .error e m') (hguest : e.isGuest)
    (hframes : m'.context.frames = f :: callers)
    (hbuiltins : h.DefinesExceptions m'.context.builtins base) (next : Machine → Progress) :
    ∃ v m₁, vm.exceptionOf e m' = .ok v m₁ ∧ m₁.context = m'.context ∧
      vm.conclude next effect m =
        proceed next (vm.raiseFault { value := v, traceback := [f.place] } m₁) := by
  obtain ⟨v, m₁, hvalue⟩ := exists_exceptionOf hbuiltins hguest vm
  have hm₁ := context_exceptionOf hvalue
  refine ⟨v, m₁, hvalue, hm₁, ?_⟩
  rw [conclude_of_error hrun, if_pos hguest, raiseError_eq, bind_ok hvalue,
    bind_ok (frame_cons (hm₁ ▸ hframes))]

/-- An error that reaches the loop is raised there. -/
theorem Vm.reacts_fails {h : Heap} {base : ClassRef} {e : Error} (hnext : GoesOnWith next)
    (hrun : effect m = .error e m') (hguest : e.isGuest)
    (hsame : SameFrames (q.loop :: q.callers) m'.context.frames)
    (hbuiltins : h.DefinesExceptions m'.context.builtins base) :
    vm.Reacts q (vm.conclude next effect m) (.fails e m') := by
  obtain ⟨g, rest, hframes, -⟩ := hsame.innermost
  obtain ⟨v, m₁, hvalue, hm₁, hconclude⟩ :=
    vm.conclude_raises hrun hguest hframes hbuiltins next
  exact ⟨{ value := v, traceback := [g.place] }, m₁, hvalue, next, [], m₁.context.frames, hnext,
    hm₁ ▸ hsame, hconclude⟩

/-! ### Faults -/

/-- A fault is raised where an effect has failed, or in the innermost frame before the next
instruction. -/
theorem Vm.Raises.failed_or_kept {fault : Fault} {origin : Origin}
    (h : vm.Raises p p' fault m origin) :
    (∃ effect next e m₁, vm.Performs p effect next ∧ effect p.machine = .error e m₁ ∧ e.isGuest ∧
      m.context = m₁.context) ∨
    ∃ m₀ f g callers, p = .running .fetch m₀ ∧ m₀.context.frames = f :: callers ∧
      g.delivery = f.delivery ∧ m = m₀.withFrames (g :: callers) := by
  cases h with
  | afresh effect next e m₁ f callers hp herror hguest hvalue hframes htraceback hp' =>
    exact .inl ⟨effect, next, e, m₁, hp, herror, hguest, context_exceptionOf hvalue⟩
  | kept m₀ _ hp hreraises hp' =>
    refine .inr ?_
    cases hreraises with
    | again f callers next hframes hdecode hhandled =>
      exact ⟨m₀, f, f.reading next, callers, hp, hframes, rfl, rfl⟩
    | kept f callers next b rest hframes hdecode hblocks hkind =>
      exact ⟨m₀, f, (f.reading next).without b rest, callers, hp, hframes, rfl, rfl⟩

theorem Vm.Performs.loopsWait (h : vm.Performs p effect next) (hp : p.Lawful limit)
    (hloops : p.LoopsWait) : (left (effect p.machine)).context.LoopsWait := by
  cases h with
  | phase phase m => exact (waits_perform vm hloops hp.2).context
  | handOver q d m s hs =>
    have hstays : vm.Stays m (Vm.handOver s d m) := .handOver hs hp.2
    exact hstays.quiet.loopsWait hloops

/-- The frames above which a fault is raised stand still, and loops that wait for a value have asked
for it. -/
theorem Vm.Raises.keepsAbove {fault : Fault} {origin : Origin} (h : vm.Raises p p' fault m origin)
    (hp : p.Lawful limit) (hloops : p.LoopsWait) :
    p.machine.context.KeepsAbove m.context ∧
      m.context.frames.length ≤ p.machine.context.frames.length ∧ m.context.LoopsWait := by
  rcases h.failed_or_kept with ⟨effect, next, e, m₁, hperforms, herror, hguest, hm⟩ |
    ⟨m₀, f, g, callers, rfl, hframes, hd, rfl⟩
  · have hkeeps := hperforms.keepsAbove hp
    have hwaits := hperforms.loopsWait hp hloops
    rw [herror] at hkeeps hwaits
    rw [hm]
    exact ⟨hkeeps, hperforms.length_le_of_error hp herror hguest, hwaits⟩
  · have hchain := hloops.1.chain
    rw [hframes] at hchain
    refine ⟨.of_within (.of_frames rfl hd) hframes, ?_,
      ⟨List.cons_ne_nil _ _, isChain_of_sameFrames (.refl callers) hd hchain⟩⟩
    show (g :: callers).length ≤ m₀.context.frames.length
    rw [hframes]
    exact Nat.le_refl _

/-- Frames that have been dropped include those above a place. -/
theorem exists_passed {above passed base rest : List Frame} {entered : Frame}
    (h : passed ++ rest = above ++ entered :: base) (hrest : rest.length ≤ base.length) :
    ∃ passed', passed = above ++ entered :: passed' := by
  rcases List.append_eq_append_iff.1 h with ⟨between, -, hbetween⟩ | ⟨between, rfl, hbetween⟩
  · have hlength := congrArg List.length hbetween
    rw [List.length_append, List.length_cons] at hlength
    omega
  · cases between with
    | nil =>
      have hlength := congrArg List.length hbetween
      rw [List.nil_append, List.length_cons] at hlength
      omega
    | cons f between =>
      obtain ⟨rfl, -⟩ := List.cons.inj hbetween
      exact ⟨between, rfl⟩

/-- A fault that is raised above a loop is taken there, or ends the loop, or passes all the frames
above it. -/
theorem Vm.Search.above {fault : Fault} {r : EStateM.Result Error Machine Control}
    {above base : List Frame} {entered : Frame} (h : vm.Search m fault r)
    (hframes : m.context.frames = above ++ entered :: base) (hbase : base ≠ []) :
    (∃ m', r = .ok .next m' ∧ base.length < m'.context.frames.length) ∨
    (vm.isStopIteration m.context m.world.heap fault.value ∧
      ∃ exit f callers iterator stack, entered.delivery = .iteration exit ∧ base = f :: callers ∧
        f.stack = iterator :: stack ∧ r = .ok .next { m with context := { m.context with
          frames := { f with stack, ip := exit } :: callers, fault := none } }) ∨
    ∀ g ∈ above ++ [entered],
      g.Passes (vm.isStopIteration m.context m.world.heap fault.value) := by
  have hpasses {passed rest : List Frame} (hm : m.context.frames = passed ++ rest)
      (hrest : rest.length ≤ base.length)
      (hpassed : ∀ g ∈ passed,
        g.Passes (vm.isStopIteration m.context m.world.heap fault.value)) :
      ∀ g ∈ above ++ [entered],
        g.Passes (vm.isStopIteration m.context m.world.heap fault.value) := by
    obtain ⟨passed', rfl⟩ := exists_passed (hm.symm.trans hframes) hrest
    intro g hg
    refine hpassed g ?_
    rw [List.append_cons]
    exact List.mem_append_left passed' hg
  cases h with
  | caught passed f callers inside b outside hm hpassed hinnermost hkind =>
    by_cases hlength : base.length < (f :: callers).length
    · exact .inl ⟨_, rfl, hlength⟩
    · exact .inr (.inr (hpasses hm (Nat.not_lt.1 hlength) hpassed))
  | entered passed f callers inside b outside hm hpassed hinnermost hkind =>
    by_cases hlength : base.length < (f :: callers).length
    · exact .inl ⟨_, rfl, hlength⟩
    · exact .inr (.inr (hpasses hm (Nat.not_lt.1 hlength) hpassed))
  | unhandled passed root hm hpassed hbare =>
    exact .inr (.inr (hpasses hm (List.length_pos_of_ne_nil hbase) hpassed))
  | loopEnds passed g f callers exit' iterator stack hm hpassed hbare hcalled hasks hstops hf =>
    by_cases hlength : base.length < (f :: callers).length
    · exact .inl ⟨_, rfl, hlength⟩
    · rcases Nat.lt_or_eq_of_le (Nat.not_lt.1 hlength) with hlt | heq
      · exact .inr (.inr (hpasses hm hlt hpassed))
      · -- the frame that has been entered is the one by which the fault comes to its loop
        obtain ⟨-, hcons⟩ := List.append_inj' (hm.symm.trans hframes)
          (by rw [List.length_cons, heq, List.length_cons])
        obtain ⟨rfl, rfl⟩ := List.cons.inj hcons
        exact .inr (.inl ⟨hstops, exit', f, callers, iterator, stack, hcalled, rfl, hf, rfl⟩)

/-- A fault that lands where another one would land in fewer frames is raised like that one. -/
theorem Vm.raiseFault_of_unwind {fault fault' : Fault} {f : Frame} {callers : List Frame}
    (h : unwindFrames (vm.isStopIteration m.context m.world.heap) fault m.context.frames =
      unwindFrames (vm.isStopIteration m.context m.world.heap) fault' (f :: callers)) :
    vm.raiseFault fault m = vm.raiseFault fault' (m.withFrames (f :: callers)) := by
  have hlands := landsIn_unwindFrames (vm.isStopIteration m.context m.world.heap) fault'
    (f :: callers)
  have hstops : vm.isStopIteration (m.withFrames (f :: callers)).context =
      vm.isStopIteration m.context := rfl
  rw [raiseFault_eq, raiseFault_eq, h]
  dsimp only [Machine.withFrames] at hstops ⊢
  rw [hstops]
  generalize unwindFrames (vm.isStopIteration m.context m.world.heap) fault' (f :: callers) = u
    at hlands
  cases hlands with
  | noFrames hnil => cases hnil
  | _ => rfl

/-- A fault that has passed frames is raised in those below. -/
theorem Vm.raiseFault_passed {fault : Fault} {passed base : List Frame} {f : Frame}
    (hframes : m.context.frames = passed ++ f :: base)
    (hpassed : ∀ g ∈ passed,
      g.Passes (vm.isStopIteration m.context m.world.heap fault.value)) :
    vm.raiseFault fault m =
      vm.raiseFault (fault.along (passed ++ [f]).tail) (m.withFrames (f :: base)) :=
  raiseFault_of_unwind (by rw [hframes, unwindFrames_passed passed hpassed])

section Leaving

variable {fault : Fault} {origin : Origin}

theorem Vm.Raises.above (h : vm.Raises p p' fault m origin) (hp : p.Lawful limit)
    (hloops : p.LoopsWait) (hawaits : p.Awaits (q.loop :: q.callers) q.exit made)
    (hdepth : q.depth < m.context.frames.length) :
    ∃ d : Delivery, d.Iterates q.exit made ∧ m.context.Above (q.loop :: q.callers) d := by
  obtain ⟨hkeeps, hlength, -⟩ := h.keepsAbove hp hloops
  have hlt := Nat.lt_of_lt_of_le hdepth hlength
  cases hawaits with
  | above _ d hd habove => exact ⟨d, hd, hkeeps _ _ habove hdepth⟩
  | linking c m₀ hsame hd => exact absurd hsame.length_eq (Nat.ne_of_gt hlt)
  | waiting q' d m₀ hsame hd => exact absurd hsame.length_eq (Nat.ne_of_gt hlt)

/-- A fault that is raised above the loop, and after which the call is over, ends the loop if it
stops the iteration and the result was meant for the loop itself. Otherwise it goes on in the frame
of the loop. -/
theorem Vm.Raises.reacts (h : vm.Raises p p' fault m origin) (hp : p.Lawful limit)
    (hloops : p.LoopsWait) (hawaits : p.Awaits (q.loop :: q.callers) q.exit made)
    (hdepth : q.depth < m.context.frames.length) (hstack : q.frame.stack = q.iterator :: q.below)
    (hover : ¬ p'.Calling q.depth) :
    made = none ∧ vm.isStopIteration m.context m.world.heap fault.value ∧ vm.Reacts q p' .stops ∨
      (made = none → ¬ vm.isStopIteration m.context m.world.heap fault.value) ∧
        vm.Reacts q p' (.raises fault m) := by
  obtain ⟨d, hiterates, above, entered, base, hframes, rfl, hsame⟩ :=
    h.above hp hloops hawaits hdepth
  obtain ⟨-, -, hwaits⟩ := h.keepsAbove hp hloops
  obtain ⟨next, hnext, rfl⟩ := h.proceed
  obtain ⟨g, rest, rfl, hg⟩ := hsame.requested hstack
  obtain ⟨r, hsearch⟩ := @exists_search vm m fault _ hwaits.ne_nil hwaits.chain [] rfl nofun
  rw [hsearch.eq] at hover ⊢
  rcases hsearch.above hframes (List.cons_ne_nil g rest) with ⟨m', rfl, hlength⟩ |
    ⟨hstops, exit, f, callers, iterator, stack, hd, hbase, hf, rfl⟩ | hpasses
  · rw [hsame.length_eq] at hlength
    exact absurd (hnext.calling_iff.2 hlength) hover
  · obtain ⟨rfl, rfl⟩ := List.cons.inj hbase
    obtain ⟨rfl, rfl⟩ := List.cons.inj (hg.symm.trans hf)
    obtain ⟨hmade, rfl⟩ := hiterates.eq_iteration_iff.1 hd
    exact .inl ⟨hmade, hstops, reacts_left hnext hsame rfl rfl⟩
  · have hentered := hpasses entered (List.mem_append_right above List.mem_cons_self)
    refine .inr ⟨fun hmade => hentered.goes q.exit (hiterates.eq_iteration_iff.2 ⟨hmade, rfl⟩), ?_⟩
    refine ⟨next, (above ++ [entered] ++ [g]).tail.map Frame.place, g :: rest, hnext, hsame, ?_⟩
    rw [← hsearch.eq, raiseFault_passed (hframes.trans (List.append_cons above entered _)) hpasses]
    rfl

theorem Vm.Raises.builtins (h : vm.Raises p p' fault m origin) :
    m.context.builtins = p.machine.context.builtins :=
  (h.calm (World.Changes.admits vm.host)).context.builtins

end Leaving

/-! ### All endings -/

theorem Progress.Awaits.link {base : List Frame} {exit : Nat}
    (h : (Progress.running (.link c) m).Awaits base exit made)
    (hdepth : m.context.frames.length = base.length) :
    SameFrames base m.context.frames ∧ c.delivery.Iterates exit made := by
  cases h with
  | linking c m hsame hd => exact ⟨hsame, hd⟩
  | above _ d hd habove => exact absurd hdepth (Nat.ne_of_gt habove.length_lt)

theorem Progress.Awaits.fetch {base : List Frame} {exit : Nat}
    (h : (Progress.running .fetch m).Awaits base exit made) :
    ∃ d : Delivery, d.Iterates exit made ∧ m.context.Above base d := by
  cases h with
  | above _ d hd habove => exact ⟨d, hd, habove⟩

theorem Progress.Awaits.waits {base : List Frame} {exit : Nat} {j : PromiseId}
    (h : (Progress.stopped (.suspended (.await j d)) m).Awaits base exit made)
    (hdepth : m.context.frames.length = base.length) :
    SameFrames base m.context.frames ∧ d.Iterates exit made := by
  cases h with
  | waiting _ _ _ hsame hd => exact ⟨hsame, hd⟩
  | above _ d hd habove => exact absurd hdepth (Nat.ne_of_gt habove.length_lt)

/-- A call that has waited for a promise is over only when it is resumed. -/
theorem Vm.Stage.resumed {j : PromiseId} {d : Delivery} {depth : Nat}
    (h : vm.Stage (.stopped (.suspended (.await j d)) m) p')
    (hdepth : depth ≤ m.context.frames.length) (hover : ¬ p'.Calling depth) :
    p' = vm.resumption (.await j d) m := by
  cases h with
  | resume k m hfatal hunhandled => rfl
  | outside k m world => exact absurd hdepth hover
  | setGlobal k m name v =>
    have hlength := (Context.sameFrames_mapRoot name v m.context.frames).length_eq
    exact absurd (hdepth.trans_eq hlength.symm) hover
  | setLoader k m loader => exact absurd hdepth hover

/-- The loop does what the ending of the call says. -/
theorem Vm.HookEnds.reacts {ending : HookEnding} {h : Heap} {base : ClassRef}
    (hends : vm.HookEnds stop q.depth made p p' ending) (hstage : vm.Stage p p')
    (hp : p.Lawful limit) (hloops : p.LoopsWait)
    (hawaits : p.Awaits (q.loop :: q.callers) q.exit made)
    (hstack : q.frame.stack = q.iterator :: q.below) (hover : ¬ p'.Calling q.depth)
    (hbuiltins : h.DefinesExceptions p.machine.context.builtins base)
    (hstop : p.machine.context.builtins.find? ExceptionKind.stopIteration.name =
      some (.classObj stop)) : vm.Reacts q p' ending := by
  cases hends with
  | leaves m v hm hdepth hv =>
    subst hm
    cases hstage
    obtain ⟨d, hd, habove⟩ := hawaits.fetch
    exact reacts_leaves hstack habove hd hdepth hv
  | replies c m v hm hdepth hclass hv =>
    subst hm
    cases hstage
    obtain ⟨hsame, hd⟩ := hawaits.link hdepth
    exact reacts_replies hstack hsame hd hclass hv
  | makes c m m₁ m' r hm hdepth hcontext hlink hrun =>
    subst hm
    cases hstage
    obtain ⟨hsame, hd⟩ := hawaits.link hdepth
    exact reacts_makes hstack hsame hd hcontext hlink hrun
  | resumes j d m v hm hdepth hv =>
    subst hm
    obtain ⟨hsame, hd⟩ := hawaits.waits hdepth
    rw [hstage.resumed hdepth.ge hover]
    exact reacts_resumes hstack hsame hd hv
  | failsToStop c m m' e hm hdepth herror hstops =>
    subst hm
    cases hstage
    obtain ⟨hsame, hd⟩ := hawaits.link hdepth
    have hm' := context_of_link_error hsame hd herror
    have hstops' : vm.stopsIteration m' e := (stopsIteration_iff (hm' ▸ hstop)).2 hstops
    exact reacts_failsToStop hstack herror hd hstops' (hm' ▸ hsame) (hm' ▸ hp.1.fault)
  | fails c m m' e hm hdepth herror hguest hgoes =>
    subst hm
    cases hstage
    obtain ⟨hsame, hd⟩ := hawaits.link hdepth
    have hm' := context_of_link_error hsame hd herror
    have hfollow := follow_loopError herror hd.loopExit?
    rw [if_neg (hgoes ∘ (stopsIteration_iff (hm' ▸ hstop)).1)] at hfollow
    exact reacts_fails vm.goesOnWith_afterInstruction hfollow hguest (hm' ▸ hsame)
      (hm' ▸ hbuiltins)
  | rejects j d m e hm hdepth hs hguest =>
    subst hm
    obtain ⟨hsame, hd⟩ := hawaits.waits hdepth
    rw [hstage.resumed hdepth.ge hover]
    simp only [resumption]
    rw [hs]
    exact reacts_fails (fun _ => .inl rfl) rfl hguest hsame hbuiltins
  | raisesToStop fault m origin hraises hdepth hstops hmade =>
    have hstops' : vm.isStopIteration m.context m.world.heap fault.value :=
      (isStopIteration_iff (hraises.builtins ▸ hstop)).2 hstops
    rcases hraises.reacts hp hloops hawaits hdepth hstack hover with
      ⟨-, -, hreacts⟩ | ⟨hgoes, -⟩
    · exact hreacts
    · exact absurd hstops' (hgoes hmade)
  | raises fault m origin hraises hdepth hgoes =>
    rcases hraises.reacts hp hloops hawaits hdepth hstack hover with
      ⟨hmade, hstops, -⟩ | ⟨-, hreacts⟩
    · exact absurd ((isStopIteration_iff (hraises.builtins ▸ hstop)).1 hstops) (hgoes hmade)
    · exact hreacts

end Reactions

/-! ## No other endings -/

/-- The call of a hook is over: a fatal error has ended the tasklet, or the call has come to one of
its endings. -/
def Vm.HookOver (vm : Vm) (stop : ClassRef) (depth : Nat) (made : Option Value)
    (p p' : Progress) : Prop :=
  (∃ m, p' = .stopped .fatal m) ∨ ∃ ending, vm.HookEnds stop depth made p p' ending

section Endings

variable {vm : Vm} {limit depth : Nat} {stop : ClassRef} {m m' : Machine} {p p' : Progress}
  {effect : Exec Control} {next : Machine → Progress} {f : Frame} {callers : List Frame}
  {e : Error} {c : PendingCall} {control : Control} {made : Option Value}

/-- Guest code cannot catch the error. -/
theorem Vm.conclude_fatal (hrun : effect m = .error e m') (hguest : ¬ e.isGuest)
    (next : Machine → Progress) : ∃ m₁, vm.conclude next effect m = .stopped .fatal m₁ := by
  rw [conclude_of_error hrun, if_neg hguest]
  exact ⟨_, rfl⟩

/-- The call goes on in the frames above the loop. -/
theorem Vm.calling_ok (hnext : GoesOnWith next) (hrun : effect m = .ok control m')
    (hlasts : control.Lasts) (hdepth : depth < m'.context.frames.length) :
    (vm.conclude next effect m).Calling depth := by
  rw [conclude_ok vm hrun]
  match control, hlasts with
  | .next, _ => exact hnext.calling_iff.2 hdepth
  | .call c, _ => exact hdepth.le
  | .suspend .start, _ => exact hdepth
  | .suspend .resume, _ => exact hdepth
  | .suspend (.await j d), _ => exact hdepth.le

theorem Vm.Raises.hookOver {fault : Fault} {origin : Origin}
    (hraises : vm.Raises p p' fault m origin) (hdepth : depth < m.context.frames.length) :
    vm.HookOver stop depth made p p' := by
  by_cases hstops : made = none ∧ m.world.heap.Stops stop fault.value
  · exact .inr ⟨_, .raisesToStop fault m origin hraises hdepth hstops.2 hstops.1⟩
  · exact .inr ⟨_, .raises fault m origin hraises hdepth (not_and.1 hstops)⟩

/-! ### Frames above the loop -/

section Above

variable (hperforms : vm.Performs p effect next)
include hperforms

/-- An error of an effect is raised, or ends the tasklet. -/
theorem Vm.Performs.raises_or_fatal (hrun : effect p.machine = .error e m')
    (hne : m'.context.frames ≠ []) :
    (∃ m₁, vm.conclude next effect p.machine = .stopped .fatal m₁) ∨ ∃ fault m₁,
      vm.Raises p (vm.conclude next effect p.machine) fault m₁ .afresh ∧
        m₁.context = m'.context := by
  by_cases hguest : e.isGuest
  · obtain ⟨f, callers, hframes⟩ := List.exists_cons_of_ne_nil hne
    cases hvalue : vm.exceptionOf e m' with
    | ok v m₁ =>
      have hm₁ := context_exceptionOf hvalue
      have hframes₁ : m₁.context.frames = f :: callers := hm₁ ▸ hframes
      refine .inr ⟨{ value := v, traceback := [f.place] }, m₁, .afresh effect next e m' f callers
        hperforms hrun hguest hvalue hframes₁ rfl ?_, hm₁⟩
      rw [conclude_of_error hrun, if_pos hguest, raiseError_eq, bind_ok hvalue,
        bind_ok (frame_cons hframes₁)]
    | error e' m₁ =>
      refine .inl ⟨failWith e' m₁, ?_⟩
      rw [conclude_of_error hrun, if_pos hguest, raiseError_eq, bind_error hvalue]
      rfl
  · exact .inl (conclude_fatal hrun hguest next)

/-- An effect above the loop fails. -/
theorem Vm.hookOver_error (hrun : effect p.machine = .error e m')
    (hdepth : depth < m'.context.frames.length) :
    vm.HookOver stop depth made p (vm.conclude next effect p.machine) := by
  have hne := List.ne_nil_of_length_pos (Nat.zero_lt_of_lt hdepth)
  rcases hperforms.raises_or_fatal hrun hne with hfatal | ⟨fault, m₁, hraises, hm₁⟩
  · exact .inl hfatal
  · exact hraises.hookOver (hm₁ ▸ hdepth)

theorem Vm.hookOver_of_followsIn (hfollows : FollowsIn f callers (effect p.machine))
    (hdepth : depth < (f :: callers).length)
    (hover : ¬ (vm.conclude next effect p.machine).Calling depth) :
    vm.HookOver stop depth made p (vm.conclude next effect p.machine) := by
  have hnext := hperforms.goesOnWith
  have hwithin {m' : Machine} (hwithin : m'.context.Within f callers) :
      depth < m'.context.frames.length := by
    obtain ⟨g, callers', hframes, -, hsame⟩ := hwithin
    rw [hframes, List.length_cons, hsame.length_eq]
    exact hdepth
  generalize hrun : effect p.machine = r at hfollows
  cases hfollows with
  | enters entered m' hm' =>
    refine absurd (calling_ok hnext hrun Control.lasts_next ?_) hover
    rw [hm', List.length_cons]
    exact Nat.lt_succ_of_lt hdepth
  | stays control m' h hlasts => exact absurd (calling_ok hnext hrun hlasts (hwithin h)) hover
  | fails e m' h => exact hookOver_error hperforms hrun (hwithin h)

end Above

theorem Machine.Reraises.length_eq {fault : Fault} {origin : Origin}
    (h : m.Reraises fault m' origin) : m'.context.frames.length = m.context.frames.length := by
  cases h with
  | again f callers next hframes => rw [hframes]; rfl
  | kept f callers next b rest hframes => rw [hframes]; rfl

/-- The instructions that raise a fault again do so, or stay within the frame. -/
theorem Vm.reraises_or_followsIn (vm : Vm) (hm : m.context.frames = f :: callers)
    (hi : m.context.instruction? = some .endFinally ∨ m.context.instruction? = some (.raise 0)) :
    (∃ fault m₁ origin, m.Reraises fault m₁ origin ∧
      vm.perform .fetch m = vm.raiseFault fault m₁) ∨
    FollowsIn f callers (vm.perform .fetch m) := by
  rw [Context.instruction?, hm, List.head?_cons, Option.bind_some, Option.map_eq_some_iff,
    Option.map_eq_some_iff] at hi
  obtain ⟨⟨i, next⟩, hd, rfl⟩ | ⟨⟨i, next⟩, hd, rfl⟩ := hi
  · have hperform := vm.perform_fetch hm hd
    rw [execute_endFinally] at hperform
    rcases (f.reading next).endFinally_cases with
      hend | ⟨b, rest, hf, hend | ⟨fault, hkind, hend⟩⟩
    · rw [hend] at hperform
      exact .inr (hperform ▸ .stays .next _ (.of_frames rfl rfl) trivial)
    · rw [hend] at hperform
      exact .inr (hperform ▸ .stays .next _ (.of_frames rfl rfl) trivial)
    · rw [hend] at hperform
      exact .inl ⟨fault, _, _, .kept f callers next b rest hm hd hf hkind, hperform⟩
  · have hperform := (vm.perform_fetch hm hd).trans (vm.execute_raise_zero _)
    have hkept : (m.withFrames (f.reading next :: callers)).context.handled = m.context.handled :=
      rfl
    rw [hkept] at hperform
    cases hhandled : m.context.handled with
    | none =>
      rw [hhandled] at hperform
      exact .inr (hperform ▸ .fails _ _ (.of_frames rfl rfl))
    | some fault =>
      rw [hhandled] at hperform
      exact .inl ⟨fault, _, _, .again f callers next hm hd hhandled, hperform⟩

/-- A frame above the loop hands its result over: to the loop, or to another frame above it. -/
theorem Vm.hookOver_returnFrom {g : Frame} {v : Value}
    (hm : m.context.frames = f :: callers) (hdepth : depth < m.context.frames.length)
    (hpos : 0 < depth) (hv : m.context.Leaves v)
    (hrun : vm.perform .fetch m = returnFrom v (m.withFrames (g :: callers)))
    (hover : ¬ (vm.advance .fetch m).Calling depth) :
    vm.HookOver stop depth made (.running .fetch m) (vm.advance .fetch m) := by
  by_cases hlength : m.context.frames.length = depth + 1
  · exact .inr ⟨_, .leaves m v rfl hlength hv⟩
  · rw [hm, List.length_cons] at hdepth hlength
    have habove : depth < callers.length := by omega
    obtain ⟨top, below, rfl⟩ :=
      List.exists_cons_of_length_pos (Nat.lt_trans hpos habove)
    have hwithin := vm.within_returnFrom v m g top below
    have hfollows : FollowsIn top below (vm.perform .fetch m) := by
      rw [hrun]
      cases hreturn : returnFrom v (m.withFrames (g :: top :: below)) with
      | error e m' =>
        rw [hreturn] at hwithin
        exact .fails e m' hwithin
      | ok control m' =>
        obtain rfl : control = .next := EndsIn.returnFrom v _ _ _ hreturn
        rw [hreturn] at hwithin
        exact .stays .next m' hwithin trivial
    exact hookOver_of_followsIn (.phase .fetch m) hfollows habove hover

theorem Vm.hookOver_fetch (vm : Vm) (hdepth : depth < m.context.frames.length) (hpos : 0 < depth)
    (hover : ¬ (vm.advance .fetch m).Calling depth) :
    vm.HookOver stop depth made (.running .fetch m) (vm.advance .fetch m) := by
  obtain ⟨f, callers, hm⟩ := List.exists_cons_of_length_pos (Nat.zero_lt_of_lt hdepth)
  have hfollows (hfollows : FollowsIn f callers (vm.perform .fetch m)) :
      vm.HookOver stop depth made (.running .fetch m) (vm.advance .fetch m) :=
    hookOver_of_followsIn (.phase .fetch m) hfollows (hm ▸ hdepth) hover
  have hfetches := vm.fetches_fetch hm
  generalize hrun : vm.perform .fetch m = r at hfetches
  cases hfetches with
  | stays control m' hwithin hlasts => exact hfollows (hrun ▸ .stays control m' hwithin hlasts)
  | fails e m' hwithin => exact hfollows (hrun ▸ .fails e m' hwithin)
  | enters entered c m' name bases hentered hwithin hm' =>
    refine absurd (calling_ok vm.goesOnWith_afterInstruction hrun Control.lasts_next ?_) hover
    obtain ⟨g, callers', hframes, -, hsame⟩ := hwithin
    rw [hm', hframes, List.length_cons, List.length_cons, hsame.length_eq]
    rw [hm, List.length_cons] at hdepth
    exact Nat.lt_succ_of_lt hdepth
  | returns v g hv hd hcallers => exact hookOver_returnFrom hm hdepth hpos hv hrun hover
  | finishes m' hwithin hcallers =>
    rw [hm, hcallers, List.length_singleton] at hdepth
    omega
  | raises fault g hd hi =>
    rcases vm.reraises_or_followsIn hm hi with ⟨fault', m₁, origin, hreraises, hperform⟩ | h
    · refine Raises.hookOver (.kept m origin rfl hreraises ?_) (hreraises.length_eq ▸ hdepth)
      rw [advance, conclude, catching_raiseFault hperform]
    · exact hfollows h

/-! ### Links of the call -/

/-- The call itself fails, or a native callee. -/
theorem Vm.hookOver_link_error {exit : Nat} (hlink : vm.link c m = .error e m')
    (hd : c.delivery.Iterates exit made) (hm : m'.context = m.context)
    (hdepth : m.context.frames.length = depth)
    (hstop : m.context.builtins.find? ExceptionKind.stopIteration.name =
      some (.classObj stop)) :
    vm.HookOver stop depth made (.running (.link c) m) (vm.advance (.link c) m) := by
  by_cases hstops : e.Stops m'.world.heap stop
  · exact .inr ⟨_, .failsToStop c m m' e rfl hdepth hlink hstops⟩
  · by_cases hguest : e.isGuest
    · exact .inr ⟨_, .fails c m m' e rfl hdepth hlink hguest hstops⟩
    · have hfollow := follow_loopError hlink hd.loopExit?
      rw [if_neg (hstops ∘ (stopsIteration_iff (hm ▸ hstop)).1)] at hfollow
      exact .inl (conclude_fatal hfollow hguest vm.afterInstruction)

theorem Vm.hookOver_link {loop : Frame} {exit : Nat}
    (hsame : SameFrames (loop :: callers) m.context.frames) (hd : c.delivery.Iterates exit made)
    (hstop : m.context.builtins.find? ExceptionKind.stopIteration.name = some (.classObj stop))
    (hover : ¬ (vm.advance (.link c) m).Calling (loop :: callers).length) :
    vm.HookOver stop (loop :: callers).length made (.running (.link c) m) (vm.advance (.link c) m) := by
  have hlinks := hookLinks_link hsame vm hd
  generalize hlink : vm.link c m = r at hlinks
  cases hlinks with
  | goesOn control m' h =>
    have hadvance : vm.advance (.link c) m = _ := conclude_ok vm (follow_ok hlink)
    rw [hadvance] at hover
    exact absurd (h _ vm.goesOnWith_afterInstruction).2 hover
  | replies control m' v hv hclass hcontrol hlength =>
    exact .inr ⟨_, .replies c m v rfl hsame.length_eq hclass hv⟩
  | makes r m₁ m' hm hrun hlength =>
    exact .inr ⟨_, .makes c m m₁ m' r rfl hsame.length_eq hm hlink hrun⟩
  | fails e m' hm => exact hookOver_link_error hlink hd hm hsame.length_eq hstop

/-! ### All stages -/

/-- A call that has waited for a promise is resumed. -/
theorem Vm.hookOver_resumption {j : PromiseId} {d : Delivery}
    (hdepth : m.context.frames.length = depth)
    (hover : ¬ (vm.resumption (.await j d) m).Calling depth) :
    vm.HookOver stop depth made (.stopped (.suspended (.await j d)) m)
      (vm.resumption (.await j d) m) := by
  cases hs : (m.world.promise j).settled with
  | none =>
    simp only [resumption, hs] at hover
    exact absurd hdepth.ge hover
  | some s =>
    rcases s.value_or_rejected with ⟨v, hv⟩ | ⟨e, rfl⟩
    · exact .inr ⟨_, .resumes j d m v rfl hdepth (.resumed j d m s v hs hv)⟩
    · by_cases hguest : e.isGuest
      · exact .inr ⟨_, .rejects j d m e rfl hdepth hs hguest⟩
      · simp only [resumption, hs]
        exact .inl (conclude_fatal rfl hguest _)

theorem Progress.calling_of_suspended (hdepth : depth < m.context.frames.length)
    (k : Continuation) : (Progress.stopped (.suspended k) m).Calling depth := by
  cases k with
  | start => exact hdepth
  | resume => exact hdepth
  | await j d => exact hdepth.le

/-- **Calls of hooks end in one of these ways.** The stage after which a call is over is one of its
endings, or a fatal error has ended the tasklet. -/
theorem Vm.Stage.hookOver {q : HookRequest} (hstage : vm.Stage p p') (hp : p.Lawful limit)
    (hawaits : p.Awaits (q.loop :: q.callers) q.exit made) (hover : ¬ p'.Calling q.depth)
    (hstop : p.machine.context.builtins.find? ExceptionKind.stopIteration.name =
      some (.classObj stop)) : vm.HookOver stop q.depth made p p' := by
  have hpos : 0 < q.depth := Nat.succ_pos _
  cases hawaits with
  | linking c m hsame hd =>
    cases hstage
    exact hookOver_link hsame hd hstop hover
  | waiting j d m hsame hd =>
    have hdepth : m.context.frames.length = q.depth := hsame.length_eq
    obtain rfl := hstage.resumed hdepth.ge hover
    exact hookOver_resumption hdepth hover
  | above _ d hd habove =>
    have hdepth : q.depth < p.machine.context.frames.length := habove.length_lt
    obtain ⟨f, callers, hm⟩ := List.exists_cons_of_ne_nil habove.ne_nil
    cases hstage with
    | advance phase m =>
      cases phase with
      | fetch => exact vm.hookOver_fetch hdepth hpos hover
      | link c =>
        exact hookOver_of_followsIn (.phase (.link c) m) (followsIn_follow vm hp.2 hm)
          (hm ▸ hdepth) hover
    | resume k m hfatal hunhandled =>
      cases k with
      | start => exact absurd hdepth hover
      | resume => exact absurd hdepth hover
      | await j d =>
        simp only [resumption] at hover ⊢
        cases hs : (m.world.promise j).settled with
        | none =>
          rw [hs] at hover
          exact absurd hdepth.le hover
        | some s =>
          rw [hs] at hover
          have hstays : vm.Stays m (handOver s d m) := .handOver hs hp.2
          exact hookOver_of_followsIn (.handOver j d m s hs)
            (hstays.followsIn (.of_frames hm rfl)) (hm ▸ hdepth) hover
    | outside k m world =>
      have hcalling := Progress.calling_of_suspended (m := { m with world }) hdepth k
      exact (hover hcalling).elim
    | setGlobal k m name v =>
      have hlength := (Context.sameFrames_mapRoot name v m.context.frames).length_eq
      have hdepth' := Nat.lt_of_lt_of_eq hdepth hlength.symm
      exact (hover (Progress.calling_of_suspended hdepth' k)).elim
    | setLoader k m loader =>
      have hcalling := Progress.calling_of_suspended
        (m := { m with context := { m.context with loader } }) hdepth k
      exact (hover hcalling).elim

end Endings

end TaskletMachine
