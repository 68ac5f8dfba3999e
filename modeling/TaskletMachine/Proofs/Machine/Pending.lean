import TaskletMachine.Proofs.Machine.Loops

/-!
# Calls that are under way

A call starts in a frame that has given its operands away, goes through links, frames and
suspensions, and in the end hands a result over to that frame. Until then either the run is about to
follow a link of the call, or it waits for a promise whose result is the result of the call, or there
are frames above that of the caller, the lowest of which hands its result over to it. The caller and
the frames below it stand still all the time.

## Main definitions

* `Delivery.Pushes`: deliveries that push the result, or what has taken its place.
* `FramesAbove`, `Progress.Holds`: the stages of a call.
* `Vm.Results`: the ways in which the callee comes to a result.
* `Vm.Throws`: steps that raise an exception or fail.
* `Vm.CallStep`, `Vm.callStep_fetch`, `Vm.callStep_link`, `Vm.callStep_resumption`: what a step does
  to a call.
-/
namespace TaskletMachine

open Exec

/-! ## Deliveries that push -/

/-- The delivery pushes the result; if something has taken its place, it pushes that. -/
inductive Delivery.Pushes : Option Value → Delivery → Prop
  | push : Pushes none .push
  | replace {made : Option Value} (v : Value) {next : Delivery} (h : Pushes made next) :
      Pushes (made.or (some v)) (.replace v next)

section Pushes

variable {made : Option Value} {d : Delivery}

theorem Delivery.Pushes.loopExit? (h : d.Pushes made) : d.loopExit? = none := by
  induction h with
  | push => rfl
  | replace v h ih => exact ih

theorem deliver_of_pushes (h : d.Pushes made) (v : Value) :
    deliver v d = push (made.getD v) := by
  induction h generalizing v with
  | push => rfl
  | @replace made other next h ih =>
    rw [deliver, ih other]
    cases made <;> rfl

end Pushes

/-! ## Frames above a caller -/

theorem SameFrames.of_append {xs ys frames : List Frame} (h : SameFrames (xs ++ ys) frames) :
    ∃ xs' ys', frames = xs' ++ ys' ∧ SameFrames xs xs' ∧ SameFrames ys ys' := by
  induction xs generalizing frames with
  | nil => exact ⟨[], frames, rfl, .refl [], h⟩
  | cons f xs ih =>
    obtain ⟨g, rest, rfl, houtline, hstanding, hrest⟩ := SameFrames.of_cons h
    obtain ⟨xs', ys', rfl, hxs, hys⟩ := ih hrest
    exact ⟨g :: xs', ys', rfl, .cons houtline hstanding hxs, hys⟩

/-- There are frames above those that stand still, and the lowest of them hands its result over to
them by pushing it, or what has taken its place. -/
def FramesAbove (base : List Frame) (made : Option Value) (frames : List Frame) : Prop :=
  ∃ above entered base', frames = above ++ entered :: base' ∧ entered.delivery.Pushes made ∧
    SameFrames base base'

namespace FramesAbove

variable {base frames callers : List Frame} {made : Option Value} {f : Frame} {c : Context}

theorem length_lt (h : FramesAbove base made frames) : base.length < frames.length := by
  obtain ⟨above, entered, base', rfl, _, hsame⟩ := h
  rw [List.length_append, List.length_cons, hsame.length_eq]
  omega

theorem ne_nil (h : FramesAbove base made frames) : frames ≠ [] :=
  List.ne_nil_of_length_pos (Nat.zero_lt_of_lt h.length_lt)

theorem cons (h : FramesAbove base made frames) (f : Frame) :
    FramesAbove base made (f :: frames) := by
  obtain ⟨above, entered, base', rfl, hd, hsame⟩ := h
  exact ⟨f :: above, entered, base', rfl, hd, hsame⟩

/-- The frames stand still. -/
theorem of_sameFrames {frames' : List Frame}
    (h : FramesAbove base made frames) (hsame : SameFrames frames frames') :
    FramesAbove base made frames' := by
  obtain ⟨above, entered, base', rfl, hd, hbase⟩ := h
  obtain ⟨above', rest', rfl, _, hrest⟩ := hsame.of_append
  obtain ⟨entered', base'', rfl, houtline, _, hbase'⟩ := hrest.of_cons
  have hd' : entered'.delivery = entered.delivery := congrArg Prod.snd houtline
  exact ⟨above', entered', base'', rfl, hd' ▸ hd, hbase.trans hbase'⟩

/-- Changes within the innermost frame. -/
theorem within (h : FramesAbove base made (f :: callers)) (hc : c.Within f callers) :
    FramesAbove base made c.frames := by
  obtain ⟨above, entered, base', hframes, hd, hsame⟩ := h
  obtain ⟨g, callers', hc, hg, hcallers⟩ := hc
  rw [hc]
  cases above with
  | nil =>
    cases hframes
    exact ⟨[], g, callers', rfl, hg ▸ hd, hsame.trans hcallers⟩
  | cons f' above =>
    have habove : FramesAbove base made callers :=
      ⟨above, entered, base', (List.cons.inj hframes).2, hd, hsame⟩
    exact (habove.of_sameFrames hcallers).cons g

theorem of_append {dropped rest : List Frame} (h : FramesAbove base made (dropped ++ rest))
    (hrest : base.length < rest.length) : FramesAbove base made rest := by
  obtain ⟨above, entered, base', hframes, hd, hsame⟩ := h
  rcases List.append_eq_append_iff.1 hframes with ⟨above', rfl, hrest'⟩ | ⟨tail, rfl, htail⟩
  · exact ⟨above', entered, base', hrest', hd, hsame⟩
  · cases tail with
    | nil => exact ⟨[], entered, base', htail.symm, hd, hsame⟩
    | cons f tail =>
      have hlength := congrArg List.length htail
      rw [List.length_cons, List.length_append, List.length_cons, hsame.length_eq] at hlength
      omega

/-- A fault leaves frames above, or it gets to the caller. -/
theorem unwinds (h : FramesAbove base made frames) (hc : c.Unwinds frames) :
    FramesAbove base made c.frames ∨ c.frames.length ≤ base.length := by
  obtain ⟨dropped, f, callers, rfl, hwithin⟩ := hc
  by_cases hlength : base.length < (f :: callers).length
  · exact .inl ((h.of_append hlength).within hwithin)
  · obtain ⟨g, callers', hc, _, hsame⟩ := hwithin
    rw [hc, List.length_cons, hsame.length_eq]
    rw [List.length_cons] at hlength
    exact .inr (by omega)

end FramesAbove

theorem Context.Unwinds.length_le {frames : List Frame} {c : Context} (h : c.Unwinds frames) :
    c.frames.length ≤ frames.length := by
  obtain ⟨dropped, f, callers, rfl, g, callers', hc, _, hsame⟩ := h
  rw [hc, List.length_append, List.length_cons, List.length_cons, hsame.length_eq]
  omega

/-! ## Stages of a call -/

/-- Whether a call from a stack of so many frames is under way: the run is about to follow a link of
it, or it waits for its result, or there are more frames. -/
def Progress.Calling (depth : Nat) : Progress → Prop
  | .running .fetch m => depth < m.context.frames.length
  | .running (.link _) m => depth ≤ m.context.frames.length
  | .stopped (.suspended (.await _ _)) m => depth ≤ m.context.frames.length
  | .stopped (.suspended _) m => depth < m.context.frames.length
  | .stopped _ _ => False

/-- The frames of the caller stand still, and the result of the call will be pushed there, or what
has taken its place. -/
inductive Progress.Holds (base : List Frame) (made : Option Value) : Progress → Prop
  | linking (c : PendingCall) (m : Machine) (hsame : SameFrames base m.context.frames)
      (hd : c.delivery.Pushes made) : Holds base made (.running (.link c) m)
  | waiting (p : PromiseId) (d : Delivery) (m : Machine)
      (hsame : SameFrames base m.context.frames) (hd : d.Pushes made) :
      Holds base made (.stopped (.suspended (.await p d)) m)
  | above (p : Progress) (h : FramesAbove base made p.machine.context.frames) : Holds base made p

/-- The caller has got a value, and its frame and those below it stand otherwise as they stood. -/
def Progress.Gets (caller : Frame) (callers : List Frame) (v : Value) (p : Progress) : Prop :=
  SameFrames ({ caller with stack := v :: caller.stack } :: callers) p.machine.context.frames

/-- What comes next is an instruction, now or when the tasklet is resumed. -/
def Progress.GoesOn : Progress → Prop
  | .running .fetch _ => True
  | .stopped (.suspended .resume) _ => True
  | _ => False

/-- The instance that the next link of the call makes, if the callee is a class. -/
def Progress.made? (depth : Nat) : Progress → Option Value
  | .running (.link c) m =>
    match c.callee with
    | .classObj r => if m.context.frames.length = depth then some (m.made r) else none
    | _ => none
  | _ => none

/-- The value of a settled promise. -/
def Settlement.value? : Settlement → Option Value
  | .value v => some v
  | .noValue => some .none
  | .rejected _ => none

/-- The ways in which the callee comes to a result. -/
inductive Vm.Results (vm : Vm) : Progress → Value → Prop
  /-- The frame of the callee is left. -/
  | leaves (m : Machine) (v : Value) (h : m.context.Leaves v) : Results vm (.running .fetch m) v
  /-- A native callee replies with a value. -/
  | value (c : PendingCall) (m : Machine) (effect : Effect Reply) (v : Value) (w : World)
      (heffect : c.effect? vm.host m.world.heap = some effect)
      (hreply : effect m.world = .ok (.value v) w) : Results vm (.running (.link c) m) v
  /-- A native callee replies without a value, or gives way to other tasklets. -/
  | noValue (c : PendingCall) (m : Machine) (effect : Effect Reply) (reply : Reply) (w : World)
      (heffect : c.effect? vm.host m.world.heap = some effect)
      (hreply : effect m.world = .ok reply w) (h : reply = .noValue ∨ reply = .yield) :
      Results vm (.running (.link c) m) .none
  /-- A native callee waits for a promise that is settled. -/
  | settled (c : PendingCall) (m : Machine) (effect : Effect Reply) (p : PromiseId) (w : World)
      (s : Settlement) (v : Value) (heffect : c.effect? vm.host m.world.heap = some effect)
      (hreply : effect m.world = .ok (.await p) w) (hs : (w.promise p).settled = some s)
      (hv : s.value? = some v) : Results vm (.running (.link c) m) v
  /-- A class without an initializer makes an instance. -/
  | makes (c : PendingCall) (m : Machine) (r : ClassRef) (hcallee : c.callee = .classObj r) :
      Results vm (.running (.link c) m) (m.made r)
  /-- The promise that the call has waited for is settled. -/
  | resumed (p : PromiseId) (d : Delivery) (m : Machine) (s : Settlement) (v : Value)
      (hs : (m.world.promise p).settled = some s) (hv : s.value? = some v) :
      Results vm (.stopped (.suspended (.await p d)) m) v

/-- Steps that raise an exception or fail. -/
inductive Vm.Throws (vm : Vm) : Progress → Prop
  | error (phase : Phase) (m m' : Machine) (e : Error) (h : vm.perform phase m = .error e m') :
      Throws vm (.running phase m)
  /-- A fault is raised again. -/
  | again (m m' : Machine) (fault : Fault)
      (hi : m.context.instruction? = some .endFinally ∨ m.context.instruction? = some (.raise 0))
      (h : vm.perform .fetch m = vm.raiseFault fault m') : Throws vm (.running .fetch m)
  /-- The result of a promise ends in an error where it is handed over. -/
  | handedOver (p : PromiseId) (d : Delivery) (m m' : Machine) (s : Settlement) (e : Error)
      (hs : (m.world.promise p).settled = some s) (h : handOver s d m = .error e m') :
      Throws vm (.stopped (.suspended (.await p d)) m)

/-- What a step does to a call: it goes on, or the caller gets its result, or an exception is raised
which may end it. The value that has taken the place of the result is that after the step. -/
inductive Vm.CallStep (vm : Vm) (caller : Frame) (callers : List Frame) (made : Option Value)
    (p p' : Progress) : Prop
  | goesOn (hholds : p'.Holds (caller :: callers) made)
      (hcalling : p'.Calling (caller :: callers).length)
  | ends (v : Value) (hv : vm.Results p v) (hgets : p'.Gets caller callers (made.getD v))
      (hcalling : ¬ p'.Calling (caller :: callers).length) (hgoes : p'.GoesOn)
  | throws (h : vm.Throws p)
      (hholds : p'.Calling (caller :: callers).length → p'.Holds (caller :: callers) made)

/-! ## After a result -/

theorem Control.lasts_next : Control.next.Lasts :=
  trivial

/-- What comes after an instruction: the next one, now or later. -/
def Vm.GoesOnWith (next : Machine → Progress) : Prop :=
  ∀ m, next m = .running .fetch m ∨ next m = .stopped (.suspended .resume) m

theorem Vm.goesOnWith_afterInstruction (vm : Vm) : GoesOnWith vm.afterInstruction := by
  intro m
  unfold afterInstruction
  split
  · exact .inr rfl
  · exact .inl rfl

namespace Vm

variable {vm : Vm} {m m' : Machine} {base : List Frame} {made : Option Value}
  {next : Machine → Progress}

theorem GoesOnWith.machine_eq (h : GoesOnWith next) (m : Machine) : (next m).machine = m := by
  rcases h m with h | h <;> rw [h] <;> rfl

theorem GoesOnWith.goesOn (h : GoesOnWith next) (m : Machine) : (next m).GoesOn := by
  rcases h m with h | h <;> rw [h] <;> trivial

theorem GoesOnWith.calling_iff (h : GoesOnWith next) {depth : Nat} :
    (next m).Calling depth ↔ depth < m.context.frames.length := by
  rcases h m with h | h <;> rw [h] <;> rfl

theorem conclude_ok (vm : Vm) {effect : Exec Control} {control : Control}
    (h : effect m = .ok control m') :
    vm.conclude next effect m = proceed next (.ok control m') := by
  rw [conclude, catching, h]

/-- The call goes on after a result in the frames above the caller. -/
theorem proceed_above (hnext : GoesOnWith next) {control : Control} (hlasts : control.Lasts)
    (h : FramesAbove base made m'.context.frames) :
    (proceed next (.ok control m')).Holds base made ∧
      (proceed next (.ok control m')).Calling base.length := by
  have hlength := h.length_lt
  cases control with
  | next =>
    refine ⟨.above _ ?_, hnext.calling_iff.2 hlength⟩
    rw [proceed, hnext.machine_eq]
    exact h
  | call c => exact ⟨.above _ h, Nat.le_of_lt hlength⟩
  | suspend k =>
    cases k with
    | start => exact ⟨.above _ h, hlength⟩
    | resume => exact ⟨.above _ h, hlength⟩
    | await p d => exact ⟨.above _ h, Nat.le_of_lt hlength⟩
  | finished => exact hlasts.elim
  | faulted => exact hlasts.elim

/-- After a fault the call goes on if frames above the caller are left. -/
theorem proceed_raised (hnext : GoesOnWith next) {r : EStateM.Result Error Machine Control}
    (hends : ∀ control m', r = .ok control m' → control = .next ∨ control = .faulted)
    (hfalls : FramesAbove base made (left r).context.frames ∨
      (left r).context.frames.length ≤ base.length)
    (hcalling : (proceed next r).Calling base.length) : (proceed next r).Holds base made := by
  cases r with
  | error e m' => exact hcalling.elim
  | ok control m' =>
    rcases hends control m' rfl with rfl | rfl
    · have hlength : base.length < m'.context.frames.length := hnext.calling_iff.1 hcalling
      rcases hfalls with h | h
      · refine .above _ ?_
        rw [proceed, hnext.machine_eq]
        exact h
      · exact absurd hlength (Nat.not_lt.2 h)
    · exact hcalling.elim

theorem unwinds_falls {frames : List Frame} {c : Context} (hc : c.Unwinds frames)
    (h : FramesAbove base made frames ∨ frames.length ≤ base.length) :
    FramesAbove base made c.frames ∨ c.frames.length ≤ base.length := by
  rcases h with h | h
  · exact h.unwinds hc
  · exact .inr (Nat.le_trans hc.length_le h)

/-- An error is raised, or ends the tasklet. -/
theorem conclude_error (hnext : GoesOnWith next) {effect : Exec Control} {e : Error}
    (he : effect m = .error e m') (hne : m'.context.frames ≠ [])
    (hfalls : FramesAbove base made m'.context.frames ∨
      m'.context.frames.length ≤ base.length)
    (hcalling : (vm.conclude next effect m).Calling base.length) :
    (vm.conclude next effect m).Holds base made := by
  rw [conclude, catching, he] at hcalling ⊢
  dsimp only at hcalling ⊢
  by_cases hguest : e.isGuest
  · rw [if_pos hguest] at hcalling ⊢
    exact proceed_raised hnext (fun control m₁ h => EndsIn.raiseError e m' control m₁ h)
      (unwinds_falls (unwinds_raiseError vm e hne) hfalls) hcalling
  · rw [if_neg hguest] at hcalling
    exact hcalling.elim

/-! ## Handing over -/

theorem push_cons {f : Frame} {callers : List Frame} (hm : m.context.frames = f :: callers)
    (v : Value) :
    push v m = .ok () (m.withFrames ({ f with stack := v :: f.stack } :: callers)) :=
  modifyFrame_cons hm _

/-- The caller gets the result, or what has taken its place. -/
theorem deliver_gets {caller : Frame} {callers : List Frame} {d : Delivery}
    (hsame : SameFrames (caller :: callers) m.context.frames) (hd : d.Pushes made) (v : Value) :
    ∃ m', deliver v d m = .ok () m' ∧
      SameFrames ({ caller with stack := made.getD v :: caller.stack } :: callers)
        m'.context.frames := by
  obtain ⟨g, rest, hframes, houtline, hstanding, hrest⟩ := hsame.of_cons
  rw [deliver_of_pushes hd, push_cons hframes]
  refine ⟨_, rfl, .cons houtline ?_ hrest⟩
  have hstack : g.stack = caller.stack := congrArg (·.2.2.2) hstanding
  have hunit : g.unit = caller.unit := congrArg (·.1) hstanding
  have hip : g.ip = caller.ip := congrArg (·.2.1) hstanding
  have hinstructionIp : g.instructionIp = caller.instructionIp := congrArg (·.2.2.1) hstanding
  simp only [Frame.standing, hstack, hunit, hip, hinstructionIp]

/-- A frame that hands its result over to the caller. -/
theorem returnFrom_gets {caller entered : Frame} {callers base : List Frame}
    (hsame : SameFrames (caller :: callers) base) (hd : entered.delivery.Pushes made) (v : Value) :
    ∃ m', returnFrom v (m.withFrames (entered :: base)) = .ok .next m' ∧
      SameFrames ({ caller with stack := made.getD v :: caller.stack } :: callers)
        m'.context.frames := by
  obtain ⟨g, rest, rfl, -, -, -⟩ := hsame.of_cons
  have hfrom : deliverFrom entered v = deliver v entered.delivery := by
    unfold deliverFrom
    split
    · next hclass =>
      rw [hclass] at hd
      cases hd
    · rfl
  obtain ⟨m', hdeliver, hgets⟩ := deliver_gets (m := m.withFrames (g :: rest)) hsame hd v
  refine ⟨m', ?_, hgets⟩
  have hrun : returnFrom v (m.withFrames (entered :: g :: rest)) =
      (do deliverFrom entered v; return .next : Exec Control) (m.withFrames (g :: rest)) := rfl
  rw [hrun, hfrom, bind_ok hdeliver]
  rfl

/-- An error of a link stays an error if no loop waits for the result. -/
theorem follow_of_loopExit? {c : PendingCall} (h : c.delivery.loopExit? = none) :
    vm.follow c m = vm.link c m := by
  unfold follow
  cases vm.link c m with
  | ok control m' => rfl
  | error e m' => rw [h]

/-! ## Instructions -/

section Steps

variable {caller : Frame} {callers : List Frame}

/-- The caller gets the result of the call. -/
theorem callStep_ends {phase : Phase} {control : Control} {v : Value}
    (hrun : vm.perform phase m = .ok control m')
    (hcontrol : control = .next ∨ control = .suspend .resume)
    (hv : vm.Results (.running phase m) v)
    (hgets : SameFrames ({ caller with stack := made.getD v :: caller.stack } :: callers)
      m'.context.frames) :
    vm.CallStep caller callers made (.running phase m) (vm.advance phase m) := by
  have hnext := vm.goesOnWith_afterInstruction
  have hlength := hgets.length_eq
  have hadvance : vm.advance phase m = proceed vm.afterInstruction (.ok control m') :=
    conclude_ok vm hrun
  rcases hcontrol with rfl | rfl
  · refine .ends v hv ?_ ?_ ?_
    · rw [hadvance, proceed, Progress.Gets, hnext.machine_eq]
      exact hgets
    · rw [hadvance, proceed, hnext.calling_iff, hlength]
      exact Nat.lt_irrefl _
    · rw [hadvance]
      exact hnext.goesOn m'
  · refine .ends v hv ?_ ?_ ?_
    · rw [hadvance]
      exact hgets
    · rw [hadvance]
      exact Nat.not_lt.2 (Nat.le_of_eq hlength)
    · rw [hadvance]
      trivial

/-- The call goes on in the frames above the caller. -/
theorem callStep_goesOn {next : Machine → Progress} {effect : Exec Control} {control : Control}
    {p : Progress} (hnext : GoesOnWith next) (hrun : effect m = .ok control m')
    (hlasts : control.Lasts) (h : FramesAbove (caller :: callers) made m'.context.frames) :
    vm.CallStep caller callers made p (vm.conclude next effect m) := by
  obtain ⟨hholds, hcalling⟩ := proceed_above hnext hlasts h
  rw [← conclude_ok vm hrun] at hholds hcalling
  exact .goesOn hholds hcalling

/-- A frame above the caller hands its result over: to the caller or to another one above it. -/
theorem callStep_returnFrom {f g : Frame} {rest : List Frame} {v : Value}
    (h : FramesAbove (caller :: callers) made (f :: rest)) (hd : g.delivery = f.delivery)
    (hv : m.context.Leaves v) (hrest : rest ≠ [])
    (hrun : vm.perform .fetch m = returnFrom v (m.withFrames (g :: rest))) :
    vm.CallStep caller callers made (.running .fetch m) (vm.advance .fetch m) := by
  have hnext := vm.goesOnWith_afterInstruction
  obtain ⟨above, entered, base, habove, hpushes, hsame⟩ := h
  cases above with
  | nil =>
    cases habove
    rw [← hd] at hpushes
    obtain ⟨m', hreturn, hgets⟩ := returnFrom_gets hsame hpushes v
    rw [hreturn] at hrun
    exact callStep_ends hrun (.inl rfl) (.leaves m v hv) hgets
  | cons f' above =>
    have hkept : FramesAbove (caller :: callers) made rest :=
      ⟨above, entered, base, (List.cons.inj habove).2, hpushes, hsame⟩
    obtain ⟨top, below, rfl⟩ := List.exists_cons_of_ne_nil hrest
    have hwithin := vm.within_returnFrom v m g top below
    cases hreturn : returnFrom v (m.withFrames (g :: top :: below)) with
    | error e m' =>
      rw [hreturn] at hrun hwithin
      exact .throws (.error _ _ _ _ hrun)
        (conclude_error hnext hrun hwithin.ne_nil (.inl (hkept.within hwithin)))
    | ok control m' =>
      obtain rfl : control = .next := EndsIn.returnFrom v _ _ _ hreturn
      rw [hreturn] at hrun hwithin
      exact callStep_goesOn hnext hrun Control.lasts_next (hkept.within hwithin)

/-- A fault is raised again in a frame above the caller. -/
theorem callStep_raiseFault {g : Frame} {rest : List Frame} {fault : Fault}
    (h : FramesAbove (caller :: callers) made (g :: rest))
    (hi : m.context.instruction? = some .endFinally ∨ m.context.instruction? = some (.raise 0))
    (hrun : vm.perform .fetch m = vm.raiseFault fault (m.withFrames (g :: rest))) :
    vm.CallStep caller callers made (.running .fetch m) (vm.advance .fetch m) := by
  have hnext := vm.goesOnWith_afterInstruction
  have hne : (m.withFrames (g :: rest)).context.frames ≠ [] := List.cons_ne_nil g rest
  have hunwound := unwinds_raiseFault vm fault hne
  have hfalls := unwinds_falls hunwound (.inl h)
  refine .throws (.again m _ fault hi hrun) fun hcalling => ?_
  cases hfault : vm.raiseFault fault (m.withFrames (g :: rest)) with
  | error e m' =>
    rw [hfault] at hrun hfalls hunwound
    exact conclude_error hnext hrun hunwound.ne_nil hfalls hcalling
  | ok control m' =>
    rw [hfault] at hrun hfalls
    have hends (control' : Control) (m₁ : Machine)
        (h : EStateM.Result.ok control m' = .ok control' m₁) :=
      EndsIn.raiseFault fault _ control' m₁ (hfault.trans h)
    rw [advance, conclude_ok vm hrun] at hcalling ⊢
    exact proceed_raised hnext hends hfalls hcalling

/-- The next instruction is executed in the frames above the caller. -/
theorem callStep_fetch (vm : Vm) (h : FramesAbove (caller :: callers) made m.context.frames) :
    vm.CallStep caller callers made (.running .fetch m) (vm.advance .fetch m) := by
  have hnext := vm.goesOnWith_afterInstruction
  obtain ⟨f, rest, hframes⟩ := List.exists_cons_of_ne_nil h.ne_nil
  have hfetches := fetches_fetch vm hframes
  rw [hframes] at h
  generalize hrun : vm.perform .fetch m = r at hfetches
  cases hfetches with
  | stays control m' hwithin hlasts =>
    exact callStep_goesOn hnext hrun hlasts (h.within hwithin)
  | fails e m' hwithin =>
    exact .throws (.error _ _ _ _ hrun)
      (conclude_error hnext hrun hwithin.ne_nil (.inl (h.within hwithin)))
  | enters entered c m' name bases hentered hwithin hm' =>
    refine callStep_goesOn hnext hrun Control.lasts_next ?_
    rw [hm']
    exact (h.within hwithin).cons entered
  | finishes m' hwithin hcallers =>
    have hlength := h.length_lt
    rw [hcallers, List.length_cons, List.length_singleton] at hlength
    omega
  | raises fault g hd hi =>
    have hwithin : (m.withFrames (g :: rest)).context.Within f rest := .of_frames rfl hd
    exact callStep_raiseFault (h.within hwithin) hi hrun
  | returns v g hv hd hcallers => exact callStep_returnFrom h hd hv hcallers hrun

/-! ## Links -/

/-- What can become of the frames when a link of a call is followed: one is entered, or only the
innermost one changes. -/
inductive FollowsIn (f : Frame) (rest : List Frame) : EStateM.Result Error Machine Control → Prop
  | enters (entered : Frame) (m' : Machine) (hm' : m'.context.frames = entered :: f :: rest) :
      FollowsIn f rest (.ok .next m')
  | stays (control : Control) (m' : Machine) (h : m'.context.Within f rest)
      (hlasts : control.Lasts) : FollowsIn f rest (.ok control m')
  | fails (e : Error) (m' : Machine) (h : m'.context.Within f rest) : FollowsIn f rest (.error e m')

theorem Stays.followsIn {f : Frame} {rest : List Frame} {r : EStateM.Result Error Machine Control}
    (h : vm.Stays m r) (hm : m.context.Within f rest) : FollowsIn f rest r := by
  cases r with
  | ok control m' => exact .stays control m' (hm.of_quiet h.1) h.2.2
  | error e m' => exact .fails e m' (hm.of_quiet h.1.context)

theorem followsIn_link (vm : Vm) {c : PendingCall} {f : Frame} {rest : List Frame}
    (hd : c.delivery.Plain) (hm : m.context.frames = f :: rest) :
    FollowsIn f rest (vm.link c m) := by
  have hwithin {m' : Machine} (hm' : m'.context = m.context) : m'.context.Within f rest :=
    .of_frames (by rw [hm', hm]) rfl
  have hlinks := vm.links_link c m
  generalize vm.link c m = r at hlinks
  cases hlinks with
  | call c' m' hcallee hm' hd' => exact .stays _ m' (hwithin hm') trivial
  | construct r c' m' hcallee hm' hd' => exact .stays _ m' (hwithin hm') trivial
  | make r m' hcallee hm' =>
    have hstays : vm.Stays m' _ := Steady.deliver (m.made r) hd m'
    exact hstays.followsIn (hwithin hm')
  | enter r g m' hcallee hm' hd' => exact .enters g m' (by rw [hm', hm])
  | replies effect reply w heffect hreply =>
    have hstays : vm.Stays { m with world := w } _ := Steady.complete reply hd _
    exact hstays.followsIn (hwithin rfl)
  | error e m' hm' => exact .fails e m' (hwithin hm')

theorem followsIn_follow (vm : Vm) {c : PendingCall} {f : Frame} {rest : List Frame}
    (hd : c.delivery.Plain) (hm : m.context.frames = f :: rest) :
    FollowsIn f rest (vm.follow c m) := by
  have hlink := followsIn_link vm hd hm
  unfold follow
  cases h : vm.link c m with
  | ok control m' =>
    rw [h] at hlink
    exact hlink
  | error e m' =>
    rw [h] at hlink
    dsimp only
    split
    · next exit hexit =>
      split
      · cases hlink with
        | fails _ _ hwithin =>
          have hstays : vm.Stays m' _ := Steady.endLoop exit m'
          exact hstays.followsIn hwithin
      · exact hlink
    · exact hlink

/-- What an effect in the frames above the caller does to the call. -/
theorem callStep_of_followsIn {next : Machine → Progress} {effect : Exec Control} {p : Progress}
    {f : Frame} {rest : List Frame} (hnext : GoesOnWith next) (hfollows : FollowsIn f rest (effect m))
    (h : FramesAbove (caller :: callers) made (f :: rest))
    (hthrows : ∀ e m', effect m = .error e m' → vm.Throws p) :
    vm.CallStep caller callers made p (vm.conclude next effect m) := by
  generalize hrun : effect m = r at hfollows
  cases hfollows with
  | enters entered m' hm' =>
    refine callStep_goesOn hnext hrun Control.lasts_next ?_
    rw [hm']
    exact h.cons entered
  | stays control m' hwithin hlasts =>
    exact callStep_goesOn hnext hrun hlasts (h.within hwithin)
  | fails e m' hwithin =>
    exact .throws (hthrows e m' hrun)
      (conclude_error hnext hrun hwithin.ne_nil (.inl (h.within hwithin)))

/-- A link of a call that a frame above the caller has started. -/
theorem callStep_follow (vm : Vm) {c : PendingCall} (hc : c.delivery.Plain)
    (h : FramesAbove (caller :: callers) made m.context.frames) :
    vm.CallStep caller callers made (.running (.link c) m) (vm.advance (.link c) m) := by
  obtain ⟨f, rest, hframes⟩ := List.exists_cons_of_ne_nil h.ne_nil
  exact callStep_of_followsIn vm.goesOnWith_afterInstruction (followsIn_follow vm hc hframes)
    (hframes ▸ h) fun e m' he => .error _ _ _ _ he

/-! ## Links of the call itself -/

theorem made?_of_class {c : PendingCall} {r : ClassRef} {depth : Nat}
    (hcallee : c.callee = .classObj r) (hdepth : m.context.frames.length = depth) :
    (Progress.running (.link c) m).made? depth = some (m.made r) := by
  simp only [Progress.made?, hcallee, if_pos hdepth]

theorem made?_of_ne_class {c : PendingCall} {depth : Nat} (hcallee : ∀ r, c.callee ≠ .classObj r) :
    (Progress.running (.link c) m).made? depth = none := by
  simp only [Progress.made?]

theorem ne_class_of_effect? {c : PendingCall} {host : Host} {h : Heap} {effect : Effect Reply}
    (heffect : c.effect? host h = some effect) (r : ClassRef) : c.callee ≠ .classObj r := by
  intro hcallee
  rw [PendingCall.effect?, hcallee] at heffect
  cases heffect

/-- The result of a promise ends the call, or ends in an error. -/
theorem handOver_gets {d : Delivery} (hsame : SameFrames (caller :: callers) m.context.frames)
    (hd : d.Pushes made) (s : Settlement) :
    (∃ v m', s.value? = some v ∧ handOver s d m = .ok .next m' ∧
      SameFrames ({ caller with stack := made.getD v :: caller.stack } :: callers)
        m'.context.frames) ∨
    ∃ e, handOver s d m = .error e m := by
  cases s with
  | value v =>
    obtain ⟨m', hdeliver, hgets⟩ := deliver_gets hsame hd v
    exact .inl ⟨v, m', rfl, bind_ok hdeliver, hgets⟩
  | noValue =>
    obtain ⟨m', hdeliver, hgets⟩ := deliver_gets hsame hd .none
    exact .inl ⟨.none, m', rfl, bind_ok hdeliver, hgets⟩
  | rejected e => exact .inr ⟨e, rfl⟩

theorem callStep_error {phase : Phase} {e : Error}
    (hsame : SameFrames (caller :: callers) m'.context.frames)
    (hrun : vm.perform phase m = .error e m') :
    vm.CallStep caller callers made (.running phase m) (vm.advance phase m) := by
  have hlength : m'.context.frames.length = (caller :: callers).length := hsame.length_eq
  have hne : m'.context.frames ≠ [] := List.ne_nil_of_length_pos (hlength ▸ Nat.succ_pos _)
  exact .throws (.error _ _ _ _ hrun)
    (conclude_error vm.goesOnWith_afterInstruction hrun hne (.inr (Nat.le_of_eq hlength)))

/-- The reply of a native callee. -/
theorem callStep_complete {c : PendingCall} {effect : Effect Reply} {reply : Reply} {w : World}
    (hsame : SameFrames (caller :: callers) m.context.frames) (hd : c.delivery.Pushes made)
    (heffect : c.effect? vm.host m.world.heap = some effect)
    (hreply : effect m.world = .ok reply w)
    (hrun : vm.perform (.link c) m = complete reply c.delivery { m with world := w }) :
    vm.CallStep caller callers made (.running (.link c) m) (vm.advance (.link c) m) := by
  have hlength : m.context.frames.length = (caller :: callers).length := hsame.length_eq
  have hsame' : SameFrames (caller :: callers)
      ({ m with world := w } : Machine).context.frames := hsame
  cases reply with
  | value v =>
    obtain ⟨m', hdeliver, hgets⟩ := deliver_gets hsame' hd v
    rw [complete, bind_ok hdeliver] at hrun
    exact callStep_ends hrun (.inl rfl) (.value c m effect v w heffect hreply) hgets
  | noValue =>
    obtain ⟨m', hdeliver, hgets⟩ := deliver_gets hsame' hd .none
    rw [complete, bind_ok hdeliver] at hrun
    exact callStep_ends hrun (.inl rfl) (.noValue c m effect _ w heffect hreply (.inl rfl)) hgets
  | tailCall callee args =>
    have hadvance : vm.advance (.link c) m = _ := conclude_ok vm hrun
    refine .goesOn ?_ ?_
    · rw [hadvance]
      exact .linking _ _ hsame hd
    · rw [hadvance]
      exact Nat.le_of_eq hlength.symm
  | yield =>
    obtain ⟨m', hdeliver, hgets⟩ := deliver_gets hsame' hd .none
    rw [complete, bind_ok hdeliver] at hrun
    exact callStep_ends hrun (.inr rfl) (.noValue c m effect _ w heffect hreply (.inr rfl)) hgets
  | await p =>
    rw [complete] at hrun
    cases hs : (w.promise p).settled with
    | some s =>
      rw [awaitPromise_settled hs] at hrun
      rcases handOver_gets hsame' hd s with ⟨v, m', hv, hgiven, hgets⟩ | ⟨e, hgiven⟩
      · rw [hgiven] at hrun
        exact callStep_ends hrun (.inl rfl) (.settled c m effect p w s v heffect hreply hs hv) hgets
      · rw [hgiven] at hrun
        exact callStep_error hsame' hrun
    | none =>
      rw [awaitPromise_pending hs] at hrun
      have hadvance : vm.advance (.link c) m = _ := conclude_ok vm hrun
      refine .goesOn ?_ ?_
      · rw [hadvance]
        exact .waiting _ _ _ hsame hd
      · rw [hadvance]
        exact Nat.le_of_eq hlength.symm

/-- The next link of the call itself. -/
theorem callStep_link (vm : Vm) {c : PendingCall}
    (hsame : SameFrames (caller :: callers) m.context.frames) (hd : c.delivery.Pushes made) :
    vm.CallStep caller callers
      (made.or ((Progress.running (.link c) m).made? (caller :: callers).length))
      (.running (.link c) m) (vm.advance (.link c) m) := by
  have hlength : m.context.frames.length = (caller :: callers).length := hsame.length_eq
  have hfollow : vm.perform (.link c) m = vm.link c m := follow_of_loopExit? hd.loopExit?
  have hlinks := vm.links_link c m
  rw [← hfollow] at hlinks
  generalize hrun : vm.perform (.link c) m = r at hlinks
  cases hlinks with
  | call c' m' hcallee hm' hd' =>
    have hadvance : vm.advance (.link c) m = .running (.link c') m' := conclude_ok vm hrun
    rw [made?_of_ne_class hcallee, Option.or_none, hadvance]
    refine .goesOn (.linking c' m' (hm' ▸ hsame) (hd' ▸ hd)) ?_
    rw [Progress.Calling, hm', hlength]
  | construct r c' m' hcallee hm' hd' =>
    have hadvance : vm.advance (.link c) m = .running (.link c') m' := conclude_ok vm hrun
    rw [made?_of_class hcallee hlength, hadvance]
    refine .goesOn (.linking c' m' (hm' ▸ hsame) ?_) ?_
    · rw [hd']
      exact .replace (m.made r) hd
    · rw [Progress.Calling, hm', hlength]
  | make r m' hcallee hm' =>
    have hsame' : SameFrames (caller :: callers) m'.context.frames := hm' ▸ hsame
    obtain ⟨m'', hdeliver, hgets⟩ := deliver_gets hsame' hd (m.made r)
    have hvalue : (made.or (some (m.made r))).getD (m.made r) = made.getD (m.made r) := by
      cases made <;> rfl
    rw [bind_ok hdeliver] at hrun
    rw [made?_of_class hcallee hlength]
    exact callStep_ends hrun (.inl rfl) (.makes c m r hcallee) (by rw [hvalue]; exact hgets)
  | enter r f m' hcallee hm' hd' =>
    have hne : ∀ r, c.callee ≠ .classObj r := by
      rw [hcallee]
      nofun
    have habove : FramesAbove (caller :: callers) made m'.context.frames :=
      ⟨[], f, m.context.frames, by rw [hm']; rfl, hd' ▸ hd, hsame⟩
    rw [made?_of_ne_class hne, Option.or_none]
    exact callStep_goesOn vm.goesOnWith_afterInstruction hrun Control.lasts_next habove
  | replies effect reply w heffect hreply =>
    rw [made?_of_ne_class (ne_class_of_effect? heffect), Option.or_none]
    exact callStep_complete hsame hd heffect hreply hrun
  | error e m' hm' => exact callStep_error (hm' ▸ hsame) hrun

/-! ## Resumptions -/

/-- The call is resumed, or the code that it has reached. -/
theorem callStep_resumption (vm : Vm) {k : Continuation} (hk : k.Plain)
    (h : (Progress.stopped (.suspended k) m).Holds (caller :: callers) made) :
    vm.CallStep caller callers made (.stopped (.suspended k) m) (vm.resumption k m) := by
  have hnext : GoesOnWith (.running .fetch) := fun _ => .inl rfl
  cases h with
  | waiting p d _ hsame hd =>
    have hlength : m.context.frames.length = (caller :: callers).length := hsame.length_eq
    have hne : m.context.frames ≠ [] := List.ne_nil_of_length_pos (hlength ▸ Nat.succ_pos _)
    simp only [resumption]
    cases hs : (m.world.promise p).settled with
    | none =>
      exact .goesOn (.waiting p d _ hsame hd) (Nat.le_of_eq hlength.symm)
    | some s =>
      rcases handOver_gets hsame hd s with ⟨v, m', hv, hgiven, hgets⟩ | ⟨e, hgiven⟩
      · have hlength' := hgets.length_eq
        dsimp only
        rw [conclude_ok vm hgiven]
        exact .ends v (.resumed p d m s v hs hv) hgets (Nat.not_lt.2 (Nat.le_of_eq hlength'))
          trivial
      · exact .throws (.handedOver p d m m s e hs hgiven)
          (conclude_error hnext hgiven hne (.inr (Nat.le_of_eq hlength)))
  | above _ h =>
    have habove : FramesAbove (caller :: callers) made m.context.frames := h
    have hlength := habove.length_lt
    cases k with
    | start => exact .goesOn (.above _ habove) hlength
    | resume => exact .goesOn (.above _ habove) hlength
    | await p d =>
      simp only [resumption]
      cases hs : (m.world.promise p).settled with
      | none => exact .goesOn (.above _ habove) (Nat.le_of_lt hlength)
      | some s =>
        obtain ⟨f, rest, hframes⟩ := List.exists_cons_of_ne_nil habove.ne_nil
        have hstays : vm.Stays m (handOver s d m) := .handOver hs hk
        exact callStep_of_followsIn hnext (hstays.followsIn (.of_frames hframes rfl))
          (hframes ▸ habove) fun e m' he => .handedOver p d m m' s e hs he

end Steps

end Vm

end TaskletMachine
