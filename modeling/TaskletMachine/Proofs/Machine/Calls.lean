import TaskletMachine.Proofs.Machine.Unwinding

/-!
# Calls, returns and waiting

What a link of a call and the end of a frame can come to. Native functions and what hands over their
results stay within the frame; guest functions and class bodies are entered as a frame of their own,
which is dropped when it returns.

## Main definitions

* `Vm.handOver`, `awaitPromise`: handing over results, which stays within the frame.
* `Vm.Enters.link`, `Vm.Meets.returnFrom`: links of calls and returns.
-/
namespace TaskletMachine

open Exec

variable {vm : Vm}

/-! ## Handing over results -/

theorem Exec.Tame.raiseWithCause {α : Type} (exception : Value) (cause : Option Value) :
    Tame vm (TaskletMachine.raiseWithCause exception cause : Exec α) := by
  have hraised : ¬ ({ cause := .raised exception } : Error).IsInternal := id
  simp only [TaskletMachine.raiseWithCause]
  split
  · exact bind .heap fun h => bind (.setHeap _) fun _ => throw hraised
  · exact bind (.pure ()) fun _ => throw hraised

theorem Exec.Tame.deliver (v : Value) {d : Delivery} (hd : d.Plain) :
    Tame vm (TaskletMachine.deliver v d) := by
  induction d generalizing v with
  | push => exact .push v
  | discard => exact .pure ()
  | truth negate => exact bind .heap fun h => .push _
  | replace other next ih => exact ih other hd
  | finishClass name bases => exact hd.elim
  | iteration exit => exact .push v
  | raise cause => exact raiseWithCause v cause

/-- A result that is meant for a class body has nowhere to go. -/
theorem deliver_of_not_plain {d : Delivery} (hd : ¬ d.Plain) (v : Value) (m : Machine) :
    ∃ e, deliver v d m = .error e m := by
  induction d generalizing v with
  | replace other next ih => exact ih hd other
  | finishClass name bases => exact ⟨_, rfl⟩
  | _ => exact absurd trivial hd

theorem Exec.Steady.deliver (v : Value) {d : Delivery} (hd : d.Plain) :
    Steady vm (do
      TaskletMachine.deliver v d
      return .next) :=
  bind (.deliver v hd) fun _ => next

theorem Exec.Steady.deliverFrom {f : Frame} (v : Value) (hd : f.delivery.Sound) :
    Steady vm (do
      TaskletMachine.deliverFrom f v
      return .next) := by
  refine bind ?_ fun _ => next
  simp only [TaskletMachine.deliverFrom]
  split
  · exact .bind (.onHeap _) fun c => .push _
  · next hclass => exact .deliver v (hd.plain hclass)

theorem deliverFrom_of_not_sound {f : Frame} (hd : ¬ f.delivery.Sound) (v : Value) (m : Machine) :
    ∃ e, deliverFrom f v m = .error e m := by
  have hplain : deliverFrom f v = deliver v f.delivery := by
    simp only [deliverFrom]
    split
    · next hclass =>
      rw [hclass] at hd
      exact absurd trivial hd
    · rfl
  rw [hplain]
  exact deliver_of_not_plain (fun hplain => hd hplain.sound) v m

theorem Vm.Stays.handOver {m : Machine} {p : PromiseId} {s : Settlement} {d : Delivery}
    (hs : (m.world.promise p).settled = some s) (hd : d.Plain) :
    vm.Stays m (Vm.handOver s d m) := by
  cases s with
  | value v => exact Steady.deliver v hd m
  | noValue => exact Steady.deliver .none hd m
  | rejected e => exact ⟨.refl m, fun _ _ => .inr ⟨p, hs⟩⟩

/-! ## Waiting -/

theorem Exec.Steady.awaitPromise (p : PromiseId) {d : Delivery} (hd : d.Plain) :
    Steady vm (TaskletMachine.awaitPromise p d) := by
  intro m
  simp only [TaskletMachine.awaitPromise]
  rw [bind_ok (rfl : (MonadState.get : Exec Machine) m = .ok m m)]
  cases hs : (m.world.promise p).settled with
  | none => exact ⟨.refl m.context, ⟨hd, m.world, .refl, hs, rfl⟩, trivial⟩
  | some s => exact Vm.Stays.handOver hs hd

theorem Exec.Steady.complete (reply : Reply) {d : Delivery} (hd : d.Plain) :
    Steady vm (Vm.complete reply d) := by
  cases reply with
  | value v => exact deliver v hd
  | noValue => exact deliver .none hd
  | tailCall callee args => exact call hd
  | yield => exact bind (.deliver .none hd) fun _ => parkTasklet
  | await p => exact awaitPromise p hd

/-! ## Links -/

theorem Exec.Steady.instantiate (r : ClassRef) {c : PendingCall} (hd : c.delivery.Plain) :
    Steady vm (Vm.instantiate r c) := by
  refine bind (.onHeap _) fun v => bind .heap ?_
  intro h
  split
  · exact call hd
  · split
    · exact bind (.raise _ _) fun _ => deliver _ hd
    · exact deliver _ hd

theorem Exec.Steady.link {c : PendingCall} (hd : c.delivery.Plain)
    (hfunction : ∀ r, c.callee ≠ .function r) : Steady vm (vm.link c) := by
  refine bind .heap ?_
  intro h
  split
  · next r hr => exact absurd hr (hfunction r)
  · exact bind (.ofEffect (.callNative (fun _ => id) _ _ _)) fun reply => complete reply hd
  · exact call hd
  · exact instantiate _ hd
  · split
    · exact call hd
    · exact throw (Error.not_isInternal_raise _ _)
  · exact bind (.ofEffect (.callHost (fun _ => id) _ _ _)) fun reply => complete reply hd
  · exact call hd
  · exact throw (Error.not_isInternal_raise _ _)

theorem Exec.Tame.basesOf (values : List Value) : Tame vm (Vm.basesOf values) := by
  induction values with
  | nil => exact pure []
  | cons v rest ih =>
    cases v with
    | classObj c => exact bind ih fun _ => pure _
    | _ => exact bind .heap fun h => raise _ _

theorem Exec.Tame.popBases : Tame vm Vm.popBases := by
  refine bind .pop ?_
  intro v
  split
  · exact basesOf _
  · exact failShowing _ fun _ h => absurd (Error.take_of_isInternal_fail h) (by simp)

theorem Exec.Tame.popClassName : Tame vm Vm.popClassName := by
  refine bind .pop ?_
  intro v
  split
  · exact pure _
  · exact failShowing _ fun _ h => absurd (Error.take_of_isInternal_fail h) (by simp)

theorem Exec.Tame.popClassBody : Tame vm Vm.popClassBody := by
  refine bind .pop ?_
  intro v
  split
  · exact bind .heap fun h => pure _
  · exact failShowing _ fun _ h => absurd (Error.take_of_isInternal_fail h) (by simp)

theorem Vm.frameOf_fresh {unit : CodeUnit} {bound : List Value} {d : Delivery} {f : Frame}
    (h : frameOf unit bound d = .ok f) : f.blocks = [] ∧ f.delivery = d := by
  unfold frameOf at h
  dsimp only at h
  split at h
  · cases h
  · cases h
    exact ⟨rfl, rfl⟩

/-! ## Entering frames -/

/-- A result that may have entered a frame if it is no error. -/
def Vm.Enters (vm : Vm) (m : Machine) : EStateM.Result Error Machine Control → Prop
  | .ok control m' => vm.Meets vm.maxCallDepth False m (.ok control m')
  | .error e m' => vm.Stays m (.error e m')

theorem Vm.Stays.enters {m : Machine} {r : EStateM.Result Error Machine Control}
    (h : vm.Stays m r) : vm.Enters m r := by
  cases r with
  | ok control m' => exact .of_stays h id
  | error e m' => exact h

theorem Vm.Enters.meets {m : Machine} {r : EStateM.Result Error Machine Control}
    (h : vm.Enters m r) : vm.Meets vm.maxCallDepth False m r := by
  cases r with
  | ok control m' => exact h
  | error e m' => exact .of_stays h id

/-- A computation that may enter a frame, when it goes on after quiet changes. -/
def Exec.After (vm : Vm) (m : Machine) (x : Exec Control) : Prop :=
  ∀ m₁, m.Quiet m₁ → vm.Enters m (x m₁)

theorem Vm.checkDepth_of_full {m : Machine} (hfull : vm.maxCallDepth ≤ m.context.frames.length) :
    vm.checkDepth m = .error (.raise .recursionError "maximum recursion depth exceeded") m := by
  simp only [Vm.checkDepth]
  rw [bind_ok (rfl : Exec.context m = .ok m.context m), if_pos hfull]
  rfl

theorem Vm.checkDepth_of_room {m : Machine} (hroom : m.context.frames.length < vm.maxCallDepth) :
    vm.checkDepth m = .ok () m := by
  simp only [Vm.checkDepth]
  rw [bind_ok (rfl : Exec.context m = .ok m.context m), if_neg (Nat.not_le.2 hroom)]
  rfl

namespace Exec.After

variable {m : Machine}

theorem bind {α : Type} {x : Exec α} {k : α → Exec Control} (hx : Tame vm x)
    (hk : ∀ a, After vm m (k a)) : After vm m (x >>= k) := by
  intro m₁ hq
  cases h : x m₁ with
  | error e m₂ =>
    rw [bind_error h]
    refine ⟨hq.trans (hx.quiet_of_error h), fun hne => hx.brings_of_error h ?_⟩
    intro hnil
    exact hne (hq.context.frames_eq_nil.1 hnil)
  | ok a m₂ =>
    rw [bind_ok h]
    exact hk a m₂ (hq.trans (hx.quiet_of_ok h))

theorem throw {e : Error} (he : ¬ e.IsInternal) :
    After vm m (MonadExcept.throw e : Exec Control) :=
  fun _ hq => ⟨hq, fun _ h => absurd h he⟩

/-- The call stack is checked; its depth is the same as before. -/
theorem checkDepth {k : Unit → Exec Control}
    (hk : m.context.frames.length < vm.maxCallDepth → After vm m (k ())) :
    After vm m (vm.checkDepth >>= k) := by
  intro m₁ hq
  have hlength := congrArg List.length hq.context.outlines
  rw [List.length_map, List.length_map] at hlength
  rcases Nat.lt_or_ge m₁.context.frames.length vm.maxCallDepth with hroom | hfull
  · rw [bind_ok (Vm.checkDepth_of_room hroom)]
    exact hk (hlength ▸ hroom) m₁ hq
  · rw [bind_error (Vm.checkDepth_of_full hfull)]
    exact throw (Error.not_isInternal_raise _ _) m₁ hq

/-- A frame is entered for which there is room. -/
theorem enter {f : Frame} (hlimit : m.context.frames.length < vm.maxCallDepth)
    (hfresh : f.blocks = []) (hsound : f.delivery.Sound) :
    After vm m (do
      Exec.enter f
      return .next) :=
  fun _ hq => ⟨hq.world, fun hs => hq.context.enter hs.ne_nil hfresh hsound hlimit⟩

/-- A guest function is entered. -/
theorem enterFunction (r : FunctionRef) {c : PendingCall} (hd : c.delivery.Plain) :
    After vm m (vm.enterFunction r c) := by
  refine checkDepth fun hlimit => bind .heap ?_
  intro h
  refine bind (.ofExcept (Harmless.matchArguments _ _ _ _ _)) fun a => bind (.setHeap _) ?_
  intro _
  cases hf : Vm.frameOf (h.function r).unit a.1 c.delivery with
  | error e => exact throw (Harmless.frameOf _ _ _ e hf)
  | ok f =>
    obtain ⟨hfresh, hdelivery⟩ := Vm.frameOf_fresh hf
    exact enter hlimit hfresh (hdelivery ▸ hd.sound)

/-- The body of a class is entered. -/
theorem buildClass : After vm m vm.buildClass :=
  bind .popBases fun _ => bind .popClassName fun _ => bind .popClassBody fun _ =>
    checkDepth fun hlimit => enter hlimit rfl trivial

end Exec.After

theorem Vm.link_of_function {c : PendingCall} {m : Machine} {r : FunctionRef}
    (hcallee : c.callee = .function r) : vm.link c m = vm.enterFunction r c m := by
  simp only [Vm.link]
  rw [bind_ok (rfl : Exec.heap m = .ok m.world.heap m), hcallee]

theorem Vm.Enters.link {c : PendingCall} (hd : c.delivery.Plain) (m : Machine) :
    vm.Enters m (vm.link c m) := by
  by_cases hfunction : ∃ r, c.callee = .function r
  · obtain ⟨r, hr⟩ := hfunction
    rw [Vm.link_of_function hr]
    exact After.enterFunction r hd m (.refl m)
  · exact Stays.enters (Steady.link hd (fun r hr => hfunction ⟨r, hr⟩) m)

/-! ## Returns -/

namespace Vm.Meets

variable {limit : Nat} {exits : Prop}

/-- The innermost frame is dropped for its result; its operand stack and its place may have changed
before. -/
theorem returnFrom {m : Machine} {f g : Frame} {callers : List Frame} (v : Value)
    (hexits : ¬ exits) (hm : m.context.frames = f :: callers) (hd : g.delivery = f.delivery)
    (hcallers : callers ≠ []) :
    vm.Meets limit exits m
      (returnFrom v { m with context := { m.context with frames := g :: callers } }) := by
  obtain ⟨caller, rest, rfl⟩ := List.exists_cons_of_ne_nil hcallers
  have hrun : TaskletMachine.returnFrom v
      { m with context := { m.context with frames := g :: caller :: rest } } =
      (do deliverFrom g v; return .next : Exec Control)
        { m with context := { m.context with frames := caller :: rest } } := rfl
  rw [hrun]
  by_cases hsound : g.delivery.Sound
  · exact of_stays_drop [f] (Steady.deliverFrom v hsound _) hexits hm
      (fun _ => List.cons_ne_nil _ _) id rfl
  · obtain ⟨e, he⟩ := deliverFrom_of_not_sound hsound v
      { m with context := { m.context with frames := caller :: rest } }
    rw [bind_error he]
    refine ⟨.refl, fun hs => absurd (hs.deliveries f ?_) (hd ▸ hsound)⟩
    rw [hm]
    exact List.mem_cons_self

end Vm.Meets

end TaskletMachine
