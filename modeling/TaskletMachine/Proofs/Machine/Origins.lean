import TaskletMachine.Proofs.Machine.CalmInstructions
import TaskletMachine.Proofs.Machine.Cleanup
import TaskletMachine.Proofs.Machine.Pending
import TaskletMachine.Proofs.Machine.Search

/-!
# Where faults come from

Carrying out a step is calm, or it raises a fault. This is one that has just been made of an error,
at the place of the innermost frame, or one that is kept already: the one that was caught last, or
the one that a cleanup body of the innermost frame has kept until its end. The fault then comes to a
cleanup body or ends the tasklet, unless it is caught or ends a loop.

## Main definitions

* `Vm.exceptionOf`: the exception that an error raises.
* `Vm.Performs`, `Origin`, `Vm.Raises`: steps that raise a fault, and where it comes from.
* `Vm.ComesTo`: where the search leaves a fault that is neither caught nor ends a loop.
* `Vm.calm_or_raises_advance`, `Vm.calm_or_raises_resumption`: what a step does.
-/
namespace TaskletMachine

open Exec

/-! ## Origins -/

/-- The exception that raising an error raises; errors that guest code cannot catch stay errors. -/
def Vm.exceptionOf (vm : Vm) (e : Error) : Exec Value :=
  match e.cause with
  | .exception kind message => vm.makeException kind message
  | .raised v => vm.normalizeException v
  | _ => throw e

/-- What is to be performed next, and what comes after it. -/
inductive Vm.Performs (vm : Vm) : Progress → Exec Control → (Machine → Progress) → Prop
  | phase (phase : Phase) (m : Machine) :
      Performs vm (.running phase m) (vm.perform phase) vm.afterInstruction
  /-- A tasklet goes on with the result of a promise. -/
  | handOver (p : PromiseId) (d : Delivery) (m : Machine) (s : Settlement)
      (hs : (m.world.promise p).settled = some s) :
      Performs vm (.stopped (.suspended (.await p d)) m) (handOver s d) (.running .fetch)

/-- Where a fault comes from that is raised. -/
inductive Origin where
  /-- It has been made of an error, by a `raise` with a value or by anything else that fails. -/
  | afresh
  /-- It was caught last, and a `raise` without a value raises it again. -/
  | again
  /-- A cleanup body of the frame at the place has kept it, and the body ends. -/
  | kept (place : Nat)

/-- The next instruction raises a fault that is kept already, in the given machine. -/
inductive Machine.Reraises (m : Machine) (fault : Fault) : Machine → Origin → Prop
  | again (f : Frame) (callers : List Frame) (next : Nat)
      (hframes : m.context.frames = f :: callers)
      (hdecode : decodeAt f.unit.bytes f.ip = some ⟨.raise 0, next⟩)
      (hhandled : m.context.handled = some fault) :
      Reraises m fault (m.withFrames (f.reading next :: callers)) .again
  | kept (f : Frame) (callers : List Frame) (next : Nat) (b : Block) (rest : List Block)
      (hframes : m.context.frames = f :: callers)
      (hdecode : decodeAt f.unit.bytes f.ip = some ⟨.endFinally, next⟩)
      (hblocks : f.blocks = b :: rest) (hkind : b.kind = .finallyBody fault) :
      Reraises m fault (m.withFrames ((f.reading next).without b rest :: callers))
        (.kept callers.length)

/-- The step raises the fault in a machine, and ends in what raising it comes to. -/
inductive Vm.Raises (vm : Vm) (p p' : Progress) (fault : Fault) (m : Machine) : Origin → Prop
  | afresh (effect : Exec Control) (next : Machine → Progress) (e : Error) (m₁ : Machine)
      (f : Frame) (callers : List Frame) (hp : vm.Performs p effect next)
      (herror : effect p.machine = .error e m₁) (hguest : e.isGuest)
      (hvalue : vm.exceptionOf e m₁ = .ok fault.value m)
      (hframes : m.context.frames = f :: callers) (htraceback : fault.traceback = [f.place])
      (hp' : p' = proceed next (vm.raiseFault fault m)) : Raises vm p p' fault m .afresh
  | kept (m₀ : Machine) (origin : Origin) (hp : p = .running .fetch m₀)
      (h : m₀.Reraises fault m origin)
      (hp' : p' = proceed vm.afterInstruction (vm.raiseFault fault m)) :
      Raises vm p p' fault m origin

/-! ## Ends of the search -/

/-- Where the fault lands that is raised in a machine. -/
def Vm.unwind (vm : Vm) (fault : Fault) (m : Machine) : Unwound :=
  unwindFrames (vm.isStopIteration m.context m.world.heap) fault m.context.frames

/-- The search for a handler leaves the fault, with its longer traceback, in a cleanup body of the
frame at a place, or ends the tasklet. -/
inductive Vm.ComesTo (vm : Vm) (m : Machine) (fault : Fault) : Option Nat → Fault → Prop
  | cleanup (fault' : Fault) (g : Frame) (callers : List Frame) (b : Block) (rest : List Block)
      (hunwind : vm.unwind fault m = .cleanup (g :: callers)) (hblocks : g.blocks = b :: rest)
      (hkind : b.kind = .finallyBody fault') : ComesTo vm m fault (some callers.length) fault'
  | unhandled (fault' : Fault) (frames : List Frame)
      (hunwind : vm.unwind fault m = .unhandled fault' frames) : ComesTo vm m fault none fault'

/-! ## The search -/

/-- Where a fault lands in a call stack, which frames it has passed, and what it has become of them:
at each frame that it has got to, its place has been added to the traceback. -/
inductive Fault.LandsIn (fault : Fault) (frames : List Frame) : Unwound → Prop
  | caught (passed : List Frame) (f g : Frame) (callers : List Frame)
      (hframes : frames = passed ++ f :: callers)
      (hlands : f.Lands (fault.along (passed ++ [f]).tail) (.caught g)) :
      LandsIn fault frames (.caught (fault.along (passed ++ [f]).tail) (g :: callers))
  | cleanup (passed : List Frame) (f g : Frame) (callers : List Frame)
      (hframes : frames = passed ++ f :: callers)
      (hlands : f.Lands (fault.along (passed ++ [f]).tail) (.cleanup g)) :
      LandsIn fault frames (.cleanup (g :: callers))
  | loopEnded (exit : Nat) (passed : List Frame) (f : Frame) (callers : List Frame)
      (hframes : frames = passed ++ f :: callers) :
      LandsIn fault frames (.loopEnded exit (f :: callers))
  | unhandled (passed : List Frame) (f g : Frame) (hframes : frames = passed ++ [f])
      (hlands : f.Lands (fault.along (passed ++ [f]).tail) (.passed g)) :
      LandsIn fault frames (.unhandled (fault.along (passed ++ [f]).tail) [g])
  | noFrames (hframes : frames = []) : LandsIn fault frames .noFrames

/-- A fault that has passed the innermost frame lands where it lands in the callers. -/
theorem Fault.LandsIn.cons {fault : Fault} {f caller : Frame} {rest : List Frame} {u : Unwound}
    (h : (fault.along [caller]).LandsIn (caller :: rest) u) :
    fault.LandsIn (f :: caller :: rest) u := by
  have halong {passed callers : List Frame} {g : Frame}
      (hframes : caller :: rest = passed ++ g :: callers) :
      (fault.along [caller]).along (passed ++ [g]).tail =
        fault.along (f :: passed ++ [g]).tail := by
    rw [Fault.along_along]
    cases passed with
    | nil =>
      cases hframes
      rfl
    | cons _ passed =>
      cases hframes
      rfl
  cases h with
  | caught passed g g' callers hframes hlands =>
    rw [halong hframes] at hlands ⊢
    exact .caught (f :: passed) g g' callers (by rw [hframes]; rfl) hlands
  | cleanup passed g g' callers hframes hlands =>
    rw [halong hframes] at hlands
    exact .cleanup (f :: passed) g g' callers (by rw [hframes]; rfl) hlands
  | loopEnded exit passed g callers hframes =>
    exact .loopEnded exit (f :: passed) g callers (by rw [hframes]; rfl)
  | unhandled passed g g' hframes hlands =>
    rw [halong hframes] at hlands ⊢
    exact .unhandled (f :: passed) g g' (by rw [hframes]; rfl) hlands
  | noFrames hframes => cases hframes

open Fault in
theorem landsIn_unwindFrames (stops : Value → Bool) (fault : Fault) (frames : List Frame) :
    fault.LandsIn frames (unwindFrames stops fault frames) := by
  induction frames generalizing fault with
  | nil => exact .noFrames rfl
  | cons f callers ih =>
    have hlands := f.lands_land fault
    have hfirst : fault.along ([] ++ [f]).tail = fault := Fault.along_nil fault
    unfold unwindFrames
    split
    · next g hg =>
      have hcaught := LandsIn.caught [] f g callers rfl (hfirst.symm ▸ hg ▸ hlands)
      rwa [hfirst] at hcaught
    · next g hg => exact .cleanup [] f g callers rfl (hfirst.symm ▸ hg ▸ hlands)
    · next g hg =>
      split
      · have hunhandled := LandsIn.unhandled [] f g rfl (hfirst.symm ▸ hg ▸ hlands)
        rwa [hfirst] at hunhandled
      · next caller rest =>
        split
        · split
          · exact .loopEnded _ [f] caller rest rfl
          · exact (ih _).cons
        · exact (ih _).cons

/-! ## Raising an error -/

section Raising

variable {vm : Vm} {W : World → World → Prop} {m m' : Machine} {e e' : Error} {fault : Fault}
  {value : Value}

theorem Vm.raiseError_eq (vm : Vm) (e : Error) : vm.raiseError e = (do
    let value ← vm.exceptionOf e
    vm.raiseFault { value, traceback := [(← frame).place] }) := by
  unfold raiseError exceptionOf
  cases e.cause <;> rfl

theorem Exec.Calm.exceptionOf [IsPreorder World W] (hW : World.Admits vm.host W) (e : Error) :
    Calm W (vm.exceptionOf e) := by
  unfold Vm.exceptionOf
  split
  · exact makeException vm hW _ _
  · exact normalizeException vm hW _
  · exact throw _

theorem endLoop_error {exit : Nat} (h : Vm.endLoop exit m = .error e m') : e.isGuest = false := by
  unfold Vm.endLoop at h
  cases hm : m.context.frames with
  | nil =>
    have hpop : pop m = .error { cause := .emptyCallStack } m := bind_error (frame_nil hm)
    rw [bind_error hpop] at h
    cases h
    rfl
  | cons f callers =>
    cases hf : f.stack with
    | nil =>
      rw [bind_error (pop_nil hm hf)] at h
      cases h
      rfl
    | cons v stack =>
      rw [bind_ok (pop_cons hm hf)] at h
      cases h

/-- Raising a fault ends in no error that guest code could catch. -/
theorem Vm.raiseFault_error (h : vm.raiseFault fault m = .error e m') : e.isGuest = false := by
  rw [raiseFault_eq] at h
  split at h
  · cases h
  · cases h
  · exact endLoop_error h
  · cases h
  · cases h
    rfl

theorem Vm.catching_raiseFault {effect : Exec Control} (h : effect m = vm.raiseFault fault m') :
    vm.catching effect m = vm.raiseFault fault m' := by
  unfold catching
  cases hraise : vm.raiseFault fault m' with
  | ok control m₁ => rw [h, hraise]
  | error e m₁ =>
    rw [h, hraise]
    exact if_neg (by rw [raiseFault_error hraise]; exact Bool.false_ne_true)

end Raising

/-! ## After raising a fault -/

section Raised

variable {vm : Vm} {m : Machine} {fault fault' : Fault}

theorem Context.CarriesAt.of_append {c : Context} {above frames : List Frame} {k : Nat}
    (hc : c.frames = above ++ frames) (h : ({ c with frames } : Context).CarriesAt k fault) :
    c.CarriesAt k fault := by
  induction above generalizing c with
  | nil => exact (show c = { c with frames } by rw [← hc.trans (List.nil_append frames)]) ▸ h
  | cons f above ih =>
    rw [Context.carriesAt_cons hc]
    exact .inr (ih rfl h)

/-- The frames that a fault has not passed keep their faults, but for the one that it enters. -/
theorem Context.CarriesAt.of_lands {c : Context} {passed callers : List Frame} {f g : Frame}
    {k : Nat} (hc : c.frames = passed ++ f :: callers)
    (h : ({ c with frames := g :: callers } : Context).CarriesAt k fault) :
    c.CarriesAt k fault ∨ k = callers.length ∧ g.Carries fault := by
  rcases (Context.carriesAt_cons rfl).1 h with hg | h
  · exact .inr hg
  · exact .inl (.of_append hc ((Context.carriesAt_cons rfl).2 (.inr h)))

theorem Frame.Lands.carries_of_caught {f g : Frame} (h : f.Lands fault (.caught g))
    (hg : g.Carries fault') : f.Carries fault' := by
  cases h with
  | caught removed b rest below _ hbelow hkind hb hd hs =>
    refine hg.of_suffix ⟨removed ++ [b], ?_⟩
    rw [hb, hbelow.blocks, List.append_assoc, List.singleton_append]

theorem Frame.Lands.carries_of_cleanup {f g : Frame} (h : f.Lands fault (.cleanup g))
    (hg : g.Carries fault') :
    f.Carries fault' ∨ ∃ b rest, g.blocks = b :: rest ∧ b.kind = .finallyBody fault' := by
  cases h with
  | cleanup removed b rest _ hbelow hkind hb hd =>
    obtain ⟨b', hb', hkind'⟩ := hg
    rw [hb, List.mem_cons] at hb'
    rcases hb' with rfl | hb'
    · exact .inr ⟨_, rest, hb, hkind'⟩
    · refine .inl ⟨b', ?_, hkind'⟩
      rw [hbelow.blocks]
      exact List.mem_append_right removed (List.mem_cons_of_mem b hb')

theorem Frame.Lands.not_carries_of_passed {f g : Frame} (h : f.Lands fault (.passed g)) :
    ¬ g.Carries fault' := by
  rintro ⟨b, hb, -⟩
  have hblocks : g.blocks = [] := by cases h <;> assumption
  rw [hblocks] at hb
  cases hb

theorem Vm.landsIn_unwind (vm : Vm) (fault : Fault) (m : Machine) :
    fault.LandsIn m.context.frames (vm.unwind fault m) :=
  landsIn_unwindFrames _ fault m.context.frames

/-- What the search leaves is the fault that was raised, at the places of the frames that it has
got to. -/
theorem Vm.ComesTo.along {k : Option Nat} (h : vm.ComesTo m fault k fault') :
    ∃ passed f callers, m.context.frames = passed ++ f :: callers ∧ k.getD 0 = callers.length ∧
      fault' = fault.along (passed ++ [f]).tail := by
  have hlands := vm.landsIn_unwind fault m
  cases h with
  | cleanup _ g callers b rest hunwind hblocks hkind =>
    rw [hunwind] at hlands
    cases hlands with
    | cleanup passed f _ _ hframes hland =>
      refine ⟨passed, f, callers, hframes, rfl, ?_⟩
      cases hland with
      | cleanup removed b' rest' _ hbelow hkind' hb hd =>
        cases hblocks.symm.trans hb
        cases hkind
        rfl
  | unhandled _ frames hunwind =>
    rw [hunwind] at hlands
    cases hlands with
    | unhandled passed f g hframes hland => exact ⟨passed, f, [], hframes, rfl, rfl⟩

/-- A fault that a frame keeps after a fault has been raised was kept there before, or the one that
was raised has come there. -/
theorem Vm.carriesAt_raiseFault {k : Nat}
    (h : (left (vm.raiseFault fault m)).context.CarriesAt k fault') :
    m.context.CarriesAt k fault' ∨ vm.ComesTo m fault (some k) fault' := by
  have hlands := vm.landsIn_unwind fault m
  rw [raiseFault_eq, ← unwind] at h
  cases hu : vm.unwind fault m with
  | caught fault₁ frames =>
    rw [hu] at h hlands
    cases hlands with
    | caught passed f g callers hframes hland =>
      rcases Context.CarriesAt.of_lands hframes h with h | ⟨rfl, hg⟩
      · exact .inl h
      · refine .inl (.of_append hframes ?_)
        exact (Context.carriesAt_cons rfl).2 (.inl ⟨rfl, hland.carries_of_caught hg⟩)
  | cleanup frames =>
    rw [hu] at h hlands
    cases hlands with
    | cleanup passed f g callers hframes hland =>
      rcases Context.CarriesAt.of_lands hframes h with h | ⟨rfl, hg⟩
      · exact .inl h
      · rcases hland.carries_of_cleanup hg with hf | ⟨b, rest, hb, hkind⟩
        · refine .inl (.of_append hframes ?_)
          exact (Context.carriesAt_cons rfl).2 (.inl ⟨rfl, hf⟩)
        · exact .inr (.cleanup fault' g callers b rest hu hb hkind)
  | loopEnded exit frames =>
    rw [hu] at h hlands
    cases hlands with
    | loopEnded exit passed f callers hframes =>
      have hcalm (m₁ : Machine) : m₁.Calm Eq (left (endLoop exit m₁)) :=
        CalmAt.left (Calm.endLoop exit m₁)
      exact .inl (.of_append hframes ((hcalm _).context.carries k fault' h))
  | unhandled fault₁ frames =>
    rw [hu] at h hlands
    cases hlands with
    | unhandled passed f g hframes hland =>
      rcases (Context.carriesAt_cons rfl).1 h with ⟨-, hg⟩ | ⟨_, hnone, -⟩
      · exact absurd hg hland.not_carries_of_passed
      · cases hnone
  | noFrames =>
    rw [hu] at h
    exact .inl h

end Raised

/-! ## What a step does -/

section Steps

variable {vm : Vm} {W : World → World → Prop} [IsPreorder World W] {m : Machine} {p : Progress}
  {f : Frame} {callers : List Frame}

theorem Machine.Calm.replace {g : Frame} (hm : m.context.frames = f :: callers)
    (hg : ∀ fault, g.Carries fault → f.Carries fault) : m.Calm W (m.withFrames (g :: callers)) :=
  ⟨.replace hm hg, refl_of W m.world⟩

/-- A cleanup body ends without a fault, or with the one that it has kept. -/
theorem Frame.endFinally_cases (f : Frame) :
    f.endFinally = .outside ∨
      ∃ b rest, f.blocks = b :: rest ∧
        (f.endFinally = .done (f.without b rest) ∨
          ∃ fault, b.kind = .finallyBody fault ∧
            f.endFinally = .fault fault (f.without b rest)) := by
  unfold Frame.endFinally
  cases hf : f.blocks with
  | nil => exact .inl rfl
  | cons b rest =>
    dsimp only
    split
    · next fault hkind => exact .inr ⟨b, rest, rfl, .inr ⟨fault, hkind, rfl⟩⟩
    · split
      · exact .inr ⟨b, rest, rfl, .inl rfl⟩
      · exact .inl rfl
    · exact .inl rfl
    · exact .inl rfl

/-- The next instruction raises a fault that is kept already, in a machine that it has calmly come
to. -/
def Vm.FetchReraises (vm : Vm) (W : World → World → Prop) (m : Machine) : Prop :=
  ∃ fault m₁ origin, m.Reraises fault m₁ origin ∧ vm.perform .fetch m = vm.raiseFault fault m₁ ∧
    m.Calm W m₁

namespace Vm

variable {next : Nat}

theorem calm_or_reraises_endFinally (hm : m.context.frames = f :: callers)
    (hd : decodeAt f.unit.bytes f.ip = some ⟨.endFinally, next⟩) :
    CalmAt W (vm.perform .fetch) m ∨ vm.FetchReraises W m := by
  have hperform := vm.perform_fetch hm hd
  rw [execute_endFinally] at hperform
  rcases (f.reading next).endFinally_cases with hend | ⟨b, rest, hf, hend⟩
  · rw [hend] at hperform
    exact .inl (.of_eq hperform (.replace hm fun _ => id))
  · have hcalm : m.Calm W (m.withFrames ((f.reading next).without b rest :: callers)) :=
      .replace hm fun _ => Frame.Carries.of_suffix (hf ▸ List.suffix_cons b rest)
    rcases hend with hend | ⟨fault, hkind, hend⟩
    · rw [hend] at hperform
      exact .inl (.of_eq hperform hcalm)
    · rw [hend] at hperform
      exact .inr ⟨fault, _, _, .kept f callers next b rest hm hd hf hkind, hperform, hcalm⟩

theorem execute_raise_zero (vm : Vm) (m : Machine) : vm.execute (.raise 0) m =
    match m.context.handled with
    | some fault => vm.raiseFault fault m
    | none => Exec.raise .runtimeError "No active exception to reraise" m := by
  simp only [execute, runRaise]
  rw [bind_ok (rfl : Exec.context m = .ok m.context m)]
  cases m.context.handled <;> rfl

theorem calm_or_reraises_raise (hm : m.context.frames = f :: callers)
    (hd : decodeAt f.unit.bytes f.ip = some ⟨.raise 0, next⟩) :
    CalmAt W (vm.perform .fetch) m ∨ vm.FetchReraises W m := by
  have hcalm : m.Calm W (m.withFrames (f.reading next :: callers)) := .replace hm fun _ => id
  have hperform := (vm.perform_fetch hm hd).trans (vm.execute_raise_zero _)
  have hkept : (m.withFrames (f.reading next :: callers)).context.handled = m.context.handled := rfl
  rw [hkept] at hperform
  cases hhandled : m.context.handled with
  | none =>
    rw [hhandled] at hperform
    exact .inl (.of_eq hperform hcalm)
  | some fault =>
    rw [hhandled] at hperform
    exact .inr ⟨fault, _, _, .again f callers next hm hd hhandled, hperform, hcalm⟩

/-- Executing the next instruction is calm, or it raises a fault that is kept already. -/
theorem calm_or_reraises (hW : World.Admits vm.host W) (m : Machine) :
    CalmAt W (vm.perform .fetch) m ∨ vm.FetchReraises W m := by
  cases hm : m.context.frames with
  | nil => exact .inl (.of_eq (bind_error (frame_nil hm)) (refl_of _ m))
  | cons f callers =>
    cases hd : decodeAt f.unit.bytes f.ip with
    | none =>
      have hend : f.atEnd := decide_eq_true (decodeAt_eq_none.1 hd)
      have hperform : vm.perform .fetch m = endOfUnit m := by
        simp only [perform, fetch]
        rw [bind_ok (frame_cons hm), if_pos hend]
      exact .inl (.of_eq hperform (CalmAt.left (Calm.endOfUnit hW m)))
    | some d =>
      obtain ⟨i, next⟩ := d
      by_cases hi : i.Reraises
      · cases i with
        | endFinally => exact calm_or_reraises_endFinally hm hd
        | raise count =>
          cases count with
          | zero => exact calm_or_reraises_raise hm hd
          | succ count => exact hi.elim
        | _ => exact hi.elim
      · have hcalm : m.Calm W (m.withFrames (f.reading next :: callers)) := .replace hm fun _ => id
        exact .inl (.of_eq (vm.perform_fetch hm hd)
          (trans_of _ hcalm (CalmAt.left (calm_execute hW hi _))))

/-! ## Progress -/

theorem frames_proceed {next : Machine → Progress} (hnext : GoesOnWith next)
    (r : EStateM.Result Error Machine Control) :
    (proceed next r).machine.context.frames = (left r).context.frames := by
  match r with
  | .ok .next m' => rw [proceed, hnext.machine_eq]; rfl
  | .ok (.call c) m' => rfl
  | .ok (.suspend k) m' => rfl
  | .ok .finished m' => rfl
  | .ok .faulted m' => rfl
  | .error e m' => rfl

/-- The step is calm, or it raises a fault, in a machine that it has calmly come to. -/
def CalmOrRaises (vm : Vm) (W : World → World → Prop) (p p' : Progress) : Prop :=
  p.machine.Calm W p'.machine ∨
    ∃ fault m origin, vm.Raises p p' fault m origin ∧ p.machine.Calm W m

theorem Performs.goesOnWith {p : Progress} {effect : Exec Control} {next : Machine → Progress}
    (h : vm.Performs p effect next) : GoesOnWith next := by
  cases h with
  | phase phase m₀ => exact vm.goesOnWith_afterInstruction
  | handOver p d m₀ s hs => exact fun _ => .inl rfl

omit [IsPreorder World W] in
/-- What a result leads to keeps the machine that it has left, but for the record of a failure. -/
theorem calm_proceed {next : Machine → Progress} (hnext : GoesOnWith next)
    {r : EStateM.Result Error Machine Control} (h : m.Calm W (left r)) :
    m.Calm W (proceed next r).machine := by
  match r with
  | .ok .next m' =>
    rw [proceed, hnext.machine_eq]
    exact h
  | .ok (.call c) m' => exact h
  | .ok (.suspend k) m' => exact h
  | .ok .finished m' => exact h
  | .ok .faulted m' => exact h
  | .error e m' =>
    exact ⟨⟨h.context.builtins, h.context.handled, h.context.fault, h.context.carries⟩, h.world⟩

variable {p : Progress} {effect : Exec Control} {after : Machine → Progress}

/-- A calm effect raises nothing but the error that it may end in. -/
theorem Performs.calm_or_raises (hp : vm.Performs p effect after) (hW : World.Admits vm.host W)
    (hcalm : CalmAt W effect p.machine) :
    vm.CalmOrRaises W p (vm.conclude after effect p.machine) := by
  have hleft := hcalm.left
  unfold conclude catching
  cases herror : effect p.machine with
  | ok control m₁ =>
    rw [herror] at hleft
    exact .inl (calm_proceed hp.goesOnWith hleft)
  | error e m₁ =>
    rw [herror] at hleft
    have hm₁ : p.machine.Calm W m₁ := hleft
    dsimp only
    split
    · next hguest =>
      have hvalue := CalmAt.left (Calm.exceptionOf hW e m₁)
      rw [raiseError_eq]
      cases h : vm.exceptionOf e m₁ with
      | error e' m₂ =>
        rw [h] at hvalue
        rw [bind_error h]
        exact .inl (calm_proceed hp.goesOnWith (trans_of _ hm₁ hvalue))
      | ok value m₂ =>
        rw [h] at hvalue
        have hm₂ : p.machine.Calm W m₂ := trans_of _ hm₁ hvalue
        rw [bind_ok h]
        cases hframes : m₂.context.frames with
        | nil =>
          rw [bind_error (frame_nil hframes)]
          exact .inl (calm_proceed hp.goesOnWith hm₂)
        | cons f callers =>
          rw [bind_ok (frame_cons hframes)]
          exact .inr ⟨_, m₂, _,
            .afresh effect after e m₁ f callers hp herror hguest h hframes rfl rfl, hm₂⟩
    · exact .inl (calm_proceed hp.goesOnWith hm₁)

/-- One step of a run is calm or raises a fault. -/
theorem calm_or_raises_advance (hW : World.Admits vm.host W) (phase : Phase) (m : Machine) :
    vm.CalmOrRaises W (.running phase m) (vm.advance phase m) := by
  have hp : vm.Performs (.running phase m) (vm.perform phase) vm.afterInstruction := .phase phase m
  cases phase with
  | link c => exact hp.calm_or_raises hW (calm_follow hW c m)
  | fetch =>
    rcases calm_or_reraises hW m with hcalm | ⟨fault, m₁, origin, hreraises, hperform, hcalm⟩
    · exact hp.calm_or_raises hW hcalm
    · refine .inr ⟨fault, m₁, origin, .kept m origin rfl hreraises ?_, hcalm⟩
      rw [advance, conclude, catching_raiseFault hperform]

/-- So is the beginning of a resumption. -/
theorem calm_or_raises_resumption (hW : World.Admits vm.host W) (k : Continuation) (m : Machine) :
    vm.CalmOrRaises W (.stopped (.suspended k) m) (vm.resumption k m) := by
  cases k with
  | start => exact .inl (refl_of _ m)
  | resume => exact .inl (refl_of _ m)
  | await p d =>
    simp only [resumption]
    cases hs : (m.world.promise p).settled with
    | none => exact .inl ⟨.refl m.context, hW.wait m.world p _⟩
    | some s => exact (Performs.handOver p d m s hs).calm_or_raises hW (calm_handOver hW s d m)

/-- A tasklet that has ended in an error stays as it is. -/
theorem calm_or_raises_entry (hW : World.Admits vm.host W) (k : Continuation) (m : Machine) :
    vm.CalmOrRaises W (.stopped (.suspended k) m) (vm.entry k m) := by
  unfold entry
  split
  · exact .inl (refl_of _ m)
  · split
    · exact .inl (refl_of _ m)
    · exact calm_or_raises_resumption hW k m

/-- An effect that ends in an error that guest code can catch is calm. -/
theorem Performs.calm_of_error (hp : vm.Performs p effect after) (hW : World.Admits vm.host W)
    {e : Error} {m₁ : Machine} (herror : effect p.machine = .error e m₁) (hguest : e.isGuest) :
    p.machine.Calm W m₁ := by
  cases hp with
  | phase phase m₀ =>
    cases phase with
    | link c => exact (calm_follow hW c m₀).of_error herror
    | fetch =>
      rcases calm_or_reraises hW m₀ with hcalm | ⟨fault, m₂, origin, _, hperform, _⟩
      · exact hcalm.of_error herror
      · exact absurd hguest (by rw [raiseFault_error (hperform.symm.trans herror)]; decide)
  | handOver q d m₀ s hs => exact (calm_handOver hW s d m₀).of_error herror

/-- A fault is raised in a machine that the step has calmly come to. -/
theorem Raises.calm {p' : Progress} {fault : Fault} {origin : Origin}
    (h : vm.Raises p p' fault m origin) (hW : World.Admits vm.host W) : p.machine.Calm W m := by
  cases h with
  | afresh effect next e m₁ f callers hp herror hguest hvalue hframes htraceback hp' =>
    exact trans_of _ (hp.calm_of_error hW herror hguest)
      (KeepsAt.of_ok (Calm.exceptionOf hW e m₁) hvalue)
  | kept m₀ _ hp hreraises hp' =>
    subst hp
    cases hreraises with
    | again f callers next hframes hdecode hhandled => exact .replace hframes fun _ => id
    | kept f callers next b rest hframes hdecode hblocks hkind =>
      exact .replace hframes fun _ => Frame.Carries.of_suffix (hblocks ▸ List.suffix_cons b rest)

omit [IsPreorder World W] in
/-- Raising a fault is the end of the step. -/
theorem Raises.proceed {p' : Progress} {fault : Fault} {origin : Origin}
    (h : vm.Raises p p' fault m origin) :
    ∃ next, GoesOnWith next ∧ p' = Vm.proceed next (vm.raiseFault fault m) := by
  cases h with
  | afresh effect next e m₁ f callers hp herror hguest hvalue hframes htraceback hp' =>
    exact ⟨next, hp.goesOnWith, hp'⟩
  | kept m₀ _ hp hreraises hp' => exact ⟨_, vm.goesOnWith_afterInstruction, hp'⟩

end Vm

end Steps

end TaskletMachine
