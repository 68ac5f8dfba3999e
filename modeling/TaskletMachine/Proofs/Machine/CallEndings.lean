import TaskletMachine.Proofs.Machine.HookEndings

/-!
# How calls of a root frame end

A call that a root frame makes while it is in no block can end in three ways. The frame gets a value
and goes on; or a fault is raised that nothing takes, and is what ends the tasklet; or the tasklet
has failed.

## Main definitions

* `Unguarded`: a call stack whose root frame takes no fault.
* `Unguarded.unwindFrames`, `Vm.Raises.unhandled`: a fault that gets to such a root frame.
* `Vm.RootCallEnds`, `Vm.Stage.rootCallEnds`: the three ways.
-/
namespace TaskletMachine

open Exec

/-! ## Root frames that take no fault -/

/-- The root frame is in no block, and no loop in it waits for the frame above it. The call stack is
given by the outlines of its frames. -/
def Unguarded (outlines : List (List Block × Delivery)) : Prop :=
  ∃ above d, outlines = above ++ [([], d)] ∧
    ∀ o ∈ above.getLast?, ∀ exit, o.2 ≠ Delivery.iteration exit

namespace Unguarded

variable {outlines dropped : List (List Block × Delivery)} {f g root : Frame}
  {frames callers : List Frame}

theorem ne_nil (h : Unguarded outlines) : outlines ≠ [] := by
  obtain ⟨above, d, rfl, -⟩ := h
  exact List.append_ne_nil_of_right_ne_nil above (List.cons_ne_nil _ [])

theorem root_blocks (h : Unguarded ([root].map Frame.outline)) : root.blocks = [] := by
  obtain ⟨above, d, hroot, -⟩ := h
  have hroot : [] ++ [root.outline] = above ++ [([], d)] := hroot
  obtain ⟨-, hroot⟩ := List.append_inj' hroot rfl
  exact congrArg Prod.fst (List.cons.inj hroot).1

theorem of_append (h : Unguarded (dropped ++ outlines)) (hne : outlines ≠ []) :
    Unguarded outlines := by
  obtain ⟨above, d, heq, habove⟩ := h
  obtain ⟨kept, o, rfl⟩ := (List.eq_nil_or_concat' outlines).resolve_left hne
  rw [← List.append_assoc] at heq
  obtain ⟨rfl, ho⟩ := List.append_inj' heq rfl
  obtain rfl := (List.cons.inj ho).1
  refine ⟨kept, d, rfl, fun o ho => habove o ?_⟩
  rw [List.getLast?_append, Option.mem_def.1 ho]
  rfl

theorem tail (h : Unguarded ((f :: callers).map Frame.outline)) (hne : callers ≠ []) :
    Unguarded (callers.map Frame.outline) := by
  have hdropped : Unguarded ([f.outline] ++ callers.map Frame.outline) := h
  exact hdropped.of_append (mt List.map_eq_nil_iff.1 hne)

/-- No loop of the root frame waits for the frame above it. -/
theorem iterationExit? (h : Unguarded ([f, root].map Frame.outline)) : f.iterationExit? = none := by
  obtain ⟨above, d, heq, habove⟩ := h
  have heq : [f.outline] ++ [root.outline] = above ++ [([], d)] := heq
  obtain ⟨rfl, -⟩ := List.append_inj' heq rfl
  cases hexit : f.iterationExit? with
  | none => rfl
  | some exit => exact absurd (f.delivery_of_iterationExit? hexit) (habove f.outline rfl exit)

/-- Changes within a frame that is not the root frame. -/
theorem within (h : Unguarded ((f :: callers).map Frame.outline)) (hd : g.delivery = f.delivery)
    (hne : callers ≠ []) : Unguarded ((g :: callers).map Frame.outline) := by
  obtain ⟨above, d, heq, habove⟩ := h
  have hcallers : callers.map Frame.outline ≠ [] := mt List.map_eq_nil_iff.1 hne
  cases above with
  | nil => exact absurd (List.cons.inj heq).2 hcallers
  | cons o above =>
    obtain ⟨rfl, hrest⟩ := List.cons.inj heq
    refine ⟨g.outline :: above, d, congrArg (g.outline :: ·) hrest, fun o' ho' => ?_⟩
    cases above with
    | nil =>
      obtain rfl := Option.some.inj ho'
      intro exit hexit
      exact habove f.outline rfl exit (hd.symm.trans hexit)
    | cons o₁ above => exact habove o' ho'

theorem of_drops {c c' : Context} (h : Unguarded (c.frames.map Frame.outline)) (hdrops : c.Drops c') :
    Unguarded (c'.frames.map Frame.outline) := by
  obtain ⟨dropped, f, g, callers, callers', hc, hc', hg, hsame⟩ := hdrops.frames
  have houtlines : c'.frames.map Frame.outline = (f :: callers).map Frame.outline := by
    rw [hc', List.map_cons, List.map_cons, hg, hsame.outlines]
  rw [hc, List.map_append] at h
  exact houtlines ▸ h.of_append (List.cons_ne_nil _ _)

end Unguarded

/-! ## Faults that get to the root frame -/

/-- A fault has been taken above the root frame. -/
def Unwound.AboveRoot : Unwound → Prop
  | .caught _ frames => 1 < frames.length
  | .cleanup frames => 1 < frames.length
  | .loopEnded _ frames => 1 < frames.length
  | .unhandled _ _ => False
  | .noFrames => False

/-- A fault is taken above the root frame, or by nothing, and then its traceback has got longer. The
induction is on the frames that it passes. -/
theorem Unguarded.unwindFrames {frames : List Frame} (h : Unguarded (frames.map Frame.outline))
    (stops : Value → Bool) (fault : Fault) :
    (unwindFrames stops fault frames).AboveRoot ∨ ∃ (callers : List Frame) (root : Frame),
      root.blocks = [] ∧ unwindFrames stops fault frames = .unhandled (fault.along callers) [root] := by
  induction frames generalizing fault with
  | nil => exact absurd rfl h.ne_nil
  | cons f callers ih =>
    cases callers with
    | nil =>
      refine .inr ⟨[], { f with blocks := [] }, rfl, ?_⟩
      rw [TaskletMachine.unwindFrames, Frame.land, h.root_blocks, Fault.along_nil]
      rfl
    | cons caller rest =>
      have hlength : 1 < (f :: caller :: rest).length := Nat.succ_lt_succ (Nat.succ_pos _)
      have hlands := f.lands_land fault
      rw [TaskletMachine.unwindFrames]
      cases hland : f.land fault with
      | caught g => exact .inl hlength
      | cleanup g => exact .inl hlength
      | passed g =>
        rw [hland] at hlands
        have hturns : f.Turns True none g := hlands.turns_of_passed.1
        have hd : g.delivery = f.delivery := hturns.delivery_eq
        have hpassed := ih (h.tail (List.cons_ne_nil caller rest)) (fault.along [caller])
        have hgoes : (TaskletMachine.unwindFrames stops (fault.along [caller])
              (caller :: rest)).AboveRoot ∨
            ∃ (callers : List Frame) (root : Frame), root.blocks = [] ∧
              TaskletMachine.unwindFrames stops (fault.along [caller]) (caller :: rest) =
                .unhandled (fault.along callers) [root] := by
          rcases hpassed with habove | ⟨passed, root, hroot, hunwind⟩
          · exact .inl habove
          · refine .inr ⟨[caller] ++ passed, root, hroot, ?_⟩
            rw [hunwind, Fault.along_along]
        have hexit : g.iterationExit? = f.iterationExit? := by
          rw [Frame.iterationExit?, hd, Frame.iterationExit?]
        dsimp only
        rw [hexit]
        cases hasks : f.iterationExit? with
        | none => exact hgoes
        | some exit =>
          dsimp only
          split
          · cases rest with
            | nil => rw [h.iterationExit?] at hasks; cases hasks
            | cons below rest => exact .inl (Nat.succ_lt_succ (Nat.succ_pos _))
          · exact hgoes

section Endings

variable {vm : Vm} {limit depth : Nat} {m m' : Machine} {p p' : Progress} {fault : Fault}
  {origin : Origin}

/-- The root frame takes no fault either where one is raised during a call. -/
theorem Vm.Raises.unguarded (h : vm.Raises p p' fault m origin) (hp : p.Lawful limit)
    (hcalling : p.Calling 1) (houtlines : Unguarded (p.machine.context.frames.map Frame.outline)) :
    Unguarded (m.context.frames.map Frame.outline) := by
  rcases h.failed_or_kept with ⟨effect, next, e, m₁, hperforms, herror, hguest, hm⟩ |
    ⟨m₀, f, g, callers, rfl, hframes, hd, rfl⟩
  · rw [hm]
    exact houtlines.of_drops (hperforms.drops_of_error hp herror hguest)
  · have hlength : 1 < m₀.context.frames.length := hcalling
    have houtlines' : Unguarded (m₀.context.frames.map Frame.outline) := houtlines
    rw [hframes] at hlength houtlines'
    exact houtlines'.within hd (List.ne_nil_of_length_pos (Nat.lt_of_succ_lt_succ hlength))

/-- If nothing above such a root frame takes a fault, the tasklet ends with it. -/
theorem Vm.Raises.unhandled (h : vm.Raises p p' fault m origin)
    (houtlines : Unguarded (m.context.frames.map Frame.outline)) (hover : ¬ p'.Calling 1) :
    (∃ m', p' = .stopped .fatal m') ∨ ∃ callers m', p' = .stopped .faulted m' ∧
      m'.context.unhandled? = some (fault.along callers) := by
  obtain ⟨next, hnext, rfl⟩ := h.proceed
  have hcalls (m₁ : Machine) (hover : ¬ (Vm.proceed next (.ok .next m₁)).Calling 1)
      (hlength : 1 < m₁.context.frames.length) : False :=
    hover (hnext.calling_iff.2 hlength)
  rw [raiseFault_eq] at hover ⊢
  rcases houtlines.unwindFrames (vm.isStopIteration m.context m.world.heap) fault with
    habove | ⟨callers, root, hroot, hunwind⟩
  · generalize unwindFrames (vm.isStopIteration m.context m.world.heap) fault m.context.frames = u
      at habove hover ⊢
    cases u with
    | caught taken frames => exact (hcalls _ hover habove).elim
    | cleanup frames => exact (hcalls _ hover habove).elim
    | loopEnded exit frames =>
      dsimp only at hover ⊢
      have hstays : vm.Stays _ (endLoop exit { m with context := { m.context with
        frames := frames, fault := none } }) := Steady.endLoop exit _
      cases hend : endLoop exit
          { m with context := { m.context with frames := frames, fault := none } } with
      | error e m' => exact .inl ⟨_, rfl⟩
      | ok control m' =>
        obtain rfl : control = .next := EndsIn.endLoop exit _ _ _ hend
        rw [hend] at hstays hover
        have hlengths := congrArg List.length hstays.quiet.outlines
        rw [List.length_map, List.length_map] at hlengths
        exact (hcalls m' hover (Nat.lt_of_lt_of_eq habove hlengths.symm)).elim
    | unhandled taken frames => exact habove.elim
    | noFrames => exact habove.elim
  · rw [hunwind]
    refine .inr ⟨callers, _, rfl, ?_⟩
    simp [Context.unhandled?, Context.isUnhandled, hroot]

/-- What throws during a call, and ends it, raises a fault or ends the tasklet. -/
theorem Vm.Throws.raises_or_fatal (hthrows : vm.Throws p) (hstage : vm.Stage p p')
    (hp : p.Lawful limit) (hcalling : p.Calling depth) (hover : ¬ p'.Calling depth) :
    (∃ m₁, p' = .stopped .fatal m₁) ∨ ∃ fault m₁ origin, vm.Raises p p' fault m₁ origin := by
  have hne {effect : Exec Control} {next : Machine → Progress} (hperforms : vm.Performs p effect next)
      {e : Error} {m' : Machine} (hrun : effect p.machine = .error e m') :
      m'.context.frames ≠ [] := by
    obtain ⟨hgoing, _, _, hmeets⟩ := hperforms.meets hp
    rw [hrun] at hmeets
    exact ((hmeets.2 hgoing.sound).1.shifts.sound hgoing.sound).ne_nil
  have herror {effect : Exec Control} {next : Machine → Progress}
      (hperforms : vm.Performs p effect next) {e : Error} {m' : Machine}
      (hrun : effect p.machine = .error e m') :
      (∃ m₁, vm.conclude next effect p.machine = .stopped .fatal m₁) ∨ ∃ fault m₁ origin,
        vm.Raises p (vm.conclude next effect p.machine) fault m₁ origin :=
    (hperforms.raises_or_fatal hrun (hne hperforms hrun)).imp_right
      fun ⟨fault, m₁, hraises, _⟩ => ⟨fault, m₁, _, hraises⟩
  cases hthrows with
  | error phase m m' e hrun =>
    cases hstage
    exact herror (.phase phase m) hrun
  | again m m' fault hi hrun =>
    cases hstage
    have hdepth : depth < m.context.frames.length := hcalling
    obtain ⟨f, callers, hm⟩ := List.exists_cons_of_length_pos (Nat.zero_lt_of_lt hdepth)
    have hcalls {control : Control} {m₁ : Machine} (hrun : vm.perform .fetch m = .ok control m₁)
        (hlasts : control.Lasts) (hlength : (f :: callers).length ≤ m₁.context.frames.length) :
        False :=
      hover (calling_ok vm.goesOnWith_afterInstruction hrun hlasts
        (Nat.lt_of_lt_of_le (hm ▸ hdepth) hlength))
    rcases vm.reraises_or_followsIn hm hi with ⟨fault', m₁, origin, hreraises, hperform⟩ | hfollows
    · refine .inr ⟨fault', m₁, origin, .kept m origin rfl hreraises ?_⟩
      rw [advance, conclude, catching_raiseFault hperform]
    · generalize hperform : vm.perform .fetch m = r at hfollows
      cases hfollows with
      | enters entered m₁ hm₁ =>
        exact (hcalls hperform Control.lasts_next (hm₁ ▸ Nat.le_succ _)).elim
      | stays control m₁ hwithin hlasts =>
        obtain ⟨g, callers', hframes, -, hsame⟩ := hwithin
        refine (hcalls hperform hlasts ?_).elim
        rw [hframes, List.length_cons, List.length_cons, hsame.length_eq]
      | fails e m₁ hwithin => exact herror (.phase .fetch m) hperform
  | handedOver q d m m' s e hs hrun =>
    rw [hstage.resumed hcalling hover]
    simp only [resumption, hs]
    exact herror (.handOver q d m s hs) hrun

/-! ## Endings -/

/-- How a call ends that a root frame has made: the frame has got the result of the callee, or what
has taken its place; the tasklet has ended with a fault that the call has raised, its traceback the
longer for the frames it has passed; or the tasklet has failed. -/
inductive Vm.RootCallEnds (vm : Vm) (root : Frame) (made : Option Value) (p p' : Progress) : Prop
  | value (v : Value) (hv : vm.Results p v) (hgets : p'.Gets root [] (made.getD v))
      (hgoes : p'.GoesOn)
  | fault (fault : Fault) (m m' : Machine) (origin : Origin) (callers : List Frame)
      (hraises : vm.Raises p p' fault m origin) (hp' : p' = .stopped .faulted m')
      (hfault : m'.context.unhandled? = some (fault.along callers))
  | fails (m' : Machine) (hp' : p' = .stopped .fatal m')

/-- The root frame takes no fault as long as its call lasts. -/
theorem Progress.Holds.unguarded {root : Frame} {made : Option Value} (h : p.Holds [root] made)
    (hroot : root.blocks = []) : Unguarded (p.machine.context.frames.map Frame.outline) := by
  have houtline : [root].map Frame.outline = [([], root.delivery)] := by
    rw [List.map_singleton, Frame.outline, hroot]
  have halone {frames : List Frame} (hsame : SameFrames [root] frames) :
      Unguarded (frames.map Frame.outline) :=
    ⟨[], root.delivery, hsame.outlines.trans houtline, nofun⟩
  cases h with
  | linking c m hsame hd => exact halone hsame
  | waiting q d m hsame hd => exact halone hsame
  | above _ habove =>
    obtain ⟨above, entered, base, hframes, hd, hsame⟩ := habove
    refine ⟨above.map Frame.outline ++ [entered.outline], root.delivery, ?_, fun o ho exit => ?_⟩
    · rw [hframes, List.map_append, List.map_cons, hsame.outlines, houtline, List.append_assoc]
      rfl
    · rw [List.getLast?_concat] at ho
      obtain rfl := Option.some.inj ho
      intro hexit
      have hd' : entered.delivery = .iteration exit := hexit
      rw [hd'] at hd
      cases hd

/-- **Calls of a root frame end in one of three ways.** -/
theorem Vm.Stage.rootCallEnds {root : Frame} {made : Option Value} (hstage : vm.Stage p p')
    (hp : p.Lawful limit) (hroot : root.blocks = []) (hholds : p.Holds [root] made)
    (hcalling : p.Calling 1) (hover : ¬ p'.Calling 1) :
    vm.RootCallEnds root (made.or (p.made? 1)) p p' := by
  cases callStep_stage hstage hp hholds hcalling with
  | goesOn hholds' hcalling' => exact absurd hcalling' hover
  | ends v hv hgets hover' hgoes => exact .value v hv hgets hgoes
  | throws hthrows hholds' =>
    rcases hthrows.raises_or_fatal hstage hp hcalling hover with
      ⟨m', hfatal⟩ | ⟨fault, m, origin, hraises⟩
    · exact .fails m' hfatal
    · have houtlines := hraises.unguarded hp hcalling (hholds.unguarded hroot)
      rcases hraises.unhandled houtlines hover with ⟨m', hfatal⟩ | ⟨callers, m', hp', hfault⟩
      · exact .fails m' hfatal
      · exact .fault fault m m' origin callers hraises hp' hfault

end Endings

end TaskletMachine
