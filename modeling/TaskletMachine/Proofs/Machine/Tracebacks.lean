import Mathlib.Data.List.DropRight
import TaskletMachine.Proofs.Machine.Origins
import TaskletMachine.Proofs.Machine.Protocol
import TaskletMachine.Proofs.Machine.Restoration

/-!
# Tracebacks

A fault that is raised afresh takes the place of the innermost frame with it, and adds that of each
frame that it gets to. On the way it may stay in cleanup bodies, which move the frame that they are
in and call other frames; but the frames below stand still all the time, so the places of these
frames are still the ones that are missing in the traceback. A fault that ends the tasklet has got
to the root frame, and then its traceback is the call chain at the moment when it was raised.

## Main definitions

* `Context.KeepsCallers`: changes after which the callers of a frame that has kept its place stand
  where they stood.
* `Vm.StageRun`: the stages that a tasklet goes through.
* `Vm.Flight`: the way of a fault through the stages.
* `Vm.StageRun.tracebacks`: the traceback of a fault that ends the tasklet.
-/
namespace TaskletMachine

open Exec

/-! ## Callers that stand still -/

/-- The callers of a frame that keeps its place stand where they stood. -/
def Context.KeepsCallers (c c' : Context) : Prop :=
  ∀ k, k < c.frames.length → k < c'.frames.length → c'.trace.rtake k = c.trace.rtake k

section Callers

variable {limit : Nat} {exits : Prop} {c c₁ c' : Context} {f : Frame} {callers above : List Frame}

theorem SameFrames.places {frames frames' : List Frame} (h : SameFrames frames frames') :
    frames'.map Frame.place = frames.map Frame.place := by
  have hplace : Frame.place = (fun standing : CodeUnit × Nat × Nat × List Value =>
      { unit := standing.1.name, line := standing.1.line? standing.2.2.1, ip := standing.2.2.1 }) ∘
        Frame.standing := rfl
  rw [hplace, ← List.map_map, ← List.map_map, h.standings]

theorem Context.rtake_trace (hc : c.frames = above ++ callers) {k : Nat} (hk : k ≤ callers.length) :
    c.trace.rtake k = (callers.map Frame.place).rtake k := by
  rw [trace, hc, List.map_append, List.rtake_eq_reverse_take_reverse,
    List.rtake_eq_reverse_take_reverse, List.reverse_append,
    List.take_append_of_le_length (by simpa using hk)]

theorem Context.rtake_trace_length (above : List Frame) (hc : c.frames = above ++ callers) :
    c.trace.rtake callers.length = callers.map Frame.place := by
  rw [rtake_trace hc (Nat.le_refl _), List.rtake, List.length_map, Nat.sub_self, List.drop_zero]

namespace Context.KeepsCallers

/-- Nothing happens but above frames that stand still, of which the innermost is the caller in one
of the two call stacks. -/
theorem of_shared (above above' : List Frame) {callers' : List Frame}
    (hc : c.frames = above ++ callers) (hc' : c'.frames = above' ++ callers')
    (hsame : SameFrames callers callers')
    (habove : above.length ≤ 1 ∨ above'.length ≤ 1) : c.KeepsCallers c' := by
  intro k hk hk'
  have hlength := hsame.length_eq
  rw [hc, List.length_append] at hk
  rw [hc', List.length_append] at hk'
  rw [Context.rtake_trace hc (by omega), Context.rtake_trace hc' (by omega), hsame.places]

theorem of_sameFrames (h : SameFrames c.frames c'.frames) : c.KeepsCallers c' :=
  of_shared [] [] rfl rfl h (.inl (Nat.zero_le 1))

/-- Frames that are dropped leave the others as they stand. -/
theorem trans (h : c.KeepsCallers c₁) (h₁ : c₁.KeepsCallers c')
    (hlength : c'.frames.length ≤ c₁.frames.length) : c.KeepsCallers c' := by
  intro k hk hk'
  have hk₁ := Nat.lt_of_lt_of_le hk' hlength
  exact (h₁ k hk₁ hk').trans (h k hk hk₁)

theorem of_shifts (h : c.Shifts limit exits c') : c.KeepsCallers c' := by
  cases h with
  | drop dropped f g callers callers' hc hc' hsame hturn =>
    exact of_shared (dropped ++ [f]) [g] (hc.trans (List.append_cons dropped f callers)) hc' hsame
      (.inr (Nat.le_refl 1))
  | enter entered f g callers callers' hc hc' hsame hb hd hfresh hsound hlimit =>
    exact of_shared [f] [entered, g] hc hc' hsame (.inl (Nat.le_refl 1))

theorem of_unwinds (h : c'.Unwinds c.frames) : c.KeepsCallers c' := by
  obtain ⟨dropped, f, callers, hc, g, callers', hc', hd, hsame⟩ := h
  exact of_shared (dropped ++ [f]) [g] (hc.trans (List.append_cons dropped f callers)) hc' hsame
    (.inr (Nat.le_refl 1))

theorem of_finishes (h : c.Finishes c') : c.KeepsCallers c' := by
  obtain ⟨f, g, hc, hc', _⟩ := h.root
  exact of_shared [f] [g] hc hc' (.refl []) (.inl (Nat.le_refl 1))

theorem of_meets {vm : Vm} {m : Machine} {r : EStateM.Result Error Machine Control}
    (h : vm.Meets limit exits m r) (hm : m.context.Sound) :
    m.context.KeepsCallers (left r).context := by
  match r, h with
  | .ok .next m', h => exact of_shifts (h.2 hm).shifts
  | .ok (.call c) m', h => exact of_shifts (h.2 hm).shifts
  | .ok (.suspend k) m', h => exact of_shifts (h.2 hm).shifts
  | .ok .finished m', h => exact of_finishes (h.2 hm)
  | .ok .faulted m', h => exact of_shifts (h.2 hm).1
  | .error e m', h => exact of_shifts (h.2 hm).1.shifts

end Context.KeepsCallers

end Callers

/-! ## Stages -/

section Stages

variable {vm : Vm} {limit : Nat} {exits : Prop} {m : Machine} {p p' : Progress}

/-- An effect keeps callers, and so does raising its error. -/
theorem Vm.keepsCallers_conclude {next : Machine → Progress} {effect : Exec Control}
    (hnext : GoesOnWith next) (h : vm.Meets limit exits m (effect m)) (hm : m.context.Sound) :
    m.context.KeepsCallers (vm.conclude next effect m).machine.context := by
  have hcatching : m.context.KeepsCallers (left (vm.catching effect m)).context := by
    have heffect := Context.KeepsCallers.of_meets h hm
    unfold catching
    cases hr : effect m with
    | ok control m' =>
      rw [hr] at heffect
      exact heffect
    | error e m' =>
      rw [hr] at heffect h
      have hne : m'.context.frames ≠ [] := ((h.2 hm).1.shifts.sound hm).ne_nil
      dsimp only
      split
      · have hunwinds := unwinds_raiseError vm e hne
        exact heffect.trans (.of_unwinds hunwinds) hunwinds.length_le
      · exact heffect
  intro k hk hk'
  rw [Context.trace, conclude, frames_proceed hnext] at *
  exact hcatching k hk hk'

/-- A stage keeps callers. -/
theorem Vm.Stage.keepsCallers (h : vm.Stage p p') (hp : p.Lawful limit) :
    p.machine.context.KeepsCallers p'.machine.context := by
  cases h with
  | advance phase m =>
    exact keepsCallers_conclude vm.goesOnWith_afterInstruction (Meets.perform vm hp.2 m) hp.1.sound
  | resume k m hfatal hunhandled =>
    cases k with
    | start => exact .of_sameFrames (.refl _)
    | resume => exact .of_sameFrames (.refl _)
    | await p d =>
      simp only [resumption]
      cases hs : (m.world.promise p).settled with
      | none => exact .of_sameFrames (.refl _)
      | some s =>
        have hmeets : vm.Meets limit False m (handOver s d m) := .of_stays (.handOver hs hp.2) id
        exact keepsCallers_conclude (fun _ => .inl rfl) hmeets hp.1.sound
  | outside k m world => exact .of_sameFrames (.refl _)
  | setGlobal k m name v =>
    exact .of_sameFrames (Context.sameFrames_mapRoot name v m.context.frames)
  | setLoader k m loader => exact .of_sameFrames (.refl _)

/-- The world changes in any way. -/
def World.Changes (_ _ : World) : Prop :=
  True

instance : IsPreorder World World.Changes where
  refl _ := trivial
  trans _ _ _ _ _ := trivial

theorem World.Changes.admits (host : Host) : World.Admits host World.Changes where
  heap _ _ _ := trivial
  park _ _ := trivial
  wait _ _ _ := trivial
  native f args keywords w := by
    unfold KeepsAt
    split <;> trivial

/-- A stage is calm or raises a fault. -/
theorem Vm.Stage.calm_or_raises (h : vm.Stage p p') : vm.CalmOrRaises World.Changes p p' := by
  have hW := World.Changes.admits vm.host
  cases h with
  | advance phase m => exact calm_or_raises_advance hW phase m
  | resume k m hfatal hunhandled => exact calm_or_raises_resumption hW k m
  | outside k m world => exact .inl ⟨.refl m.context, trivial⟩
  | setGlobal k m name v => exact .inl ⟨.setGlobal m.context name v, trivial⟩
  | setLoader k m loader => exact .inl ⟨⟨rfl, rfl, rfl, fun _ _ => id⟩, trivial⟩

/-- No fault is pending where a stage begins. -/
theorem Vm.Stage.fault_eq_none (h : vm.Stage p p') (hp : p.Lawful limit) :
    p.machine.context.fault = none := by
  cases h with
  | _ => exact hp.1.fault

end Stages

/-! ## The way of a fault -/

/-- A fault is in a cleanup body of the frame at a place, or has ended the tasklet. -/
def Progress.Bears (p : Progress) : Option Nat → Fault → Prop
  | some k, fault => p.machine.context.CarriesAt k fault
  | none, fault => ∃ m, p = .stopped .faulted m ∧ m.context.fault = some fault

/-- The stages that a tasklet goes through, from its start on. -/
structure Vm.StageRun (vm : Vm) (run : Nat → Progress) (n : Nat) : Prop where
  starts : ∃ unit builtins globals modules loader world, run 0 = .stopped (.suspended .start)
    { context := { Context.start unit builtins globals with modules, loader }, world }
  stages : ∀ i < n, vm.Stage (run i) (run (i + 1))

/-- The way of a fault that a stage has raised: where it is after a later stage, and what has become
of its traceback. It stays in a cleanup body until the body ends, and then goes on. A guard of
clauses that catches it ends its way, and so does everything that leaves the cleanup body otherwise.
-/
inductive Vm.Flight (vm : Vm) (run : Nat → Progress) (i : Nat) (origin : Origin) (fault : Fault)
    (m : Machine) : Nat → Option Nat → Fault → Prop
  | raised (place : Option Nat) (fault' : Fault)
      (hraises : vm.Raises (run i) (run (i + 1)) fault m origin)
      (hcomes : vm.ComesTo m fault place fault') :
      Flight vm run i origin fault m (i + 1) place fault'
  | stays (t k : Nat) (fault' : Fault) (h : Flight vm run i origin fault m t (some k) fault')
      (hstays : (run (t + 1)).Bears (some k) fault') :
      Flight vm run i origin fault m (t + 1) (some k) fault'
  | goesOn (t k : Nat) (fault₁ : Fault) (m₁ : Machine) (place : Option Nat) (fault' : Fault)
      (h : Flight vm run i origin fault m t (some k) fault₁)
      (hraises : vm.Raises (run t) (run (t + 1)) fault₁ m₁ (.kept k))
      (hcomes : vm.ComesTo m₁ fault₁ place fault') :
      Flight vm run i origin fault m (t + 1) place fault'

section Ways

variable {vm : Vm} {limit : Nat} {p p' : Progress} {m m₁ : Machine} {fault fault' : Fault}
  {origin : Origin} {place : Option Nat}

/-- The fault is where the search has left it, and the frames below stand where they stood. -/
theorem Vm.Raises.bears (h : vm.Raises p p' fault m origin)
    (hcomes : vm.ComesTo m fault place fault') :
    p'.Bears place fault' ∧
      p'.machine.context.trace.rtake (place.getD 0) = m.context.trace.rtake (place.getD 0) := by
  obtain ⟨next, hnext, rfl⟩ := h.proceed
  have hlands := vm.landsIn_unwind fault m
  cases hcomes with
  | cleanup _ g callers b rest hunwind hblocks hkind =>
    have hraise : vm.raiseFault fault m = .ok .next { m with context :=
        { m.context with frames := g :: callers, fault := none } } := by
      rw [raiseFault_eq, ← unwind, hunwind]
    rw [hunwind] at hlands
    cases hlands with
    | cleanup passed f _ _ hframes hland =>
      rw [hraise, Vm.proceed]
      constructor
      · rw [Progress.Bears, hnext.machine_eq]
        exact (Context.carriesAt_cons rfl).2 (.inl ⟨rfl, b, hblocks ▸ List.mem_cons_self, hkind⟩)
      · rw [hnext.machine_eq, Option.getD_some,
          Context.rtake_trace_length _ (hframes.trans (List.append_cons passed f callers))]
        exact Context.rtake_trace_length [g] rfl
  | unhandled _ frames hunwind =>
    have hraise : vm.raiseFault fault m = .ok .faulted { m with context :=
        { m.context with frames, fault := some fault' } } := by
      rw [raiseFault_eq, ← unwind, hunwind]
    rw [hraise]
    exact ⟨⟨_, rfl, rfl⟩, by rw [Option.getD_none, List.rtake_zero, List.rtake_zero]⟩

/-- The traceback grows by the places that are not missing any more. -/
theorem Vm.ComesTo.traceback (h : vm.ComesTo m fault place fault') :
    fault'.value = fault.value ∧
      fault'.traceback ++ m.context.trace.rtake (place.getD 0) =
        fault.traceback ++ m.context.trace.tail := by
  obtain ⟨passed, f, callers, hframes, hplace, rfl⟩ := h.along
  refine ⟨rfl, ?_⟩
  have hcallers : m.context.trace.rtake (place.getD 0) = callers.map Frame.place := by
    rw [hplace, Context.rtake_trace_length _ (hframes.trans (List.append_cons passed f callers))]
  have htail : m.context.trace.tail =
      (passed ++ [f]).tail.map Frame.place ++ callers.map Frame.place := by
    rw [Context.trace, hframes, List.append_cons, List.map_append, List.map_tail,
      List.tail_append_of_ne_nil (by simp)]
  rw [hcallers, htail, Fault.along, List.append_assoc]

/-- A fault that was raised afresh is on its way. With the places that are still missing its
traceback is the call chain of the machine in which it was raised. -/
def Progress.Owes (p : Progress) (place : Option Nat) (fault' fault : Fault) (m : Machine) : Prop :=
  p.Bears place fault' ∧ fault'.value = fault.value ∧
    fault'.traceback ++ p.machine.context.trace.rtake (place.getD 0) = m.context.trace

theorem Vm.Raises.owes (h : vm.Raises p p' fault m .afresh)
    (hcomes : vm.ComesTo m fault place fault') :
    p'.Owes place fault' fault m := by
  obtain ⟨hbears, hcallers⟩ := h.bears hcomes
  obtain ⟨hvalue, htraceback⟩ := hcomes.traceback
  refine ⟨hbears, hvalue, ?_⟩
  rw [hcallers, htraceback]
  cases h with
  | afresh effect next e m₁ f callers hp herror hguest hvalue hframes hfirst hp' =>
    rw [hfirst, Context.trace, hframes]
    rfl
  | kept m₀ _ hp hreraises hp' => cases hreraises

/-- The end of a cleanup body lets the fault go on where the body is. -/
theorem Vm.Raises.places {k : Nat} (h : vm.Raises p p' fault m (.kept k)) :
    p.machine.context.CarriesAt k fault ∧
      m.context.trace.tail = p.machine.context.trace.rtake k := by
  cases h with
  | kept m₀ _ hp hreraises hp' =>
    subst hp
    cases hreraises with
    | kept f callers next b rest hframes hdecode hblocks hkind =>
      have hcarries : f.Carries fault := ⟨b, hblocks ▸ List.mem_cons_self, hkind⟩
      refine ⟨(Context.carriesAt_cons hframes).2 (.inl ⟨rfl, hcarries⟩), ?_⟩
      exact (Context.rtake_trace_length [f] hframes).symm

end Ways

/-! ## Runs -/

section Runs

variable {vm : Vm} {run : Nat → Progress} {n i t k : Nat} {origin : Origin} {fault fault' : Fault}
  {m : Machine} {place : Option Nat}

namespace Vm.StageRun

theorem lawful (h : vm.StageRun run n) : ∀ t ≤ n, (run t).Lawful vm.maxCallDepth := by
  intro t ht
  induction t with
  | zero =>
    obtain ⟨unit, builtins, globals, modules, loader, world, hstart⟩ := h.starts
    have hgoing := Context.going_start vm.maxCallDepth unit builtins globals
    rw [hstart]
    exact ⟨⟨⟨⟨hgoing.sound.1, hgoing.sound.2⟩, hgoing.depth⟩, hgoing.fault, hgoing.fatal⟩, trivial⟩
  | succ t ih => exact (h.stages t ht).lawful (Nat.le_refl _) (ih (Nat.le_of_succ_le ht))

end Vm.StageRun

theorem Context.CarriesAt.lt {c : Context} (h : c.CarriesAt k fault) : k < c.frames.length := by
  obtain ⟨f, hf, _⟩ := h
  exact lt_of_frameAt? hf

/-- What a fault owes on its way are the places of the frames below the one that it is in. -/
theorem Vm.Flight.owes (hrun : vm.StageRun run n)
    (h : vm.Flight run i .afresh fault m t place fault')
    (ht : t ≤ n) : (run t).Owes place fault' fault m := by
  induction h with
  | raised place fault' hraises hcomes => exact hraises.owes hcomes
  | stays t k fault' h hstays ih =>
    obtain ⟨hbears, hvalue, htraceback⟩ := ih (Nat.le_of_succ_le ht)
    refine ⟨hstays, hvalue, ?_⟩
    have hstage := hrun.stages t ht
    have hkeeps := hstage.keepsCallers (hrun.lawful t (Nat.le_of_succ_le ht)) k
      (Context.CarriesAt.lt hbears) (Context.CarriesAt.lt hstays)
    rw [Option.getD_some, hkeeps]
    exact htraceback
  | goesOn t k fault₁ m₁ place fault' h hraises hcomes ih =>
    obtain ⟨_, hvalue, htraceback⟩ := ih (Nat.le_of_succ_le ht)
    obtain ⟨hbears, hcallers⟩ := hraises.bears hcomes
    obtain ⟨hvalue', htraceback'⟩ := hcomes.traceback
    refine ⟨hbears, hvalue'.trans hvalue, ?_⟩
    rw [hcallers, htraceback', hraises.places.2]
    exact htraceback

/-- A fault that is somewhere after it has been raised was in a cleanup body before, or has come to
where it is. -/
theorem Vm.Raises.comesTo {p p' : Progress} (h : vm.Raises p p' fault m origin)
    (hbears : p'.Bears place fault') :
    (∃ k, place = some k ∧ m.context.CarriesAt k fault') ∨ vm.ComesTo m fault place fault' := by
  obtain ⟨next, hnext, rfl⟩ := h.proceed
  cases place with
  | some k =>
    have hcarries : (left (vm.raiseFault fault m)).context.CarriesAt k fault' := by
      obtain ⟨f, hf, hfault⟩ := hbears
      rw [Context.frameAt?, frames_proceed hnext] at hf
      exact ⟨f, hf, hfault⟩
    exact (carriesAt_raiseFault hcarries).imp (fun h => ⟨k, rfl, h⟩) id
  | none =>
    obtain ⟨m', hstopped, hfault⟩ := hbears
    have hrun : vm.raiseFault fault m = .ok .faulted m' := by
      cases hr : vm.raiseFault fault m with
      | error e m₁ =>
        rw [hr] at hstopped
        cases hstopped
      | ok control m₁ =>
        rw [hr] at hstopped
        cases control with
        | next =>
          rw [Vm.proceed] at hstopped
          rcases hnext m₁ with h | h <;> cases h.symm.trans hstopped
        | faulted =>
          cases hstopped
          rfl
        | _ => cases hstopped
    rw [raiseFault_eq, ← unwind] at hrun
    cases hunwind : vm.unwind fault m with
    | caught fault₁ frames =>
      rw [hunwind] at hrun
      cases hrun
    | cleanup frames =>
      rw [hunwind] at hrun
      cases hrun
    | loopEnded exit frames =>
      rw [hunwind] at hrun
      cases EndsIn.endLoop exit _ _ _ hrun
    | unhandled fault₁ frames =>
      rw [hunwind] at hrun
      cases hrun
      cases hfault
      exact .inr (.unhandled fault' frames hunwind)
    | noFrames =>
      rw [hunwind] at hrun
      cases hrun

namespace Vm.StageRun

/-- At the start no fault is anywhere. -/
theorem not_bears_zero (h : vm.StageRun run n) : ¬ (run 0).Bears place fault' := by
  obtain ⟨unit, builtins, globals, modules, loader, world, hstart⟩ := h.starts
  rw [hstart]
  cases place with
  | none => exact fun ⟨m, hm, _⟩ => nomatch hm
  | some k =>
    rintro ⟨f, hf, b, hb, -⟩
    have hmem := Context.mem_frames_iff_frameAt?.2 ⟨k, hf⟩
    rw [Context.blocks_start unit builtins globals f hmem] at hb
    cases hb

/-- A fault that is on its way, or has ended the tasklet, has been raised before, and its way has led
there. -/
theorem exists_flight (h : vm.StageRun run n) (ht : t ≤ n) (hbears : (run t).Bears place fault') :
    ∃ i origin fault m, (origin = .afresh ∨ origin = .again) ∧
      vm.Flight run i origin fault m t place fault' := by
  induction t generalizing place fault' with
  | zero => exact absurd hbears h.not_bears_zero
  | succ t ih =>
    have hstays {k : Nat} (hplace : place = some k)
        (hcarries : (run t).machine.context.CarriesAt k fault') :
        ∃ i origin fault m, (origin = .afresh ∨ origin = .again) ∧
          vm.Flight run i origin fault m (t + 1) place fault' := by
      subst hplace
      obtain ⟨i, origin, fault, m, horigin, hflight⟩ :=
        ih (Nat.le_of_succ_le ht) (show (run t).Bears (some k) fault' from hcarries)
      exact ⟨i, origin, fault, m, horigin, .stays t k fault' hflight hbears⟩
    rcases (h.stages t ht).calm_or_raises with hcalm | ⟨fault, m, origin, hraises, hcalm⟩
    · cases place with
      | some k => exact hstays rfl (hcalm.context.carries k fault' hbears)
      | none =>
        obtain ⟨m', hm', hfault⟩ := hbears
        have hnone := (h.stages t ht).fault_eq_none (h.lawful t (Nat.le_of_succ_le ht))
        rw [hm'] at hcalm
        cases hfault.symm.trans (hcalm.context.fault.trans hnone)
    · rcases hraises.comesTo hbears with ⟨k, hplace, hcarries⟩ | hcomes
      · exact hstays hplace (hcalm.context.carries k fault' hcarries)
      · cases origin with
        | afresh => exact ⟨t, .afresh, fault, m, .inl rfl, .raised place fault' hraises hcomes⟩
        | again => exact ⟨t, .again, fault, m, .inr rfl, .raised place fault' hraises hcomes⟩
        | kept k =>
          obtain ⟨i, origin, fault₀, m₀, horigin, hflight⟩ :=
            ih (Nat.le_of_succ_le ht) (show (run t).Bears (some k) fault from hraises.places.1)
          exact ⟨i, origin, fault₀, m₀, horigin,
            .goesOn t k fault m place fault' hflight hraises hcomes⟩

/-- **Tracebacks are exact.** A fault that was raised afresh, was caught by no guard of clauses on
its way and ends the tasklet, has the call chain at the moment when it was raised for its traceback:
one entry for each frame, innermost first. Its way may have led through any number of cleanup bodies.
And every fault that ends the tasklet has come from where it was raised afresh, or raised again
without a value after it had been caught. -/
theorem tracebacks (h : vm.StageRun run n) (ht : t ≤ n) :
    (∀ i fault m fault', vm.Flight run i .afresh fault m t none fault' →
      ∃ m', run t = .stopped .faulted m' ∧ m'.context.fault = some fault' ∧
        fault'.value = fault.value ∧
        fault'.traceback = m.context.frames.map fun f =>
          { unit := f.unit.name, line := f.unit.line? f.instructionIp, ip := f.instructionIp }) ∧
    ∀ m', run t = .stopped .faulted m' → ∃ i origin fault m fault',
      (origin = .afresh ∨ origin = .again) ∧ vm.Flight run i origin fault m t none fault' ∧
        m'.context.fault = some fault' := by
  constructor
  · intro i fault m fault' hflight
    obtain ⟨⟨m', hm', hfault⟩, hvalue, htraceback⟩ := hflight.owes h ht
    rw [Option.getD_none, List.rtake_zero, List.append_nil] at htraceback
    exact ⟨m', hm', hfault, hvalue, htraceback⟩
  · intro m' hm'
    have hlawful := h.lawful t ht
    rw [hm'] at hlawful
    obtain ⟨fault', hfault⟩ : ∃ fault', m'.context.fault = some fault' := by
      have hunhandled := hlawful.2.1
      rw [Context.isUnhandled, Bool.and_eq_true] at hunhandled
      exact Option.isSome_iff_exists.1 hunhandled.1
    obtain ⟨i, origin, fault, m, horigin, hflight⟩ :=
      h.exists_flight ht (show (run t).Bears none fault' from ⟨m', hm', hfault⟩)
    exact ⟨i, origin, fault, m, fault', horigin, hflight, hfault⟩

end Vm.StageRun

end Runs

/-! ## A call in a guarded part -/

namespace GuardedCall

/-- A function whose only local has no value where it is used. -/
def callee : CodeUnit :=
  { name := "f", bytes := #[0x7c, 0, 0], localNames := #["x"] }

/-- A unit that calls it in a part with a cleanup body. -/
def caller : CodeUnit :=
  { name := "main", bytes := #[0x7a, 6, 0, 0x65, 0, 0, 0x83, 0, 0, 0x58], names := #["f"] }

/-- The block of the guarded part. -/
def guard : Block :=
  { kind := .finallyGuard, origin := 3, handler := 9, depth := 0 }

/-- The frame of the caller. -/
def calling (instructionIp ip : Nat) (stack : List Value) (blocks : List Block) : Frame :=
  { Frame.start caller .push with
    instructionIp, ip, stack, blocks, names := [("f", .function ⟨0⟩)] }

/-- The frame of the function. -/
def called (ip : Nat) : Frame :=
  { Frame.start callee .push with ip }

/-- The heap at the start. -/
def heap : Heap :=
  { classes := #[{ name := "UnboundLocalError", bases := [], attrs := [] }]
    functions := #[{ name := "f", unit := callee, defaults := [] }] }

/-- The machine while the unit is executed. -/
def machine (frames : List Frame) (heap : Heap) : Machine :=
  { context := { frames, builtins := [("UnboundLocalError", .classObj ⟨0⟩)] }, world := { heap } }

/-- The heap after the exception has been made. -/
def heapAfter : Heap :=
  (left ((default : Vm).exceptionOf (.unboundLocal "x")
    (machine [called 3, calling 6 9 [] [guard]] heap))).world.heap

/-- The fault that is raised. -/
def raised : Fault :=
  { value := .instanceObj ⟨0⟩, traceback := [{ unit := "f", line := none, ip := 0 }] }

/-- The fault in the cleanup body. -/
def kept : Fault :=
  { raised with traceback := raised.traceback ++ [{ unit := "main", line := none, ip := 6 }] }

/-- The stages of the run. -/
def state : Nat → Progress
  | 0 => .stopped (.suspended .start) (machine [calling 0 0 [] []] heap)
  | 1 => .running .fetch (machine [calling 0 0 [] []] heap)
  | 2 => .running .fetch (machine [calling 0 3 [] [guard]] heap)
  | 3 => .running .fetch (machine [calling 3 6 [.function ⟨0⟩] [guard]] heap)
  | 4 => .running (.link { callee := .function ⟨0⟩, delivery := .push })
    (machine [calling 6 9 [] [guard]] heap)
  | 5 => .running .fetch (machine [called 0, calling 6 9 [] [guard]] heap)
  | 6 => .running .fetch
    (machine [calling 6 9 [] [{ guard with kind := .finallyBody kept }]] heapAfter)
  | _ => (default : Vm).advance .fetch
    (machine [calling 6 9 [] [{ guard with kind := .finallyBody kept }]] heapAfter)

/-- The machine in which the fault is raised. -/
def failed : Machine :=
  machine [called 3, calling 6 9 [] [guard]] heapAfter

/-- The machine in which the fault goes on. -/
def ended : Machine :=
  machine [calling 9 10 [] []] heapAfter

theorem stageRun : (default : Vm).StageRun state 7 := by
  constructor
  · exact ⟨caller, [("UnboundLocalError", .classObj ⟨0⟩)], [("f", .function ⟨0⟩)], [], none,
      { heap }, by with_unfolding_all rfl⟩
  · intro i hi
    have hload :
        (default : Vm).advance .fetch (machine [calling 0 3 [] [guard]] heap) = state 3 := by
      with_unfolding_all rfl
    rcases i with _ | _ | _ | _ | _ | _ | _ | i
    · exact .resume .start _ rfl rfl
    · exact .advance .fetch _
    · exact hload ▸ .advance .fetch _
    · exact .advance .fetch _
    · exact .advance (.link _) _
    · exact .advance .fetch _
    · exact .advance .fetch _
    · omega

/-- The function raises the fault, which comes to the cleanup body. -/
theorem raises : (default : Vm).Raises (state 5) (state 6) raised failed .afresh :=
  .afresh _ _ (.unboundLocal "x") (machine [called 3, calling 6 9 [] [guard]] heap) (called 3)
    [calling 6 9 [] [guard]] (.phase .fetch _) rfl rfl rfl rfl rfl rfl

theorem comesTo : (default : Vm).ComesTo failed raised (some 0) kept :=
  .cleanup kept (calling 6 9 [] [{ guard with kind := .finallyBody kept }]) [] _ [] rfl rfl rfl

/-- When the body ends the fault goes on, and ends the tasklet. -/
theorem raises_again : (default : Vm).Raises (state 6) (state 7) kept ended (.kept 0) :=
  .kept _ _ rfl (.kept (calling 6 9 [] [{ guard with kind := .finallyBody kept }]) [] 10
    { guard with kind := .finallyBody kept } [] rfl rfl rfl rfl) rfl

end GuardedCall

open GuardedCall in
/-- The exception that a function raises passes the cleanup body of its caller and ends the tasklet;
the traceback shows the function and the place of the call. -/
theorem GuardedCall.traceback_of_call :
    ∃ m fault, state 7 = .stopped .faulted m ∧ m.context.fault = some fault ∧
      fault.traceback.map (fun entry => (entry.unit, entry.ip)) = [("f", 0), ("main", 6)] := by
  have hflight : (default : Vm).Flight state 5 .afresh raised failed 7 none kept :=
    .goesOn 6 0 kept ended none kept (.raised (some 0) kept raises comesTo) raises_again
      (.unhandled kept [calling 9 10 [] []] rfl)
  obtain ⟨m, hm, hfault, _, htraceback⟩ :=
    (stageRun.tracebacks (Nat.le_refl 7)).1 5 raised failed kept hflight
  exact ⟨m, kept, hm, hfault, htraceback ▸ rfl⟩

end TaskletMachine
