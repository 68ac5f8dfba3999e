import TaskletMachine.Proofs.Machine.Blind

/-!
# Step mode

In step mode a run stops after each instruction, and goes on when the tasklet is resumed. Resuming it
again and again leads to the same end as one run without step mode, through the same steps, whatever
happens to the pools in the meantime.

## Main definitions

* `Vm.inMode`: the machine with step mode on or off.
* `Vm.trace`: the steps of a resumption.
* `Vm.Leads`, `Vm.Leads.unique`: where resuming again and again in step mode leads.
* `Vm.DebugSession`: a tasklet that is resumed in both modes.
* `Vm.stepMode_refines`: step mode leads where a run without it ends.
-/
namespace TaskletMachine

open Exec

/-! ## Modes and traces -/

/-- The machine with step mode on or off. -/
def Vm.inMode (vm : Vm) (on : Bool) : Vm :=
  { vm with stepMode := on }

/-- The steps of a run: what is executed, and on which context. -/
def Vm.traceFor (vm : Vm) : (steps : Nat) → Progress → List (Phase × Context)
  | _, .stopped _ _ => []
  | 0, .running _ _ => []
  | steps + 1, .running phase m => (phase, m.context) :: traceFor vm steps (vm.advance phase m)

/-- The steps of a resumption. -/
def Vm.trace (vm : Vm) (steps : Nat) (k : Continuation) (m : Machine) : List (Phase × Context) :=
  vm.traceFor steps (vm.entry k m)

/-- Resuming a tasklet in step mode, and resuming it again after each suspension that only step mode
causes, leads through the given steps to an outcome and a context, whatever happens to the pools in
between. Only step mode causes a suspension if after the same number of steps the run would go on
with step mode off. -/
inductive Vm.Leads (vm : Vm) :
    Continuation → Machine → List (Phase × Context) → RunOutcome → Context → Prop
  | ends {k : Continuation} {m m' : Machine} {l : List (Phase × Context)} {o : RunOutcome}
      (hrun : (vm.inMode true).resume l.length k m = some (o, m'))
      (htrace : (vm.inMode true).trace l.length k m = l)
      (hown : ((vm.inMode false).resume l.length k m).isSome) :
      Leads vm k m l o m'.context
  | again {k : Continuation} {m m' : Machine} {l rest : List (Phase × Context)} {o : RunOutcome}
      {c : Context} (hrun : (vm.inMode true).resume l.length k m = some (.suspended .resume, m'))
      (htrace : (vm.inMode true).trace l.length k m = l)
      (honly : (vm.inMode false).resume l.length k m = none)
      (hrest : ∀ world, m'.world.Alike world → Leads vm .resume { m' with world } rest o c) :
      Leads vm k m (l ++ rest) o c

namespace Vm

variable {vm : Vm} {k : Continuation} {m m' : Machine} {l : List (Phase × Context)}
  {o : RunOutcome} {limit : Nat}

theorem entry_inMode (vm : Vm) (on : Bool) (k : Continuation) (m : Machine) :
    (vm.inMode on).entry k m = vm.entry k m := by
  cases k <;> rfl

/-- A tasklet that has not ended goes on where it stands. -/
theorem entry_of_going (h : m.context.Going limit) : vm.entry .resume m = .running .fetch m := by
  simp [entry, h.fatal, Context.isUnhandled, h.fault, resumption]

theorem advance_inMode (vm : Vm) (on : Bool) (phase : Phase) (m : Machine) :
    (vm.inMode on).advance phase m =
      proceed (vm.inMode on).afterInstruction (vm.catching (vm.perform phase) m) := by
  cases phase <;> rfl

end Vm

/-! ## Steps in both modes -/

/-- Two points of a run that differ in the pools only. -/
inductive Progress.Alike : Progress → Progress → Prop
  | running (phase : Phase) {m m' : Machine} (h : m.Alike m') :
      Alike (.running phase m) (.running phase m')
  | stopped (o : RunOutcome) {m m' : Machine} (h : m.Alike m') : Alike (.stopped o m) (.stopped o m')

theorem Progress.Alike.refl (p : Progress) : p.Alike p := by
  cases p with
  | running phase m => exact .running phase (.refl m)
  | stopped o m => exact .stopped o (.refl m)

namespace Vm

variable {vm : Vm} {k : Continuation} {m m' : Machine} {l : List (Phase × Context)}
  {o : RunOutcome} {limit : Nat}

/-- What comes after an instruction matters only if the instruction is complete. -/
theorem alike_proceed {next next' : Machine → Progress}
    {r r' : EStateM.Result Error Machine Control} (h : SameResult Machine.Alike r r')
    (hincomplete : ∀ m, r ≠ .ok .next m) : (proceed next r).Alike (proceed next' r') := by
  cases h with
  | @error e m m' h =>
    have hfailed : (failWith e m).Alike (failWith e m') := by
      refine ⟨?_, h.world⟩
      simp only [failWith, h.context]
    exact .stopped .fatal hfailed
  | @ok control m m' h =>
    cases control with
    | next => exact absurd rfl (hincomplete m)
    | call c => exact .running (.link c) h
    | suspend k => exact .stopped (.suspended k) h
    | finished => exact .stopped .finished h
    | faulted => exact .stopped .faulted h

theorem proceed_congr {next next' : Machine → Progress}
    {r : EStateM.Result Error Machine Control} (hincomplete : ∀ m, r ≠ .ok .next m) :
    proceed next r = proceed next' r := by
  match r, hincomplete with
  | .ok .next m, h => exact absurd rfl (h m)
  | .ok (.call c) m, _ => rfl
  | .ok (.suspend k) m, _ => rfl
  | .ok .finished m, _ => rfl
  | .ok .faulted m, _ => rfl
  | .error e m, _ => rfl

/-- The modes differ only after an instruction that is complete. -/
theorem advance_modes {phase : Phase}
    (hincomplete : ∀ m₁, vm.catching (vm.perform phase) m ≠ .ok .next m₁) (on on' : Bool) :
    (vm.inMode on).advance phase m = (vm.inMode on').advance phase m := by
  rw [advance_inMode, advance_inMode, proceed_congr hincomplete]

/-- A step on two machines that differ in the pools only: on both of them the instruction is complete,
or on both of them the step leads on in the same way in both modes. -/
theorem advance_alike {phase : Phase} (hphase : phase.Blind vm.host m.world.heap)
    (h : m.Alike m') :
    (∃ m₁ m₁', m₁.Alike m₁' ∧ vm.catching (vm.perform phase) m = .ok .next m₁ ∧
      vm.catching (vm.perform phase) m' = .ok .next m₁') ∨
    ((vm.inMode false).advance phase m).Alike ((vm.inMode false).advance phase m') ∧
      ∀ on, (vm.inMode on).advance phase m' = (vm.inMode false).advance phase m' := by
  have hresult : SameResult Machine.Alike (vm.catching (vm.perform phase) m)
      (vm.catching (vm.perform phase) m') := blindAt_catching (blindAt_perform hphase) m' h
  by_cases hcomplete : ∃ m₁, vm.catching (vm.perform phase) m = .ok .next m₁
  · obtain ⟨m₁, hm₁⟩ := hcomplete
    rw [hm₁] at hresult
    generalize vm.catching (vm.perform phase) m' = r at hresult
    cases hresult with
    | @ok _ _ m₁' h₁ => exact .inl ⟨m₁, m₁', h₁, hm₁, rfl⟩
  · have hincomplete (m₁ : Machine) : vm.catching (vm.perform phase) m ≠ .ok .next m₁ :=
      fun hm₁ => hcomplete ⟨m₁, hm₁⟩
    have hincomplete' (m₁ : Machine) : vm.catching (vm.perform phase) m' ≠ .ok .next m₁ := by
      intro hm₁
      rw [hm₁] at hresult
      generalize hm : vm.catching (vm.perform phase) m = r at hresult
      cases hresult with
      | ok _ h₁ => exact hincomplete _ hm
    refine .inr ⟨?_, fun on => advance_modes hincomplete' on false⟩
    rw [advance_inMode, advance_inMode]
    exact alike_proceed hresult hincomplete

/-! ## The steps of a resumption -/

/-- A part of a resumption on which the modes do not differ. -/
inductive Segment (vm : Vm) (k : Continuation) (m : Machine) :
    List (Phase × Context) → Progress → Prop
  | begin : Segment vm k m [] (vm.entry k m)
  | step {l : List (Phase × Context)} {phase : Phase} {m' : Machine} {p : Progress}
      (h : Segment vm k m l (.running phase m'))
      (hp : ∀ on, (vm.inMode on).advance phase m' = p) :
      Segment vm k m (l ++ [(phase, m'.context)]) p

theorem Segment.resume_eq {p : Progress} (h : vm.Segment k m l p) (on : Bool) (steps : Nat) :
    (vm.inMode on).resume (l.length + steps) k m = (vm.inMode on).runFor steps p := by
  induction h generalizing steps with
  | begin => rw [List.length_nil, Nat.zero_add, Vm.resume_eq, entry_inMode]
  | @step l phase m' p h hp ih =>
    have hlength : (l ++ [(phase, m'.context)]).length + steps = l.length + (steps + 1) := by
      rw [List.length_append, List.length_singleton]
      omega
    rw [hlength, ih, runFor, hp]

theorem Segment.trace_eq {p : Progress} (h : vm.Segment k m l p) (on : Bool) (steps : Nat) :
    (vm.inMode on).trace (l.length + steps) k m = l ++ (vm.inMode on).traceFor steps p := by
  induction h generalizing steps with
  | begin => rw [List.length_nil, Nat.zero_add, trace, entry_inMode, List.nil_append]
  | @step l phase m' p h hp ih =>
    have hlength : (l ++ [(phase, m'.context)]).length + steps = l.length + (steps + 1) := by
      rw [List.length_append, List.length_singleton]
      omega
    rw [hlength, ih, traceFor, hp, List.append_assoc, List.singleton_append]

theorem Segment.leads (h : vm.Segment k m l (.stopped o m')) : vm.Leads k m l o m'.context := by
  have hrun (on : Bool) : (vm.inMode on).resume l.length k m = some (o, m') := h.resume_eq on 0
  refine .ends (hrun true) ?_ ?_
  · have htrace := h.trace_eq true 0
    rwa [Nat.add_zero, traceFor, List.append_nil] at htrace
  · rw [hrun false]
    rfl

/-- After an instruction that is complete, only step mode suspends the tasklet. -/
theorem Segment.leads_again {phase : Phase} {m₁ m₂ : Machine} {rest : List (Phase × Context)}
    {c : Context} (h : vm.Segment k m l (.running phase m₁))
    (hnext : vm.catching (vm.perform phase) m₁ = .ok .next m₂)
    (hrest : ∀ world, m₂.world.Alike world → vm.Leads .resume { m₂ with world } rest o c) :
    vm.Leads k m (l ++ (phase, m₁.context) :: rest) o c := by
  have hadvance (on : Bool) :
      (vm.inMode on).advance phase m₁ = (vm.inMode on).afterInstruction m₂ := by
    rw [advance_inMode, hnext, proceed]
  have hlength : (l ++ [(phase, m₁.context)]).length = l.length + 1 := by
    rw [List.length_append, List.length_singleton]
  have hsplit : l ++ (phase, m₁.context) :: rest = (l ++ [(phase, m₁.context)]) ++ rest := by
    rw [List.append_assoc, List.singleton_append]
  rw [hsplit]
  refine .again ?_ ?_ ?_ hrest
  · rw [hlength, h.resume_eq true 1, runFor, hadvance]
    rfl
  · rw [hlength, h.trace_eq true 1, traceFor, hadvance]
    rfl
  · rw [hlength, h.resume_eq false 1, runFor, hadvance]
    rfl

/-! ## Where step mode leads -/

/-- More steps than a run takes change nothing. -/
theorem traceFor_of_runFor {steps : Nat} {p : Progress} {r : RunOutcome × Machine}
    (h : vm.runFor steps p = some r) (more : Nat) :
    vm.traceFor (steps + more) p = vm.traceFor steps p ∧ vm.runFor (steps + more) p = some r := by
  induction steps generalizing p with
  | zero =>
    cases p with
    | running phase m => cases h
    | stopped o m => cases more <;> exact ⟨rfl, h⟩
  | succ steps ih =>
    rw [Nat.succ_add]
    cases p with
    | running phase m =>
      obtain ⟨htrace, hrun⟩ := ih (p := vm.advance phase m) h
      exact ⟨congrArg _ htrace, hrun⟩
    | stopped o m => exact ⟨rfl, h⟩

/-- The steps of a resumption say how many there are. -/
theorem trace_unique {l' : List (Phase × Context)} {r r' : RunOutcome × Machine}
    (hrun : vm.resume l.length k m = some r) (htrace : vm.trace l.length k m = l)
    (hrun' : vm.resume l'.length k m = some r') (htrace' : vm.trace l'.length k m = l') :
    l = l' := by
  rw [resume_eq] at hrun hrun'
  rw [trace] at htrace htrace'
  rcases Nat.le_total l.length l'.length with hle | hle
  · obtain ⟨more, hmore⟩ := Nat.exists_eq_add_of_le hle
    rw [hmore, (traceFor_of_runFor hrun more).1, htrace] at htrace'
    exact htrace'
  · obtain ⟨more, hmore⟩ := Nat.exists_eq_add_of_le hle
    rw [hmore, (traceFor_of_runFor hrun' more).1, htrace'] at htrace
    exact htrace.symm

/-- Step mode leads to one end. -/
theorem Leads.unique {c c' : Context} {o' : RunOutcome} {l' : List (Phase × Context)}
    (h : vm.Leads k m l o c) (h' : vm.Leads k m l' o' c') : l = l' ∧ o = o' ∧ c = c' := by
  induction h generalizing l' with
  | ends hrun htrace hown =>
    cases h' with
    | ends hrun' htrace' _ =>
      obtain rfl := trace_unique hrun htrace hrun' htrace'
      cases hrun.symm.trans hrun'
      exact ⟨rfl, rfl, rfl⟩
    | again hrun' htrace' honly _ =>
      obtain rfl := trace_unique hrun htrace hrun' htrace'
      rw [honly] at hown
      cases hown
  | @again _ _ m₁ _ _ _ _ hrun htrace honly hrest ih =>
    cases h' with
    | ends hrun' htrace' hown =>
      obtain rfl := trace_unique hrun htrace hrun' htrace'
      rw [honly] at hown
      cases hown
    | again hrun' htrace' _ hrest' =>
      obtain rfl := trace_unique hrun htrace hrun' htrace'
      cases hrun.symm.trans hrun'
      have hworld := World.Alike.refl m₁.world
      obtain ⟨rfl, ho, hc⟩ := ih m₁.world hworld (hrest' m₁.world hworld)
      exact ⟨rfl, ho, hc⟩

/-! ## Runs -/

/-- What a run without step mode comes to is where step mode leads, from a point of a resumption that
differs in the pools only. The induction is on the run; a resumption in step mode goes on until an
instruction is complete, and then the next one begins. -/
theorem leads_of_runFor {k₀ : Continuation} {m₀ : Machine}
    (hbetween : m₀.context.Between vm.maxCallDepth k₀)
    (hblind : ∀ phase m₁, (vm.inMode false).Visits k₀ m₀ (.running phase m₁) →
      phase.Blind vm.host m₁.world.heap)
    {steps : Nat} {p : Progress} (hvisits : (vm.inMode false).Visits k₀ m₀ p)
    (hrun : (vm.inMode false).runFor steps p = some (o, m')) {k : Continuation} {m : Machine}
    {l : List (Phase × Context)} {p' : Progress} (hsegment : vm.Segment k m l p')
    (halike : p.Alike p') :
    vm.Leads k m (l ++ (vm.inMode false).traceFor steps p) o m'.context := by
  induction steps generalizing p k m l p' with
  | zero =>
    cases halike with
    | running phase h => cases hrun
    | stopped o h =>
      cases hrun
      rw [traceFor, List.append_nil, ← h.context]
      exact hsegment.leads
  | succ steps ih =>
    cases halike with
    | stopped o h =>
      cases hrun
      rw [traceFor, List.append_nil, ← h.context]
      exact hsegment.leads
    | @running phase m₁ m₁' h =>
      have hstep := hvisits.step
      rw [runFor] at hrun
      rw [traceFor, ← h.context]
      rcases advance_alike (hblind phase m₁ hvisits) h with
        ⟨m₂, m₂', h₂, hm₂, hm₂'⟩ | ⟨hadvance, hmodes⟩
      · have hadvance : (vm.inMode false).advance phase m₁ = .running .fetch m₂ := by
          rw [advance_inMode, hm₂]
          rfl
        rw [hadvance] at hstep hrun ⊢
        have hlawful := hstep.lawful (Nat.le_refl (vm.inMode false).maxCallDepth) hbetween
        have hgoing : m₂.context.Going vm.maxCallDepth := hlawful.1.1
        refine hsegment.leads_again hm₂' fun world hworld => ?_
        have hentry : vm.entry .resume { m₂' with world } = .running .fetch { m₂' with world } :=
          entry_of_going (h₂.context ▸ hgoing)
        have hbegin : vm.Segment .resume { m₂' with world } []
            (.running .fetch { m₂' with world }) := by
          rw [← hentry]
          exact .begin
        exact ih hstep hrun hbegin (.running .fetch (h₂.trans ⟨rfl, hworld⟩))
      · have hleads := ih hstep hrun (hsegment.step hmodes) hadvance
        rwa [List.append_assoc, List.singleton_append] at hleads

/-- A tasklet between two resumptions, each of which may have been in step mode. In between, the host
may change the world, the globals and the loader in any way. -/
inductive DebugSession (vm : Vm) : Continuation → Machine → Prop
  | start (unit : CodeUnit) (builtins globals modules : Namespace)
      (loader : Option (Names ModuleRef)) (world : World) :
      DebugSession vm .start
        { context := { Context.start unit builtins globals with modules, loader }, world }
  | outside {k : Continuation} {m : Machine} (h : DebugSession vm k m) (world : World) :
      DebugSession vm k { m with world }
  | setGlobal {k : Continuation} {m : Machine} (h : DebugSession vm k m) (name : String)
      (v : Value) : DebugSession vm k { m with context := m.context.setGlobal name v }
  | setLoader {k : Continuation} {m : Machine} (h : DebugSession vm k m)
      (loader : Option (Names ModuleRef)) :
      DebugSession vm k { m with context := { m.context with loader } }
  | resume {k : Continuation} {m : Machine} (h : DebugSession vm k m) {on : Bool} {steps : Nat}
      {o : RunOutcome} {m' : Machine} (hrun : (vm.inMode on).resume steps k m = some (o, m')) :
      DebugSession vm o.next m'

theorem DebugSession.between (h : vm.DebugSession k m) : m.context.Between vm.maxCallDepth k := by
  induction h with
  | start unit builtins globals modules loader world =>
    have hsession : vm.Session .start
        { context := { Context.start unit builtins globals with modules, loader }, world } :=
      .start unit builtins globals modules loader world
    exact hsession.between
  | outside _ world ih => exact ih
  | setGlobal _ name v ih => exact (Context.quiet_setGlobal _ name v).between ih
  | @setLoader k m _ loader ih =>
    have hquiet : m.context.Quiet { m.context with loader } := ⟨rfl, rfl, rfl, rfl⟩
    exact hquiet.between ih
  | @resume k m _ on _ _ _ hrun ih =>
    exact (lawful_resume (Nat.le_refl (vm.inMode on).maxCallDepth) ih hrun).between

/-- If a tasklet is resumed without step mode and the run comes to an outcome, then resuming it in
step mode, and resuming it again after each suspension that only step mode causes, comes to the same
outcome with the same context, through the same steps, whatever happens to the pools in between; the
native functions that the run calls must not look at them. -/
theorem stepMode_refines (hsession : vm.DebugSession k m)
    (hblind : ∀ phase m₁, (vm.inMode false).Visits k m (.running phase m₁) →
      phase.Blind vm.host m₁.world.heap)
    {steps : Nat} (hrun : (vm.inMode false).resume steps k m = some (o, m')) :
    vm.Leads k m ((vm.inMode false).trace steps k m) o m'.context := by
  rw [Vm.resume_eq] at hrun
  have hbegin : vm.Segment k m [] ((vm.inMode false).entry k m) := by
    rw [entry_inMode]
    exact .begin
  rcases (vm.inMode false).entry_cases k m with ⟨o', hentry⟩ | hvisits
  · rw [hentry] at hbegin hrun
    rw [trace, hentry]
    cases steps <;>
    · cases hrun
      exact hbegin.leads
  · exact leads_of_runFor hsession.between hblind hvisits hrun hbegin (.refl _)

end Vm

namespace SteppedCall

/-- A unit that loads the class of failed assertions and calls it. -/
def unit : CodeUnit :=
  { bytes := #[0x4A, 0x83, 0, 0] }

/-- A machine whose only native function settles the first promise. -/
def vm : Vm :=
  { (default : Vm) with
    host := ⟨fun _ _ _ w =>
      { heap := w.heap, signals := [.settle 0 .noValue], outcome := .ok .noValue }⟩ }

/-- The class, which is initialized by the native function. -/
def assertionError : ClassObject :=
  { name := "AssertionError", bases := [], attrs := [("__init__", .native ⟨0⟩)] }

/-- The machine on the way, with the instances and the promises that there are. -/
def machine (instructionIp ip : Nat) (stack : List Value) (instances : Array InstanceObject)
    (promises : Array Promise) : Machine :=
  { context :=
      { frames := [{ Frame.start unit .push with instructionIp, ip, stack }]
        builtins := [("AssertionError", .classObj ⟨0⟩)] }
    world :=
      { heap :=
          { natives := #[{ name := "init", behaviour := .host 0 }], classes := #[assertionError]
            instances }
        promises } }

/-- The instance that the class makes. -/
def made : Array InstanceObject :=
  #[{ cls := ⟨0⟩, attrs := [] }]

/-- The call of the class. -/
def call : PendingCall :=
  { callee := .classObj ⟨0⟩, delivery := .push }

/-- The call of the native function. -/
def construct : PendingCall :=
  { callee := .native ⟨0⟩, args := [.instanceObj ⟨0⟩]
    delivery := .replace (.instanceObj ⟨0⟩) .push }

/-- The machine after the call. -/
def called : Machine :=
  machine 1 4 [.instanceObj ⟨0⟩] made #[{ settled := some .noValue }]

/-- What the run passes through. -/
theorem visits {p : Progress}
    (h : (vm.inMode false).Visits .start (machine 0 0 [] #[] #[]) p) :
    p = .running .fetch (machine 0 0 [] #[] #[]) ∨
    p = .running .fetch (machine 0 1 [.classObj ⟨0⟩] #[] #[]) ∨
    p = .running (.link call) (machine 1 4 [] #[] #[]) ∨
    p = .running (.link construct) (machine 1 4 [] made #[]) ∨
    p = .running .fetch called ∨ p = .stopped .finished called := by
  induction h with
  | begin => exact .inl rfl
  | step _ ih =>
    rcases ih with h | h | h | h | h | h
    · cases h
      exact .inr (.inl rfl)
    · cases h
      exact .inr (.inr (.inl rfl))
    · cases h
      exact .inr (.inr (.inr (.inl rfl)))
    · cases h
      exact .inr (.inr (.inr (.inr (.inl rfl))))
    · cases h
      exact .inr (.inr (.inr (.inr (.inr rfl))))
    · cases h

/-- The native function does not look at the pools. -/
theorem blind {phase : Phase} {m : Machine}
    (h : (vm.inMode false).Visits .start (machine 0 0 [] #[] #[]) (.running phase m)) :
    phase.Blind vm.host m.world.heap := by
  rcases visits h with h | h | h | h | h | h
  · cases h
    trivial
  · cases h
    trivial
  · cases h
    nofun
  · cases h
    rintro effect ⟨rfl⟩
    refine Host.blind_run fun w w' hw => ?_
    simp only [vm, hw.heap_eq]
  · cases h
    trivial
  · cases h

end SteppedCall

open SteppedCall in
/-- In step mode the run of the unit is suspended twice, and ends with the instance on the stack
like the run without step mode. -/
theorem SteppedCall.stepped_to_end :
    vm.Leads .start (machine 0 0 [] #[] #[])
      [(.fetch, (machine 0 0 [] #[] #[]).context),
        (.fetch, (machine 0 1 [.classObj ⟨0⟩] #[] #[]).context),
        (.link call, (machine 1 4 [] #[] #[]).context),
        (.link construct, (machine 1 4 [] made #[]).context), (.fetch, called.context)]
      .finished called.context :=
  Vm.stepMode_refines (.start unit _ [] [] none _) (fun _ _ => blind)
    (rfl : (vm.inMode false).resume 5 _ _ = _)

end TaskletMachine
