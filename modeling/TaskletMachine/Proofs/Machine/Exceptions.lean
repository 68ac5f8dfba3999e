import TaskletMachine.Proofs.Effect.Growth
import TaskletMachine.Proofs.Library.Exceptions
import TaskletMachine.Proofs.Machine.Origins

/-!
# Faults are exceptions

Whatever fails in a tasklet, and whatever value or class it raises, the fault that comes of it has
an exception for its value: an instance of a class that derives from the root of all exceptions.
From then on a fault is only moved, and its value stays. So all faults that a tasklet holds are
exceptions, and so are the values that handlers find on the stack.

All of this rests on the builtins of the tasklet, and on native functions that keep objects.

## Main definitions

* `Context.Holds`: the faults of a tasklet.
* `Context.HoldsExceptions`: all of them are exceptions.
* `Vm.HandsExceptions`: handlers find exceptions.
* `Vm.CalmOrRaises.holdsExceptions`, `Vm.handsExceptions`: what a step does.
-/
namespace TaskletMachine

open Exec

/-! ## The faults of a tasklet -/

/-- The tasklet holds the fault: it is on its way or has ended the tasklet, it was caught last, or a
cleanup body keeps it. -/
inductive Context.Holds (c : Context) (fault : Fault) : Prop
  | pending (h : c.fault = some fault)
  | handled (h : c.handled = some fault)
  | kept (place : Nat) (h : c.CarriesAt place fault)

theorem Context.Calm.holds {c c' : Context} (h : c.Calm c') {fault : Fault}
    (hfault : c'.Holds fault) : c.Holds fault := by
  cases hfault with
  | pending hfault => exact .pending (h.fault ▸ hfault)
  | handled hfault => exact .handled (h.handled ▸ hfault)
  | kept k hfault => exact .kept k (h.carries k fault hfault)

/-- The builtins of the tasklet name the exception classes, and the faults that it holds are
exceptions. -/
structure Context.HoldsExceptions (c : Context) (h : Heap) (base : ClassRef) : Prop where
  builtins : h.DefinesExceptions c.builtins base
  faults : ∀ fault, c.Holds fault → h.IsException base fault.value

section Contexts

variable {c c' : Context} {h h' : Heap} {base : ClassRef}

theorem Context.HoldsExceptions.calm (hc : c.HoldsExceptions h base) (hcalm : c.Calm c')
    (hgrows : h.Grows h') : c'.HoldsExceptions h' base :=
  ⟨hcalm.builtins ▸ hgrows.definesExceptions hc.builtins,
    fun fault hfault => hgrows.isException (hc.faults fault (hcalm.holds hfault))⟩

end Contexts

/-! ## Making exceptions -/

theorem World.Grows.admits {host : Host} (hhost : host.Grows) : World.Admits host World.Grows where
  heap _ _ h := h
  park w _ := Heap.Grows.refl w.heap
  wait w _ _ := Heap.Grows.refl w.heap
  native := Keeps.callNative hhost

section Making

variable {vm : Vm} {m m' : Machine} {base : ClassRef} {v value : Value}

/-- The instance that is made of a class that derives from the base is an exception. -/
theorem isException_makeInstance {c : ClassRef} {args : List Value}
    (h : Vm.makeInstance c args m = .ok value m') (hc : m'.world.heap.isSubclass c base) :
    m'.world.heap.IsException base value := by
  cases h
  let made := (m.world.heap.instantiate c).2
  have htuple : made.Grows (made.newTuple args).2 := .of_tables rfl rfl
  have hgrows := htuple.trans (.setInstanceAttr _ (m.world.heap.instantiate c).1 "args"
    (made.newTuple args).1)
  have hmade : made.instances[m.world.heap.instances.size]? = some { cls := c, attrs := [] } :=
    Array.getElem?_push_size
  obtain ⟨o, ho, hcls⟩ := hgrows.instances _ _ hmade
  exact ⟨_, rfl, Heap.isInstance_iff.2 ⟨o, ho, hcls ▸ hc⟩⟩

variable (hbuiltins : m'.world.heap.DefinesExceptions m.context.builtins base)
include hbuiltins

theorem builtinClass_eq (vm : Vm) (kind : ExceptionKind) :
    ∃ c, vm.builtinClass m.context kind.name = .ok c ∧ m'.world.heap.isSubclass c base := by
  obtain ⟨c, hc, hderives⟩ := hbuiltins.derives kind
  refine ⟨c, ?_, hderives⟩
  simp [Vm.builtinClass, hc]

theorem isException_makeException {kind : ExceptionKind} {message : String}
    (h : vm.makeException kind message m = .ok value m') :
    m'.world.heap.IsException base value := by
  obtain ⟨c, hc, hderives⟩ := builtinClass_eq hbuiltins vm kind
  have hmake : vm.makeException kind message m = Vm.makeInstance c [.str message] m := by
    unfold Vm.makeException
    rw [bind_ok (rfl : Exec.context m = .ok m.context m), hc]
    rfl
  exact isException_makeInstance (hmake ▸ h) hderives

/-- A value that is raised is an exception, or becomes one. -/
theorem isException_normalizeException (hgrows : m.world.heap.Grows m'.world.heap)
    (h : vm.normalizeException v m = .ok value m') : m'.world.heap.IsException base value := by
  have hroot : vm.builtinClass m.context ExceptionKind.baseException.name = .ok base := by
    simp [Vm.builtinClass, hbuiltins.root]
  unfold Vm.normalizeException at h
  rw [bind_ok (rfl : Exec.context m = .ok m.context m), hroot,
    bind_ok (rfl : (MonadExcept.ofExcept (.ok base) : Exec ClassRef) m = .ok base m),
    bind_ok (rfl : Exec.heap m = .ok m.world.heap m)] at h
  cases v with
  | instanceObj r =>
    dsimp only at h
    split at h
    · next hr =>
      cases h
      exact ⟨r, rfl, hr⟩
    · exact isException_makeException hbuiltins h
  | classObj c =>
    dsimp only at h
    split at h
    · next hc => exact isException_makeInstance h (hgrows.isSubclass hc)
    · exact isException_makeException hbuiltins h
  | _ => exact isException_makeException hbuiltins h

/-- Raising an error raises an exception. -/
theorem isException_exceptionOf {e : Error} (hgrows : m.world.heap.Grows m'.world.heap)
    (h : vm.exceptionOf e m = .ok value m') : m'.world.heap.IsException base value := by
  unfold Vm.exceptionOf at h
  cases hcause : e.cause with
  | exception kind message =>
    rw [hcause] at h
    exact isException_makeException hbuiltins h
  | raised v =>
    rw [hcause] at h
    exact isException_normalizeException hbuiltins hgrows h
  | _ =>
    rw [hcause] at h
    cases h

end Making

/-! ## Raising faults -/

section Raising

variable {vm : Vm} {m : Machine} {fault fault' : Fault}

/-- What raising a fault does, but for the call stack: neither the builtins nor the world change, and
a fault that is recorded has the value of the one that was raised. -/
theorem Vm.records_raiseFault (vm : Vm) (fault : Fault) (m : Machine) {m' : Machine}
    (h : left (vm.raiseFault fault m) = m') :
    m'.world = m.world ∧ m'.context.builtins = m.context.builtins ∧
      (∀ fault', m'.context.fault = some fault' → fault'.value = fault.value) ∧
      ∀ fault', m'.context.handled = some fault' →
        m.context.handled = some fault' ∨ fault'.value = fault.value := by
  -- where the fault lands decides where it is recorded
  have hlands := vm.landsIn_unwind fault m
  rw [raiseFault_eq, ← unwind] at h
  cases hunwind : vm.unwind fault m with
  | caught fault₁ frames =>
    rw [hunwind] at h hlands
    cases hlands
    subst h
    refine ⟨rfl, rfl, fun fault' hfault => ?_,
      fun _ hhandled => .inr (Option.some.inj hhandled ▸ rfl)⟩
    cases hfault
  | cleanup frames =>
    rw [hunwind] at h
    subst h
    refine ⟨rfl, rfl, fun fault' hfault => ?_, fun _ => .inl⟩
    cases hfault
  | loopEnded exit frames =>
    rw [hunwind] at h
    subst h
    have hcalm : Machine.Calm Eq _ (left (endLoop exit
        { m with context := { m.context with frames, fault := none } })) :=
      CalmAt.left (Calm.endLoop exit _)
    refine ⟨hcalm.world.symm, hcalm.context.builtins, ?_, fun _ hhandled => .inl ?_⟩
    · intro fault' hfault
      cases hcalm.context.fault.symm.trans hfault
    · exact hcalm.context.handled.symm.trans hhandled
  | unhandled fault₁ frames =>
    rw [hunwind] at h hlands
    cases hlands
    subst h
    exact ⟨rfl, rfl, fun _ hfault => Option.some.inj hfault ▸ rfl, fun _ => .inl⟩
  | noFrames =>
    rw [hunwind] at h
    subst h
    exact ⟨rfl, rfl, fun _ hfault => Option.some.inj hfault ▸ rfl, fun _ => .inl⟩

/-- A fault that is held after one has been raised was held before, or has the value of the one that
was raised. -/
theorem Vm.holds_raiseFault (h : (left (vm.raiseFault fault m)).context.Holds fault') :
    m.context.Holds fault' ∨ fault'.value = fault.value := by
  obtain ⟨_, _, hpending, hhandled⟩ := vm.records_raiseFault fault m rfl
  cases h with
  | pending h => exact .inr (hpending fault' h)
  | handled h => exact (hhandled fault' h).imp .handled id
  | kept place h =>
    rcases carriesAt_raiseFault h with h | h
    · exact .inl (.kept place h)
    · obtain ⟨passed, f, callers, _, _, rfl⟩ := h.along
      exact .inr rfl

end Raising

/-! ## Steps -/

section Steps

variable {vm : Vm} {p p' : Progress} {m : Machine} {fault : Fault} {origin : Origin}
  {base : ClassRef}

/-- The tasklet holds exceptions. -/
def Machine.HoldsExceptions (m : Machine) (base : ClassRef) : Prop :=
  m.context.HoldsExceptions m.world.heap base

theorem Machine.HoldsExceptions.calm {m' : Machine} (hm : m.HoldsExceptions base)
    (hcalm : m.Calm World.Grows m') : m'.HoldsExceptions base :=
  Context.HoldsExceptions.calm hm hcalm.context hcalm.world

theorem Machine.Reraises.holds {m₀ : Machine} (h : m₀.Reraises fault m origin) :
    m₀.context.Holds fault := by
  cases h with
  | again f callers next hframes hdecode hhandled => exact .handled hhandled
  | kept f callers next b rest hframes hdecode hblocks hkind =>
    exact .kept callers.length ((Context.carriesAt_cons hframes).2
      (.inl ⟨rfl, b, hblocks ▸ List.mem_cons_self, hkind⟩))

/-- What is raised is an exception. -/
theorem Vm.Raises.isException (h : vm.Raises p p' fault m origin) (hhost : vm.host.Grows)
    (hp : p.machine.HoldsExceptions base) : m.world.heap.IsException base fault.value := by
  have hW := World.Grows.admits hhost
  have hcalm := h.calm hW
  cases h with
  | afresh effect next e m₁ f callers hperforms herror hguest hvalue hframes htraceback hp' =>
    -- the builtins from which the exception was made are those of the tasklet all along
    have hmake : m₁.Calm World.Grows m := KeepsAt.of_ok (Calm.exceptionOf hW e m₁) hvalue
    refine isException_exceptionOf ?_ hmake.world hvalue
    rw [← hmake.context.builtins]
    exact (hp.calm hcalm).builtins
  | kept m₀ _ hstart hreraises hp' =>
    subst hstart
    exact hcalm.world.isException (hp.faults fault hreraises.holds)

/-- A step that raises a fault leaves the tasklet with exceptions. -/
theorem Vm.Raises.holdsExceptions (h : vm.Raises p p' fault m origin) (hhost : vm.host.Grows)
    (hp : p.machine.HoldsExceptions base) : p'.machine.HoldsExceptions base := by
  have hvalue := h.isException hhost hp
  have hm := hp.calm (h.calm (World.Grows.admits hhost))
  obtain ⟨next, hnext, rfl⟩ := h.proceed
  obtain ⟨hworld, hbuiltins, _, _⟩ := vm.records_raiseFault fault m rfl
  have hraised : (left (vm.raiseFault fault m)).HoldsExceptions base := by
    refine ⟨?_, fun fault' hfault => ?_⟩
    · rw [hworld, hbuiltins]
      exact hm.builtins
    · rw [hworld]
      rcases holds_raiseFault hfault with hfault | heq
      · exact hm.faults fault' hfault
      · exact heq ▸ hvalue
  exact hraised.calm (calm_proceed hnext (refl_of _ _))

/-- Every step leaves the tasklet with exceptions. -/
theorem Vm.CalmOrRaises.holdsExceptions (h : vm.CalmOrRaises World.Grows p p')
    (hhost : vm.host.Grows) (hp : p.machine.HoldsExceptions base) :
    p'.machine.HoldsExceptions base := by
  rcases h with hcalm | ⟨fault, m, origin, hraises, _⟩
  · exact hp.calm hcalm
  · exact hraises.holdsExceptions hhost hp

/-- Raising a fault does not change the world. -/
theorem Vm.Raises.world_eq (h : vm.Raises p p' fault m origin) : p'.machine.world = m.world := by
  obtain ⟨next, hnext, rfl⟩ := h.proceed
  obtain ⟨hworld, _, _, _⟩ := vm.records_raiseFault fault m rfl
  have hend : (left (vm.raiseFault fault m)).Calm Eq
      (Vm.proceed next (vm.raiseFault fault m)).machine := calm_proceed hnext (refl_of _ _)
  rw [← hend.world, hworld]

theorem Vm.CalmOrRaises.grows (h : vm.CalmOrRaises World.Grows p p') :
    p.machine.world.Grows p'.machine.world := by
  rcases h with hcalm | ⟨fault, m, origin, hraises, hcalm⟩
  · exact hcalm.world
  · exact hraises.world_eq ▸ hcalm.world

/-- A fault that the step raises and that a guard of clauses catches is an exception, and the
handler in the innermost frame finds it on top of the stack. -/
def Vm.HandsExceptions (vm : Vm) (base : ClassRef) (p p' : Progress) : Prop :=
  ∀ fault m origin fault' frames, vm.Raises p p' fault m origin →
    vm.unwind fault m = .caught fault' frames →
    p'.machine.world.heap.IsException base fault'.value ∧
      ∃ f callers stack, p'.machine.context.frames = f :: callers ∧ f.stack = fault'.value :: stack

theorem Vm.handsExceptions (hhost : vm.host.Grows) (hp : p.machine.HoldsExceptions base) :
    vm.HandsExceptions base p p' := by
  intro fault m origin fault' frames hraises hcaught
  have hvalue := hraises.isException hhost hp
  have hlands := vm.landsIn_unwind fault m
  rw [hraises.world_eq]
  rw [hcaught] at hlands
  cases hlands with
  | caught passed f g callers hframes hland =>
    cases hland with
    | caught removed b rest below _ hbelow hkind hb hd hs =>
      refine ⟨hvalue, g, callers, below, ?_, hs⟩
      obtain ⟨next, hnext, rfl⟩ := hraises.proceed
      rw [frames_proceed hnext, raiseFault_eq, ← unwind, hcaught]
      rfl

end Steps

end TaskletMachine
