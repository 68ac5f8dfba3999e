import TaskletMachine.Proofs.Machine.Lifecycle

/-!
# Cleanup code

A guarded part and its cleanup body, laid out one after the other, are executed without a fault: the
guard is entered and left, the body runs, and the end of the body leaves the blocks as they were. It
does so around any code, but not in any block. The end of a body is taken for the end of the
innermost block, if that is a body that a fault has entered, or a guard whose body lies before; then
the fault goes on too early, or the guard is lost.

## Main definitions

* `Vm.Executes`, `Vm.RunsTo`: execution from instruction to instruction, and through a part of the
  code that leaves the blocks as they were.
* `Cleanup`: the layout.
* `Block.EndsAt`: blocks that take the end of a body for their own.
* `Vm.cleanup_spec`: what executing a cleanup comes to.
-/
namespace TaskletMachine

open Exec

/-! ## Execution -/

/-- One stage of a tasklet: of a run, or of the resumption after one. In between the world may
change. -/
inductive Vm.Goes (vm : Vm) : Progress → Progress → Prop
  | advance (phase : Phase) (m : Machine) : Goes vm (.running phase m) (vm.advance phase m)
  | resume (k : Continuation) (m : Machine) (world : World) :
      Goes vm (.stopped (.suspended k) m) (vm.resumption k { m with world })

/-- Execution gets from one machine to another, both at an instruction. -/
def Vm.Executes (vm : Vm) (m m' : Machine) : Prop :=
  Relation.ReflTransGen vm.Goes (.running .fetch m) (.running .fetch m')

/-- A part of the code is executed: execution gets to an offset of the same frame, where the blocks
are as they were. -/
structure Vm.RunsTo (vm : Vm) (ip : Nat) (m m' : Machine) : Prop where
  executes : vm.Executes m m'
  arrives : ∃ f callers g callers', m.context.frames = f :: callers ∧
    m'.context.frames = g :: callers' ∧ callers'.length = callers.length ∧ g.unit = f.unit ∧
    g.blocks = f.blocks ∧ g.ip = ip

namespace Vm

variable {vm : Vm} {m m' : Machine} {f : Frame} {callers : List Frame}

theorem Executes.trans {m₁ : Machine} (h : vm.Executes m m₁) (h₁ : vm.Executes m₁ m') :
    vm.Executes m m' :=
  Relation.ReflTransGen.trans h h₁

/-- An instruction is executed that the next one follows, also if the run stops in between. -/
theorem Executes.step (h : vm.perform .fetch m = .ok .next m') : vm.Executes m m' := by
  have hadvance : vm.advance .fetch m = vm.afterInstruction m' := by
    simp only [advance, conclude, catching, h, proceed]
  have hgoes : vm.Goes (.running .fetch m) (vm.afterInstruction m') :=
    hadvance ▸ .advance .fetch m
  rw [afterInstruction] at hgoes
  split at hgoes
  · exact (Relation.ReflTransGen.single hgoes).tail (.resume .resume m' m'.world)
  · exact .single hgoes

theorem execute_setupFinally (handler : Nat) :
    vm.execute (.setupFinally handler) (m.withFrames (f :: callers)) =
      .ok .next (m.withFrames (f.enterBlock .finallyGuard handler :: callers)) :=
  bind_ok (modifyFrame_cons rfl _)

theorem execute_popBlock {b : Block} {rest : List Block} (hf : f.blocks = b :: rest) :
    vm.execute .popBlock (m.withFrames (f :: callers)) =
      .ok .next (m.withFrames ({ f.restore b.depth with blocks := rest } :: callers)) := by
  have hpop : f.popBlock? = some { f.restore b.depth with blocks := rest } := by
    simp only [Frame.popBlock?, hf]
  simp only [execute, popBlock]
  rw [bind_ok (frame_cons rfl), hpop]
  exact bind_ok (modifyFrame_cons rfl _)

theorem execute_endFinally (m : Machine) (f : Frame) (callers : List Frame) :
    vm.execute .endFinally (m.withFrames (f :: callers)) =
      match f.endFinally with
      | .outside => .ok .next (m.withFrames (f :: callers))
      | .done g => .ok .next (m.withFrames (g :: callers))
      | .fault fault g => vm.raiseFault fault (m.withFrames (g :: callers)) := by
  simp only [execute, endFinally]
  rw [bind_ok (frame_cons rfl)]
  cases f.endFinally with
  | outside => rfl
  | done g => exact bind_ok (modifyFrame_cons rfl _)
  | fault fault g => exact bind_ok (modifyFrame_cons rfl _)

end Vm

/-! ## Ends of bodies -/

/-- Whether a block takes the end of a body at an offset for the end of its own: a body that a fault
has entered does, and a guard if its body starts before. -/
def Block.EndsAt (b : Block) (ip : Nat) : Prop :=
  match b.kind with
  | .finallyBody _ => True
  | .finallyGuard => b.handler ≤ ip
  | .loop | .exceptGuard => False

namespace Frame

variable {f : Frame} {b : Block} {rest : List Block}

/-- A block that does not take the end of a body for its own stays. -/
theorem endFinally_outside (h : ∀ b ∈ f.blocks.head?, ¬ b.EndsAt f.instructionIp) :
    f.endFinally = .outside := by
  unfold endFinally
  cases hf : f.blocks with
  | nil => rfl
  | cons b rest =>
    have hb : ¬ b.EndsAt f.instructionIp := h b (by rw [hf]; rfl)
    unfold Block.EndsAt at hb
    cases hkind : b.kind with
    | loop => simp only [hkind]
    | exceptGuard => simp only [hkind]
    | finallyGuard =>
      rw [hkind] at hb
      simp only [hkind, if_neg hb]
    | finallyBody fault =>
      rw [hkind] at hb
      exact absurd trivial hb

theorem endFinally_body (hf : f.blocks = b :: rest) {fault : Fault}
    (hkind : b.kind = .finallyBody fault) :
    f.endFinally = .fault fault { f.restore b.depth with blocks := rest } := by
  simp only [endFinally, hf, hkind]

theorem endFinally_guard (hf : f.blocks = b :: rest) (hkind : b.kind = .finallyGuard)
    (hle : b.handler ≤ f.instructionIp) :
    f.endFinally = .done { f.restore b.depth with blocks := rest } := by
  simp only [endFinally, hf, hkind, if_pos hle]

end Frame

/-! ## Cleanups -/

/-- The offsets of a guarded part with its cleanup body: of the instruction that enters the guard,
of the one that leaves it, of the body, and of the end of the body. -/
structure Cleanup where
  start : Nat
  guarded : Nat
  leave : Nat
  body : Nat
  stop : Nat
  next : Nat

/-- Whether code is laid out that way. -/
structure Cleanup.In (s : Cleanup) (bytes : Array UInt8) : Prop where
  enters : decodeAt bytes s.start = some ⟨.setupFinally s.body, s.guarded⟩
  leaves : decodeAt bytes s.leave = some ⟨.popBlock, s.body⟩
  ends : decodeAt bytes s.stop = some ⟨.endFinally, s.next⟩

section Cleanups

variable {vm : Vm} {s : Cleanup} {m m₂ m₄ : Machine} {f : Frame} {callers : List Frame}

/-- The end of the body is reached, and the blocks are as they were. -/
theorem Vm.cleanup_reaches (hs : s.In f.unit.bytes) (hm : m.context.frames = f :: callers)
    (hip : f.ip = s.start)
    (hguarded : ∀ m₁, vm.perform .fetch m = .ok .next m₁ → vm.RunsTo s.leave m₁ m₂)
    (hbody : ∀ m₃, vm.perform .fetch m₂ = .ok .next m₃ → vm.RunsTo s.stop m₃ m₄) :
    vm.RunsTo s.stop m m₄ := by
  have hsetup := vm.perform_fetch hm (hip.symm ▸ hs.enters)
  rw [execute_setupFinally] at hsetup
  obtain ⟨hrun, f₁, callers₁, g, callers₂, hf₁, hg, hlength, hunit, hblocks, hleave⟩ :=
    hguarded _ hsetup
  obtain ⟨rfl, rfl⟩ := List.cons_eq_cons.1 hf₁
  have hunit : g.unit = f.unit := hunit
  have hpop := vm.perform_fetch hg (by rw [hunit, hleave]; exact hs.leaves)
  rw [execute_popBlock (f := g.reading s.body) hblocks] at hpop
  obtain ⟨hrun', g₁, callers₃, h, callers₄, hg₁, hh, hlength', hunit', hblocks', hstop⟩ :=
    hbody _ hpop
  obtain ⟨rfl, rfl⟩ := List.cons_eq_cons.1 hg₁
  have hexecutes : vm.Executes m m₄ :=
    ((Executes.step hsetup).trans hrun).trans ((Executes.step hpop).trans hrun')
  exact ⟨hexecutes, f, callers, h, callers₄, hm, hh, hlength'.trans hlength, hunit'.trans hunit,
    hblocks', hstop⟩

/-- A guarded part and its cleanup body are executed one after the other, and leave the blocks as
they were, unless the innermost of them takes the end of the body for its own. If that one is a body
that a fault has entered, the fault goes on there, and what comes next is not executed; if it is a
guard whose body starts before, it is left. -/
theorem Vm.cleanup_spec (hs : s.In f.unit.bytes) (hm : m.context.frames = f :: callers)
    (hip : f.ip = s.start)
    (hguarded : ∀ m₁, vm.perform .fetch m = .ok .next m₁ → vm.RunsTo s.leave m₁ m₂)
    (hbody : ∀ m₃, vm.perform .fetch m₂ = .ok .next m₃ → vm.RunsTo s.stop m₃ m₄) :
    vm.RunsTo s.stop m m₄ ∧
    ((∀ b ∈ f.blocks.head?, ¬ b.EndsAt s.stop) →
      ∃ m₅, vm.perform .fetch m₄ = .ok .next m₅ ∧ vm.RunsTo s.next m m₅) ∧
    (∀ b rest fault, f.blocks = b :: rest → b.kind = .finallyBody fault →
      ∃ m₅ g callers', vm.perform .fetch m₄ = vm.raiseFault fault m₅ ∧
        m₅.context.frames = g :: callers' ∧ g.instructionIp = s.stop ∧ g.blocks = rest) ∧
    ∀ b rest, f.blocks = b :: rest → b.kind = .finallyGuard → b.handler ≤ s.stop →
      ∃ m₅ g callers', vm.perform .fetch m₄ = .ok .next m₅ ∧
        m₅.context.frames = g :: callers' ∧ g.ip = s.next ∧ g.blocks = rest := by
  have hreaches := cleanup_reaches hs hm hip hguarded hbody
  obtain ⟨hrun, f', callers', g, callers'', hf', hg, hlength, hunit, hblocks, hstop⟩ := hreaches
  obtain ⟨rfl, rfl⟩ := List.cons_eq_cons.1 (hm.symm.trans hf')
  have hperform := vm.perform_fetch hg (by rw [hunit, hstop]; exact hs.ends)
  rw [execute_endFinally] at hperform
  have hip : (g.reading s.next).instructionIp = s.stop := hstop
  refine ⟨⟨hrun, f, callers, g, callers'', hm, hg, hlength, hunit, hblocks, hstop⟩,
    fun hquiet => ?_, fun b rest fault hf hkind => ?_, fun b rest hf hkind hle => ?_⟩
  · have houtside : (g.reading s.next).endFinally = .outside := by
      apply Frame.endFinally_outside
      rw [hip]
      exact hblocks ▸ hquiet
    rw [houtside] at hperform
    refine ⟨_, hperform, hrun.trans (.step hperform), f, callers, _, callers'', hm, rfl, hlength,
      hunit, hblocks, rfl⟩
  · rw [Frame.endFinally_body (f := g.reading s.next) (hblocks.trans hf) hkind] at hperform
    exact ⟨_, _, callers'', hperform, rfl, hip, rfl⟩
  · rw [Frame.endFinally_guard (f := g.reading s.next) (hblocks.trans hf) hkind (hip ▸ hle)]
      at hperform
    exact ⟨_, _, callers'', hperform, rfl, rfl, rfl⟩

end Cleanups

/-! ## A cleanup in a cleanup body -/

namespace NestedCleanup

/-- A guarded part that raises, with a cleanup body that begins with cleanup code of its own. -/
def unit : CodeUnit :=
  { bytes := #[0x7A, 4, 0, 0x82, 0, 0, 0x57, 0x7A, 1, 0, 0x57, 0x64, 0, 0, 0x01, 0x58,
      0x64, 0, 0, 0x01, 0x58]
    constants := #[.none] }

/-- The inner one. -/
def inner : Cleanup :=
  { start := 7, guarded := 10, leave := 10, body := 11, stop := 15, next := 16 }

/-- The outer body, entered by a fault. -/
def outer : Block :=
  { kind := .finallyBody { value := .none, traceback := [] }, origin := 3, handler := 7, depth := 0 }

/-- The guard of the inner one. -/
def guard : Block :=
  { kind := .finallyGuard, origin := 10, handler := 11, depth := 0 }

/-- The root frame on its way. -/
def frame (instructionIp ip : Nat) (stack : List Value) (blocks : List Block) : Frame :=
  { Frame.start unit .push with instructionIp, ip, stack, blocks }

/-- The machine on its way. -/
def machine (instructionIp ip : Nat) (stack : List Value) (blocks : List Block) : Machine :=
  { context := { frames := [frame instructionIp ip stack blocks], builtins := [] }, world := {} }

theorem inner_in : inner.In unit.bytes :=
  ⟨rfl, rfl, rfl⟩

variable (blocks : List Block)

theorem perform_setup : (default : Vm).perform .fetch (machine 3 7 [] blocks) =
    .ok .next (machine 7 10 [] (guard :: blocks)) :=
  rfl

theorem perform_leave : (default : Vm).perform .fetch (machine 7 10 [] (guard :: blocks)) =
    .ok .next (machine 10 11 [] blocks) :=
  rfl

theorem guarded_runs : (default : Vm).RunsTo inner.leave (machine 7 10 [] (guard :: blocks))
    (machine 7 10 [] (guard :: blocks)) :=
  ⟨.refl, _, _, _, _, rfl, rfl, rfl, rfl, rfl, rfl⟩

theorem body_runs :
    (default : Vm).RunsTo inner.stop (machine 10 11 [] blocks) (machine 14 15 [] blocks) := by
  have hconst : (default : Vm).perform .fetch (machine 10 11 [] blocks) =
      .ok .next (machine 11 14 [.none] blocks) := rfl
  have hpop : (default : Vm).perform .fetch (machine 11 14 [.none] blocks) =
      .ok .next (machine 14 15 [] blocks) := rfl
  exact ⟨(Vm.Executes.step hconst).trans (.step hpop), _, _, _, _, rfl, rfl, rfl, rfl, rfl, rfl⟩

/-- Outside all blocks the inner one is executed to its end. -/
theorem runs_outside : ∃ m, (default : Vm).RunsTo inner.next (machine 3 7 [] []) m := by
  have hguarded : ∀ m₁, (default : Vm).perform .fetch (machine 3 7 [] []) = .ok .next m₁ →
      (default : Vm).RunsTo inner.leave m₁ (machine 7 10 [] [guard]) := by
    intro m₁ h
    rw [perform_setup] at h
    cases h
    exact guarded_runs []
  have hbody : ∀ m₃, (default : Vm).perform .fetch (machine 7 10 [] [guard]) = .ok .next m₃ →
      (default : Vm).RunsTo inner.stop m₃ (machine 14 15 [] []) := by
    intro m₃ h
    rw [perform_leave] at h
    cases h
    exact body_runs []
  obtain ⟨_, hquiet, _⟩ := Vm.cleanup_spec (f := frame 3 7 [] []) inner_in rfl rfl hguarded hbody
  obtain ⟨m, _, hruns⟩ := hquiet nofun
  exact ⟨m, hruns⟩

/-- In the outer body it is not: its guarded part and its body leave the blocks as they were, but at
the end of its body the fault of the outer one goes on, and the tasklet ends. -/
theorem faulted_inside :
    inner.In unit.bytes ∧
      (default : Vm).perform .fetch (machine 3 7 [] [outer]) =
        .ok .next (machine 7 10 [] [guard, outer]) ∧
      (default : Vm).RunsTo inner.leave (machine 7 10 [] [guard, outer])
        (machine 7 10 [] [guard, outer]) ∧
      (default : Vm).perform .fetch (machine 7 10 [] [guard, outer]) =
        .ok .next (machine 10 11 [] [outer]) ∧
      (default : Vm).RunsTo inner.stop (machine 10 11 [] [outer]) (machine 14 15 [] [outer]) ∧
      ∃ m, (default : Vm).perform .fetch (machine 14 15 [] [outer]) = .ok .faulted m ∧
        m.context.frames.map Frame.blocks = [[]] :=
  ⟨inner_in, perform_setup _, guarded_runs _, perform_leave _, body_runs _, _, rfl, rfl⟩

end NestedCleanup

end TaskletMachine
