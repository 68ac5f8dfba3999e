import TaskletMachine.Proofs.Machine.Calls

/-!
# Steps

What a whole step of the machine can come to: each instruction, the end of the code, and each link
of a call.

## Main definitions

* `Instruction.LeavesBlocks`, `Phase.Exits`: the steps that leave blocks on purpose.
* `Phase.Plain`: a call whose result goes on within the frame.
* `Machine.withFrames`, `Frame.reading`: the machine while an instruction is executed.
* `Vm.Meets.perform`: what a step can come to.
-/
namespace TaskletMachine

open Exec

/-- Whether an instruction leaves blocks without a fault, whatever kind they have. -/
def Instruction.LeavesBlocks : Instruction → Prop
  | popBlock | breakLoop | continueLoop _ => True
  | _ => False

/-- The next instruction of the innermost frame, unless the frame is past its end. -/
def Context.instruction? (c : Context) : Option Instruction :=
  c.frames.head?.bind fun f => (decodeAt f.unit.bytes f.ip).map Decoded.instruction

/-- Whether a phase is to execute an instruction that leaves blocks. -/
def Phase.Exits (phase : Phase) (c : Context) : Prop :=
  phase = .fetch ∧ ∃ i, c.instruction? = some i ∧ i.LeavesBlocks

/-- Whether the result of a call goes on within the frame that made it. -/
def Phase.Plain : Phase → Prop
  | fetch => True
  | link c => c.delivery.Plain

theorem decodeAt_eq_none {bytes : Array UInt8} {ip : Nat} :
    decodeAt bytes ip = none ↔ bytes.size ≤ ip := by
  rw [decodeAt, Option.map_eq_none_iff, Array.getElem?_eq_none_iff]

/-! ## The innermost frame -/

/-- The machine with other frames. -/
def Machine.withFrames (m : Machine) (frames : List Frame) : Machine :=
  { m with context := { m.context with frames } }

/-- The machine that a computation leaves behind. -/
def Exec.left {α : Type} : EStateM.Result Error Machine α → Machine
  | .ok _ m => m
  | .error _ m => m

/-- The frame while an instruction is executed. -/
def Frame.reading (f : Frame) (next : Nat) : Frame :=
  { f with instructionIp := f.ip, ip := next }

/-- The next instruction is read and executed. -/
theorem Vm.perform_fetch (vm : Vm) {m : Machine} {f : Frame} {callers : List Frame}
    {i : Instruction} {next : Nat} (hm : m.context.frames = f :: callers)
    (hd : decodeAt f.unit.bytes f.ip = some ⟨i, next⟩) :
    vm.perform .fetch m = vm.execute i (m.withFrames (f.reading next :: callers)) := by
  have hend : f.atEnd = false := by
    cases hend : f.atEnd with
    | false => rfl
    | true =>
      rw [decodeAt_eq_none.2 (of_decide_eq_true hend)] at hd
      cases hd
  have hfetch : vm.fetch m = (do
      modifyFrame fun f => { f with instructionIp := f.ip, ip := next }
      vm.execute i : Exec Control) m := by
    simp only [fetch]
    rw [bind_ok (frame_cons hm), hend]
    simp only [Bool.false_eq_true, if_false, hd]
  rw [perform, hfetch, bind_ok (modifyFrame_cons hm _)]
  rfl

theorem Exec.pop_nil {m : Machine} {f : Frame} {callers : List Frame}
    (hm : m.context.frames = f :: callers) (hf : f.stack = []) :
    pop m = .error { cause := .stackUnderflow } m := by
  simp only [pop]
  rw [bind_ok (frame_cons hm), hf]
  rfl

theorem Exec.pop_cons {m : Machine} {f : Frame} {callers : List Frame} {v : Value}
    {stack : List Value} (hm : m.context.frames = f :: callers) (hf : f.stack = v :: stack) :
    pop m = .ok v { m with context :=
      { m.context with frames := { f with stack } :: callers } } := by
  simp only [pop]
  rw [bind_ok (frame_cons hm), hf]
  dsimp only
  rw [bind_ok (modifyFrame_cons hm _)]
  rfl

namespace Vm.Meets

variable {vm : Vm} {limit : Nat} {exits : Prop} {m : Machine} {f g : Frame} {callers : List Frame}

/-! ## Blocks -/

/-- Without frames there is nothing to work on. -/
theorem of_nil {e : Error} (hm : m.context.frames = []) : vm.Meets limit exits m (.error e m) :=
  ⟨.refl, fun hs => absurd hm hs.ne_nil⟩

theorem malformed (message : String) (m : Machine) :
    vm.Meets limit exits m (Vm.malformed message m) := by
  refine ⟨.refl, fun hs => ⟨(Context.Quiet.refl _).goesOn hs.ne_nil, fun he => he.elim, ?_⟩⟩
  intro he
  exact absurd he Bool.false_ne_true

/-- The innermost frame is replaced by what has become of it. -/
theorem replace (hm : m.context.frames = f :: callers)
    (h : f.Turns exits m.context.handled g) :
    vm.Meets limit exits m ((do modifyFrame fun _ => g; return .next : Exec Control) m) := by
  rw [bind_ok (modifyFrame_cons hm _)]
  exact ⟨.refl, fun _ => .of_turns hm h⟩

theorem enterBlock (kind : BlockKind) (handler : Nat) (m : Machine) :
    vm.Meets limit exits m (Vm.enterBlock kind handler m) := by
  cases hm : m.context.frames with
  | nil =>
    simp only [Vm.enterBlock]
    rw [bind_error (modifyFrame_nil hm _)]
    exact of_nil hm
  | cons f callers =>
    simp only [Vm.enterBlock]
    rw [bind_ok (modifyFrame_cons hm _)]
    exact ⟨.refl, fun _ => .of_turns hm (.enters _ rfl rfl rfl)⟩

theorem popBlock (m : Machine) : vm.Meets limit True m (Vm.popBlock m) := by
  unfold Vm.popBlock Frame.popBlock?
  cases hm : m.context.frames with
  | nil =>
    rw [bind_error (frame_nil hm)]
    exact of_nil hm
  | cons f callers =>
    rw [bind_ok (frame_cons hm)]
    cases hf : f.blocks with
    | nil => exact malformed _ m
    | cons b rest =>
      have hbelow := Frame.below_innermost hf
      exact replace hm (.leaves [] b rest hbelow rfl rfl fun _ => trivial)

theorem breakLoop (m : Machine) : vm.Meets limit True m (Vm.breakLoop m) := by
  unfold Vm.breakLoop
  cases hm : m.context.frames with
  | nil =>
    rw [bind_error (frame_nil hm)]
    exact of_nil hm
  | cons f callers =>
    have hturns := f.turns_breakLoop m.context.handled
    rw [bind_ok (frame_cons hm)]
    dsimp only
    rw [bind_ok (modifyFrame_cons hm _)]
    split
    · exact ⟨.refl, fun _ => .of_turns hm hturns⟩
    · refine ⟨.refl, fun _ => ⟨.of_turns hm hturns, fun he => he.elim, ?_⟩⟩
      intro he
      exact absurd he Bool.false_ne_true

theorem continueLoop (target : Nat) (m : Machine) :
    vm.Meets limit True m (Vm.continueLoop target m) := by
  simp only [Vm.continueLoop]
  cases hm : m.context.frames with
  | nil =>
    rw [bind_error (frame_nil hm)]
    exact of_nil hm
  | cons f callers =>
    rw [bind_ok (frame_cons hm)]
    cases hf : f.continueLoop? target with
    | none => exact malformed _ m
    | some g => exact replace hm (Frame.turns_continueLoop? hf _)

/-- The block of a cleanup body takes no fault, so it can be left before the fault is raised. -/
theorem land_without {b : Block} {rest : List Block} {fault : Fault} (hf : f.blocks = b :: rest)
    (hkind : b.kind = .finallyBody fault) : (f.without b rest).land fault = f.land fault := by
  have hlandIn : f.landIn fault (b :: rest) = (f.without b rest).landIn fault rest := by
    rw [Frame.landIn, hkind]
    rfl
  rw [Frame.land, Frame.land, hf, hlandIn]
  rfl

theorem raiseFault_without {b : Block} {rest : List Block} {fault : Fault}
    (hm : m.context.frames = f :: callers) (hf : f.blocks = b :: rest)
    (hkind : b.kind = .finallyBody fault) :
    (do modifyFrame fun _ => f.without b rest; vm.raiseFault fault : Exec Control) m =
      vm.raiseFault fault m := by
  have hunwind (stops : Value → Bool) : unwindFrames stops fault (f.without b rest :: callers) =
      unwindFrames stops fault (f :: callers) := by
    simp only [unwindFrames]
    rw [land_without hf hkind]
  have hstops : vm.isStopIteration { m.context with frames := f.without b rest :: callers } =
      vm.isStopIteration m.context := rfl
  have hunwinds := unwinds_unwindFrames (vm.isStopIteration m.context m.world.heap) fault
    (f :: callers)
  rw [bind_ok (modifyFrame_cons hm _), Vm.raiseFault_eq, Vm.raiseFault_eq, hm]
  dsimp only
  rw [hstops, hunwind]
  generalize unwindFrames (vm.isStopIteration m.context m.world.heap) fault (f :: callers) = u
    at hunwinds
  cases hunwinds with
  | noFrames hframes => cases hframes
  | _ => rfl

theorem endFinally (hexits : ¬ exits) (m : Machine) : vm.Meets limit exits m (vm.endFinally m) := by
  simp only [Vm.endFinally]
  cases hm : m.context.frames with
  | nil =>
    rw [bind_error (frame_nil hm)]
    exact of_nil hm
  | cons f callers =>
    rw [bind_ok (frame_cons hm)]
    simp only [Frame.endFinally]
    cases hf : f.blocks with
    | nil => exact of_stays (Steady.next m) hexits
    | cons b rest =>
      dsimp only
      cases hkind : b.kind with
      | loop => exact of_stays (Steady.next m) hexits
      | exceptGuard => exact of_stays (Steady.next m) hexits
      | finallyGuard =>
        dsimp only
        split
        · have hbelow := Frame.below_innermost hf
          refine replace hm (.leaves [] b rest hbelow rfl rfl fun hexcept => ?_)
          cases hkind.symm.trans hexcept
        · exact of_stays (Steady.next m) hexits
      | finallyBody fault =>
        have hraise : vm.Meets limit exits m (vm.raiseFault fault m) :=
          raiseFault vm hexits fault m
        rw [← raiseFault_without hm hf hkind] at hraise
        exact hraise

/-! ## The end of a frame -/

theorem returnValue (hexits : ¬ exits) (m : Machine) : vm.Meets limit exits m (Vm.returnValue m) := by
  simp only [Vm.returnValue]
  cases hm : m.context.frames with
  | nil =>
    simp only [pop]
    rw [bind_error (bind_error (frame_nil hm))]
    exact of_nil hm
  | cons f callers =>
    cases hf : f.stack with
    | nil =>
      rw [bind_error (pop_nil hm hf)]
      exact of_stays (Steady.throw id m) hexits
    | cons v stack =>
      rw [bind_ok (pop_cons hm hf)]
      cases callers with
      | nil =>
        refine ⟨.refl, fun _ => ⟨⟨f, _, hm, rfl, rfl⟩, ?_, rfl, rfl⟩⟩
        simp only [Context.isFinished, Frame.atEnd, Nat.le_refl, decide_true, List.isEmpty_nil,
          Bool.and_self]
      | cons caller rest => exact returnFrom v hexits hm rfl (List.cons_ne_nil _ _)

/-- The innermost frame has come to the end of its code. -/
theorem endOfUnit (hexits : ¬ exits) (hm : m.context.frames = f :: callers) (hend : f.atEnd) :
    vm.Meets limit exits m (Vm.endOfUnit m) := by
  simp only [Vm.endOfUnit]
  rw [bind_ok (rfl : Exec.context m = .ok m.context m), hm]
  cases callers with
  | nil =>
    dsimp only
    split
    · next hblocks =>
      refine ⟨.refl, fun _ => ⟨⟨f, f, hm, hm, rfl⟩, ?_, rfl, rfl⟩⟩
      simp only [Context.isFinished, hm, hend, hblocks, Bool.and_self]
    · refine of_stays (Steady.fail (fun h => ?_) m) hexits
      exact absurd (Error.take_of_isInternal_fail h) (by simp [toString])
  | cons caller rest =>
    have hm' : { m with context := { m.context with frames := f :: caller :: rest } } = m := by
      rw [← hm]
    have hreturn : vm.Meets limit exits m (TaskletMachine.returnFrom .none
        { m with context := { m.context with frames := f :: caller :: rest } }) :=
      returnFrom .none hexits hm rfl (List.cons_ne_nil caller rest)
    exact hm' ▸ hreturn

/-! ## Instructions -/

/-- Raising what was caught last again. -/
theorem runRaise_zero (hexits : ¬ exits) (m : Machine) : vm.Meets limit exits m (vm.runRaise 0 m) := by
  have hcontext : Exec.context m = .ok m.context m := rfl
  cases h : m.context.handled with
  | none =>
    have hrun : vm.runRaise 0 m =
        Exec.raise .runtimeError "No active exception to reraise" m :=
      (bind_ok hcontext).trans (by rw [h])
    rw [hrun]
    exact of_stays (Steady.raise _ _ m) hexits
  | some fault =>
    have hrun : vm.runRaise 0 m = vm.raiseFault fault m := (bind_ok hcontext).trans (by rw [h])
    rw [hrun]
    exact raiseFault vm hexits fault m

theorem execute (vm : Vm) (i : Instruction) (m : Machine) :
    vm.Meets vm.maxCallDepth i.LeavesBlocks m (vm.execute i m) := by
  have hsteady (h : i.Common) (hexits : ¬ i.LeavesBlocks) :
      vm.Meets vm.maxCallDepth i.LeavesBlocks m (vm.execute i m) :=
    of_stays (vm.steady_execute h m) hexits
  cases i with
  | popBlock => exact popBlock m
  | breakLoop => exact breakLoop m
  | continueLoop target => exact continueLoop target m
  | setupLoop exit => exact enterBlock .loop exit m
  | setupExcept handler => exact enterBlock .exceptGuard handler m
  | setupFinally handler => exact enterBlock .finallyGuard handler m
  | endFinally => exact endFinally id m
  | returnValue => exact returnValue id m
  | buildClass => exact (After.buildClass m (.refl m)).meets
  | raise count =>
    by_cases hcount : count = 0
    · subst hcount
      exact runRaise_zero id m
    · exact hsteady hcount id
  | _ => exact hsteady trivial id

theorem fetch (vm : Vm) (m : Machine) :
    vm.Meets vm.maxCallDepth (Phase.Exits .fetch m.context) m (vm.fetch m) := by
  simp only [Vm.fetch]
  cases hm : m.context.frames with
  | nil =>
    rw [bind_error (frame_nil hm)]
    exact of_nil hm
  | cons f callers =>
    rw [bind_ok (frame_cons hm)]
    have hinstruction : m.context.instruction? =
        (decodeAt f.unit.bytes f.ip).map Decoded.instruction := by
      rw [Context.instruction?, hm]
      rfl
    by_cases hend : f.atEnd
    · rw [if_pos hend]
      refine endOfUnit ?_ hm hend
      rintro ⟨_, i, hi, _⟩
      rw [hinstruction, decodeAt_eq_none.2 (of_decide_eq_true hend)] at hi
      cases hi
    · rw [if_neg hend]
      cases hd : decodeAt f.unit.bytes f.ip with
      | none => exact absurd (decide_eq_true (decodeAt_eq_none.1 hd)) hend
      | some d =>
        have hexits : Phase.Exits .fetch m.context = d.instruction.LeavesBlocks := by
          rw [hd] at hinstruction
          refine propext ⟨?_, fun h => ⟨rfl, d.instruction, hinstruction, h⟩⟩
          rintro ⟨_, i, hi, h⟩
          rw [hinstruction] at hi
          cases hi
          exact h
        dsimp only
        rw [bind_ok (modifyFrame_cons hm _), hexits]
        exact of_moved hm (execute vm d.instruction _)

/-! ## Steps -/

/-- A link of a call. An error of it may end a loop instead. -/
theorem of_link {c : PendingCall} {m₁ : Machine} (hlink : vm.Enters m₁ (vm.link c m)) :
    vm.Meets vm.maxCallDepth False m₁ (vm.follow c m) := by
  simp only [Vm.follow]
  cases h : vm.link c m with
  | ok control m' =>
    rw [h] at hlink
    exact hlink.meets
  | error e m' =>
    rw [h] at hlink
    have hstays : vm.Stays m₁ (.error e m') := hlink
    cases c.delivery.loopExit? with
    | none => exact of_stays hstays id
    | some exit =>
      dsimp only
      split
      · exact of_stays (.of_quiet hstays.1 (Steady.endLoop exit m')) id
      · exact of_stays hstays id

theorem follow {c : PendingCall} (hd : c.delivery.Plain) (m : Machine) :
    vm.Meets vm.maxCallDepth False m (vm.follow c m) :=
  of_link (.link hd m)

/-- What a step can come to. -/
theorem perform (vm : Vm) {phase : Phase} (hphase : phase.Plain) (m : Machine) :
    vm.Meets vm.maxCallDepth (phase.Exits m.context) m (vm.perform phase m) := by
  cases phase with
  | fetch => exact fetch vm m
  | link c =>
    have hexits : Phase.Exits (.link c) m.context = False := eq_false fun h => nomatch h.1
    rw [hexits]
    exact follow hphase m

end Vm.Meets

end TaskletMachine
