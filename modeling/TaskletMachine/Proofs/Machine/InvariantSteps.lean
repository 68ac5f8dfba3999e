import TaskletMachine.Proofs.Machine.Invariants

/-!
# Steps keep invariants of frames

What every new frame has and every change of a frame keeps, all frames have after every instruction,
every link of a call and every fault. So all frames of a tasklet have it at all times.

## Main definitions

* `Vm.retains_execute`, `Exec.Retains.link`, `Exec.Retains.raiseError`: the parts of a step.
* `Vm.Reachable`: the contexts that a tasklet can have.
* `Vm.Reachable.holds`: all frames of these contexts have the property.
-/
namespace TaskletMachine

open Exec

namespace Exec.Retains

variable {α : Type} {I : FrameInvariant}

/-! ## Operands and names -/

@[grind .] theorem pushNamed (name : String) (value : Option Value) :
    Retains I (Vm.pushNamed name value) := by
  unfold Vm.pushNamed
  grind

theorem storeName (index : Nat) : Retains I (Vm.storeName index) := by
  refine bind (name index) fun s => bind pop fun v => withContext fun m => ?_
  cases hc : m.context.storeName? s v with
  | none => exact throw _ m
  | some c => exact fun hall => I.storeName? hall hc

theorem storeGlobal (index : Nat) : Retains I (Vm.storeGlobal index) :=
  bind (name index) fun s => bind pop fun v =>
    bind (modifyContext fun _ hall => I.mapRoot hall s v) fun _ => pure _

theorem deleteName (index : Nat) : Retains I (Vm.deleteName index) := by
  refine bind (name index) fun s => withFrame fun m f callers hm hf => ?_
  cases hg : f.removeLocal? s with
  | none => exact throw _ m
  | some g => exact bind (modifyFrame fun _ _ => I.removeLocal? hf hg) (fun _ => pure _) m

theorem storeFast (index : Nat) : Retains I (Vm.storeFast index) := by
  refine bind pop fun v => withFrame fun m f callers hm hf => ?_
  dsimp only
  split
  · refine KeepsAt.bind ?_ fun _ _ _ => pure _ _
    unfold KeepsAt
    rw [modifyFrame_cons hm]
    intro hall
    rw [hm, List.forall_mem_cons] at hall
    exact List.forall_mem_cons.2 ⟨I.setSlot hf index (some v), hall.2⟩
  · exact throw _ m

theorem deleteFast (index : Nat) : Retains I (Vm.deleteFast index) := by
  refine bind (slot index) fun (s, v) => bind frame fun f => ?_
  split
  · exact bind (modifyFrame fun g hg => I.setSlot hg index none) fun _ => pure _
  · split
    · exact bind (modifyFrame fun g hg => I.removeName hg s) fun _ => pure _
    · exact throw _

/-! ## Attributes and modules -/

@[grind .] theorem importModule (name : String) : Retains I (Vm.importModule name) := by
  have hmodules (r : ModuleRef) : Retains I (Exec.modifyContext fun c =>
      { c with modules := c.modules.set name (.moduleObj r) }) :=
    fun _ => id
  unfold Vm.importModule
  grind

@[grind .] theorem importFrom (vm : Vm) (index : Nat) : Retains I (vm.importFrom index) := by
  refine bind (name index) fun s => bind peek fun v => bind heap fun h => ?_
  split <;> grind

theorem importStar : Retains I Vm.importStar := by
  refine bind pop fun v => ?_
  split
  · exact bind heap fun h => bind (modifyFrame fun f hf => I.setLocals hf _) fun _ => pure _
  · exact bind heap fun h => fail _

/-! ## Making values -/

@[grind .] theorem insertAll (pairs : List (Value × Value)) (entries : Entries Value Value) :
    Retains I (Vm.insertAll pairs entries) := by
  induction pairs generalizing entries with
  | nil => exact pure entries
  | cons pair rest ih =>
    unfold Vm.insertAll
    grind

@[grind .] theorem pushDict (pairs : List (Value × Value)) : Retains I (Vm.pushDict pairs) := by
  unfold Vm.pushDict
  grind

@[grind .] theorem unpackSequence (count : Nat) : Retains I (Vm.unpackSequence count) := by
  refine bind pop fun v => bind heap fun h => ?_
  split
  · exact raise _ _
  · grind

@[grind .] theorem functionDefaults (unit : CodeUnit) (onStack : Bool) :
    Retains I (Vm.functionDefaults unit onStack) := by
  unfold Vm.functionDefaults
  grind

@[grind .] theorem makeFunction (flags : FunctionFlags) : Retains I (Vm.makeFunction flags) := by
  refine bind pop fun name => ?_
  split
  · exact bind (pure _) fun name => by grind
  · exact bind (failShowing _ _) fun name => by grind

/-! ## Operators -/

@[grind .] theorem pushResult (result : Except Error Value) :
    Retains I (TaskletMachine.pushResult result) := by
  unfold TaskletMachine.pushResult
  grind

@[grind .] theorem pushMade (result : Except Error (Value × Heap)) :
    Retains I (TaskletMachine.pushMade result) := by
  unfold TaskletMachine.pushMade
  grind

@[grind .] theorem pushTruth (result : Except Error Bool) :
    Retains I (TaskletMachine.pushTruth result) :=
  pushResult _

@[grind .] theorem runBinaryHook (op : BinaryOp) (inPlace : Bool) (a b : Value) :
    Retains I (TaskletMachine.runBinaryHook op inPlace a b) := by
  unfold TaskletMachine.runBinaryHook
  grind

@[grind .] theorem endLoop (exit : Nat) : Retains I (Vm.endLoop exit) := by
  unfold Vm.endLoop
  grind

/-! ## Blocks -/

@[grind .] theorem malformed (message : String) : Retains I (Vm.malformed message : Exec α) :=
  throw _

theorem enterBlock (kind : BlockKind) (handler : Nat) :
    Retains I (Vm.enterBlock kind handler) :=
  bind (move fun _ => rfl) fun _ => pure _

theorem popBlock : Retains I Vm.popBlock := by
  refine withFrame fun m f callers hm hf => ?_
  cases hg : f.popBlock? with
  | none => exact malformed _ m
  | some g =>
    exact bind (modifyFrame fun _ _ => I.moved hf (Frame.bindings_popBlock? hg)) (fun _ => pure _) m

theorem breakLoop : Retains I Vm.breakLoop := by
  refine withFrame fun m f callers hm hf => ?_
  have hg : I.Holds f.breakLoop.1 := I.moved hf (f.bindings_breakFrom f.blocks)
  refine bind (modifyFrame fun _ _ => hg) (fun _ => ?_) m
  split
  · exact pure _
  · exact malformed _

theorem continueLoop (target : Nat) : Retains I (Vm.continueLoop target) := by
  refine withFrame fun m f callers hm hf => ?_
  cases hg : f.continueLoop? target with
  | none => exact malformed _ m
  | some g =>
    exact bind (modifyFrame fun _ _ => I.moved hf (Frame.bindings_continueLoop? hg))
      (fun _ => pure _) m

/-! ## Calls -/

@[grind .] theorem pairKeywords (names values : List Value) (keywords : Namespace) :
    Retains I (Vm.pairKeywords names values keywords) := by
  fun_induction Vm.pairKeywords names values keywords with
  | case1 name names v values keywords ih => exact ih
  | case2 other names v values => exact failShowing _ _
  | case3 => exact pure _

@[grind .] theorem callWithKeywords (count : Nat) : Retains I (Vm.callWithKeywords count) := by
  refine bind pop fun names => ?_
  split
  · grind
  · exact failShowing _ _

@[grind .] theorem basesOf (values : List Value) : Retains I (Vm.basesOf values) := by
  induction values with
  | nil => exact pure []
  | cons v rest ih =>
    cases v with
    | classObj _ => exact bind ih fun _ => pure _
    | _ => exact bind heap fun h => raise _ _

@[grind .] theorem popBases : Retains I Vm.popBases := by
  unfold Vm.popBases
  grind

@[grind .] theorem popClassName : Retains I Vm.popClassName := by
  unfold Vm.popClassName
  grind

@[grind .] theorem popClassBody : Retains I Vm.popClassBody := by
  unfold Vm.popClassBody
  grind

@[grind .] theorem checkDepth (vm : Vm) : Retains I vm.checkDepth := by
  unfold Vm.checkDepth
  grind

theorem enter {f : Frame} (hf : I.Holds f) : Retains I (Exec.enter f) :=
  fun _ hall => List.forall_mem_cons.2 ⟨hf, hall⟩

theorem buildClass (vm : Vm) : Retains I vm.buildClass := by
  refine bind popBases fun bases => bind popClassName fun name => bind popClassBody fun body => ?_
  exact bind (checkDepth vm) fun _ => bind (enter (I.start _ _)) fun _ => pure _

/-! ## Results -/

@[grind .] theorem raiseWithCause (exception : Value) (cause : Option Value) :
    Retains I (TaskletMachine.raiseWithCause exception cause : Exec α) := by
  unfold TaskletMachine.raiseWithCause
  grind

@[grind .] theorem deliver (v : Value) (d : Delivery) : Retains I (TaskletMachine.deliver v d) := by
  induction d generalizing v with
  | push => exact push v
  | iteration exit => exact push v
  | discard => exact pure ()
  | truth negate => exact bind heap fun h => push _
  | replace other rest ih => exact ih other
  | raise cause => exact raiseWithCause v cause
  | finishClass name bases => exact fail _

@[grind .] theorem deliverFrom (f : Frame) (v : Value) :
    Retains I (TaskletMachine.deliverFrom f v) := by
  unfold TaskletMachine.deliverFrom TaskletMachine.finishClass
  grind

@[grind .] theorem returnFrom (v : Value) : Retains I (TaskletMachine.returnFrom v) := by
  refine withContext fun m => ?_
  split
  · exact throw _ m
  · next f callers hm =>
    have hdrop (hall : ∀ g ∈ m.context.frames, I.Holds g) : ∀ g ∈ callers, I.Holds g := by
      rw [hm, List.forall_mem_cons] at hall
      exact hall.2
    exact KeepsAt.bind hdrop fun _ m₁ _ => (by grind : Retains I _) m₁

theorem returnValue : Retains I Vm.returnValue := by
  refine bind pop fun v => withContext fun m => ?_
  split
  · next root hm =>
    have hroot (hall : ∀ g ∈ m.context.frames, I.Holds g) : ∀ g ∈
        [{ root with ip := root.unit.bytes.size, blocks := [], stack := [] }], I.Holds g := by
      rw [hm, List.forall_mem_singleton] at hall
      exact List.forall_mem_singleton.2 (I.moved hall rfl)
    exact KeepsAt.bind hroot fun _ m₁ _ => pure _ m₁
  · exact returnFrom v m

@[grind .] theorem endOfUnit : Retains I Vm.endOfUnit := by
  unfold Vm.endOfUnit
  grind

/-! ## Links of calls -/

@[grind .] theorem parkTasklet : Retains I TaskletMachine.parkTasklet :=
  fun _ => id

@[grind .] theorem waitFor (p : PromiseId) (d : Delivery) :
    Retains I (TaskletMachine.waitFor p d) :=
  fun _ => id

@[grind .] theorem deliverSettled (s : Settlement) (d : Delivery) :
    Retains I (TaskletMachine.deliverSettled s d) := by
  unfold TaskletMachine.deliverSettled
  grind

@[grind .] theorem awaitPromise (p : PromiseId) (d : Delivery) :
    Retains I (TaskletMachine.awaitPromise p d) := by
  unfold TaskletMachine.awaitPromise
  grind

@[grind .] theorem complete (reply : Reply) (d : Delivery) : Retains I (Vm.complete reply d) := by
  unfold Vm.complete
  grind

@[grind .] theorem instantiate (r : ClassRef) (c : PendingCall) :
    Retains I (Vm.instantiate r c) := by
  unfold Vm.instantiate
  grind

@[grind .] theorem enterFunction (vm : Vm) (r : FunctionRef) (c : PendingCall) :
    Retains I (vm.enterFunction r c) := by
  refine bind (checkDepth vm) fun _ => bind heap fun h => bind (ofExcept _) fun (bound, h') => ?_
  refine bind (setHeap h') fun _ m => KeepsAt.ofExcept fun f hf => ?_
  exact bind (enter (I.frameOf hf)) (fun _ => pure _) m

theorem link (vm : Vm) (c : PendingCall) : Retains I (vm.link c) := by
  unfold Vm.link
  grind

/-! ## Raising -/

@[grind .] theorem raiseFault (vm : Vm) (fault : Fault) : Retains I (vm.raiseFault fault) := by
  refine withMachine fun m => ?_
  have hunwound (hall : ∀ f ∈ m.context.frames, I.Holds f) :=
    I.unwindFrames hall (vm.isStopIteration m.context m.world.heap) fault
  dsimp only
  generalize unwindFrames (vm.isStopIteration m.context m.world.heap) fault m.context.frames =
    unwound at hunwound
  cases unwound with
  | caught fault frames => exact KeepsAt.bind hunwound fun _ m₁ _ => pure _ m₁
  | cleanup frames => exact KeepsAt.bind hunwound fun _ m₁ _ => pure _ m₁
  | loopEnded exit frames => exact KeepsAt.bind hunwound fun _ m₁ _ => endLoop exit m₁
  | unhandled fault frames => exact KeepsAt.bind hunwound fun _ m₁ _ => pure _ m₁
  | noFrames => exact fun hall => hall

theorem runRaise (vm : Vm) (count : Nat) : Retains I (vm.runRaise count) := by
  unfold Vm.runRaise Vm.raiseValue
  grind

theorem endFinally (vm : Vm) : Retains I vm.endFinally := by
  refine withFrame fun m f callers hm hf => ?_
  have hended := f.bindings_endFinally
  cases he : f.endFinally with
  | outside => exact pure _ m
  | done g =>
    rw [he] at hended
    exact bind (modifyFrame fun _ _ => I.moved hf hended) (fun _ => pure _) m
  | fault fault g =>
    rw [he] at hended
    exact bind (modifyFrame fun _ _ => I.moved hf hended) (fun _ => raiseFault vm fault) m

theorem raiseError (vm : Vm) (e : Error) : Retains I (vm.raiseError e) := by
  have hmade (x : Exec Value) (hx : Aside x) : Retains I (do
      let value ← x
      vm.raiseFault { value, traceback := [(← Exec.frame).place] }) :=
    bind (of_aside hx) fun value => bind frame fun f => raiseFault vm _
  unfold Vm.raiseError
  split
  · exact hmade _ (.makeException vm _ _)
  · exact hmade _ (.normalizeException vm _)
  · exact bind (throw e) fun value => bind frame fun f => raiseFault vm _

end Exec.Retains

/-! ## Steps -/

namespace Vm

variable {I : FrameInvariant} {k : Continuation} {m : Machine}

/-- All instructions retain the property. -/
theorem retains_execute (vm : Vm) (i : Instruction) : Retains I (vm.execute i) := by
  cases i with
  | storeName index => exact .storeName index
  | storeGlobal index => exact .storeGlobal index
  | deleteName index => exact .deleteName index
  | storeFast index => exact .storeFast index
  | deleteFast index => exact .deleteFast index
  | importStar => exact .importStar
  | setupLoop exit => exact .enterBlock .loop exit
  | setupExcept handler => exact .enterBlock .exceptGuard handler
  | setupFinally handler => exact .enterBlock .finallyGuard handler
  | popBlock => exact .popBlock
  | breakLoop => exact .breakLoop
  | continueLoop target => exact .continueLoop target
  | endFinally => exact .endFinally vm
  | raise count => exact .runRaise vm count
  | buildClass => exact .buildClass vm
  | returnValue => exact .returnValue
  -- all others work on the operands of the innermost frame and on the world
  | _ =>
    simp only [execute, rotateTwo, rotateThree, duplicateTop, loadConst, jumpIf, loadName,
      loadGlobal, loadFast, loadAttr, storeAttr, importName, buildTuple, buildList, buildMap,
      buildConstKeyMap, listAppend, runUnary, runBinary, runMembership, runComparison, runCompare,
      runSubscript, runStoreSubscript, runDeleteSubscript, runGetIter, runForIter, call,
      loadAssertionError]
    grind

/-- So does fetching the next instruction, which moves the innermost frame on. -/
theorem retains_fetch (vm : Vm) : Retains I vm.fetch := by
  refine .bind .frame fun f => ?_
  split
  · exact .endOfUnit
  · split
    · exact .bind (.move fun _ => rfl) fun _ => retains_execute vm _
    · exact .fail _

/-- A link of a call retains the property, also if it ends the loop that waits for the result. -/
theorem retains_follow (vm : Vm) (c : PendingCall) : Retains I (vm.follow c) := by
  intro m
  have hlink := Retains.link (I := I) vm c m
  refine Retains.of_left ?_
  unfold follow
  cases h : vm.link c m with
  | ok control m₁ => exact hlink.of_ok h
  | error e m₁ =>
    have hm₁ := hlink.of_error h
    dsimp only
    split
    · split
      · exact (Retains.endLoop _).left m₁ ∘ hm₁
      · exact hm₁
    · exact hm₁

theorem retains_perform (vm : Vm) (phase : Phase) : Retains I (vm.perform phase) := by
  cases phase with
  | fetch => exact retains_fetch vm
  | link c => exact retains_follow vm c

/-- Raising an error that guest code can catch retains the property as well. -/
theorem retains_catching (vm : Vm) {effect : Exec Control} (h : Retains I effect) :
    Retains I (vm.catching effect) := by
  intro m
  refine Retains.of_left ?_
  unfold catching
  cases heffect : effect m with
  | ok control m₁ => exact (h m).of_ok heffect
  | error e m₁ =>
    have hm₁ := (h m).of_error heffect
    dsimp only
    split
    · exact (Retains.raiseError vm e).left m₁ ∘ hm₁
    · exact hm₁

theorem inherits_conclude (vm : Vm) {next : Machine → Progress} {effect : Exec Control}
    (hnext : ∀ m, (next m).machine = m) (h : Retains I effect) (m : Machine) :
    m.Inherits I (vm.conclude next effect m).machine := by
  have hcatching := (retains_catching vm h).left m
  unfold conclude
  cases hc : vm.catching effect m with
  | error e m₁ =>
    rw [hc] at hcatching
    exact hcatching
  | ok control m₁ =>
    rw [hc] at hcatching
    cases control with
    | next =>
      rw [proceed, hnext]
      exact hcatching
    | _ => exact hcatching

theorem machine_afterInstruction (vm : Vm) (m : Machine) : (vm.afterInstruction m).machine = m := by
  unfold afterInstruction
  split <;> rfl

/-- One step of a run. -/
theorem inherits_advance (vm : Vm) (phase : Phase) (m : Machine) :
    m.Inherits I (vm.advance phase m).machine :=
  inherits_conclude vm vm.machine_afterInstruction (retains_perform vm phase) m

/-- The beginning of a resumption. -/
theorem inherits_resumption (vm : Vm) (k : Continuation) (m : Machine) :
    m.Inherits I (vm.resumption k m).machine := by
  have hgiven (s : Settlement) (d : Delivery) : Retains I (handOver s d) :=
    .bind (.deliverSettled s d) fun _ => .pure _
  cases k with
  | start => exact id
  | resume => exact id
  | await p d =>
    unfold resumption
    dsimp only
    split
    · exact inherits_conclude vm (fun _ => rfl) (hgiven _ d) m
    · exact id

/-! ## Reachable contexts -/

/-- The contexts that a tasklet can have: between two resumptions, and after each step of one. -/
inductive Reachable (vm : Vm) : Context → Prop
  | between {k : Continuation} {m : Machine} (h : vm.Session k m) : Reachable vm m.context
  | within {k : Continuation} {m : Machine} {p : Progress} (h : vm.Session k m)
      (hp : vm.Visits k m p) : Reachable vm p.machine.context

variable {vm : Vm} {p : Progress} {c : Context}

theorem Visits.holds (h : vm.Visits k m p) (hm : ∀ f ∈ m.context.frames, I.Holds f) :
    ∀ f ∈ p.machine.context.frames, I.Holds f := by
  induction h with
  | begin => exact inherits_resumption vm k m hm
  | @step phase m' _ ih => exact inherits_advance vm phase m' ih

theorem Session.holds (h : vm.Session k m) : ∀ f ∈ m.context.frames, I.Holds f := by
  induction h with
  | start unit builtins globals modules loader world =>
    have hglobals (c : Context) (hc : ∀ f ∈ c.frames, I.Holds f) :
        ∀ f ∈ (globals.foldl (fun c entry => c.setGlobal entry.1 entry.2) c).frames, I.Holds f := by
      induction globals generalizing c with
      | nil => exact hc
      | cons entry rest ih => exact ih _ (I.mapRoot hc entry.1 entry.2)
    exact hglobals _ (List.forall_mem_singleton.2 (I.start unit .push))
  | outside _ world ih => exact ih
  | setGlobal _ name v ih => exact I.mapRoot ih name v
  | setLoader _ loader ih => exact ih
  | @resume k m _ steps o m' hrun ih =>
    rcases resume_cases hrun with ⟨rfl, -⟩ | ⟨hfatal, hunhandled, hrun⟩
    · exact ih
    · exact ((Visits.begin hfatal hunhandled).runFor hrun).holds ih

/-- All frames of a tasklet have the property at all times. -/
theorem Reachable.holds (I : FrameInvariant) (h : vm.Reachable c) : ∀ f ∈ c.frames, I.Holds f := by
  cases h with
  | between h => exact h.holds
  | within h hp => exact hp.holds h.holds

/-- A call stack is never empty. -/
theorem Reachable.ne_nil (h : vm.Reachable c) : c.frames ≠ [] := by
  cases h with
  | between h =>
    rcases h.between with ⟨hgoing, -⟩ | ⟨hbounded, -⟩ | ⟨hbounded, -⟩
    · exact hgoing.sound.ne_nil
    · exact hbounded.sound.ne_nil
    · exact hbounded.sound.ne_nil
  | within h hp => exact (hp.lawful (Nat.le_refl _) h.between).1.bounded.sound.ne_nil

end Vm

end TaskletMachine
