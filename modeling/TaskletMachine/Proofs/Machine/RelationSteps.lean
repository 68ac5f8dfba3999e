import TaskletMachine.Proofs.Machine.InvariantSteps
import TaskletMachine.Proofs.Machine.Relations

/-!
# Instructions on related call stacks

All instructions do the same on related call stacks, but for those that may leave their frame: a
return, and the two that raise a fault again. So does every link of a call that is made in the
innermost frame.

## Main definitions

* `Vm.respects_execute`: the instructions.
* `Exec.Respects.link`, `Exec.Respects.follow`: the links of calls.
-/
namespace TaskletMachine

open Exec

namespace Exec.Respects

variable {α : Type} {vm : Vm}

/-! ## Whatever the relation is -/

section World

variable {R : List Frame → List Frame → Prop}

@[grind .] theorem makeInstance (c : ClassRef) (args : List Value) :
    Respects R (Vm.makeInstance c args) := by
  unfold Vm.makeInstance
  grind

@[grind .] theorem makeException (kind : ExceptionKind) (message : String) :
    Respects R (vm.makeException kind message) :=
  withContext (fun _ _ _ => rfl) fun _ => bind (ofExcept _) fun c => makeInstance c _

@[grind .] theorem normalizeException (v : Value) : Respects R (vm.normalizeException v) := by
  refine withContext (fun _ _ _ => rfl) fun c => bind (ofExcept _) fun base => bind heap fun h => ?_
  cases v <;> grind

@[grind .] theorem raiseWithCause (exception : Value) (cause : Option Value) :
    Respects R (TaskletMachine.raiseWithCause exception cause : Exec α) := by
  unfold TaskletMachine.raiseWithCause
  grind

theorem checkDepth (hlength : ∀ frames frames', R frames frames' → frames'.length = frames.length) :
    Respects R vm.checkDepth := by
  refine withContext ?_ fun c => ?_
  · intro c frames h
    dsimp only
    rw [hlength _ _ h]
  · split
    · exact raise _ _
    · exact pure ()

@[grind .] theorem parkTasklet : Respects R TaskletMachine.parkTasklet :=
  fun _ frames h => .ok _ ⟨frames, h, rfl⟩

@[grind .] theorem waitFor (p : PromiseId) (d : Delivery) :
    Respects R (TaskletMachine.waitFor p d) :=
  fun _ frames h => .ok _ ⟨frames, h, rfl⟩

@[grind .] theorem malformed (message : String) : Respects R (Vm.malformed message : Exec α) :=
  throw _

@[grind .] theorem pairKeywords (names values : List Value) (keywords : Namespace) :
    Respects R (Vm.pairKeywords names values keywords) := by
  fun_induction Vm.pairKeywords names values keywords with
  | case1 name names v values keywords ih => exact ih
  | case2 other names v values => exact failShowing _ _
  | case3 => exact pure _

@[grind .] theorem basesOf (values : List Value) : Respects R (Vm.basesOf values) := by
  induction values with
  | nil => exact pure []
  | cons v rest ih =>
    cases v with
    | classObj _ => exact bind ih fun _ => pure _
    | _ => exact bind heap fun h => raise _ _

@[grind .] theorem insertAll (pairs : List (Value × Value)) (entries : Entries Value Value) :
    Respects R (Vm.insertAll pairs entries) := by
  induction pairs generalizing entries with
  | nil => exact pure entries
  | cons pair rest ih =>
    unfold Vm.insertAll
    grind

end World

variable {I : FrameRelation}

/-! ## Names -/

@[grind .] theorem pushNamed (name : String) (value : Option Value) :
    Respects I.Related (Vm.pushNamed name value) := by
  unfold Vm.pushNamed
  grind

theorem loadName (index : Nat) : Respects I.Related (Vm.loadName index) := by
  refine bind (name index) fun s => withContext ?_ fun c => pushNamed s _
  intro c frames h
  rw [I.loadName h]

theorem loadGlobal (index : Nat) : Respects I.Related (Vm.loadGlobal index) := by
  refine bind (name index) fun s => withContext ?_ fun c => pushNamed s _
  intro c frames h
  rw [I.loadGlobal h]

theorem storeName (index : Nat) : Respects I.Related (Vm.storeName index) := by
  refine bind (name index) fun s => bind pop fun v => ?_
  intro m frames h
  obtain ⟨stored, stored', hstored, hstore, hstore'⟩ := I.storeName h s v
  have hcontext (m₁ : Machine) : Exec.context m₁ = .ok m₁.context m₁ := rfl
  rw [bind_ok (hcontext m), bind_ok (hcontext (m.withFrames frames))]
  dsimp only [Machine.withFrames]
  rw [hstore, hstore']
  exact .ok Control.next ⟨stored', hstored, rfl⟩

theorem storeGlobal (index : Nat) : Respects I.Related (Vm.storeGlobal index) := by
  refine bind (name index) fun s => bind pop fun v => bind ?_ fun _ => pure _
  exact fun m frames h => .ok () ⟨_, I.storeGlobal h s v, rfl⟩

theorem deleteName (index : Nat) : Respects I.Related (Vm.deleteName index) :=
  bind (name index) fun s => update fun _ _ => Frame.removeLocal?_withDelivery s

theorem loadFast (index : Nat) : Respects I.Related (Vm.loadFast index) := by
  refine bind (slot index) fun (s, v) => withFrame (fun _ _ => rfl) fun f => ?_
  grind

theorem storeFast (index : Nat) : Respects I.Related (Vm.storeFast index) := by
  refine bind pop fun v => withFrame (fun _ _ => rfl) fun f => ?_
  dsimp only
  split
  · exact bind (modifyFrame fun _ _ => rfl) fun _ => pure _
  · exact throw _

theorem deleteFast (index : Nat) : Respects I.Related (Vm.deleteFast index) := by
  refine bind (slot index) fun (s, v) => withFrame (fun _ _ => rfl) fun f => ?_
  split
  · exact bind (modifyFrame fun _ _ => rfl) fun _ => pure _
  · split
    · exact bind (modifyFrame fun _ _ => rfl) fun _ => pure _
    · exact throw _

theorem loadAssertionError : Respects I.Related vm.loadAssertionError :=
  withContext (fun _ _ _ => rfl) fun _ => bind (ofExcept _) fun _ => bind (push _) fun _ => pure _

/-! ## Attributes and modules -/

@[grind .] theorem importModule (name : String) : Respects I.Related (Vm.importModule name) := by
  refine withContext (fun _ _ _ => rfl) fun c => ?_
  split
  · exact pure _
  · exact bind (fun _ frames h => .ok () ⟨frames, h, rfl⟩) fun _ => pure _
  · exact raise _ _

@[grind .] theorem importFrom (index : Nat) : Respects I.Related (vm.importFrom index) := by
  refine bind (name index) fun s => bind peek fun v => bind heap fun h => ?_
  split <;> grind

theorem importStar : Respects I.Related Vm.importStar := by
  refine bind pop fun v => ?_
  split
  · exact bind heap fun h =>
      bind (modifyFrame fun _ _ => Frame.foldl_setLocal_withDelivery _) fun _ => pure _
  · exact bind heap fun h => fail _

/-! ## Making values -/

theorem loadConst (index : Nat) : Respects I.Related (Vm.loadConst index) := by
  refine withFrame (fun _ _ => rfl) fun f => ?_
  split
  · exact bind (onHeap _) fun v => bind (push v) fun _ => pure _
  · exact throw _

@[grind .] theorem pushDict (pairs : List (Value × Value)) :
    Respects I.Related (Vm.pushDict pairs) := by
  unfold Vm.pushDict
  grind

@[grind .] theorem unpackSequence (count : Nat) : Respects I.Related (Vm.unpackSequence count) := by
  refine bind pop fun v => bind heap fun h => ?_
  split
  · exact raise _ _
  · next items _ =>
    have hpush : Respects I.Related (do
        Exec.modifyFrame fun f => { f with stack := items ++ f.stack }
        return Control.next : Exec Control) :=
      bind (modifyFrame fun _ _ => rfl) fun _ => pure _
    grind

@[grind .] theorem functionDefaults (unit : CodeUnit) (onStack : Bool) :
    Respects I.Related (Vm.functionDefaults unit onStack) := by
  unfold Vm.functionDefaults
  grind

@[grind .] theorem makeFunction (flags : FunctionFlags) :
    Respects I.Related (Vm.makeFunction flags) := by
  refine bind pop fun name => ?_
  split
  · exact bind (pure _) fun name => by grind
  · exact bind (failShowing _ _) fun name => by grind

/-! ## Operators -/

@[grind .] theorem pushResult (result : Except Error Value) :
    Respects I.Related (TaskletMachine.pushResult result) := by
  unfold TaskletMachine.pushResult
  grind

@[grind .] theorem pushMade (result : Except Error (Value × Heap)) :
    Respects I.Related (TaskletMachine.pushMade result) := by
  unfold TaskletMachine.pushMade
  grind

@[grind .] theorem pushTruth (result : Except Error Bool) :
    Respects I.Related (TaskletMachine.pushTruth result) :=
  pushResult _

@[grind .] theorem runBinaryHook (op : BinaryOp) (inPlace : Bool) (a b : Value) :
    Respects I.Related (TaskletMachine.runBinaryHook op inPlace a b) := by
  unfold TaskletMachine.runBinaryHook
  grind

@[grind .] theorem endLoop (exit : Nat) : Respects I.Related (Vm.endLoop exit) := by
  unfold Vm.endLoop
  grind

/-! ## Blocks -/

theorem enterBlock (kind : BlockKind) (handler : Nat) :
    Respects I.Related (Vm.enterBlock kind handler) :=
  bind (modifyFrame fun _ _ => rfl) fun _ => pure _

theorem popBlock : Respects I.Related Vm.popBlock :=
  update fun _ _ => Frame.popBlock?_withDelivery

theorem breakLoop : Respects I.Related Vm.breakLoop := by
  intro m frames h
  obtain ⟨f, d, callers, callers', hm, rfl, htop⟩ := I.top h
  have hm' : (m.withFrames (f.withDelivery d :: callers')).context.frames =
      f.withDelivery d :: callers' := rfl
  have hdelivery : f.breakLoop.1.delivery = f.delivery :=
    congrArg (fun r => r.1.delivery) (f.breakFrom_withDelivery f.delivery f.blocks)
  have hbreak : (f.withDelivery d).breakLoop = (f.breakLoop.1.withDelivery d, f.breakLoop.2) :=
    f.breakFrom_withDelivery d f.blocks
  have hrest : Respects I.Related (if f.breakLoop.2 then return Control.next
      else Vm.malformed "BREAK_LOOP outside of a loop" : Exec Control) := by
    split
    · exact pure _
    · exact malformed _
  unfold Vm.breakLoop
  rw [bind_ok (frame_cons hm), bind_ok (frame_cons hm'), hbreak]
  refine bindAt ?_ fun _ m₁ frames₁ _ h₁ => hrest m₁ frames₁ h₁
  rw [modifyFrame_cons hm, modifyFrame_cons hm']
  exact .ok () ⟨_, htop _ hdelivery, rfl⟩

theorem continueLoop (target : Nat) : Respects I.Related (Vm.continueLoop target) :=
  update fun _ _ => Frame.continueLoop?_withDelivery target

/-! ## Calls -/

@[grind .] theorem callWithKeywords (count : Nat) :
    Respects I.Related (Vm.callWithKeywords count) := by
  refine bind pop fun names => ?_
  split
  · grind
  · exact failShowing _ _

@[grind .] theorem popBases : Respects I.Related Vm.popBases := by
  unfold Vm.popBases
  grind

@[grind .] theorem popClassName : Respects I.Related Vm.popClassName := by
  unfold Vm.popClassName
  grind

@[grind .] theorem popClassBody : Respects I.Related Vm.popClassBody := by
  unfold Vm.popClassBody
  grind

theorem buildClass : Respects I.Related vm.buildClass := by
  refine bind popBases fun bases => bind popClassName fun name => bind popClassBody fun body => ?_
  exact bind (checkDepth fun _ _ => I.length_eq) fun _ => bind (enter _) fun _ => pure _

/-! ## Results -/

theorem runRaise {count : Nat} (h : count ≠ 0) : Respects I.Related (vm.runRaise count) := by
  unfold Vm.runRaise Vm.raiseValue
  grind

@[grind .] theorem deliver (v : Value) (d : Delivery) :
    Respects I.Related (TaskletMachine.deliver v d) := by
  induction d generalizing v with
  | push => exact push v
  | iteration exit => exact push v
  | discard => exact pure ()
  | truth negate => exact bind heap fun h => push _
  | replace other rest ih => exact ih other
  | raise cause => exact raiseWithCause v cause
  | finishClass name bases => exact fail _

@[grind .] theorem deliverFrom (f : Frame) (v : Value) :
    Respects I.Related (TaskletMachine.deliverFrom f v) := by
  unfold TaskletMachine.deliverFrom TaskletMachine.finishClass
  grind

@[grind .] theorem deliverSettled (s : Settlement) (d : Delivery) :
    Respects I.Related (TaskletMachine.deliverSettled s d) := by
  unfold TaskletMachine.deliverSettled
  grind

theorem handOver (s : Settlement) (d : Delivery) : Respects I.Related (Vm.handOver s d) :=
  bind (deliverSettled s d) fun _ => pure _

/-! ## Links of calls -/

@[grind .] theorem awaitPromise (p : PromiseId) (d : Delivery) :
    Respects I.Related (TaskletMachine.awaitPromise p d) := by
  intro m frames h
  cases hs : (m.world.promise p).settled with
  | some s =>
    have hs' : ((m.withFrames frames).world.promise p).settled = some s := hs
    rw [Vm.awaitPromise_settled hs, Vm.awaitPromise_settled hs']
    exact handOver s d m frames h
  | none =>
    have hs' : ((m.withFrames frames).world.promise p).settled = none := hs
    rw [Vm.awaitPromise_pending hs, Vm.awaitPromise_pending hs']
    exact .ok _ ⟨frames, h, rfl⟩

@[grind .] theorem complete (reply : Reply) (d : Delivery) :
    Respects I.Related (Vm.complete reply d) := by
  unfold Vm.complete
  grind

@[grind .] theorem instantiate (r : ClassRef) (c : PendingCall) :
    Respects I.Related (Vm.instantiate r c) := by
  unfold Vm.instantiate
  grind

@[grind .] theorem enterFunction (r : FunctionRef) (c : PendingCall) :
    Respects I.Related (vm.enterFunction r c) := by
  refine bind (checkDepth fun _ _ => I.length_eq) fun _ => bind heap fun h =>
    bind (ofExcept _) fun (bound, h') => bind (setHeap h') fun _ => bind (ofExcept _) fun f => ?_
  exact bind (enter f) fun _ => pure _

theorem link (c : PendingCall) : Respects I.Related (vm.link c) := by
  unfold Vm.link
  grind

/-- A loop that waits for the result in the innermost frame is left in the same way. -/
theorem follow (c : PendingCall) : Respects I.Related (vm.follow c) := by
  intro m frames h
  have hlink : SameResult (Machine.SameBut I.Related) (vm.link c m)
    (vm.link c (m.withFrames frames)) := link c m frames h
  unfold Vm.follow
  generalize vm.link c m = r at hlink
  generalize vm.link c (m.withFrames frames) = r' at hlink
  cases hlink with
  | ok control hsame => exact .ok control hsame
  | error e hsame =>
    obtain ⟨frames', hframes, rfl⟩ := hsame
    dsimp only
    cases c.delivery.loopExit? with
    | none => exact .error e ⟨frames', hframes, rfl⟩
    | some exit =>
      have hstops (m₁ : Machine) : vm.stopsIteration (m₁.withFrames frames') e =
        vm.stopsIteration m₁ e := rfl
      dsimp only
      rw [hstops]
      split
      · exact endLoop exit _ _ hframes
      · exact .error e ⟨frames', hframes, rfl⟩

end Exec.Respects

/-! ## All instructions -/

namespace Vm

variable {I : FrameRelation} {vm : Vm}

/-- All instructions but three do the same on related call stacks. -/
theorem respects_execute {i : Instruction} (hreturn : i ≠ .returnValue) (hfinally : i ≠ .endFinally)
    (hraise : i ≠ .raise 0) : Respects I.Related (vm.execute i) := by
  cases i with
  | storeName index => exact .storeName index
  | storeGlobal index => exact .storeGlobal index
  | deleteName index => exact .deleteName index
  | loadName index => exact .loadName index
  | loadGlobal index => exact .loadGlobal index
  | loadFast index => exact .loadFast index
  | storeFast index => exact .storeFast index
  | deleteFast index => exact .deleteFast index
  | loadConst index => exact .loadConst index
  | importStar => exact .importStar
  | setupLoop exit => exact .enterBlock .loop exit
  | setupExcept handler => exact .enterBlock .exceptGuard handler
  | setupFinally handler => exact .enterBlock .finallyGuard handler
  | popBlock => exact .popBlock
  | breakLoop => exact .breakLoop
  | continueLoop target => exact .continueLoop target
  | endFinally => exact absurd rfl hfinally
  | raise count => exact .runRaise fun h => hraise (by rw [h])
  | buildClass => exact .buildClass
  | returnValue => exact absurd rfl hreturn
  | loadAssertionError => exact .loadAssertionError
  -- all others work on the operands of the innermost frame and on the world
  | _ =>
    simp only [execute, rotateTwo, rotateThree, duplicateTop, jumpIf, loadAttr, storeAttr,
      importName, buildTuple, buildList, buildMap, buildConstKeyMap, listAppend, runUnary,
      runBinary,
      runMembership, runComparison, runCompare, runSubscript, runStoreSubscript, runDeleteSubscript,
      runGetIter, runForIter, call]
    grind

end Vm

end TaskletMachine
