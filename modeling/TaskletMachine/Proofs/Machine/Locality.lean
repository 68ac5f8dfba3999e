import TaskletMachine.Proofs.Machine.Timing

/-!
# What instructions see and which calls they start

Every instruction but the one that waits sees nothing of the world but the heap: what it does is the
same whatever has been printed, whichever promises there are, and wherever the other tasklets stand.
And only one instruction starts a call whose result a loop waits for.

## Main definitions

* `Exec.Local`: computations that see only the heap and start no call for a loop.
* `Exec.EndsIn`: the results that a computation can end in.
* `Vm.heapOnly_execute`: what instructions see.
* `Vm.calls_execute`: the calls that instructions start.
-/
namespace TaskletMachine

open Exec

namespace Exec

variable {α β : Type} {vm : Vm}

/-! ## Reading and writing the frame -/

namespace HeapOnly

theorem peek : HeapOnly Exec.peek := by
  refine bind .frame ?_
  intro f
  split
  · exact pure _
  · exact throw _

theorem popN (count : Nat) : HeapOnly (Exec.popN count) := by
  refine bind .frame ?_
  intro f
  have hrest : HeapOnly (do
      Exec.modifyFrame fun g => { g with stack := f.stack.drop count }
      return (f.stack.take count).reverse) :=
    bind (.modifyFrame _) fun _ => pure _
  dsimp only
  split
  · exact bind (throw _) fun _ => hrest
  · exact hrest

theorem name (index : Nat) : HeapOnly (Exec.name index) := by
  refine bind .frame ?_
  intro f
  split
  · exact pure _
  · exact throw _

theorem slot (index : Nat) : HeapOnly (Exec.slot index) := by
  refine bind .frame ?_
  intro f
  split
  · exact pure _
  · exact throw _

theorem enter (f : Frame) : HeapOnly (Exec.enter f) :=
  .modifyContext _

theorem raise (kind : ExceptionKind) (message : String) :
    HeapOnly (Exec.raise kind message : Exec α) :=
  throw _

theorem fail (message : String) : HeapOnly (Exec.fail message : Exec α) :=
  throw _

theorem failShowing (message : String) (v : Value) :
    HeapOnly (Exec.failShowing message v : Exec α) :=
  bind .heap fun _ => throw _

/-! ## Parts of instructions -/

theorem importModule (name : String) : HeapOnly (Vm.importModule name) := by
  refine bind .context ?_
  intro c
  split
  · exact pure _
  · exact bind (.modifyContext _) fun _ => pure _
  · exact raise _ _

theorem insertAll (pairs : List (Value × Value)) (entries : Entries Value Value) :
    HeapOnly (Vm.insertAll pairs entries) := by
  induction pairs generalizing entries with
  | nil => exact pure entries
  | cons pair rest ih => exact bind .heap fun h => bind (.ofExcept _) fun key => ih _

theorem functionDefaults (unit : CodeUnit) (onStack : Bool) :
    HeapOnly (Vm.functionDefaults unit onStack) := by
  unfold Vm.functionDefaults
  split
  · refine bind .pop ?_
    intro v
    split
    · exact pure _
    · exact failShowing _ _
  · exact onHeap _

theorem pairKeywords (names values : List Value) (keywords : Namespace) :
    HeapOnly (Vm.pairKeywords names values keywords) := by
  fun_induction Vm.pairKeywords names values keywords with
  | case1 name names v values keywords ih => exact ih
  | case2 other names v values => exact failShowing _ _
  | case3 => exact pure _

theorem basesOf (values : List Value) : HeapOnly (Vm.basesOf values) := by
  induction values with
  | nil => exact pure []
  | cons v rest ih =>
    cases v with
    | classObj _ => exact bind ih fun _ => pure _
    | _ => exact bind .heap fun h => raise _ _

theorem popBases : HeapOnly Vm.popBases := by
  refine bind .pop ?_
  intro v
  split
  · exact basesOf _
  · exact failShowing _ _

theorem popClassName : HeapOnly Vm.popClassName := by
  refine bind .pop ?_
  intro v
  split
  · exact pure _
  · exact failShowing _ _

theorem popClassBody : HeapOnly Vm.popClassBody := by
  refine bind .pop ?_
  intro v
  split
  · exact bind .heap fun h => pure _
  · exact failShowing _ _

theorem checkDepth : HeapOnly vm.checkDepth := by
  refine bind .context ?_
  intro c
  split
  · exact raise _ _
  · exact pure ()

/-! ## Ends of frames -/

theorem finishClass (body : Frame) (name : String) (bases : List ClassRef) :
    HeapOnly (TaskletMachine.finishClass body name bases) :=
  bind (.onHeap _) fun _ => .push _

theorem deliverFrom (f : Frame) (v : Value) : HeapOnly (TaskletMachine.deliverFrom f v) := by
  unfold TaskletMachine.deliverFrom
  split
  · exact finishClass f _ _
  · exact deliver v _

theorem returnFrom (v : Value) : HeapOnly (TaskletMachine.returnFrom v) := by
  refine bind .context ?_
  intro c
  split
  · exact throw _
  · next f callers hframes =>
    refine bind (.modifyContext _) fun _ => ?_
    have hdeliver : HeapOnly (do
        TaskletMachine.deliverFrom f v
        return Control.next : Exec Control) :=
      bind (deliverFrom f v) fun _ => pure _
    dsimp only
    split
    · exact bind (fail _) fun _ => hdeliver
    · exact hdeliver

end HeapOnly

/-! ## How computations end -/

/-- Every result of a computation that is no error is one of the given ones. -/
def EndsIn (P : Control → Prop) (x : Exec Control) : Prop :=
  ∀ m control m', x m = .ok control m' → P control

namespace EndsIn

variable {P : Control → Prop}

theorem pure {control : Control} (h : P control) : EndsIn P (Pure.pure control) := by
  intro m control' m' hrun
  cases hrun
  exact h

theorem throw (e : Error) : EndsIn P (MonadExcept.throw e : Exec Control) := by
  intro m control m' hrun
  cases hrun

theorem bind {x : Exec α} {f : α → Exec Control} (hf : ∀ a, EndsIn P (f a)) :
    EndsIn P (x >>= f) := by
  intro m control m' hrun
  cases hx : x m with
  | error e m₁ =>
    rw [bind_error hx] at hrun
    cases hrun
  | ok a m₁ =>
    rw [bind_ok hx] at hrun
    exact hf a m₁ control m' hrun

/-- A computation after which the next instruction follows. -/
theorem next {x : Exec α} : EndsIn (· = .next) (x >>= fun _ => Pure.pure .next) :=
  bind fun _ => pure rfl

theorem endLoop (exit : Nat) : EndsIn (· = .next) (Vm.endLoop exit) :=
  bind fun _ => next

/-- A native iterator is asked without a call. -/
theorem advance (r : IteratorRef) (exit : Nat) :
    EndsIn (· = .next) (do
      match (← onHeap fun h => h.advance r) with
      | some next =>
        push next
        return .next
      | none => Vm.endLoop exit) := by
  refine bind ?_
  intro next?
  split
  · exact next
  · exact endLoop exit

theorem parkTasklet : EndsIn (· = .suspend .resume) TaskletMachine.parkTasklet :=
  bind fun _ => bind fun _ => pure rfl

theorem returnFrom (v : Value) : EndsIn (· = .next) (TaskletMachine.returnFrom v) := by
  refine bind ?_
  intro c
  split
  · exact throw _
  · refine bind fun _ => ?_
    dsimp only
    split
    · exact bind fun _ => next
    · exact next

theorem awaitPromise (p : PromiseId) (d : Delivery) :
    EndsIn (fun control => control = .next ∨ control = .suspend (.await p d))
      (TaskletMachine.awaitPromise p d) := by
  intro m control m' hrun
  cases hs : (m.world.promise p).settled with
  | some s =>
    rw [Vm.awaitPromise_settled hs] at hrun
    exact .inl (next m control m' hrun)
  | none =>
    rw [Vm.awaitPromise_pending hs] at hrun
    cases hrun
    exact .inr rfl

theorem raiseFault (fault : Fault) :
    EndsIn (fun control => control = .next ∨ control = .faulted) (vm.raiseFault fault) := by
  intro m control m' hrun
  rw [Vm.raiseFault_eq] at hrun
  split at hrun
  · cases hrun
    exact .inl rfl
  · cases hrun
    exact .inl rfl
  · exact .inl (endLoop _ _ _ _ hrun)
  · cases hrun
    exact .inr rfl
  · cases hrun

theorem raiseError (e : Error) :
    EndsIn (fun control => control = .next ∨ control = .faulted) (vm.raiseError e) := by
  have hraise (v : Value) : EndsIn (fun control => control = .next ∨ control = .faulted) (do
      vm.raiseFault { value := v, traceback := [(← Exec.frame).place] }) :=
    bind fun _ => raiseFault _
  unfold Vm.raiseError
  split
  · exact bind hraise
  · exact bind hraise
  · exact bind hraise

end EndsIn

/-! ## Local computations -/

/-- A computation that sees nothing of the world but the heap, and starts no call whose result a
loop waits for. -/
structure Local (x : Exec Control) : Prop where
  heapOnly : HeapOnly x
  calls : ∀ {m c m'}, x m = .ok (.call c) m' → c.delivery.loopExit? = none

namespace Local

theorem next : Local (Pure.pure .next) :=
  ⟨.pure _, nofun⟩

theorem finished : Local (Pure.pure .finished) :=
  ⟨.pure _, nofun⟩

theorem call {c : PendingCall} (h : c.delivery.loopExit? = none) : Local (Pure.pure (.call c)) := by
  refine ⟨.pure _, ?_⟩
  intro m c' m' hcall
  cases hcall
  exact h

theorem throw (e : Error) : Local (MonadExcept.throw e : Exec Control) :=
  ⟨.throw e, nofun⟩

theorem bind {x : Exec α} {f : α → Exec Control} (hx : HeapOnly x) (hf : ∀ a, Local (f a)) :
    Local (x >>= f) := by
  refine ⟨hx.bind fun a => (hf a).heapOnly, ?_⟩
  intro m c m' hcall
  cases h : x m with
  | error e m₁ =>
    rw [bind_error h] at hcall
    cases hcall
  | ok a m₁ =>
    rw [bind_ok h] at hcall
    exact (hf a).calls hcall

/-- A computation that does not start calls at all. -/
theorem of_next {x : Exec Unit} (hx : HeapOnly x) : Local (x >>= fun _ => Pure.pure .next) :=
  bind hx fun _ => next

theorem raise (kind : ExceptionKind) (message : String) : Local (Exec.raise kind message) :=
  throw _

theorem fail (message : String) : Local (Exec.fail message) :=
  throw _

theorem failShowing (message : String) (v : Value) : Local (Exec.failShowing message v) :=
  bind .heap fun _ => throw _

theorem raiseFault (fault : Fault) : Local (vm.raiseFault fault) := by
  refine ⟨.raiseFault vm fault, ?_⟩
  intro m c m' hcall
  rcases EndsIn.raiseFault fault m (.call c) m' hcall with h | h <;> cases h

theorem raiseWithCause (exception : Value) (cause : Option Value) :
    Local (TaskletMachine.raiseWithCause exception cause) := by
  unfold TaskletMachine.raiseWithCause
  split
  · exact bind .heap fun h => bind (.setHeap _) fun _ => throw _
  · exact bind (.pure ()) fun _ => throw _

/-! ## The stack -/

theorem rotateTwo : Local Vm.rotateTwo :=
  bind .pop fun a => bind .pop fun b => bind (.push a) fun _ => of_next (.push b)

theorem rotateThree : Local Vm.rotateThree :=
  bind .pop fun a => bind .pop fun b => bind .pop fun c =>
    bind (.push a) fun _ => bind (.push c) fun _ => of_next (.push b)

theorem duplicateTop : Local Vm.duplicateTop :=
  bind .peek fun v => of_next (.push v)

theorem loadConst (index : Nat) : Local (Vm.loadConst index) := by
  refine bind .frame ?_
  intro f
  split
  · exact bind (.onHeap _) fun v => of_next (.push v)
  · exact throw _

theorem jumpIf (target : Nat) (wanted : Bool) (condition : JumpCondition) :
    Local (Vm.jumpIf target wanted condition) := by
  have hjump (v : Value) : Local (do
      if (← heap).isTruthy v == wanted then jump target
      else if condition = .popUnlessJumping then let _ ← pop
      return .next) := by
    refine bind .heap ?_
    intro h
    split
    · exact of_next (.jump target)
    · dsimp only
      split
      · exact bind .pop fun _ => next
      · exact next
  by_cases hpop : condition = .pop
  · simp only [Vm.jumpIf, if_pos hpop]
    exact bind .pop hjump
  · simp only [Vm.jumpIf, if_neg hpop]
    exact bind .peek hjump

/-! ## Names -/

theorem pushNamed (name : String) (value : Option Value) : Local (Vm.pushNamed name value) := by
  unfold Vm.pushNamed
  split
  · exact of_next (.push _)
  · exact throw _

theorem loadName (index : Nat) : Local (Vm.loadName index) :=
  bind (.name index) fun s => bind .context fun _ => pushNamed s _

theorem loadGlobal (index : Nat) : Local (Vm.loadGlobal index) :=
  bind (.name index) fun s => bind .context fun _ => pushNamed s _

theorem storeName (index : Nat) : Local (Vm.storeName index) := by
  refine bind (.name index) fun s => bind .pop fun v => bind .context fun c => ?_
  split
  · exact of_next (.modifyContext _)
  · exact throw _

theorem storeGlobal (index : Nat) : Local (Vm.storeGlobal index) :=
  bind (.name index) fun _ => bind .pop fun _ => of_next (.modifyContext _)

theorem deleteName (index : Nat) : Local (Vm.deleteName index) := by
  refine bind (.name index) fun s => bind .frame fun f => ?_
  split
  · exact of_next (.modifyFrame _)
  · exact throw _

theorem loadFast (index : Nat) : Local (Vm.loadFast index) := by
  refine bind (.slot index) fun (s, v) => bind .frame fun f => ?_
  split
  · exact of_next (.push _)
  · exact throw _

theorem storeFast (index : Nat) : Local (Vm.storeFast index) := by
  refine bind .pop fun v => bind .frame fun f => ?_
  dsimp only
  split
  · exact of_next (.modifyFrame _)
  · exact throw _

theorem deleteFast (index : Nat) : Local (Vm.deleteFast index) := by
  refine bind (.slot index) fun (s, v) => bind .frame fun f => ?_
  split
  · exact of_next (.modifyFrame _)
  · split
    · exact of_next (.modifyFrame _)
    · exact throw _

/-! ## Attributes and modules -/

theorem loadAttr (index : Nat) : Local (vm.loadAttr index) :=
  bind (.name index) fun _ => bind .pop fun _ => bind .heap fun _ =>
    bind (.ofExcept _) fun v => of_next (.push v)

theorem storeAttr (index : Nat) : Local (Vm.storeAttr index) :=
  bind (.name index) fun _ => bind .pop fun _ => bind .pop fun _ => bind .heap fun _ =>
    bind (.ofExcept _) fun h => of_next (.setHeap h)

theorem importName (index : Nat) : Local (Vm.importName index) :=
  bind (.name index) fun s => bind .pop fun _ => bind .pop fun _ =>
    bind (.importModule s) fun v => of_next (.push v)

theorem importFrom (index : Nat) : Local (vm.importFrom index) := by
  refine bind (.name index) fun s => bind .peek fun v => bind .heap fun h => ?_
  split
  · dsimp only
    split
    · exact of_next (.push _)
    · exact raise _ _
  · exact bind (.ofExcept _) fun v => of_next (.push v)

theorem importStar : Local Vm.importStar := by
  refine bind .pop ?_
  intro v
  split
  · exact bind .heap fun h => of_next (.modifyFrame _)
  · exact bind .heap fun h => fail _

/-! ## Making values -/

theorem buildTuple (count : Nat) : Local (Vm.buildTuple count) :=
  bind (.popN count) fun _ => bind (.onHeap _) fun v => of_next (.push v)

theorem buildList (count : Nat) : Local (Vm.buildList count) :=
  bind (.popN count) fun _ => bind (.onHeap _) fun _ => of_next (.push _)

theorem pushDict (pairs : List (Value × Value)) : Local (Vm.pushDict pairs) :=
  bind (.insertAll pairs []) fun _ => bind (.onHeap _) fun _ => of_next (.push _)

theorem buildMap (count : Nat) : Local (Vm.buildMap count) :=
  bind (.popN _) fun _ => pushDict _

theorem buildConstKeyMap (count : Nat) : Local (Vm.buildConstKeyMap count) := by
  refine bind .pop ?_
  intro keys
  split
  · dsimp only
    split
    · exact bind (.failShowing _ _) fun _ => bind (.popN count) fun _ => pushDict _
    · exact bind (.popN count) fun _ => pushDict _
  · exact failShowing _ _

theorem listAppend : Local Vm.listAppend := by
  refine bind .pop fun v => bind .peek fun target => ?_
  split
  · exact bind .heap fun h => of_next (.setHeap _)
  · exact bind .heap fun h => fail _

theorem unpackSequence (count : Nat) : Local (Vm.unpackSequence count) := by
  refine bind .pop fun v => bind .heap fun h => ?_
  split
  · exact raise _ _
  · next items hitems =>
    have hpush : Local (do
        modifyFrame fun f => { f with stack := items ++ f.stack }
        return Control.next) :=
      of_next (.modifyFrame _)
    dsimp only
    split
    · refine bind (.raise _ _) fun _ => ?_
      split
      · exact bind (.raise _ _) fun _ => hpush
      · exact hpush
    · split
      · exact bind (.raise _ _) fun _ => hpush
      · exact hpush

theorem makeFunction (flags : FunctionFlags) : Local (Vm.makeFunction flags) := by
  have hmake (name : String) (unit : CodeUnit) : Local (do
      let defaults ← Vm.functionDefaults unit flags.hasDefaults
      push (.function (← onHeap fun h => h.newFunction { name, unit, defaults }))
      return .next) :=
    bind (.functionDefaults unit _) fun defaults => bind (.onHeap _) fun r => of_next (.push _)
  refine bind .pop ?_
  intro v
  split
  · refine bind (.pure _) fun name => bind .pop fun code => ?_
    split
    · exact bind (.pure _) fun unit => hmake name unit
    · exact bind (.failShowing _ _) fun unit => hmake name unit
  · refine bind (.failShowing _ _) fun name => bind .pop fun code => ?_
    split
    · exact bind (.pure _) fun unit => hmake name unit
    · exact bind (.failShowing _ _) fun unit => hmake name unit

/-! ## Raising -/

theorem raiseValue (exception : Value) (cause : Option Value) :
    Local (Vm.raiseValue exception cause) := by
  unfold Vm.raiseValue
  split
  · exact call rfl
  · exact raiseWithCause exception cause

theorem runRaise (count : Nat) : Local (vm.runRaise count) := by
  unfold Vm.runRaise
  split
  · refine bind .context ?_
    intro c
    split
    · exact raiseFault _
    · exact raise _ _
  · exact bind .pop fun v => raiseValue v none
  · exact bind .pop fun cause => bind .pop fun v => raiseValue v (some cause)
  · exact fail _

theorem loadAssertionError : Local vm.loadAssertionError :=
  bind .context fun _ => bind (.ofExcept _) fun _ => of_next (.push _)

/-! ## Operators -/

theorem callHook (hook : Value) (args : List Value) {delivery : Delivery}
    (h : delivery.loopExit? = none) :
    Local (Pure.pure (TaskletMachine.callHook hook args delivery)) :=
  call h

theorem pushResult (result : Except Error Value) : Local (TaskletMachine.pushResult result) :=
  bind (.ofExcept _) fun v => of_next (.push v)

theorem pushMade (result : Except Error (Value × Heap)) : Local (TaskletMachine.pushMade result) :=
  bind (.ofExcept _) fun _ => bind (.setHeap _) fun _ => of_next (.push _)

theorem pushTruth (result : Except Error Bool) : Local (TaskletMachine.pushTruth result) :=
  pushResult _

theorem runUnary (op : UnaryOp) : Local (TaskletMachine.runUnary op) := by
  refine bind .pop fun v => bind .heap fun h => ?_
  split
  · exact callHook _ _ rfl
  · exact pushResult _

theorem runBinaryHook (op : BinaryOp) (inPlace : Bool) (a b : Value) :
    Local (TaskletMachine.runBinaryHook op inPlace a b) := by
  refine bind .heap ?_
  intro h
  split
  · exact callHook _ _ rfl
  · exact throw _

theorem runBinary (op : BinaryOp) (inPlace : Bool) : Local (TaskletMachine.runBinary op inPlace) := by
  refine bind .pop fun b => bind .pop fun a => bind .heap fun h => ?_
  split
  · exact pushMade _
  · split
    · exact pushMade _
    · exact runBinaryHook op inPlace a b
  · split
    · exact pushMade _
    · exact throw _
  · exact runBinaryHook op inPlace a b

theorem runMembership (op : CompareOp) (hookName : String) (a b : Value) :
    Local (TaskletMachine.runMembership op hookName a b) := by
  refine bind .heap ?_
  intro h
  split
  · exact callHook _ _ rfl
  · exact pushTruth _

theorem runComparison (op : CompareOp) (hookName : String) (a b : Value) :
    Local (TaskletMachine.runComparison op hookName a b) := by
  refine bind .heap ?_
  intro h
  split
  · split
    · exact callHook _ _ rfl
    · exact pushTruth _
  · exact pushTruth _

theorem runCompare (op : CompareOp) : Local (TaskletMachine.runCompare op) := by
  refine bind .pop fun b => bind .pop fun a => ?_
  split
  · exact runMembership _ _ a b
  · exact runMembership _ _ a b
  · exact runComparison _ _ a b
  · exact bind .heap fun h => pushTruth _

theorem runSubscript : Local TaskletMachine.runSubscript := by
  refine bind .pop fun index => bind .pop fun container => bind .heap fun h => ?_
  split
  · exact callHook _ _ rfl
  · exact pushResult _

theorem runStoreSubscript : Local TaskletMachine.runStoreSubscript := by
  refine bind .pop fun index => bind .pop fun container => bind .pop fun v => bind .heap fun h => ?_
  split
  · exact callHook _ _ rfl
  · exact bind (.ofExcept _) fun h => of_next (.setHeap h)

theorem runDeleteSubscript : Local TaskletMachine.runDeleteSubscript := by
  refine bind .pop fun index => bind .pop fun container => bind .heap fun h => ?_
  split
  · exact callHook _ _ rfl
  · exact bind (.ofExcept _) fun h => of_next (.setHeap h)

theorem runGetIter : Local TaskletMachine.runGetIter := by
  refine bind .pop fun v => bind .heap fun h => ?_
  split
  · exact callHook _ _ rfl
  · split
    · exact bind (.setHeap _) fun _ => of_next (.push _)
    · exact raise _ _

/-! ## Blocks, calls and returns -/

theorem malformed (message : String) : Local (Vm.malformed message) :=
  throw _

theorem enterBlock (kind : BlockKind) (handler : Nat) : Local (Vm.enterBlock kind handler) :=
  of_next (.modifyFrame _)

theorem popBlock : Local Vm.popBlock := by
  refine bind .frame ?_
  intro f
  split
  · exact of_next (.modifyFrame _)
  · exact malformed _

theorem breakLoop : Local Vm.breakLoop := by
  refine bind .frame ?_
  intro f
  dsimp only
  refine bind (.modifyFrame _) fun _ => ?_
  split
  · exact next
  · exact malformed _

theorem continueLoop (target : Nat) : Local (Vm.continueLoop target) := by
  refine bind .frame ?_
  intro f
  split
  · exact of_next (.modifyFrame _)
  · exact malformed _

theorem endFinally : Local vm.endFinally := by
  refine bind .frame ?_
  intro f
  split
  · exact next
  · exact of_next (.modifyFrame _)
  · exact bind (.modifyFrame _) fun _ => raiseFault _

theorem startCall (callee : Value) (args : List Value) (keywords : Namespace) :
    Local (Pure.pure (Vm.startCall callee args keywords)) :=
  call rfl

theorem plainCall (count : Nat) : Local (Vm.call count) :=
  bind (.popN count) fun args => bind .pop fun callee => startCall callee args []

theorem callWithKeywords (count : Nat) : Local (Vm.callWithKeywords count) := by
  refine bind .pop ?_
  intro names
  split
  · have hrest (named : Nat) (names : List Value) : Local (do
        let values ← popN named
        let keywords ← Vm.pairKeywords names values []
        let args ← popN (count - named)
        return Vm.startCall (← pop) args keywords) :=
      bind (.popN _) fun values => bind (.pairKeywords _ _ _) fun keywords =>
        bind (.popN _) fun args => bind .pop fun callee => startCall callee args keywords
    dsimp only
    split
    · exact bind (.fail _) fun _ => hrest _ _
    · exact hrest _ _
  · exact failShowing _ _

theorem buildClass : Local vm.buildClass :=
  bind .popBases fun _ => bind .popClassName fun _ => bind .popClassBody fun _ =>
    bind .checkDepth fun _ => of_next (.enter _)

theorem returnFrom (v : Value) : Local (TaskletMachine.returnFrom v) := by
  refine ⟨.returnFrom v, ?_⟩
  intro m c m' hcall
  cases EndsIn.returnFrom v m (.call c) m' hcall

theorem returnValue : Local Vm.returnValue := by
  refine bind .pop fun v => bind .context fun c => ?_
  split
  · exact bind (.modifyContext _) fun _ => finished
  · exact returnFrom v

theorem endOfUnit : Local Vm.endOfUnit := by
  refine bind .context ?_
  intro c
  split
  · split
    · exact finished
    · exact fail _
  · exact returnFrom .none

end Local

/-! ## The next value of a loop -/

theorem HeapOnly.runForIter (exit : Nat) : HeapOnly (TaskletMachine.runForIter exit) := by
  refine bind .peek ?_
  intro v
  split
  · refine bind (.onHeap _) ?_
    intro next?
    split
    · exact bind (.push _) fun _ => pure _
    · exact endLoop exit
  · refine bind .heap ?_
    intro h
    split
    · exact pure _
    · exact raise _ _

theorem peek_eq_ok {m m' : Machine} {v : Value} (h : peek m = .ok v m') :
    m' = m ∧ ∃ f callers stack, m.context.frames = f :: callers ∧ f.stack = v :: stack := by
  unfold peek at h
  cases hm : m.context.frames with
  | nil =>
    rw [bind_error (frame_nil hm)] at h
    cases h
  | cons f callers =>
    rw [bind_ok (frame_cons hm)] at h
    cases hf : f.stack with
    | nil =>
      rw [hf] at h
      cases h
    | cons v stack =>
      rw [hf] at h
      cases h
      exact ⟨rfl, f, callers, stack, rfl, hf⟩

/-- The loop that asks for its next value keeps its iterator on the stack. -/
theorem calls_runForIter {exit : Nat} {m m' : Machine} {c : PendingCall}
    (h : runForIter exit m = .ok (.call c) m') :
    c.delivery = .iteration exit ∧ m' = m ∧
      ∃ f callers v stack, m.context.frames = f :: callers ∧ f.stack = v :: stack := by
  unfold runForIter at h
  cases hpeek : peek m with
  | error e m₁ =>
    rw [bind_error hpeek] at h
    cases h
  | ok v m₁ =>
    obtain ⟨rfl, f, callers, stack, hm, hf⟩ := peek_eq_ok hpeek
    rw [bind_ok hpeek] at h
    by_cases hnative : ∃ r, v = .iterator r
    · obtain ⟨r, rfl⟩ := hnative
      cases EndsIn.advance r exit m₁ (.call c) m' h
    · have hrest : (do
          let h ← heap
          match h.hook? v "__next__" with
          | some hook => return callHook hook [] (.iteration exit)
          | none => raise .typeError ("'" ++ h.typeName v ++ "' object is not an iterator") :
          Exec Control) m₁ = .ok (.call c) m' := by
        rw [← h]
        cases v with
        | iterator r => exact absurd ⟨r, rfl⟩ hnative
        | _ => rfl
      rw [bind_ok (rfl : Exec.heap m₁ = .ok m₁.world.heap m₁)] at hrest
      cases hhook : m₁.world.heap.hook? v "__next__" with
      | none =>
        rw [hhook] at hrest
        cases hrest
      | some hook =>
        rw [hhook] at hrest
        cases hrest
        exact ⟨rfl, rfl, f, callers, v, stack, hm, hf⟩

/-! ## All instructions -/

end Exec

namespace Vm

variable {vm : Vm}

/-- All instructions but two are local. -/
theorem local_execute {i : Instruction} (hwait : i ≠ .wait) (hloop : ∀ exit, i ≠ .forIter exit) :
    Local (vm.execute i) := by
  cases i with
  | wait => exact absurd rfl hwait
  | forIter exit => exact absurd rfl (hloop exit)
  | invalid flaw => exact .malformed _
  | popTop => exact .bind .pop fun _ => .next
  | rotTwo => exact .rotateTwo
  | rotThree => exact .rotateThree
  | dupTop => exact .duplicateTop
  | nop => exact .next
  | unary op => exact .runUnary op
  | binary op inPlace => exact .runBinary op inPlace
  | listAppend => exact .listAppend
  | subscript => exact .runSubscript
  | storeSubscript => exact .runStoreSubscript
  | deleteSubscript => exact .runDeleteSubscript
  | getIter => exact .runGetIter
  | loadAssertionError => exact .loadAssertionError
  | breakLoop => exact .breakLoop
  | returnValue => exact .returnValue
  | importStar => exact .importStar
  | popBlock => exact .popBlock
  | endFinally => exact .endFinally
  | buildClass => exact .buildClass
  | storeName index => exact .storeName index
  | deleteName index => exact .deleteName index
  | unpackSequence count => exact .unpackSequence count
  | storeAttr index => exact .storeAttr index
  | storeGlobal index => exact .storeGlobal index
  | loadConst index => exact .loadConst index
  | loadName index => exact .loadName index
  | buildTuple count => exact .buildTuple count
  | buildList count => exact .buildList count
  | buildMap count => exact .buildMap count
  | loadAttr index => exact .loadAttr index
  | compare op => exact .runCompare op
  | importName index => exact .importName index
  | importFrom index => exact .importFrom index
  | jump target => exact .of_next (.jump target)
  | jumpIf target wanted condition => exact .jumpIf target wanted condition
  | loadGlobal index => exact .loadGlobal index
  | continueLoop target => exact .continueLoop target
  | setupLoop exit => exact .enterBlock .loop exit
  | setupExcept handler => exact .enterBlock .exceptGuard handler
  | setupFinally handler => exact .enterBlock .finallyGuard handler
  | loadFast index => exact .loadFast index
  | storeFast index => exact .storeFast index
  | deleteFast index => exact .deleteFast index
  | raise count => exact .runRaise count
  | call count => exact .plainCall count
  | callWithKeywords count => exact .callWithKeywords count
  | makeFunction flags => exact .makeFunction flags
  | buildConstKeyMap count => exact .buildConstKeyMap count

/-- Every instruction but the one that waits sees nothing of the world but the heap. -/
theorem heapOnly_execute {i : Instruction} (hwait : i ≠ .wait) : HeapOnly (vm.execute i) := by
  by_cases hloop : ∃ exit, i = .forIter exit
  · obtain ⟨exit, rfl⟩ := hloop
    exact .runForIter exit
  · exact (local_execute hwait fun exit h => hloop ⟨exit, h⟩).heapOnly

/-- A call whose result a loop waits for is started by the instruction that asks for the next value
of an iterator, which is on top of the stack. -/
theorem calls_execute {i : Instruction} {m m' : Machine} {c : PendingCall} {exit : Nat}
    (h : vm.execute i m = .ok (.call c) m') (hexit : c.delivery.loopExit? = some exit) :
    i = .forIter exit ∧ c.delivery = .iteration exit ∧ m' = m ∧
      ∃ f callers v stack, m.context.frames = f :: callers ∧ f.stack = v :: stack := by
  by_cases hwait : i = .wait
  · subst hwait
    cases h
  · by_cases hloop : ∃ exit, i = .forIter exit
    · obtain ⟨exit', rfl⟩ := hloop
      obtain ⟨hdelivery, hrest⟩ := calls_runForIter h
      rw [hdelivery] at hexit
      cases hexit
      exact ⟨rfl, hdelivery, hrest⟩
    · have hnone := (local_execute hwait fun exit h => hloop ⟨exit, h⟩).calls h
      cases hexit.symm.trans hnone

end Vm

end TaskletMachine
