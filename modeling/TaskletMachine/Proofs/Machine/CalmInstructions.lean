import TaskletMachine.Proofs.Machine.Calm

/-!
# Calm instructions

All instructions but those that raise a fault themselves are calm: ending a cleanup body raises the
fault that the body has kept, and raising without a value raises what was caught last. The links of
calls are calm too.

## Main definitions

* `Vm.calm_execute`: the calm instructions.
* `Vm.calm_follow`: the links of calls.
-/
namespace TaskletMachine

open Exec

namespace Exec.Calm

variable {α : Type} {host : Host} {W : World → World → Prop}

/-! ## Changes of the world -/

theorem ofEffect {effect : Effect α} (h : Keeps W effect) : Calm W (Exec.ofEffect effect) := by
  intro m
  have hw := h m.world
  unfold KeepsAt at hw
  unfold KeepsAt Exec.ofEffect
  cases heffect : effect m.world <;> rw [heffect] at hw <;> exact ⟨.refl m.context, hw⟩

theorem parkTasklet (hW : World.Admits host W) : Calm W TaskletMachine.parkTasklet :=
  fun m => ⟨.refl m.context, hW.park m.world _⟩

theorem waitFor (hW : World.Admits host W) (p : PromiseId) (d : Delivery) :
    Calm W (TaskletMachine.waitFor p d) :=
  fun m => ⟨.refl m.context, hW.wait m.world p _⟩

variable [IsPreorder World W]

/-! ## The stack -/

/-- A computation after which the next instruction follows. -/
theorem next {x : Exec α} (hx : Calm W x) : Calm W (x >>= fun _ => Pure.pure Control.next) :=
  bind hx fun _ => pure _

theorem rotateTwo : Calm W Vm.rotateTwo :=
  bind pop fun a => bind pop fun b => bind (push a) fun _ => next (push b)

theorem rotateThree : Calm W Vm.rotateThree :=
  bind pop fun a => bind pop fun b => bind pop fun c =>
    bind (push a) fun _ => bind (push c) fun _ => next (push b)

theorem duplicateTop : Calm W Vm.duplicateTop :=
  bind peek fun v => next (push v)

theorem loadConst (hW : World.Admits host W) (index : Nat) : Calm W (Vm.loadConst index) := by
  refine bind frame fun f => ?_
  split
  · exact bind (onHeap hW fun h => .ofConstant h _) fun v => next (push v)
  · exact throw _

theorem jumpIf (target : Nat) (wanted : Bool) (condition : JumpCondition) :
    Calm W (Vm.jumpIf target wanted condition) := by
  have hjump (v : Value) : Calm W (do
      if (← Exec.heap).isTruthy v == wanted then Exec.jump target
      else if condition = .popUnlessJumping then let _ ← Exec.pop
      return Control.next) := by
    refine bind heap fun h => ?_
    split
    · exact next (jump target)
    · dsimp only
      split
      · exact bind pop fun _ => pure _
      · exact pure _
  by_cases hpop : condition = .pop
  · simp only [Vm.jumpIf, if_pos hpop]
    exact bind pop hjump
  · simp only [Vm.jumpIf, if_neg hpop]
    exact bind peek hjump

/-! ## Names -/

theorem pushNamed (name : String) (value : Option Value) : Calm W (Vm.pushNamed name value) := by
  unfold Vm.pushNamed
  split
  · exact next (push _)
  · exact throw _

theorem loadName (index : Nat) : Calm W (Vm.loadName index) :=
  bind (name index) fun s => bind context fun _ => pushNamed s _

theorem loadGlobal (index : Nat) : Calm W (Vm.loadGlobal index) :=
  bind (name index) fun s => bind context fun _ => pushNamed s _

theorem storeName (index : Nat) : Calm W (Vm.storeName index) := by
  refine bind (name index) fun s => bind pop fun v => withContext fun m => ?_
  cases hc : m.context.storeName? s v with
  | some c => exact ⟨.storeName? hc, refl_of W m.world⟩
  | none => exact refl_of (Machine.Calm W) m

theorem storeGlobal (index : Nat) : Calm W (Vm.storeGlobal index) :=
  bind (name index) fun s => bind pop fun v => next (modifyContext fun c => .setGlobal c s v)

theorem deleteName (index : Nat) : Calm W (Vm.deleteName index) := by
  refine bind (name index) fun s => withFrame fun m f callers hm => ?_
  cases hf : f.removeLocal? s with
  | none => exact .throw _
  | some g =>
    exact .bind (.replace hm fun _ hg => Frame.Carries.of_outline (Frame.outline_removeLocal? hf) hg)
      fun _ _ _ => .pure _

theorem loadFast (index : Nat) : Calm W (Vm.loadFast index) := by
  refine bind (slot index) fun (s, v) => bind frame fun f => ?_
  split
  · exact next (push _)
  · exact throw _

theorem storeFast (index : Nat) : Calm W (Vm.storeFast index) := by
  refine bind pop fun v => bind frame fun f => ?_
  dsimp only
  split
  · exact next (modifyFrame fun _ _ => id)
  · exact throw _

theorem deleteFast (index : Nat) : Calm W (Vm.deleteFast index) := by
  refine bind (slot index) fun (s, v) => bind frame fun f => ?_
  split
  · exact next (modifyFrame fun _ _ => id)
  · split
    · exact next (modifyFrame fun _ _ => id)
    · exact throw _

/-! ## Attributes and modules -/

theorem loadAttr (vm : Vm) (index : Nat) : Calm W (vm.loadAttr index) :=
  bind (name index) fun _ => bind pop fun _ => bind heap fun _ =>
    bind (ofExcept _) fun v => next (push v)

theorem storeAttr (hW : World.Admits host W) (index : Nat) : Calm W (Vm.storeAttr index) :=
  bind (name index) fun s => bind pop fun owner => bind pop fun v => withHeap fun _ =>
    .ofExcept (.setAttr _ owner s v) fun _ hh => .bind (.setHeap hW hh) fun _ _ _ => Keeps.pure _ _

theorem importModule (name : String) : Calm W (Vm.importModule name) := by
  refine bind context fun c => ?_
  split
  · exact pure _
  · exact bind (modifyContext fun c => ⟨rfl, rfl, rfl, fun _ _ => id⟩) fun _ => pure _
  · exact raise _ _

theorem importName (index : Nat) : Calm W (Vm.importName index) :=
  bind (name index) fun s => bind pop fun _ => bind pop fun _ =>
    bind (importModule s) fun v => next (push v)

theorem importFrom (vm : Vm) (index : Nat) : Calm W (vm.importFrom index) := by
  refine bind (name index) fun s => bind peek fun v => bind heap fun h => ?_
  split
  · dsimp only
    split
    · exact next (push _)
    · exact raise _ _
  · exact bind (ofExcept _) fun v => next (push v)

theorem importStar : Calm W Vm.importStar := by
  refine bind pop fun v => ?_
  split
  · next r =>
    exact bind heap fun h => next (modifyFrame fun f _ hg =>
      Frame.Carries.of_outline (Frame.outline_foldl_setLocal _ f) hg)
  · exact bind heap fun h => fail _

/-! ## Making values -/

theorem buildTuple (hW : World.Admits host W) (count : Nat) : Calm W (Vm.buildTuple count) :=
  bind (popN count) fun _ => bind (onHeap hW fun _ => .of_tables rfl rfl) fun v => next (push v)

theorem buildList (hW : World.Admits host W) (count : Nat) : Calm W (Vm.buildList count) :=
  bind (popN count) fun _ => bind (onHeap hW fun _ => .of_tables rfl rfl) fun _ => next (push _)

theorem insertAll (pairs : List (Value × Value)) (entries : Entries Value Value) :
    Calm W (Vm.insertAll pairs entries) := by
  induction pairs generalizing entries with
  | nil => exact pure entries
  | cons pair rest ih => exact bind heap fun h => bind (ofExcept _) fun key => ih _

theorem pushDict (hW : World.Admits host W) (pairs : List (Value × Value)) :
    Calm W (Vm.pushDict pairs) :=
  bind (insertAll pairs []) fun _ => bind (onHeap hW fun _ => .of_tables rfl rfl) fun _ =>
    next (push _)

theorem buildMap (hW : World.Admits host W) (count : Nat) : Calm W (Vm.buildMap count) :=
  bind (popN _) fun _ => pushDict hW _

theorem buildConstKeyMap (hW : World.Admits host W) (count : Nat) :
    Calm W (Vm.buildConstKeyMap count) := by
  refine bind pop fun keys => ?_
  split
  · dsimp only
    split
    · exact bind (failShowing _ _) fun _ => bind (popN count) fun _ => pushDict hW _
    · exact bind (popN count) fun _ => pushDict hW _
  · exact failShowing _ _

theorem listAppend (hW : World.Admits host W) : Calm W Vm.listAppend := by
  refine bind pop fun v => bind peek fun target => ?_
  split
  · exact withHeap fun _ => .bind (.setHeap hW (.of_tables rfl rfl)) fun _ _ _ => Keeps.pure _ _
  · exact bind heap fun h => fail _

theorem unpackSequence (count : Nat) : Calm W (Vm.unpackSequence count) := by
  refine bind pop fun v => bind heap fun h => ?_
  split
  · exact raise _ _
  · next items _ =>
    have hpush : Calm W (do
        Exec.modifyFrame fun f => { f with stack := items ++ f.stack }
        return Control.next) :=
      next (modifyFrame fun _ _ => id)
    have hfew : Calm W (do
        if items.length < count then
          Exec.raise .valueError
            (s!"not enough values to unpack (expected {count}, got {items.length})")
        Exec.modifyFrame fun f => { f with stack := items ++ f.stack }
        return Control.next) := by
      dsimp only
      split
      · exact bind (raise _ _) fun _ => hpush
      · exact hpush
    dsimp only
    split
    · exact bind (raise _ _) fun _ => hfew
    · exact hfew

theorem functionDefaults (hW : World.Admits host W) (unit : CodeUnit) (onStack : Bool) :
    Calm W (Vm.functionDefaults unit onStack) := by
  unfold Vm.functionDefaults
  split
  · refine bind pop fun v => ?_
    split
    · exact pure _
    · exact failShowing _ _
  · exact onHeap hW fun h => .ofConstants h _

/-- The code of a new function is below its name, and its defaults are below the code. -/
theorem makeNamed (hW : World.Admits host W) (flags : FunctionFlags) (name : String) :
    Calm W (do
      let unit ←
        match (← Exec.pop) with
        | .code unit => Pure.pure unit
        | other => Exec.failShowing "MAKE_FUNCTION: expected code, found " other
      let defaults ← Vm.functionDefaults unit flags.hasDefaults
      Exec.push (.function (← Exec.onHeap fun h => h.newFunction { name, unit, defaults }))
      return Control.next) := by
  have hmake (unit : CodeUnit) : Calm W (do
      let defaults ← Vm.functionDefaults unit flags.hasDefaults
      Exec.push (.function (← Exec.onHeap fun h => h.newFunction { name, unit, defaults }))
      return Control.next) :=
    bind (functionDefaults hW unit _) fun _ => bind (onHeap hW fun _ => .of_tables rfl rfl) fun _ =>
      next (push _)
  refine bind pop fun v => ?_
  split
  · exact bind (pure _) fun unit => hmake unit
  · exact bind (failShowing _ _) fun unit => hmake unit

theorem makeFunction (hW : World.Admits host W) (flags : FunctionFlags) :
    Calm W (Vm.makeFunction flags) := by
  refine bind pop fun v => ?_
  split
  · exact bind (pure _) fun name => makeNamed hW flags name
  · exact bind (failShowing _ _) fun name => makeNamed hW flags name

/-! ## Raising errors -/

theorem raiseWithCause (hW : World.Admits host W) (exception : Value) (cause : Option Value) :
    Calm W (TaskletMachine.raiseWithCause exception cause : Exec α) := by
  unfold TaskletMachine.raiseWithCause
  split
  · exact withHeap fun m => .bind (.setHeap hW (.setInstanceAttr _ _ _ _)) fun _ _ _ => .throw _
  · exact bind (pure ()) fun _ => throw _

theorem raiseValue (hW : World.Admits host W) (exception : Value) (cause : Option Value) :
    Calm W (Vm.raiseValue exception cause) := by
  unfold Vm.raiseValue
  split
  · exact pure _
  · exact raiseWithCause hW exception cause

theorem runRaise (vm : Vm) (hW : World.Admits host W) {count : Nat} (h : count ≠ 0) :
    Calm W (vm.runRaise count) := by
  unfold Vm.runRaise
  split
  · exact absurd rfl h
  · exact bind pop fun v => raiseValue hW v none
  · exact bind pop fun cause => bind pop fun v => raiseValue hW v (some cause)
  · exact fail _

theorem loadAssertionError (vm : Vm) : Calm W vm.loadAssertionError :=
  bind context fun _ => bind (ofExcept _) fun _ => next (push _)

/-! ## Operators -/

theorem pushResult (result : Except Error Value) : Calm W (TaskletMachine.pushResult result) :=
  bind (ofExcept _) fun v => next (push v)

/-- The result of an operation on the heap as it is. -/
theorem pushMade (hW : World.Admits host W) {m : Machine} {result : Except Error (Value × Heap)}
    (h : m.world.heap.GrowsBy Prod.snd result) : CalmAt W (TaskletMachine.pushMade result) m :=
  .ofExcept h fun _ hh => .bind (.setHeap hW hh) fun _ m₁ _ => next (push _) m₁

theorem runUnary (op : UnaryOp) : Calm W (TaskletMachine.runUnary op) := by
  refine bind pop fun v => bind heap fun h => ?_
  split
  · exact pure _
  · exact pushResult _

theorem runBinaryHook (op : BinaryOp) (inPlace : Bool) (a b : Value) :
    Calm W (TaskletMachine.runBinaryHook op inPlace a b) := by
  refine bind heap fun h => ?_
  split
  · exact pure _
  · exact throw _

theorem runBinary (hW : World.Admits host W) (op : BinaryOp) (inPlace : Bool) :
    Calm W (TaskletMachine.runBinary op inPlace) := by
  refine bind pop fun b => bind pop fun a => withHeap fun m => ?_
  split
  · exact pushMade hW (.binary _ op a b)
  · split
    · exact pushMade hW (.binary _ op _ b)
    · exact runBinaryHook op inPlace a b m
  · split
    · exact pushMade hW (.binary _ op a _)
    · exact .throw _
  · exact runBinaryHook op inPlace a b m

theorem runMembership (op : CompareOp) (hookName : String) (a b : Value) :
    Calm W (TaskletMachine.runMembership op hookName a b) := by
  refine bind heap fun h => ?_
  split
  · exact pure _
  · exact pushResult _

theorem runComparison (op : CompareOp) (hookName : String) (a b : Value) :
    Calm W (TaskletMachine.runComparison op hookName a b) := by
  refine bind heap fun h => ?_
  split
  · split
    · exact pure _
    · exact pushResult _
  · exact pushResult _

theorem runCompare (op : CompareOp) : Calm W (TaskletMachine.runCompare op) := by
  refine bind pop fun b => bind pop fun a => ?_
  split
  · exact runMembership _ _ a b
  · exact runMembership _ _ a b
  · exact runComparison _ _ a b
  · exact bind heap fun h => pushResult _

theorem runSubscript : Calm W TaskletMachine.runSubscript := by
  refine bind pop fun index => bind pop fun container => bind heap fun h => ?_
  split
  · exact pure _
  · exact pushResult _

theorem runStoreSubscript (hW : World.Admits host W) : Calm W TaskletMachine.runStoreSubscript := by
  refine bind pop fun index => bind pop fun container => bind pop fun v => withHeap fun m => ?_
  split
  · exact .pure _
  · exact .ofExcept (.storeSubscript _ container index v) fun _ hh =>
      .bind (.setHeap hW hh) fun _ _ _ => .pure _

theorem runDeleteSubscript (hW : World.Admits host W) :
    Calm W TaskletMachine.runDeleteSubscript := by
  refine bind pop fun index => bind pop fun container => withHeap fun m => ?_
  split
  · exact .pure _
  · exact .ofExcept (.deleteSubscript _ container index) fun _ hh =>
      .bind (.setHeap hW hh) fun _ _ _ => .pure _

/-! ## Iteration -/

theorem runGetIter (hW : World.Admits host W) : Calm W TaskletMachine.runGetIter := by
  refine bind pop fun v => withHeap fun m => ?_
  split
  · exact .pure _
  · split
    · next hv =>
      exact .bind (.setHeap hW (.nativeIterator? hv)) fun _ m₁ _ => next (push _) m₁
    · exact .throw _

theorem endLoop (exit : Nat) : Calm W (Vm.endLoop exit) :=
  bind pop fun _ => next (jump exit)

theorem runForIter (hW : World.Admits host W) (exit : Nat) :
    Calm W (TaskletMachine.runForIter exit) := by
  refine bind peek fun v => ?_
  split
  · refine bind (onHeap hW fun h => .of_tables rfl rfl) fun next? => ?_
    split
    · exact next (push _)
    · exact endLoop exit
  · refine bind heap fun h => ?_
    split
    · exact pure _
    · exact raise _ _

/-! ## Blocks -/

theorem malformed (message : String) : Calm W (Vm.malformed message : Exec α) :=
  throw _

theorem enterBlock {kind : BlockKind} (hkind : ∀ fault, kind ≠ .finallyBody fault) (handler : Nat) :
    Calm W (Vm.enterBlock kind handler) := by
  refine next (modifyFrame ?_)
  rintro f fault ⟨b, hb, hfault⟩
  rcases List.mem_cons.1 hb with rfl | hb
  · exact absurd hfault (hkind fault)
  · exact ⟨b, hb, hfault⟩

theorem popBlock : Calm W Vm.popBlock := by
  refine withFrame fun m f callers hm => ?_
  unfold Frame.popBlock?
  cases hf : f.blocks with
  | nil => exact .throw _
  | cons b rest =>
    exact .bind (.replace hm fun _ => Frame.Carries.of_suffix (hf ▸ List.suffix_cons b rest))
      fun _ _ _ => .pure _

theorem breakLoop : Calm W Vm.breakLoop := by
  refine withFrame fun m f callers hm => ?_
  have hblocks : f.breakLoop.1.blocks <:+ f.blocks := by
    rcases (Frame.breakFrom_below f.blocks f rfl).2 with hnil | ⟨removed, b, hbelow⟩
    · rw [Frame.breakLoop, hnil]
      exact List.nil_suffix
    · exact ⟨removed ++ [b], by rw [hbelow.blocks, List.append_assoc]; rfl⟩
  refine .bind (.replace hm fun _ => Frame.Carries.of_suffix hblocks) fun _ _ _ => ?_
  split
  · exact .pure _
  · exact .throw _

theorem continueLoop (target : Nat) : Calm W (Vm.continueLoop target) := by
  refine withFrame fun m f callers hm => ?_
  cases hg : f.continueLoop? target with
  | none => exact .throw _
  | some g =>
    have hblocks : g.blocks <:+ f.blocks := by
      unfold Frame.continueLoop? at hg
      grind [List.dropWhile_suffix]
    exact .bind (.replace hm fun _ => Frame.Carries.of_suffix hblocks) fun _ _ _ => .pure _

/-! ## Calls -/

theorem call (count : Nat) : Calm W (Vm.call count) :=
  bind (popN count) fun _ => bind pop fun _ => pure _

theorem pairKeywords (names values : List Value) (keywords : Namespace) :
    Calm W (Vm.pairKeywords names values keywords) := by
  fun_induction Vm.pairKeywords names values keywords with
  | case1 name names v values keywords ih => exact ih
  | case2 other names v values => exact failShowing _ _
  | case3 => exact pure _

theorem callWithKeywords (count : Nat) : Calm W (Vm.callWithKeywords count) := by
  refine bind pop fun names => ?_
  split
  · have hrest (named : Nat) (names : List Value) : Calm W (do
        let values ← Exec.popN named
        let keywords ← Vm.pairKeywords names values []
        let args ← Exec.popN (count - named)
        return Vm.startCall (← Exec.pop) args keywords) :=
      bind (popN _) fun values => bind (pairKeywords _ _ _) fun keywords =>
        bind (popN _) fun args => bind pop fun callee => pure _
    dsimp only
    split
    · exact bind (fail _) fun _ => hrest _ _
    · exact hrest _ _
  · exact failShowing _ _

theorem basesOf (values : List Value) : Calm W (Vm.basesOf values) := by
  induction values with
  | nil => exact pure []
  | cons v rest ih =>
    cases v with
    | classObj _ => exact bind ih fun _ => pure _
    | _ => exact bind heap fun h => raise _ _

theorem popBases : Calm W Vm.popBases := by
  refine bind pop fun v => ?_
  split
  · exact basesOf _
  · exact failShowing _ _

theorem popClassName : Calm W Vm.popClassName := by
  refine bind pop fun v => ?_
  split
  · exact pure _
  · exact failShowing _ _

theorem popClassBody : Calm W Vm.popClassBody := by
  refine bind pop fun v => ?_
  split
  · exact bind heap fun h => pure _
  · exact failShowing _ _

theorem checkDepth (vm : Vm) : Calm W vm.checkDepth := by
  refine bind context fun c => ?_
  split
  · exact raise _ _
  · exact pure ()

theorem enter {f : Frame} (hf : f.blocks = []) : Calm W (Exec.enter f) :=
  modifyContext fun _ => .enter hf

theorem buildClass (vm : Vm) : Calm W vm.buildClass :=
  bind popBases fun _ => bind popClassName fun _ => bind popClassBody fun _ =>
    bind (checkDepth vm) fun _ => next (enter rfl)

/-! ## Results -/

theorem deliver (hW : World.Admits host W) (v : Value) (d : Delivery) :
    Calm W (TaskletMachine.deliver v d) := by
  induction d generalizing v with
  | push => exact push v
  | iteration exit => exact push v
  | discard => exact pure ()
  | truth negate => exact bind heap fun h => push _
  | replace other rest ih => exact ih other
  | raise cause => exact raiseWithCause hW v cause
  | finishClass name bases => exact fail _

theorem deliverFrom (hW : World.Admits host W) (f : Frame) (v : Value) :
    Calm W (TaskletMachine.deliverFrom f v) := by
  unfold TaskletMachine.deliverFrom
  split
  · exact bind (onHeap hW fun h => .newClass h _) fun _ => push _
  · exact deliver hW v _

theorem returnFrom (hW : World.Admits host W) (v : Value) :
    Calm W (TaskletMachine.returnFrom v) := by
  refine withContext fun m => ?_
  split
  · exact .throw _
  · next f callers hm =>
    have hdeliver : Calm W (do
        TaskletMachine.deliverFrom f v
        return Control.next) :=
      next (deliverFrom hW f v)
    refine .bind ?_ fun _ m₁ _ => ?_
    · exact .of_eq rfl ⟨.drop hm, refl_of W m.world⟩
    · dsimp only
      split
      · exact bind (fail _) (fun _ => hdeliver) m₁
      · exact hdeliver m₁

theorem returnValue (hW : World.Admits host W) : Calm W Vm.returnValue := by
  refine bind pop fun v => withContext fun m => ?_
  split
  · next root hm =>
    refine .bind (.of_eq rfl ⟨?_, refl_of W m.world⟩) fun _ _ _ => .pure _
    have hroot : m.context.Calm { m.context with frames :=
        [{ root with ip := root.unit.bytes.size, blocks := [], stack := [] }] } :=
      .replace hm fun _ ⟨_, hb, _⟩ => nomatch hb
    exact ⟨hroot.builtins, hroot.handled, hroot.fault, hroot.carries⟩
  · exact returnFrom hW v m

theorem endOfUnit (hW : World.Admits host W) : Calm W Vm.endOfUnit := by
  refine withContext fun m => ?_
  split
  · split
    · exact .pure _
    · exact .throw _
  · exact returnFrom hW .none m

/-! ## Waiting -/

theorem deliverSettled (hW : World.Admits host W) (s : Settlement) (d : Delivery) :
    Calm W (TaskletMachine.deliverSettled s d) := by
  unfold TaskletMachine.deliverSettled
  split
  · exact deliver hW _ d
  · exact deliver hW .none d
  · exact throw _

theorem awaitPromise (hW : World.Admits host W) (p : PromiseId) (d : Delivery) :
    Calm W (TaskletMachine.awaitPromise p d) := by
  refine bind (fun m => refl_of _ m) fun m₀ => ?_
  split
  · exact next (deliverSettled hW _ d)
  · exact bind (waitFor hW p d) fun _ => pure _

theorem complete (hW : World.Admits host W) (reply : Reply) (d : Delivery) :
    Calm W (Vm.complete reply d) := by
  unfold Vm.complete
  split
  · exact next (deliver hW _ d)
  · exact next (deliver hW .none d)
  · exact pure _
  · exact bind (deliver hW .none d) fun _ => parkTasklet hW
  · exact awaitPromise hW _ d

/-! ## Links of calls -/

theorem instantiate (hW : World.Admits host W) (r : ClassRef) (c : PendingCall) :
    Calm W (Vm.instantiate r c) := by
  refine bind (onHeap hW fun h => .newInstance h _) fun v => bind heap fun h => ?_
  split
  · exact pure _
  · have hdeliver : Calm W (do
        TaskletMachine.deliver (.instanceObj v) c.delivery
        return Control.next) :=
      next (deliver hW _ _)
    dsimp only
    split
    · exact bind (raise _ _) fun _ => hdeliver
    · exact hdeliver

theorem enterFunction (vm : Vm) (hW : World.Admits host W) (r : FunctionRef) (c : PendingCall) :
    Calm W (vm.enterFunction r c) := by
  refine bind (checkDepth vm) fun _ => withHeap fun m => ?_
  refine .ofExcept (.matchArguments _ _ _ _ _) fun a hh => .bind (.setHeap hW hh) fun _ m₁ _ => ?_
  cases hf : Vm.frameOf (m.world.heap.function r).unit a.1 c.delivery with
  | error e => exact .throw e
  | ok f => exact next (enter (Vm.frameOf_fresh hf).1) m₁

theorem link (vm : Vm) (hW : World.Admits vm.host W) (c : PendingCall) : Calm W (vm.link c) := by
  refine bind heap fun h => ?_
  split
  · exact enterFunction vm hW _ c
  · exact bind (ofEffect (hW.native _ _ _)) fun reply => complete hW reply _
  · exact pure _
  · exact instantiate hW _ c
  · split
    · exact pure _
    · exact throw _
  · exact bind (ofEffect (.callHost hW _ _ _)) fun reply => complete hW reply _
  · exact pure _
  · exact throw _

/-! ## Making exceptions -/

theorem makeInstance (hW : World.Admits host W) (r : ClassRef) (args : List Value) :
    Calm W (Vm.makeInstance r args) :=
  bind (onHeap hW fun h => .newInstance h _) fun _ =>
    bind (onHeap hW fun _ => .of_tables rfl rfl) fun _ =>
      withHeap fun _ => .bind (.setHeap hW (.setInstanceAttr _ _ _ _)) fun _ _ _ => .pure _

theorem makeException (vm : Vm) (hW : World.Admits host W) (kind : ExceptionKind)
    (message : String) : Calm W (vm.makeException kind message) :=
  bind context fun _ => bind (ofExcept _) fun _ => makeInstance hW _ _

theorem normalizeException (vm : Vm) (hW : World.Admits host W) (v : Value) :
    Calm W (vm.normalizeException v) := by
  refine bind context fun _ => bind (ofExcept _) fun base => bind heap fun h => ?_
  dsimp only
  split
  · split
    · exact pure _
    · exact makeException vm hW _ _
  · split
    · exact makeInstance hW _ _
    · exact makeException vm hW _ _
  · exact makeException vm hW _ _

end Exec.Calm

/-! ## All instructions -/

/-- The instructions that raise a fault that is kept already. -/
def Instruction.Reraises : Instruction → Prop
  | .endFinally | .raise 0 => True
  | _ => False

namespace Vm

variable {W : World → World → Prop} [IsPreorder World W] {vm : Vm}

/-- Every instruction is calm but the two that raise a fault that is kept already. -/
theorem calm_execute (hW : World.Admits vm.host W) {i : Instruction} (hi : ¬ i.Reraises) :
    Calm W (vm.execute i) := by
  cases i with
  | endFinally => exact absurd trivial hi
  | raise count => exact .runRaise vm hW fun hcount => hi (hcount ▸ trivial)
  | wait => exact .parkTasklet hW
  | forIter exit => exact .runForIter hW exit
  | invalid flaw => exact .malformed _
  | popTop => exact .bind .pop fun _ => .pure _
  | rotTwo => exact .rotateTwo
  | rotThree => exact .rotateThree
  | dupTop => exact .duplicateTop
  | nop => exact .pure _
  | unary op => exact .runUnary op
  | binary op inPlace => exact .runBinary hW op inPlace
  | listAppend => exact .listAppend hW
  | subscript => exact .runSubscript
  | storeSubscript => exact .runStoreSubscript hW
  | deleteSubscript => exact .runDeleteSubscript hW
  | getIter => exact .runGetIter hW
  | loadAssertionError => exact .loadAssertionError vm
  | breakLoop => exact .breakLoop
  | returnValue => exact .returnValue hW
  | importStar => exact .importStar
  | popBlock => exact .popBlock
  | buildClass => exact .buildClass vm
  | storeName index => exact .storeName index
  | deleteName index => exact .deleteName index
  | unpackSequence count => exact .unpackSequence count
  | storeAttr index => exact .storeAttr hW index
  | storeGlobal index => exact .storeGlobal index
  | loadConst index => exact .loadConst hW index
  | loadName index => exact .loadName index
  | buildTuple count => exact .buildTuple hW count
  | buildList count => exact .buildList hW count
  | buildMap count => exact .buildMap hW count
  | loadAttr index => exact .loadAttr vm index
  | compare op => exact .runCompare op
  | importName index => exact .importName index
  | importFrom index => exact .importFrom vm index
  | jump target => exact .next (.jump target)
  | jumpIf target wanted condition => exact .jumpIf target wanted condition
  | loadGlobal index => exact .loadGlobal index
  | continueLoop target => exact .continueLoop target
  | setupLoop exit => exact .enterBlock (fun _ => BlockKind.noConfusion) exit
  | setupExcept handler => exact .enterBlock (fun _ => BlockKind.noConfusion) handler
  | setupFinally handler => exact .enterBlock (fun _ => BlockKind.noConfusion) handler
  | loadFast index => exact .loadFast index
  | storeFast index => exact .storeFast index
  | deleteFast index => exact .deleteFast index
  | call count => exact .call count
  | callWithKeywords count => exact .callWithKeywords count
  | makeFunction flags => exact .makeFunction hW flags
  | buildConstKeyMap count => exact .buildConstKeyMap hW count

/-- A link of a call is calm, also if it ends the loop that waits for the result. -/
theorem calm_follow (hW : World.Admits vm.host W) (c : PendingCall) : Calm W (vm.follow c) := by
  intro m
  have hlink := Calm.link vm hW c m
  refine CalmAt.of_left ?_
  unfold follow
  cases h : vm.link c m with
  | ok control m₁ => exact hlink.of_ok h
  | error e m₁ =>
    have hm₁ := hlink.of_error h
    dsimp only
    split
    · split
      · exact trans_of _ hm₁ (CalmAt.left (Calm.endLoop _ m₁))
      · exact hm₁
    · exact hm₁

/-- The result of a promise is handed over calmly. -/
theorem calm_handOver (hW : World.Admits vm.host W) (s : Settlement) (d : Delivery) :
    Calm W (handOver s d) :=
  .next (.deliverSettled hW s d)

end Vm

end TaskletMachine
