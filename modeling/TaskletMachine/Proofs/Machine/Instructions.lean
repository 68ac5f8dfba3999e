import TaskletMachine.Proofs.Machine.Tame

/-!
# Steady instructions

Most instructions only work on the operand stack, the heap and the names; after them the run goes on
with the next instruction or with a call, or the tasklet waits. The others enter or leave blocks or
frames, or raise again, and are treated one by one elsewhere.

## Main definitions

* `Instruction.Common`: the instructions treated here.
-/
namespace TaskletMachine

theorem Harmless.builtinClass (vm : Vm) (c : Context) (name : String) :
    Harmless (vm.builtinClass c name) := by
  simp only [Vm.builtinClass]
  split
  · exact ok _
  · exact error fun h => absurd (Error.take_of_isInternal_fail h) (by simp)

theorem Harmless.frameOf (unit : CodeUnit) (bound : List Value) (delivery : Delivery) :
    Harmless (Vm.frameOf unit bound delivery) := by
  simp only [Vm.frameOf]
  split
  · refine error fun h => absurd (Error.take_of_isInternal_fail h) ?_
    simp [toString]
  · exact ok _

/-! ## Names in frames -/

@[simp, grind =] theorem Frame.outline_setLocal (f : Frame) (name : String) (v : Value) :
    (f.setLocal name v).outline = f.outline := by
  simp only [Frame.setLocal]
  split <;> rfl

@[simp, grind =] theorem Frame.standing_setLocal (f : Frame) (name : String) (v : Value) :
    (f.setLocal name v).standing = f.standing := by
  simp only [Frame.setLocal]
  split <;> rfl

theorem Frame.outline_removeLocal? {f g : Frame} {name : String} (h : f.removeLocal? name = some g) :
    g.outline = f.outline := by
  unfold Frame.removeLocal? at h
  grind

theorem Frame.outline_foldl_setLocal (attrs : Namespace) (f : Frame) :
    (attrs.foldl (fun f (name, v) => f.setLocal name v) f).outline = f.outline := by
  induction attrs generalizing f with
  | nil => rfl
  | cons attr rest ih => rw [List.foldl_cons, ih, Frame.outline_setLocal]

/-- Binding a name changes nothing but locals, whichever frames are concerned. -/
structure SameFrames (frames frames' : List Frame) : Prop where
  outlines : frames'.map Frame.outline = frames.map Frame.outline
  standings : frames'.map Frame.standing = frames.map Frame.standing

/-- So the operand stacks stay. -/
theorem SameFrames.operands {frames frames' : List Frame} (h : SameFrames frames frames') :
    frames'.map Frame.stack = frames.map Frame.stack := by
  have hstacks := congrArg (List.map fun standing => standing.2.2.2) h.standings
  rwa [List.map_map, List.map_map] at hstacks

theorem SameFrames.quiet {c : Context} {frames : List Frame} (h : SameFrames c.frames frames) :
    c.Quiet { c with frames } :=
  ⟨h.outlines, by rw [List.map_tail, List.map_tail, h.standings], rfl, rfl⟩

theorem SameFrames.length_eq {frames frames' : List Frame} (h : SameFrames frames frames') :
    frames'.length = frames.length := by
  have hlength := congrArg List.length h.outlines
  rwa [List.length_map, List.length_map] at hlength

theorem SameFrames.cons {f g : Frame} {frames frames' : List Frame} (hf : g.outline = f.outline)
    (hs : g.standing = f.standing) (h : SameFrames frames frames') :
    SameFrames (f :: frames) (g :: frames') :=
  ⟨by rw [List.map_cons, List.map_cons, hf, h.outlines],
    by rw [List.map_cons, List.map_cons, hs, h.standings]⟩

theorem Context.sameFrames_mapRoot (name : String) (v : Value) (frames : List Frame) :
    SameFrames frames (mapRoot (·.setLocal name v) frames) := by
  induction frames with
  | nil => exact ⟨rfl, rfl⟩
  | cons f rest ih =>
    cases rest with
    | nil => exact .cons (f.outline_setLocal name v) (f.standing_setLocal name v) ⟨rfl, rfl⟩
    | cons g rest => exact .cons rfl rfl ih

theorem Context.quiet_setGlobal (c : Context) (name : String) (v : Value) :
    c.Quiet (c.setGlobal name v) :=
  (sameFrames_mapRoot name v c.frames).quiet

theorem Context.sameFrames_storeInNearest? {name : String} {v : Value} {frames frames' : List Frame}
    (h : storeInNearest? name v frames = some frames') : SameFrames frames frames' := by
  induction frames generalizing frames' with
  | nil => cases h
  | cons f rest ih =>
    unfold storeInNearest? at h
    split at h
    · cases h
      exact .cons (f.outline_setLocal name v) (f.standing_setLocal name v) ⟨rfl, rfl⟩
    · obtain ⟨rest', hrest, rfl⟩ := Option.map_eq_some_iff.1 h
      exact .cons rfl rfl (ih hrest)

theorem Context.quiet_storeName? {c c' : Context} {name : String} {v : Value}
    (h : c.storeName? name v = some c') : c.Quiet c' := by
  unfold storeName? at h
  split at h
  · cases h
  · next f rest hc =>
    have hown := Context.Quiet.top hc (f.outline_setLocal name v)
    dsimp only at h
    split at h
    · cases h
      exact hown
    · split at h
      · next rest' hrest =>
        cases h
        refine SameFrames.quiet ?_
        rw [hc]
        exact .cons rfl rfl (sameFrames_storeInNearest? hrest)
      · cases h
        exact hown

theorem Context.storeName?_isSome {c : Context} (name : String) (v : Value) (h : c.frames ≠ []) :
    (c.storeName? name v).isSome := by
  unfold storeName?
  grind

namespace Exec

variable {α : Type} {vm : Vm}

/-! ## Failures -/

theorem Tame.failShowing {message : String} (v : Value)
    (h : ∀ shown, ¬ (Error.fail (message ++ shown)).IsInternal) :
    Tame vm (Exec.failShowing message v : Exec α) :=
  bind heap fun h' => throw (h (h'.repr v))

theorem Tame.importModule (name : String) : Tame vm (Vm.importModule name) := by
  refine bind .context ?_
  intro c
  split
  · exact .pure _
  · exact bind (.modifyContext fun _ => ⟨rfl, rfl, rfl, rfl⟩) fun _ => .pure _
  · exact .raise _ _

theorem Tame.insertAll (pairs : List (Value × Value)) (entries : Entries Value Value) :
    Tame vm (Vm.insertAll pairs entries) := by
  induction pairs generalizing entries with
  | nil => exact pure entries
  | cons pair rest ih =>
    exact bind .heap fun h => bind (.ofExcept (Harmless.key h pair.1)) fun key => ih _

theorem Tame.functionDefaults (unit : CodeUnit) (onStack : Bool) :
    Tame vm (Vm.functionDefaults unit onStack) := by
  simp only [Vm.functionDefaults]
  split
  · refine bind .pop ?_
    intro v
    split
    · exact .pure _
    · exact .failShowing _ fun _ h => absurd (Error.take_of_isInternal_fail h) (by simp)
  · exact .onHeap _

theorem Tame.pairKeywords (names values : List Value) (keywords : Namespace) :
    Tame vm (Vm.pairKeywords names values keywords) := by
  fun_induction Vm.pairKeywords names values keywords with
  | case1 name names v values keywords ih => exact ih
  | case2 other names v values =>
    exact .failShowing _ fun _ h => absurd (Error.take_of_isInternal_fail h) (by simp)
  | case3 => exact .pure _

namespace Steady

theorem fail {message : String} (h : ¬ (Error.fail message).IsInternal) :
    Steady vm (Exec.fail message : Exec Control) :=
  throw h

theorem failShowing {message : String} (v : Value)
    (h : ∀ shown, ¬ (Error.fail (message ++ shown)).IsInternal) :
    Steady vm (Exec.failShowing message v : Exec Control) :=
  bind .heap fun h' => throw (h (h'.repr v))

/-! ## The stack -/

@[grind .] theorem rotateTwo : Steady vm Vm.rotateTwo := by
  unfold Vm.rotateTwo
  grind

@[grind .] theorem rotateThree : Steady vm Vm.rotateThree := by
  unfold Vm.rotateThree
  grind

@[grind .] theorem duplicateTop : Steady vm Vm.duplicateTop := by
  unfold Vm.duplicateTop
  grind

@[grind .] theorem loadConst (index : Nat) : Steady vm (Vm.loadConst index) := by
  simp only [Vm.loadConst]
  have hmissing : ¬ ({ cause := .missingConstant index } : Error).IsInternal := id
  grind

@[grind .] theorem jumpIf (target : Nat) (wanted : Bool) (condition : JumpCondition) :
    Steady vm (Vm.jumpIf target wanted condition) := by
  unfold Vm.jumpIf
  grind

/-! ## Names -/

@[grind .] theorem pushNamed (name : String) (value : Option Value) :
    Steady vm (Vm.pushNamed name value) := by
  unfold Vm.pushNamed Error.undefinedName
  grind

@[grind .] theorem loadName (index : Nat) : Steady vm (Vm.loadName index) := by
  unfold Vm.loadName
  grind

@[grind .] theorem loadGlobal (index : Nat) : Steady vm (Vm.loadGlobal index) := by
  unfold Vm.loadGlobal
  grind

@[grind .] theorem storeName (index : Nat) : Steady vm (Vm.storeName index) := by
  refine bind (.name index) fun s => bind .pop ?_
  intro v m
  rw [bind_ok (rfl : Exec.context m = .ok m.context m)]
  cases hc : m.context.storeName? s v with
  | some c => exact ⟨Context.quiet_storeName? hc, .refl, trivial⟩
  | none =>
    refine ⟨.refl m, fun hne _ => ?_⟩
    have hsome := Context.storeName?_isSome s v hne
    rw [hc] at hsome
    cases hsome

@[grind .] theorem storeGlobal (index : Nat) : Steady vm (Vm.storeGlobal index) := by
  refine bind (.name index) fun s => bind .pop ?_
  intro v
  exact bind (.modifyContext fun c => c.quiet_setGlobal s v) fun _ => next

@[grind .] theorem deleteName (index : Nat) : Steady vm (Vm.deleteName index) := by
  refine bind (.name index) ?_
  intro s m
  cases hm : m.context.frames with
  | nil =>
    rw [bind_error (frame_nil hm)]
    exact ⟨.refl m, fun hne => absurd hm hne⟩
  | cons f callers =>
    rw [bind_ok (frame_cons hm)]
    cases hf : f.removeLocal? s with
    | none => exact ⟨.refl m, fun _ he => absurd he (Error.not_isInternal_raise _ _)⟩
    | some g =>
      dsimp only
      rw [bind_ok (modifyFrame_cons hm _)]
      exact ⟨.top hm (Frame.outline_removeLocal? hf), .refl, trivial⟩

@[grind .] theorem loadFast (index : Nat) : Steady vm (Vm.loadFast index) := by
  unfold Vm.loadFast Error.unboundLocal
  grind

@[grind .] theorem storeFast (index : Nat) : Steady vm (Vm.storeFast index) := by
  simp only [Vm.storeFast]
  have hmissing : ¬ ({ cause := .missingLocal index } : Error).IsInternal := id
  grind

@[grind .] theorem deleteFast (index : Nat) : Steady vm (Vm.deleteFast index) := by
  unfold Vm.deleteFast Error.unboundLocal
  grind

/-! ## Attributes and modules -/

@[grind .] theorem loadAttr (index : Nat) : Steady vm (vm.loadAttr index) := by
  simp only [Vm.loadAttr]
  have hattr := Harmless.getAttr vm.library
  grind

@[grind .] theorem storeAttr (index : Nat) : Steady vm (Vm.storeAttr index) := by
  simp only [Vm.storeAttr]
  have hattr := Harmless.setAttr
  grind

@[grind .] theorem importName (index : Nat) : Steady vm (Vm.importName index) := by
  refine bind (.name index) fun s => bind .pop fun _ => bind .pop ?_
  intro _
  exact bind (.importModule s) fun _ => bind (.push _) fun _ => next

@[grind .] theorem importFrom (index : Nat) : Steady vm (vm.importFrom index) := by
  refine bind (.name index) fun s => bind .peek fun v => bind .heap ?_
  intro h
  have hattr := Harmless.getAttr vm.library h v s
  split
  · grind
  · grind

@[grind .] theorem importStar : Steady vm Vm.importStar := by
  refine bind .pop ?_
  intro v
  split
  · refine bind .heap fun h => bind (.modifyFrame fun f => ?_) fun _ => next
    exact Frame.outline_foldl_setLocal _ f
  · exact bind .heap fun h => fail fun hfail => absurd (Error.take_of_isInternal_fail hfail) (by simp)

/-! ## Making values -/

@[grind .] theorem buildTuple (count : Nat) : Steady vm (Vm.buildTuple count) := by
  unfold Vm.buildTuple
  grind

@[grind .] theorem buildList (count : Nat) : Steady vm (Vm.buildList count) := by
  unfold Vm.buildList
  grind

@[grind .] theorem pushDict (pairs : List (Value × Value)) : Steady vm (Vm.pushDict pairs) := by
  refine bind (.insertAll pairs []) ?_
  intro entries
  exact bind (.onHeap _) fun _ => bind (.push _) fun _ => next

@[grind .] theorem buildMap (count : Nat) : Steady vm (Vm.buildMap count) :=
  bind (.popN _) fun _ => pushDict _

theorem not_isInternal_complaint (count : Nat) (shown : String) :
    ¬ (Error.fail (s!"BUILD_CONST_KEY_MAP: expected a tuple of {count} keys, found " ++
      shown)).IsInternal :=
  fun h => absurd (Error.take_of_isInternal_fail h) (by simp [toString])

@[grind .] theorem buildConstKeyMap (count : Nat) : Steady vm (Vm.buildConstKeyMap count) := by
  have hcomplaint := not_isInternal_complaint count
  refine bind .pop ?_
  intro keys
  split
  · dsimp only
    split
    · exact bind (.failShowing _ hcomplaint) fun _ => bind (.popN count) fun _ => pushDict _
    · exact bind (.popN count) fun _ => pushDict _
  · exact failShowing _ hcomplaint

@[grind .] theorem listAppend : Steady vm Vm.listAppend := by
  refine bind .pop fun v => bind .peek ?_
  intro target
  split
  · exact bind .heap fun h => bind (.setHeap _) fun _ => next
  · exact bind .heap fun h => fail fun hfail => absurd (Error.take_of_isInternal_fail hfail) (by simp)

@[grind .] theorem unpackSequence (count : Nat) : Steady vm (Vm.unpackSequence count) := by
  refine bind .pop fun v => bind .heap ?_
  intro h
  split
  · exact raise _ _
  · grind

@[grind .] theorem makeFunction (flags : FunctionFlags) : Steady vm (Vm.makeFunction flags) := by
  have hdefaults (unit : CodeUnit) : Tame vm (Vm.functionDefaults unit flags.hasDefaults) :=
    .functionDefaults unit _
  have hcode (v : Value) : Tame vm (Exec.failShowing
      "MAKE_FUNCTION: expected code, found " v : Exec CodeUnit) :=
    .failShowing v fun _ h => absurd (Error.take_of_isInternal_fail h) (by simp)
  refine bind .pop ?_
  intro v
  split
  · refine bind (.pure _) fun name => bind .pop ?_
    intro code
    grind
  · refine bind (.failShowing _ fun _ h => ?_) fun name => bind .pop fun code => ?_
    · exact absurd (Error.take_of_isInternal_fail h) (by simp)
    · grind

/-! ## Raising -/

@[grind .] theorem raiseWithCause (exception : Value) (cause : Option Value) :
    Steady vm (TaskletMachine.raiseWithCause exception cause) := by
  have hraised : ¬ ({ cause := .raised exception } : Error).IsInternal := id
  simp only [TaskletMachine.raiseWithCause]
  split
  · exact bind .heap fun h => bind (.setHeap _) fun _ => throw hraised
  · exact bind (.pure ()) fun _ => throw hraised

@[grind .] theorem raiseValue (exception : Value) (cause : Option Value) :
    Steady vm (Vm.raiseValue exception cause) := by
  simp only [Vm.raiseValue]
  split
  · exact call trivial
  · exact raiseWithCause exception cause

@[grind .] theorem loadAssertionError : Steady vm vm.loadAssertionError := by
  refine bind .context fun c => bind (.ofExcept (Harmless.builtinClass vm c _)) ?_
  intro r
  exact bind (.push _) fun _ => next

/-! ## Operators -/

@[grind .] theorem callHook (hook : Value) (args : List Value) {delivery : Delivery}
    (h : delivery.Plain) :
    Steady vm (Pure.pure (TaskletMachine.callHook hook args delivery)) :=
  call h

@[grind ←] theorem pushResult {result : Except Error Value} (h : Harmless result) :
    Steady vm (TaskletMachine.pushResult result) :=
  bind (.ofExcept h) fun _ => bind (.push _) fun _ => next

@[grind ←] theorem pushMade {result : Except Error (Value × Heap)} (h : Harmless result) :
    Steady vm (TaskletMachine.pushMade result) :=
  bind (.ofExcept h) fun _ => bind (.setHeap _) fun _ => bind (.push _) fun _ => next

@[grind ←] theorem pushTruth {result : Except Error Bool} (h : Harmless result) :
    Steady vm (TaskletMachine.pushTruth result) :=
  pushResult h.map

@[grind .] theorem runUnary (op : UnaryOp) : Steady vm (TaskletMachine.runUnary op) := by
  refine bind .pop fun v => bind .heap ?_
  intro h
  split
  · exact callHook _ _ trivial
  · exact pushResult (Harmless.unary h op _)

@[grind .] theorem runBinaryHook (op : BinaryOp) (inPlace : Bool) (a b : Value) :
    Steady vm (TaskletMachine.runBinaryHook op inPlace a b) := by
  refine bind .heap ?_
  intro h
  split
  · exact callHook _ _ trivial
  · exact throw (Error.not_isInternal_unsupported h op.symbol a b)

@[grind .] theorem runBinary (op : BinaryOp) (inPlace : Bool) :
    Steady vm (TaskletMachine.runBinary op inPlace) := by
  refine bind .pop fun b => bind .pop fun a => bind .heap ?_
  intro h
  have hbinary := Harmless.binary h op
  split
  · exact pushMade (hbinary a b)
  · split
    · exact pushMade (hbinary _ b)
    · exact runBinaryHook op inPlace a b
  · split
    · exact pushMade (hbinary a _)
    · exact throw (Error.not_isInternal_unsupported h op.symbol a b)
  · exact runBinaryHook op inPlace a b

@[grind .] theorem runMembership (op : CompareOp) (hookName : String) (a b : Value) :
    Steady vm (TaskletMachine.runMembership op hookName a b) := by
  refine bind .heap ?_
  intro h
  split
  · exact callHook _ _ trivial
  · exact pushTruth (Harmless.compare h op a _)

@[grind .] theorem runComparison (op : CompareOp) (hookName : String) (a b : Value) :
    Steady vm (TaskletMachine.runComparison op hookName a b) := by
  refine bind .heap ?_
  intro h
  split
  · split
    · exact callHook _ _ trivial
    · exact pushTruth (Harmless.compare h op _ b)
  · exact pushTruth (Harmless.compare h op a _)

@[grind .] theorem runCompare (op : CompareOp) : Steady vm (TaskletMachine.runCompare op) := by
  refine bind .pop fun b => bind .pop ?_
  intro a
  split
  · exact runMembership _ _ a b
  · exact runMembership _ _ a b
  · exact runComparison _ _ a b
  · exact bind .heap fun h => pushTruth (Harmless.compare h _ a b)

/-! ## Subscripts -/

@[grind .] theorem runSubscript : Steady vm TaskletMachine.runSubscript := by
  refine bind .pop fun index => bind .pop fun container => bind .heap ?_
  intro h
  split
  · exact callHook _ _ trivial
  · exact pushResult (Harmless.subscript h _ index)

@[grind .] theorem runStoreSubscript : Steady vm TaskletMachine.runStoreSubscript := by
  refine bind .pop fun index => bind .pop fun container => bind .pop fun v => bind .heap ?_
  intro h
  split
  · exact callHook _ _ trivial
  · refine bind (.ofExcept (Harmless.storeSubscript h container index v)) ?_
    intro h
    exact bind (.setHeap h) fun _ => next

@[grind .] theorem runDeleteSubscript : Steady vm TaskletMachine.runDeleteSubscript := by
  refine bind .pop fun index => bind .pop fun container => bind .heap ?_
  intro h
  split
  · exact callHook _ _ trivial
  · refine bind (.ofExcept (Harmless.deleteSubscript h container index)) ?_
    intro h
    exact bind (.setHeap h) fun _ => next

/-! ## Iteration -/

@[grind .] theorem runGetIter : Steady vm TaskletMachine.runGetIter := by
  refine bind .pop fun v => bind .heap ?_
  intro h
  split
  · exact callHook _ _ trivial
  · split
    · exact bind (.setHeap _) fun _ => bind (.push _) fun _ => next
    · exact raise _ _

@[grind .] theorem endLoop (exit : Nat) : Steady vm (Vm.endLoop exit) :=
  bind .pop fun _ => bind (.jump exit) fun _ => next

@[grind .] theorem runForIter (exit : Nat) : Steady vm (TaskletMachine.runForIter exit) := by
  refine bind .peek ?_
  intro v
  split
  · refine bind (.onHeap _) ?_
    intro next?
    split
    · exact bind (.push _) fun _ => next
    · exact endLoop exit
  · refine bind .heap ?_
    intro h
    split
    · exact callHook _ _ trivial
    · exact raise _ _

/-! ## Calls -/

@[grind .] theorem startCall (callee : Value) (args : List Value) (keywords : Namespace) :
    Steady vm (Pure.pure (Vm.startCall callee args keywords)) :=
  call trivial

@[grind .] theorem plainCall (count : Nat) : Steady vm (Vm.call count) :=
  bind (.popN count) fun args => bind .pop fun callee => startCall callee args []

@[grind .] theorem callWithKeywords (count : Nat) : Steady vm (Vm.callWithKeywords count) := by
  refine bind .pop ?_
  intro names
  split
  · have hrest (named : Nat) (names : List Value) : Steady vm (do
        let values ← popN named
        let keywords ← Vm.pairKeywords names values []
        let args ← popN (count - named)
        return Vm.startCall (← pop) args keywords) :=
      bind (.popN _) fun values => bind (.pairKeywords _ _ _) fun keywords =>
        bind (.popN _) fun args => bind .pop fun callee => startCall callee args keywords
    dsimp only
    split
    · refine bind (.throw fun h => ?_) fun _ => hrest _ _
      exact absurd (Error.take_of_isInternal_fail h) (by simp [toString])
    · exact hrest _ _
  · exact failShowing _ fun _ h => absurd (Error.take_of_isInternal_fail h) (by simp)

@[grind .] theorem parkTasklet : Steady vm TaskletMachine.parkTasklet :=
  fun m => ⟨.refl m.context, ⟨m.world, .refl, rfl⟩, trivial⟩

/-- Raising a value from the stack. -/
theorem runRaise {count : Nat} (h : count ≠ 0) : Steady vm (vm.runRaise count) := by
  simp only [Vm.runRaise]
  split
  · exact absurd rfl h
  · exact bind .pop fun v => raiseValue v none
  · exact bind .pop fun cause => bind .pop fun v => raiseValue v (some cause)
  · refine fail fun hfail => absurd (Error.take_of_isInternal_fail hfail) ?_
    simp [toString]

end Steady

end Exec

/-! ## All steady instructions -/

/-- Whether an instruction is a steady one: it neither enters nor leaves a block or a frame, nor
does it raise what was caught last. -/
def Instruction.Common : Instruction → Prop
  | breakLoop | returnValue | popBlock | endFinally | buildClass | continueLoop _ | setupLoop _
  | setupExcept _ | setupFinally _ => False
  | raise count => count ≠ 0
  | _ => True

open Exec in
theorem Vm.steady_execute (vm : Vm) {i : Instruction} (h : i.Common) : Steady vm (vm.execute i) := by
  cases i
  case invalid flaw => exact .throw (Error.not_isInternal_malformed _)
  case raise count => exact .runRaise h
  all_goals first | exact h.elim | grind [Vm.execute]

end TaskletMachine
