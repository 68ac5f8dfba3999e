import TaskletMachine.Proofs.Library.SpawnedCode
import TaskletMachine.Proofs.Machine.CallEndings

/-!
# Tasklets that make a call

A tasklet that guest code has asked for loads its callee and the arguments, calls, and completes with
what the call comes to. On the way it may be suspended as often as the callee likes, and after each
instruction in step mode.

## Main definitions

* `spawnedFrame`: the root frame before the call.
* `Vm.Onward`: what a tasklet goes through that a scheduler runs.
* `Vm.advance_load`, `Vm.advance_call`: the instructions before the call.
* `Vm.SpawnedLife`, `Vm.spawnedLife`: the stages of the tasklet, and how it ends.
-/
namespace TaskletMachine

open Exec

/-! ## Stages between suspensions -/

/-- What a tasklet goes through that a scheduler runs: the steps of a run, its resumptions, and what
becomes of the world in between. -/
inductive Vm.Onward (vm : Vm) : Progress → Progress → Prop
  | advance (phase : Phase) (m : Machine) : Onward vm (.running phase m) (vm.advance phase m)
  | resume (k : Continuation) (m : Machine) (hfatal : m.context.fatal = none)
      (hunhandled : m.context.isUnhandled = false) :
      Onward vm (.stopped (.suspended k) m) (vm.resumption k m)
  | outside (k : Continuation) (m : Machine) (world : World) :
      Onward vm (.stopped (.suspended k) m) (.stopped (.suspended k) { m with world })

theorem Vm.Onward.stage {vm : Vm} {p p' : Progress} (h : vm.Onward p p') : vm.Stage p p' := by
  cases h with
  | advance phase m => exact .advance phase m
  | resume k m hfatal hunhandled => exact .resume k m hfatal hunhandled
  | outside k m world => exact .outside k m world

/-- The next instruction comes, at once or when the tasklet is resumed. -/
inductive Progress.Fetching (m : Machine) : Progress → Prop
  | running : Fetching m (.running .fetch m)
  | suspended (k : Continuation) (hk : k = .start ∨ k = .resume) :
      Fetching m (.stopped (.suspended k) m)

/-! ## Before the call -/

/-- The root frame of the tasklet when it has loaded some of the values; its globals are given. -/
def spawnedFrame (globals : Namespace) (callee : Value) (args : List Value) (loaded : Nat) : Frame :=
  { Frame.start (spawnedUnit args.length) .push with
    ip := 3 * loaded
    instructionIp := 3 * (loaded - 1)
    stack := ((callee :: args).take loaded).reverse
    names := globals }

/-- The frame while the call lasts. -/
def spawnedCaller (globals : Namespace) (args : List Value) : Frame :=
  { Frame.start (spawnedUnit args.length) .push with
    ip := 3 * (args.length + 2)
    instructionIp := 3 * (args.length + 1)
    names := globals }

/-- The tasklet finds the callee and the arguments by their names. -/
def BindsCall (globals : Namespace) (callee : Value) (args : List Value) : Prop :=
  ∀ (k : Nat) name v, (spawnedNames args.length)[k]? = some name → (callee :: args)[k]? = some v →
    Names.find? globals name = some v

/-! ## Names -/

/-- Locals of a unit that declares none are kept by name. -/
theorem Frame.setLocal_of_undeclared {f : Frame} (h : f.unit.localNames = #[]) (name : String)
    (v : Value) : f.setLocal name v = { f with names := f.names.set name v } := by
  simp [Frame.setLocal, UnitOf.localIndex?, h]

theorem Frame.local?_of_undeclared {f : Frame} (h : f.unit.localNames = #[]) (name : String) :
    f.local? name = f.names.find? name := by
  simp [Frame.local?, Frame.slotOf?, UnitOf.localIndex?, h]

/-- The tasklet starts with its globals in the root frame. -/
theorem Context.start_spawnedUnit (callee : Value) (args : List Value) (builtins : Namespace)
    {globals : Namespace} (h : (globals.map Prod.fst).Nodup) :
    Context.start (spawnedUnit args.length) builtins globals =
      { frames := [spawnedFrame globals callee args 0], builtins } := by
  have hset (name : String) (v : Value) (bound : Namespace) :
      ({ frames := [spawnedFrame bound callee args 0], builtins } : Context).setGlobal name v =
        { frames := [spawnedFrame (bound.set name v) callee args 0], builtins } := by
    simp only [Context.setGlobal, Context.mapRoot]
    rw [Frame.setLocal_of_undeclared rfl]
    rfl
  have hall (bound more : Namespace) :
      more.foldl (fun c entry => c.setGlobal entry.1 entry.2)
          ({ frames := [spawnedFrame bound callee args 0], builtins } : Context) =
        { frames := [spawnedFrame (bound.setAll more) callee args 0], builtins } := by
    induction more generalizing bound with
    | nil => rfl
    | cons entry more ih =>
      simp only [List.foldl_cons, hset]
      exact ih (bound.set entry.1 entry.2)
  have hglobals : Names.setAll [] globals = globals := Names.setAll_eq_append h
  have hstart := hall [] globals
  rw [hglobals] at hstart
  exact hstart

section Loading

variable {vm : Vm} {globals : Namespace} {callee : Value} {args : List Value}

/-- The next value is loaded. -/
theorem Vm.advance_load (vm : Vm) (hbinds : BindsCall globals callee args)
    (hcount : args.length < Assembler.operandLimit) {loaded : Nat} (hloaded : loaded ≤ args.length)
    (c : Context) (w : World) :
    vm.advance .fetch ⟨{ c with frames := [spawnedFrame globals callee args loaded] }, w⟩ =
      vm.afterInstruction
        ⟨{ c with frames := [spawnedFrame globals callee args (loaded + 1)] }, w⟩ := by
  have hlt : loaded < (callee :: args).length := Nat.lt_succ_of_le hloaded
  have hlt' : loaded < (spawnedNames args.length).length := by
    rw [length_spawnedNames]
    exact Nat.lt_succ_of_le hloaded
  have hname : (spawnedUnit args.length).names[loaded]? =
      some (spawnedNames args.length)[loaded] := by
    rw [spawnedUnit, List.getElem?_toArray, List.getElem?_eq_getElem hlt']
  have hvalue : Names.find? globals (spawnedNames args.length)[loaded] =
      some (callee :: args)[loaded] :=
    hbinds loaded _ _ (List.getElem?_eq_getElem hlt') (List.getElem?_eq_getElem hlt)
  generalize (spawnedNames args.length)[loaded] = name at hname hvalue
  let f := (spawnedFrame globals callee args loaded).reading (3 * (loaded + 1))
  let m : Machine := ⟨{ c with frames := [f] }, w⟩
  have hread : Exec.name loaded m = .ok name m := by
    simp only [Exec.name]
    rw [bind_ok (frame_cons (f := f) rfl), show f.unit = spawnedUnit args.length from rfl, hname]
    rfl
  have hfound : m.context.loadName? name = some (callee :: args)[loaded] := by
    have hlocal : f.local? name = some (callee :: args)[loaded] :=
      (Frame.local?_of_undeclared (f := f) rfl name).trans hvalue
    simp [Context.loadName?, m, hlocal]
  have hpushed : { f with stack := (callee :: args)[loaded] :: f.stack } =
      spawnedFrame globals callee args (loaded + 1) := by
    have hstack : ((callee :: args).take (loaded + 1)).reverse =
        (callee :: args)[loaded] :: ((callee :: args).take loaded).reverse := by
      rw [List.take_succ_eq_append_getElem hlt, List.reverse_append]
      rfl
    rw [spawnedFrame, hstack]
    rfl
  have hrun : vm.perform .fetch
      ⟨{ c with frames := [spawnedFrame globals callee args loaded] }, w⟩ =
      .ok .next ⟨{ c with frames := [spawnedFrame globals callee args (loaded + 1)] }, w⟩ := by
    rw [perform_fetch vm rfl ((decodeAt_spawnedUnit hcount).1 loaded hloaded)]
    show Vm.loadName loaded m = _
    rw [Vm.loadName, bind_ok hread, bind_ok (rfl : Exec.context m = .ok m.context m), hfound,
      Vm.pushNamed, bind_ok (push_cons (f := f) rfl _), hpushed]
    rfl
  exact conclude_ok vm hrun

/-- After the last value the callee is called with the arguments. -/
theorem Vm.advance_call (vm : Vm) (hcount : args.length < Assembler.operandLimit) (c : Context)
    (w : World) :
    vm.advance .fetch
        ⟨{ c with frames := [spawnedFrame globals callee args (args.length + 1)] }, w⟩ =
      .running (.link { callee, args, delivery := .push })
        ⟨{ c with frames := [spawnedCaller globals args] }, w⟩ := by
  have hstack : (spawnedFrame globals callee args (args.length + 1)).stack =
      args.reverse ++ callee :: [] := by
    show ((callee :: args).take (callee :: args).length).reverse = _
    rw [List.take_length, List.reverse_cons]
  have hcalls : Instruction.Calls (.call args.length)
      (spawnedFrame globals callee args (args.length + 1)).stack
      { callee, args, delivery := .push } [] := by
    rw [hstack]
    exact .positional callee args []
  exact vm.advance_calls rfl (decodeAt_spawnedUnit hcount).2.1 hcalls

/-- The result of the call is that of the tasklet. -/
theorem Vm.advance_return (vm : Vm) (hcount : args.length < Assembler.operandLimit) {m : Machine}
    {v : Value} (hframes : SameFrames [{ spawnedCaller globals args with stack := [v] }]
      m.context.frames) :
    ∃ m', vm.advance .fetch m = .stopped .finished m' ∧ m'.context.returned = some v := by
  obtain ⟨g, rest, hm, -, hstanding, hrest⟩ := hframes.of_cons
  obtain rfl : rest = [] := List.eq_nil_of_length_eq_zero hrest.length_eq
  have hunit : g.unit = spawnedUnit args.length := congrArg (·.1) hstanding
  have hip : g.ip = 3 * (args.length + 2) := congrArg (·.2.1) hstanding
  have hstack : g.stack = [v] := congrArg (·.2.2.2) hstanding
  have hd : decodeAt g.unit.bytes g.ip = some ⟨.returnValue, 3 * (args.length + 2) + 1⟩ := by
    rw [hunit, hip]
    exact (decodeAt_spawnedUnit hcount).2.2
  have hrun : ∃ m', vm.perform .fetch m = .ok .finished m' ∧ m'.context.returned = some v := by
    rw [perform_fetch vm hm hd]
    show ∃ m', returnValue _ = .ok .finished m' ∧ _
    rw [returnValue, bind_ok (pop_cons (f := g.reading _) rfl hstack)]
    exact ⟨_, rfl, rfl⟩
  obtain ⟨m', hrun, hreturned⟩ := hrun
  exact ⟨m', conclude_ok vm hrun, hreturned⟩

end Loading

/-! ## The whole life -/

/-- The call of the tasklet is about to begin. -/
inductive SpawnedCall (c : Context) (globals : Namespace) (callee : Value) (args : List Value) :
    Progress → Prop
  | begin (w : World) : SpawnedCall c globals callee args
      (.running (.link { callee, args, delivery := .push })
        ⟨{ c with frames := [spawnedCaller globals args] }, w⟩)

/-- A stage ends the call that was begun at the given one. With it comes what has taken the place of
the result, if anything has. -/
structure Vm.EndsCall (vm : Vm) (begun : Progress) (made : Option Value) (p p' : Progress) :
    Prop where
  underway : ∃ was, vm.Underway 1 begun was p ∧ made = was.or (p.made? 1)
  stage : vm.Stage p p'
  ended : ¬ p'.Calling 1

/-- The stages of a tasklet that makes a call. It loads the values; then the call is under way; and
when the call is over, the tasklet completes with its result, or has ended with the fault that the
call has raised, or has failed in the call. -/
inductive Vm.SpawnedLife (vm : Vm) (c : Context) (globals : Namespace) (callee : Value)
    (args : List Value) (start : Progress) : Progress → Prop
  | loads (p : Progress) (loaded : Nat) (w : World) (hloaded : loaded ≤ args.length + 1)
      (hp : p.Fetching ⟨{ c with frames := [spawnedFrame globals callee args loaded] }, w⟩) :
      SpawnedLife vm c globals callee args start p
  | calls (p begun : Progress) (made : Option Value)
      (hbegun : SpawnedCall c globals callee args begun)
      (hreached : Relation.ReflTransGen vm.Onward start begun) (h : vm.Underway 1 begun made p) :
      SpawnedLife vm c globals callee args start p
  | returns (p begun p₁ p₂ : Progress) (made : Option Value) (v : Value) (m : Machine)
      (hbegun : SpawnedCall c globals callee args begun)
      (hreached : Relation.ReflTransGen vm.Onward start begun)
      (hends : vm.EndsCall begun made p₁ p₂) (hv : vm.Results p₁ v) (hp : p.Fetching m)
      (hframes : SameFrames [{ spawnedCaller globals args with stack := [made.getD v] }]
        m.context.frames) :
      SpawnedLife vm c globals callee args start p
  | completes (begun p₁ p₂ : Progress) (made : Option Value) (v : Value) (m : Machine)
      (hbegun : SpawnedCall c globals callee args begun)
      (hreached : Relation.ReflTransGen vm.Onward start begun)
      (hends : vm.EndsCall begun made p₁ p₂) (hv : vm.Results p₁ v)
      (hreturned : m.context.returned = some (made.getD v)) :
      SpawnedLife vm c globals callee args start (.stopped .finished m)
  | faults (begun p₁ : Progress) (made : Option Value) (fault : Fault) (m m₁ : Machine)
      (origin : Origin) (callers : List Frame)
      (hbegun : SpawnedCall c globals callee args begun)
      (hreached : Relation.ReflTransGen vm.Onward start begun)
      (hends : vm.EndsCall begun made p₁ (.stopped .faulted m))
      (hraises : vm.Raises p₁ (.stopped .faulted m) fault m₁ origin)
      (hfault : m.context.unhandled? = some (fault.along callers)) :
      SpawnedLife vm c globals callee args start (.stopped .faulted m)
  | fails (begun p₁ : Progress) (made : Option Value) (m : Machine)
      (hbegun : SpawnedCall c globals callee args begun)
      (hreached : Relation.ReflTransGen vm.Onward start begun)
      (hends : vm.EndsCall begun made p₁ (.stopped .fatal m)) :
      SpawnedLife vm c globals callee args start (.stopped .fatal m)

section Life

variable {vm : Vm} {c : Context} {globals : Namespace} {callee : Value} {args : List Value}
  {start p p' : Progress} {m : Machine}

theorem Vm.fetching_afterInstruction (vm : Vm) (m : Machine) :
    (vm.afterInstruction m).Fetching m := by
  unfold afterInstruction
  split
  · exact .suspended .resume (.inr rfl)
  · exact .running

theorem Progress.GoesOn.fetching (h : p.GoesOn) : p.Fetching p.machine := by
  cases p with
  | running phase m =>
    cases phase with
    | fetch => exact .running
    | link c => exact h.elim
  | stopped outcome m =>
    cases outcome with
    | suspended k =>
      cases k with
      | resume => exact .suspended .resume (.inr rfl)
      | _ => exact h.elim
    | _ => exact h.elim

/-- A tasklet that is to go on with an instruction does so, now or later. -/
theorem Vm.Onward.fetching (h : vm.Onward p p') (hp : p.Fetching m) :
    p' = vm.advance .fetch m ∨ ∃ w, p'.Fetching { m with world := w } := by
  cases hp with
  | running =>
    cases h
    exact .inl rfl
  | suspended k hk =>
    cases h with
    | resume k m hfatal hunhandled =>
      refine .inr ⟨m.world, ?_⟩
      rcases hk with rfl | rfl <;> exact .running
    | outside k m world => exact .inr ⟨world, .suspended k hk⟩

/-- The call begins in a lawful state, its result is to be pushed, and the root frame is in no
block. -/
theorem SpawnedCall.holds (h : SpawnedCall c globals callee args p) (hfault : c.fault = none)
    (hfatal : c.fatal = none) (limit : Nat) :
    p.Lawful limit ∧ p.Holds [spawnedCaller globals args] none ∧ p.Calling 1 := by
  cases h with
  | begin w =>
    refine ⟨⟨⟨⟨⟨List.cons_ne_nil _ _, ?_⟩, Nat.le_max_left 1 limit⟩, hfault, hfatal⟩, trivial⟩, ?_,
      Nat.le_refl 1⟩
    · rw [List.forall_mem_singleton]
      trivial
    · exact .linking _ _ (.refl _) .push

/-- What a stage of the call comes to. -/
theorem Vm.SpawnedLife.of_underway {begun : Progress} {made : Option Value}
    (hbegun : SpawnedCall c globals callee args begun)
    (hreached : Relation.ReflTransGen vm.Onward start begun) (hfault : c.fault = none)
    (hfatal : c.fatal = none) (h : vm.Underway 1 begun made p) (hstage : vm.Stage p p') :
    vm.SpawnedLife c globals callee args start p' := by
  by_cases hcalling : p'.Calling 1
  · exact .calls p' begun _ hbegun hreached (h.stage hstage hcalling)
  · obtain ⟨hlawful, hholds, hbegins⟩ := hbegun.holds hfault hfatal vm.maxCallDepth
    have hends : vm.EndsCall begun (made.or (p.made? 1)) p p' := ⟨⟨made, h, rfl⟩, hstage, hcalling⟩
    obtain ⟨hp, hholds, hwas⟩ := Vm.Underway.holds hlawful hholds (Nat.le_refl _) h
    cases hstage.rootCallEnds hp rfl hholds hwas hcalling with
    | value v hv hgets hgoes =>
      exact .returns p' begun p p' _ v _ hbegun hreached hends hv hgoes.fetching hgets
    | fault fault m₁ m origin callers hraises hp' hfault =>
      subst hp'
      exact .faults begun p _ fault m m₁ origin callers hbegun hreached hends hraises hfault
    | fails m hp' =>
      subst hp'
      exact .fails begun p _ m hbegun hreached hends

/-- A stage leads from stage to stage of the life of the tasklet. -/
theorem Vm.SpawnedLife.onward (hbinds : BindsCall globals callee args)
    (hcount : args.length < Assembler.operandLimit) (hfault : c.fault = none)
    (hfatal : c.fatal = none) (hreached : Relation.ReflTransGen vm.Onward start p)
    (h : vm.SpawnedLife c globals callee args start p) (hstage : vm.Onward p p') :
    vm.SpawnedLife c globals callee args start p' := by
  cases h with
  | loads _ loaded w hloaded hp =>
    rcases hstage.fetching hp with rfl | ⟨w', hp'⟩
    · rcases Nat.lt_or_eq_of_le hloaded with hlt | rfl
      · rw [vm.advance_load hbinds hcount (Nat.le_of_lt_succ hlt)]
        exact .loads _ (loaded + 1) w hlt (vm.fetching_afterInstruction _)
      · have hreached' := hreached.tail hstage
        rw [vm.advance_call hcount] at hreached' ⊢
        exact .calls _ _ none (.begin w) hreached' (.begin (Nat.le_refl 1))
    · exact .loads p' loaded w' hloaded hp'
  | calls _ begun made hbegun hreached' hunderway =>
    exact .of_underway hbegun hreached' hfault hfatal hunderway hstage.stage
  | returns _ begun p₁ p₂ made v m hbegun hreached' hends hv hp hframes =>
    rcases hstage.fetching hp with rfl | ⟨w, hp'⟩
    · obtain ⟨m', hadvance, hreturned⟩ := vm.advance_return hcount hframes
      rw [hadvance]
      exact .completes begun p₁ p₂ made v m' hbegun hreached' hends hv hreturned
    · exact .returns p' begun p₁ p₂ made v _ hbegun hreached' hends hv hp' hframes
  | completes => cases hstage
  | faults => cases hstage
  | fails => cases hstage

/-- **The life of a tasklet that makes a call**: whatever becomes of the world while the tasklet is
suspended. -/
theorem Vm.spawnedLife (vm : Vm) (hbinds : BindsCall globals callee args)
    (hcount : args.length < Assembler.operandLimit) (hfault : c.fault = none)
    (hfatal : c.fatal = none) {w : World}
    (h : Relation.ReflTransGen vm.Onward (.stopped (.suspended .start)
      ⟨{ c with frames := [spawnedFrame globals callee args 0] }, w⟩) p) :
    vm.SpawnedLife c globals callee args (.stopped (.suspended .start)
      ⟨{ c with frames := [spawnedFrame globals callee args 0] }, w⟩) p := by
  induction h with
  | refl => exact .loads _ 0 w (Nat.zero_le _) (.suspended .start (.inl rfl))
  | tail hreached hstage ih => exact ih.onward hbinds hcount hfault hfatal hreached hstage

end Life

end TaskletMachine
