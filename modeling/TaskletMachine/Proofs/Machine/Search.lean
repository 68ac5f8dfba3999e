import TaskletMachine.Proofs.Machine.Loops

/-!
# The search for a handler

A fault is taken by the innermost block that can take it, in the innermost frame that has such a
block. On the way frames are dropped, and each one that is left behind adds the place of its caller
to the traceback; but if a frame is the call by which a loop asks for its next value, and the fault
stops the iteration, the loop ends there. This is said here without following the search step by
step: which frames and blocks are passed, and what is left of the frame that the search ends in.

## Main definitions

* `Frame.Takes`, `Frame.Innermost`, `Frame.Bare`: the blocks that take a fault.
* `Frame.stackBelow`: what is left of the operand stack below blocks.
* `Frame.Passes`, `Fault.along`: the frames that a fault passes, and its traceback.
* `Vm.Search`: where the search ends, and in which machine.
* `Vm.Raising.search_iff`: raising a fault is this search.
-/
namespace TaskletMachine

open Exec

/-! ## Blocks that take a fault -/

namespace Frame

/-- The blocks of a frame that take a fault: guards of clauses, and guards of a cleanup body that the
frame has not reached yet. -/
def Takes (f : Frame) (b : Block) : Prop :=
  match b.kind with
  | .exceptGuard => True
  | .finallyGuard => f.instructionIp < b.handler
  | .loop | .finallyBody _ => False

/-- The innermost block of a frame that takes a fault, with the blocks inside and outside of it. -/
structure Innermost (f : Frame) (inside : List Block) (b : Block) (outside : List Block) : Prop where
  blocks : f.blocks = inside ++ b :: outside
  inside : ∀ b' ∈ inside, ¬ f.Takes b'
  takes : f.Takes b

/-- No block of the frame takes a fault. -/
def Bare (f : Frame) : Prop :=
  ∀ b ∈ f.blocks, ¬ f.Takes b

/-- The operand stack below blocks: it is cut to the smallest of their depths, and stays whole if it
is not that deep. -/
def stackBelow (stack : List Value) (left : List Block) : List Value :=
  match (left.map Block.depth).min? with
  | some depth => cut stack depth
  | none => stack

theorem cut_cut_min (stack : List Value) (depth depth' : Nat) :
    cut (cut stack depth) depth' = cut stack (min depth depth') := by
  simp only [cut, List.drop_drop, List.length_drop]
  congr 1
  omega

theorem stackBelow_cons (stack : List Value) (b : Block) (left : List Block) :
    stackBelow stack (b :: left) = stackBelow (cut stack b.depth) left := by
  simp only [stackBelow, List.map_cons, List.min?_cons]
  cases (left.map Block.depth).min? with
  | none => rfl
  | some depth => exact (cut_cut_min stack b.depth depth).symm

variable {f : Frame} {fault : Fault}

/-- A block that does not take the fault is left. -/
theorem landIn_cons {b : Block} (rest : List Block) (hb : ¬ f.Takes b) :
    f.landIn fault (b :: rest) = (f.without b rest).landIn fault rest := by
  unfold Takes at hb
  rw [landIn]
  cases hkind : b.kind with
  | exceptGuard =>
    rw [hkind] at hb
    exact absurd trivial hb
  | finallyGuard =>
    rw [hkind] at hb
    exact if_neg hb
  | loop => rfl
  | finallyBody fault' => rfl

theorem landIn_bare (left : List Block) (hleft : ∀ b ∈ left, ¬ f.Takes b) :
    f.landIn fault left = .passed { f with blocks := [], stack := stackBelow f.stack left } := by
  induction left generalizing f with
  | nil => rfl
  | cons b rest ih =>
    rw [List.forall_mem_cons] at hleft
    rw [landIn_cons rest hleft.1, stackBelow_cons]
    exact ih hleft.2

theorem landIn_append {inside : List Block} (left : List Block)
    (hinside : ∀ b ∈ inside, ¬ f.Takes b) :
    f.landIn fault (inside ++ left) =
      { f with stack := stackBelow f.stack inside }.landIn fault left := by
  induction inside generalizing f with
  | nil => rfl
  | cons b rest ih =>
    rw [List.forall_mem_cons] at hinside
    rw [List.cons_append, landIn_cons _ hinside.1, stackBelow_cons]
    have hrest := ih (f := f.without b (rest ++ left)) hinside.2
    rw [hrest]
    cases left with
    | nil => rfl
    | cons b' left => rfl

theorem stackBelow_concat (stack : List Value) (inside : List Block) (b : Block) :
    stackBelow stack (inside ++ [b]) = cut (stackBelow stack inside) b.depth := by
  induction inside generalizing stack with
  | nil => rfl
  | cons b' rest ih => rw [List.cons_append, stackBelow_cons, stackBelow_cons, ih]

/-- The frame outside all its blocks. -/
def cleared (f : Frame) : Frame :=
  { f with blocks := [], stack := stackBelow f.stack f.blocks }

theorem land_bare (hf : f.Bare) : f.land fault = .passed f.cleared :=
  landIn_bare f.blocks hf

/-- The frame after its guard has caught a fault. -/
def caughtBy (f : Frame) (fault : Fault) (inside : List Block) (b : Block) (outside : List Block) :
    Frame :=
  { f with
    stack := fault.value :: stackBelow f.stack (inside ++ [b]), ip := b.handler, blocks := outside }

/-- The frame after a fault has entered a cleanup body, which keeps the fault. -/
def enteredBy (f : Frame) (fault : Fault) (inside : List Block) (b : Block) (outside : List Block) :
    Frame :=
  { f with
    stack := stackBelow f.stack (inside ++ [b]), ip := b.handler
    blocks := { b with kind := .finallyBody fault } :: outside }

variable {inside outside : List Block} {b : Block}

theorem land_caught (hf : f.Innermost inside b outside) (hkind : b.kind = .exceptGuard) :
    f.land fault = .caught (f.caughtBy fault inside b outside) := by
  rw [land, hf.blocks, landIn_append _ hf.inside, landIn, hkind, caughtBy, stackBelow_concat]
  rfl

theorem land_entered (hf : f.Innermost inside b outside) (hkind : b.kind = .finallyGuard) :
    f.land fault = .cleanup (f.enteredBy fault inside b outside) := by
  have htakes := hf.takes
  rw [Takes, hkind] at htakes
  rw [land, hf.blocks, landIn_append _ hf.inside, landIn, hkind, enteredBy, stackBelow_concat]
  exact if_pos htakes

/-- Either a block takes the fault, or none does. -/
theorem innermost_or_bare (f : Frame) :
    (∃ inside b outside, f.Innermost inside b outside) ∨ f.Bare := by
  classical
  cases hfind : f.blocks.find? fun b => decide (f.Takes b) with
  | some b =>
    obtain ⟨htakes, inside, outside, hblocks, hinside⟩ := List.find?_eq_some_iff_append.1 hfind
    refine .inl ⟨inside, b, outside, hblocks, ?_, of_decide_eq_true htakes⟩
    intro b' hb'
    simpa using hinside b' hb'
  | none =>
    refine .inr ?_
    intro b hb
    simpa using List.find?_eq_none.1 hfind b hb

end Frame

/-! ## Frames that are passed -/

/-- Whether a fault passes a frame: no block takes it, and it does not end a loop that has called the
frame for its next value. The initializer of a class is called by the class, also if a loop calls
that. -/
structure Frame.Passes (f : Frame) (stops : Prop) : Prop where
  bare : f.Bare
  goes : ∀ exit, f.delivery = .iteration exit → ¬ stops

/-- The fault after it has been raised again at the places of the frames. -/
def Fault.along (fault : Fault) (frames : List Frame) : Fault :=
  { fault with traceback := fault.traceback ++ frames.map Frame.place }

section Passed

variable {stops : Value → Bool} {fault : Fault} {f caller : Frame} {callers : List Frame}

theorem Frame.delivery_of_iterationExit? {exit : Nat} (h : f.iterationExit? = some exit) :
    f.delivery = .iteration exit := by
  unfold Frame.iterationExit? at h
  split at h
  · next hd =>
    cases h
    exact hd
  · cases h

theorem Fault.along_nil (fault : Fault) : fault.along [] = fault := by
  rw [Fault.along, List.map_nil, List.append_nil]

theorem Fault.along_along (fault : Fault) (frames frames' : List Frame) :
    (fault.along frames).along frames' = fault.along (frames ++ frames') := by
  rw [Fault.along, Fault.along, Fault.along, List.map_append, List.append_assoc]

theorem unwindFrames_passes (hf : f.Passes (stops fault.value)) :
    unwindFrames stops fault (f :: caller :: callers) =
      unwindFrames stops (fault.along [caller]) (caller :: callers) := by
  rw [unwindFrames, Frame.land_bare hf.bare]
  dsimp only
  rw [show f.cleared.iterationExit? = f.iterationExit? from rfl]
  cases hiteration : f.iterationExit? with
  | none => rfl
  | some exit => exact if_neg (hf.goes exit (Frame.delivery_of_iterationExit? hiteration))

/-- The fault goes on at the place of each frame that it gets to. -/
theorem unwindFrames_passed (passed : List Frame)
    (hpassed : ∀ g ∈ passed, g.Passes (stops fault.value)) :
    unwindFrames stops fault (passed ++ f :: callers) =
      unwindFrames stops (fault.along (passed ++ [f]).tail) (f :: callers) := by
  induction passed generalizing fault with
  | nil => rw [List.nil_append, List.nil_append, List.tail_cons, Fault.along_nil]
  | cons g rest ih =>
    rw [List.forall_mem_cons] at hpassed
    have hrest (caller : Frame) := @ih (fault.along [caller]) hpassed.2
    cases rest with
    | nil => exact unwindFrames_passes hpassed.1
    | cons caller rest =>
      calc unwindFrames stops fault (g :: caller :: rest ++ f :: callers)
        _ = unwindFrames stops (fault.along [caller]) (caller :: rest ++ f :: callers) :=
          unwindFrames_passes hpassed.1
        _ = unwindFrames stops ((fault.along [caller]).along (rest ++ [f])) (f :: callers) :=
          hrest caller
        _ = unwindFrames stops (fault.along (caller :: rest ++ [f])) (f :: callers) := by
          rw [Fault.along_along]
          rfl

end Passed

/-! ## The search -/

/-- Where the search for a handler ends, and what it comes to. -/
inductive Vm.Search (vm : Vm) (m : Machine) (fault : Fault) :
    EStateM.Result Error Machine Control → Prop
  /-- A guard of clauses catches the fault. -/
  | caught (passed : List Frame) (f : Frame) (callers : List Frame) (inside : List Block)
      (b : Block) (outside : List Block) (hframes : m.context.frames = passed ++ f :: callers)
      (hpassed : ∀ g ∈ passed, g.Passes (vm.isStopIteration m.context m.world.heap fault.value))
      (hinnermost : f.Innermost inside b outside) (hkind : b.kind = .exceptGuard) :
      Search vm m fault (.ok .next { m with context := { m.context with
        frames := f.caughtBy fault inside b outside :: callers, fault := none
        handled := some (fault.along (passed ++ [f]).tail) } })
  /-- The fault enters a cleanup body. -/
  | entered (passed : List Frame) (f : Frame) (callers : List Frame) (inside : List Block)
      (b : Block) (outside : List Block) (hframes : m.context.frames = passed ++ f :: callers)
      (hpassed : ∀ g ∈ passed, g.Passes (vm.isStopIteration m.context m.world.heap fault.value))
      (hinnermost : f.Innermost inside b outside) (hkind : b.kind = .finallyGuard) :
      Search vm m fault (.ok .next { m with context := { m.context with
        frames := f.enteredBy (fault.along (passed ++ [f]).tail) inside b outside :: callers
        fault := none } })
  /-- The fault ends the loop that has called a frame for its next value. -/
  | loopEnds (passed : List Frame) (g f : Frame) (callers : List Frame) (exit : Nat)
      (iterator : Value) (stack : List Value)
      (hframes : m.context.frames = passed ++ g :: f :: callers)
      (hpassed : ∀ g ∈ passed, g.Passes (vm.isStopIteration m.context m.world.heap fault.value))
      (hbare : g.Bare) (hcalled : g.delivery = .iteration exit) (hasks : f.Asks exit)
      (hstops : vm.isStopIteration m.context m.world.heap fault.value)
      (hstack : f.stack = iterator :: stack) :
      Search vm m fault (.ok .next { m with context := { m.context with
        frames := { f with stack, ip := exit } :: callers, fault := none } })
  /-- No frame takes the fault. -/
  | unhandled (passed : List Frame) (root : Frame) (hframes : m.context.frames = passed ++ [root])
      (hpassed : ∀ g ∈ passed, g.Passes (vm.isStopIteration m.context m.world.heap fault.value))
      (hbare : root.Bare) :
      Search vm m fault (.ok .faulted { m with context := { m.context with
        frames := [root.cleared], fault := some (fault.along (passed ++ [root]).tail) } })

namespace Vm

variable {vm : Vm} {m : Machine} {fault : Fault}

theorem endLoop_cons {f : Frame} {callers : List Frame} {iterator : Value} {stack : List Value}
    {exit : Nat} (hm : m.context.frames = f :: callers) (hf : f.stack = iterator :: stack) :
    endLoop exit m = .ok .next (m.withFrames ({ f with stack, ip := exit } :: callers)) := by
  unfold endLoop
  rw [bind_ok (pop_cons hm hf)]
  rfl

/-- Raising a fault comes to what the search says. -/
theorem Search.eq {r : EStateM.Result Error Machine Control} (h : vm.Search m fault r) :
    vm.raiseFault fault m = r := by
  rw [raiseFault_eq]
  cases h with
  | caught passed f callers inside b outside hframes hpassed hinnermost hkind =>
    rw [hframes, unwindFrames_passed passed hpassed, unwindFrames,
      Frame.land_caught hinnermost hkind]
    rfl
  | entered passed f callers inside b outside hframes hpassed hinnermost hkind =>
    rw [hframes, unwindFrames_passed passed hpassed, unwindFrames,
      Frame.land_entered hinnermost hkind]
  | loopEnds passed g f callers exit iterator stack hframes hpassed hbare hcalled hasks hstops hstack =>
    have hexit : g.cleared.iterationExit? = some exit := by
      rw [Frame.iterationExit?, show g.cleared.delivery = g.delivery from rfl, hcalled]
    rw [hframes, unwindFrames_passed passed hpassed, unwindFrames, Frame.land_bare hbare]
    dsimp only
    rw [hexit]
    dsimp only
    rw [if_pos (show vm.isStopIteration m.context m.world.heap (fault.along _).value from hstops)]
    exact endLoop_cons rfl hstack
  | unhandled passed root hframes hpassed hbare =>
    rw [hframes, unwindFrames_passed passed hpassed, unwindFrames, Frame.land_bare hbare]

/-- The search that has passed some frames ends in one of those that are left. -/
theorem exists_search {frames : List Frame} (hne : frames ≠ [])
    (hchain : frames.IsChain Frame.AskedBy) (passed : List Frame)
    (hframes : m.context.frames = passed ++ frames)
    (hpassed : ∀ g ∈ passed, g.Passes (vm.isStopIteration m.context m.world.heap fault.value)) :
    ∃ r, vm.Search m fault r := by
  induction frames generalizing passed with
  | nil => exact absurd rfl hne
  | cons f callers ih =>
    rcases f.innermost_or_bare with ⟨inside, b, outside, hinnermost⟩ | hbare
    · have htakes := hinnermost.takes
      unfold Frame.Takes at htakes
      cases hkind : b.kind with
      | exceptGuard =>
        exact ⟨_, .caught passed f callers inside b outside hframes hpassed hinnermost hkind⟩
      | finallyGuard =>
        exact ⟨_, .entered passed f callers inside b outside hframes hpassed hinnermost hkind⟩
      | loop =>
        rw [hkind] at htakes
        exact htakes.elim
      | finallyBody fault' =>
        rw [hkind] at htakes
        exact htakes.elim
    · cases callers with
      | nil => exact ⟨_, .unhandled passed f hframes hpassed hbare⟩
      | cons caller rest =>
        rw [List.isChain_cons_cons] at hchain
        by_cases hends : ∃ exit, f.delivery = .iteration exit ∧
            vm.isStopIteration m.context m.world.heap fault.value
        · obtain ⟨exit, hcalled, hstops⟩ := hends
          have hasks : caller.Asks exit := hchain.1 exit (by rw [hcalled, Delivery.loopExit?])
          obtain ⟨iterator, stack, hstack⟩ := List.exists_cons_of_ne_nil hasks.iterator
          exact ⟨_, .loopEnds passed f caller rest exit iterator stack hframes hpassed hbare hcalled
            hasks hstops hstack⟩
        · have hpasses : f.Passes (vm.isStopIteration m.context m.world.heap fault.value) :=
            ⟨hbare, fun exit hcalled hstops => hends ⟨exit, hcalled, hstops⟩⟩
          refine ih (List.cons_ne_nil caller rest) hchain.2 (passed ++ [f]) ?_ ?_
          · rw [hframes, List.append_assoc, List.singleton_append]
          · intro g hg
            rcases List.mem_append.1 hg with hg | hg
            · exact hpassed g hg
            · rw [List.mem_singleton.1 hg]
              exact hpasses

/-- On every machine on which a fault can be raised, raising it is the search. -/
theorem Raising.search_iff (h : vm.Raising m) (fault : Fault)
    (r : EStateM.Result Error Machine Control) :
    vm.Search m fault r ↔ vm.raiseFault fault m = r := by
  refine ⟨Search.eq, ?_⟩
  rintro rfl
  have hwaits := h.loopsWait
  obtain ⟨r, hr⟩ := exists_search hwaits.ne_nil hwaits.chain [] rfl nofun
  exact hr.eq ▸ hr

end Vm

namespace GuardedLoop

/-- A unit that enters a guarded part and a loop in it, each with one more value on the operand
stack. -/
def unit : CodeUnit :=
  { bytes := #[0x79, 9, 0, 0x64, 0, 0, 0x78, 3, 0, 0x64, 0, 0, 0x57, 0x57], constants := #[.none] }

/-- The block of the loop. -/
def loop : Block :=
  { kind := .loop, origin := 9, handler := 12, depth := 1 }

/-- The block of the guarded part. -/
def guard : Block :=
  { kind := .exceptGuard, origin := 3, handler := 12, depth := 0 }

/-- The machine while the unit is executed. -/
def machine (instructionIp ip : Nat) (stack : List Value) (blocks : List Block) : Machine :=
  { context := { frames := [{ Frame.start unit .push with instructionIp, ip, stack, blocks }]
                 builtins := [] }
    world := {} }

/-- The machine in the loop is one on which a fault can be raised. -/
theorem raising : (default : Vm).Raising (machine 9 12 [.none, .none] [loop, guard]) := by
  have hsession : (default : Vm).Session .start (machine 0 0 [] []) := .start unit [] [] [] none {}
  have hbegin : (default : Vm).Visits .start _ (.running .fetch (machine 0 0 [] [])) :=
    .begin rfl rfl
  have hguard : (default : Vm).Visits .start _ (.running .fetch (machine 0 3 [] [guard])) :=
    hbegin.step
  have hfirst : (default : Vm).Visits .start _ (.running .fetch (machine 3 6 [.none] [guard])) :=
    hguard.step
  have hloop : (default : Vm).Visits .start _
      (.running .fetch (machine 6 9 [.none] [loop, guard])) := hfirst.step
  have hsecond : (default : Vm).Visits .start _
      (.running .fetch (machine 9 12 [.none, .none] [loop, guard])) := hloop.step
  exact .visit hsession hsecond

end GuardedLoop

/-- A fault in the loop is caught by the guard around it; what the loop and the guarded part have
pushed is gone. -/
theorem GuardedLoop.caught_outside :
    ∃ m, (default : Vm).raiseFault { value := .int 7, traceback := [] }
        (machine 9 12 [.none, .none] [loop, guard]) = .ok .next m ∧
      m.context.frames.map Frame.stack = [[.int 7]] ∧ m.context.frames.map Frame.ip = [12] ∧
      m.context.handled.map Fault.value = some (.int 7) := by
  have hinside (f : Frame) : ∀ b ∈ [loop], ¬ f.Takes b := by
    rw [List.forall_mem_singleton]
    exact id
  have hsearch := (raising.search_iff { value := .int 7, traceback := [] } _).1
    (.caught [] _ [] [loop] guard [] rfl nofun ⟨rfl, hinside _, trivial⟩ rfl)
  exact ⟨_, hsearch, rfl, rfl, rfl⟩

end TaskletMachine
