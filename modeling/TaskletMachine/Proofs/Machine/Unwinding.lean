import TaskletMachine.Proofs.Machine.Moves

/-!
# Leaving blocks

Every way of leaving blocks cuts the operand stack back, block by block or at once. In a frame whose
blocks are nested, what is left is the stack as it was below the outermost block that has been left.

## Main definitions

* `Frame.without`: the frame outside its innermost block.
* `Frame.Lands`: where a fault lands in a frame, and what it leaves.
-/
namespace TaskletMachine

/-! ## Cutting the stack -/

namespace Frame

theorem length_cut {stack : List Value} {depth : Nat} (h : depth ≤ stack.length) :
    (cut stack depth).length = depth := by
  rw [cut, List.length_drop]
  omega

theorem cut_suffix (stack : List Value) (depth : Nat) : cut stack depth <:+ stack :=
  List.drop_suffix _ _

theorem cut_eq_of_suffix {stack below : List Value} (h : below <:+ stack) :
    cut stack below.length = below := by
  obtain ⟨above, rfl⟩ := h
  rw [cut, List.length_append, Nat.add_sub_cancel, List.drop_left]

theorem cut_cut {stack : List Value} {depth depth' : Nat} (h : depth' ≤ depth)
    (hdeep : depth ≤ stack.length) : cut (cut stack depth) depth' = cut stack depth' := by
  have hlength := length_cut hdeep
  rw [cut, hlength, cut, cut, List.drop_drop]
  congr 1
  omega

/-! ## Nested blocks -/

/-- The frame outside its innermost block. -/
def without (f : Frame) (b : Block) (rest : List Block) : Frame :=
  { f.restore b.depth with blocks := rest }

theorem Nested.depth_le {f : Frame} (h : f.Nested) {removed rest : List Block} {b b' : Block}
    (hf : f.blocks = removed ++ b :: rest) (hb' : b' ∈ removed) : b.depth ≤ b'.depth := by
  have hsorted := h.sorted
  rw [hf, List.pairwise_append] at hsorted
  exact hsorted.2.2 b' hb' b List.mem_cons_self

theorem Nested.without {f : Frame} {b : Block} {rest : List Block} (h : f.Nested)
    (hf : f.blocks = b :: rest) : (f.without b rest).Nested := by
  have hsorted := h.sorted
  rw [hf, List.pairwise_cons] at hsorted
  refine ⟨hsorted.2, fun b' hb' => ?_⟩
  have hdeep : b.depth ≤ f.stack.length := h.deep b (hf ▸ List.mem_cons_self)
  calc b'.depth ≤ b.depth := hsorted.1 b' hb'
    _ = (f.without b rest).stack.length := (length_cut hdeep).symm

theorem below_innermost {f : Frame} {b : Block} {rest : List Block} (hf : f.blocks = b :: rest) :
    f.Below [] b rest (f.without b rest).stack :=
  ⟨hf, fun _ => rfl⟩

/-- Leaving the innermost block first makes no difference to what is below an outer one. -/
theorem Below.without {f : Frame} {b b' : Block} {removed rest outer : List Block}
    {below : List Value} (hf : f.blocks = b :: rest)
    (h : (f.without b rest).Below removed b' outer below) : f.Below (b :: removed) b' outer below := by
  have hrest : rest = removed ++ b' :: outer := h.blocks
  refine ⟨by rw [hf, hrest, List.cons_append], fun hn => ?_⟩
  rw [hrest] at hf
  have hdepth : b'.depth ≤ b.depth := by
    rw [← List.cons_append] at hf
    exact hn.depth_le hf List.mem_cons_self
  calc below = cut (cut f.stack b.depth) b'.depth := h.stack (hn.without (hrest ▸ hf))
    _ = cut f.stack b'.depth := cut_cut hdepth (hn.deep b (hf ▸ List.mem_cons_self))

/-! ## Leaving loops -/

/-- Leaving blocks up to a loop, or all of them. -/
theorem breakFrom_below (blocks : List Block) (f : Frame) (hf : f.blocks = blocks) :
    (f.breakFrom blocks).1.delivery = f.delivery ∧
      (blocks = [] ∨ ∃ removed b,
        f.Below removed b (f.breakFrom blocks).1.blocks (f.breakFrom blocks).1.stack) := by
  induction blocks generalizing f with
  | nil => exact ⟨rfl, .inl rfl⟩
  | cons b rest ih =>
    obtain ⟨hd, hrest⟩ := ih (f.without b rest) rfl
    simp only [breakFrom]
    split
    · exact ⟨rfl, .inr ⟨[], b, below_innermost hf⟩⟩
    · refine ⟨hd, .inr ?_⟩
      rcases hrest with rfl | ⟨removed, b', hbelow⟩
      · exact ⟨[], b, below_innermost hf⟩
      · exact ⟨b :: removed, b', hbelow.without hf⟩

theorem turns_breakLoop (f : Frame) (handled : Option Fault) : f.Turns True handled f.breakLoop.1 := by
  obtain ⟨hd, hnil | ⟨removed, b, hbelow⟩⟩ := breakFrom_below f.blocks f rfl
  · refine .keeps ?_ hd
    rw [breakLoop, hnil]
    rfl
  · exact .leaves removed b _ hbelow rfl hd fun _ => trivial

theorem turns_continueLoop? {f g : Frame} {target : Nat} (h : f.continueLoop? target = some g)
    (handled : Option Fault) : f.Turns True handled g := by
  unfold continueLoop? at h
  dsimp only at h
  split at h
  · cases h
  · split at h
    · next outermost hlast =>
      cases h
      obtain ⟨removed, hinside⟩ := List.getLast?_eq_some_iff.1 hlast
      refine .leaves removed outermost _ ⟨?_, fun _ => rfl⟩ rfl rfl fun _ => trivial
      have hblocks := List.takeWhile_append_dropWhile (p := fun b : Block => !b.isLoop) (l := f.blocks)
      rw [hinside, List.append_assoc] at hblocks
      exact hblocks.symm
    · cases h
      exact .keeps rfl rfl

/-! ## Where a fault lands in a frame -/

/-- Where a fault lands in a frame, and what is left of the frame. -/
inductive Lands (fault : Fault) (f : Frame) : Landing → Prop
  | caught (removed : List Block) (b : Block) (rest : List Block) (below : List Value) (g : Frame)
      (hbelow : f.Below removed b rest below) (hkind : b.kind = .exceptGuard)
      (hb : g.blocks = rest) (hd : g.delivery = f.delivery)
      (hs : g.stack = fault.value :: below) : Lands fault f (.caught g)
  | cleanup (removed : List Block) (b : Block) (rest : List Block) (g : Frame)
      (hbelow : f.Below removed b rest g.stack) (hkind : b.kind = .finallyGuard)
      (hb : g.blocks = { b with kind := .finallyBody fault } :: rest)
      (hd : g.delivery = f.delivery) : Lands fault f (.cleanup g)
  | unguarded (g : Frame) (hf : f.blocks = []) (hb : g.blocks = []) (hd : g.delivery = f.delivery)
      (hs : g.stack = f.stack) : Lands fault f (.passed g)
  | passed (removed : List Block) (b : Block) (g : Frame) (hbelow : f.Below removed b [] g.stack)
      (hkind : b.kind ≠ .exceptGuard) (hb : g.blocks = []) (hd : g.delivery = f.delivery) :
      Lands fault f (.passed g)

/-- A fault that the innermost block does not take lands where it lands outside of it. -/
theorem Lands.without {fault : Fault} {f : Frame} {b : Block} {rest : List Block} {l : Landing}
    (hf : f.blocks = b :: rest) (hkind : b.kind ≠ .exceptGuard)
    (h : (f.without b rest).Lands fault l) : f.Lands fault l := by
  cases h with
  | caught removed b' outer below g hbelow hkind' hb hd hs =>
    exact .caught (b :: removed) b' outer below g (hbelow.without hf) hkind' hb hd hs
  | cleanup removed b' outer g hbelow hkind' hb hd =>
    exact .cleanup (b :: removed) b' outer g (hbelow.without hf) hkind' hb hd
  | unguarded g hrest hb hd hs =>
    have hrest' : rest = [] := hrest
    subst hrest'
    exact .passed [] b g (hs ▸ below_innermost hf) hkind hb hd
  | passed removed b' g hbelow hkind' hb hd =>
    exact .passed (b :: removed) b' g (hbelow.without hf) hkind' hb hd

theorem lands_landIn (fault : Fault) (blocks : List Block) (f : Frame) (hf : f.blocks = blocks) :
    f.Lands fault (f.landIn fault blocks) := by
  induction blocks generalizing f with
  | nil => exact .unguarded _ hf rfl rfl rfl
  | cons b rest ih =>
    have hrest := ih (f.without b rest) rfl
    have hbelow := below_innermost hf
    simp only [landIn]
    split
    · next hkind => exact .caught [] b rest _ _ hbelow hkind rfl rfl rfl
    · next hkind =>
      split
      · exact .cleanup [] b rest _ hbelow hkind rfl rfl
      · exact hrest.without hf (by rw [hkind]; exact BlockKind.noConfusion)
    · next hkind => exact hrest.without hf (by rw [hkind]; exact BlockKind.noConfusion)
    · next hkind => exact hrest.without hf (by rw [hkind]; exact BlockKind.noConfusion)

theorem lands_land (f : Frame) (fault : Fault) : f.Lands fault (f.land fault) :=
  lands_landIn fault f.blocks f rfl

/-- The frame that a fault leaves on the call stack has turned. -/
theorem Lands.turns_of_caught {fault : Fault} {f g : Frame} {exits : Prop} (hexits : ¬ exits)
    (h : f.Lands fault (.caught g)) : f.Turns exits (some fault) g := by
  cases h with
  | caught removed b rest below _ hbelow hkind hb hd hs =>
    exact .caught removed b rest fault below hbelow hb hd hs hkind hexits rfl

theorem Lands.turns_of_cleanup {fault : Fault} {f g : Frame} {exits : Prop} {handled : Option Fault}
    (h : f.Lands fault (.cleanup g)) : f.Turns exits handled g := by
  cases h with
  | cleanup removed b rest _ hbelow hkind hb hd =>
    exact .cleanup removed b rest fault hbelow hb hd hkind

theorem Lands.turns_of_passed {fault : Fault} {f g : Frame} {exits : Prop} {handled : Option Fault}
    (h : f.Lands fault (.passed g)) : f.Turns exits handled g ∧ g.blocks = [] := by
  cases h with
  | unguarded _ hf hb hd hs => exact ⟨.keeps (hb.trans hf.symm) hd, hb⟩
  | passed removed b _ hbelow hkind hb hd =>
    exact ⟨.leaves removed b [] hbelow hb hd fun h => absurd h hkind, hb⟩

end Frame

/-! ## Where a fault lands in a call stack -/

/-- Where a fault lands in a call stack, and what is left of the call stack. -/
inductive Unwinds (frames : List Frame) : Unwound → Prop
  | caught (fault : Fault) (dropped : List Frame) (f g : Frame) (callers : List Frame)
      (hframes : frames = dropped ++ f :: callers) (hlands : f.Lands fault (.caught g)) :
      Unwinds frames (.caught fault (g :: callers))
  | cleanup (fault : Fault) (dropped : List Frame) (f g : Frame) (callers : List Frame)
      (hframes : frames = dropped ++ f :: callers) (hlands : f.Lands fault (.cleanup g)) :
      Unwinds frames (.cleanup (g :: callers))
  | loopEnded (exit : Nat) (dropped : List Frame) (f : Frame) (callers : List Frame)
      (hframes : frames = dropped ++ f :: callers) : Unwinds frames (.loopEnded exit (f :: callers))
  | unhandled (fault : Fault) (dropped : List Frame) (f g : Frame)
      (hframes : frames = dropped ++ [f]) (hlands : f.Lands fault (.passed g)) :
      Unwinds frames (.unhandled fault [g])
  | noFrames (hframes : frames = []) : Unwinds frames .noFrames

/-- A fault that the innermost frame does not take lands where it lands in the callers. -/
theorem Unwinds.cons {f : Frame} {callers : List Frame} {u : Unwound} (h : Unwinds callers u)
    (hne : callers ≠ []) : Unwinds (f :: callers) u := by
  cases h with
  | caught fault dropped f' g callers' hframes hlands =>
    exact .caught fault (f :: dropped) f' g callers' (by rw [hframes, List.cons_append]) hlands
  | cleanup fault dropped f' g callers' hframes hlands =>
    exact .cleanup fault (f :: dropped) f' g callers' (by rw [hframes, List.cons_append]) hlands
  | loopEnded exit dropped f' callers' hframes =>
    exact .loopEnded exit (f :: dropped) f' callers' (by rw [hframes, List.cons_append])
  | unhandled fault dropped f' g hframes hlands =>
    exact .unhandled fault (f :: dropped) f' g (by rw [hframes, List.cons_append]) hlands
  | noFrames hframes => exact absurd hframes hne

theorem unwinds_unwindFrames (stops : Value → Bool) (fault : Fault) (frames : List Frame) :
    Unwinds frames (unwindFrames stops fault frames) := by
  induction frames generalizing fault with
  | nil => exact .noFrames rfl
  | cons f callers ih =>
    have hlands := f.lands_land fault
    simp only [unwindFrames]
    split
    · next g hg => exact .caught fault [] f g callers rfl (hg ▸ hlands)
    · next g hg => exact .cleanup fault [] f g callers rfl (hg ▸ hlands)
    · next g hg =>
      split
      · exact .unhandled fault [] f g rfl (hg ▸ hlands)
      · next caller rest =>
        have hrest := fun fault => (ih fault).cons (f := f) (List.cons_ne_nil caller rest)
        split
        · split
          · exact .loopEnded _ [f] caller rest rfl
          · exact hrest _
        · exact hrest _

/-! ## Making exceptions -/

/-- A computation that leaves the context alone, and whose errors end the tasklet. -/
def Exec.Aside {α : Type} (x : Exec α) : Prop :=
  ∀ m, match x m with
    | .ok _ m' => m'.context = m.context ∧ m.world.Evolves m'.world
    | .error e m' =>
      m'.context = m.context ∧ m.world.Evolves m'.world ∧ ¬ e.IsInternal ∧ e.isGuest = false

namespace Exec.Aside

variable {α β : Type}

theorem pure (a : α) : Aside (Pure.pure a) :=
  fun _ => ⟨rfl, .refl⟩

theorem bind {x : Exec α} {f : α → Exec β} (hx : Aside x) (hf : ∀ a, Aside (f a)) :
    Aside (x >>= f) := by
  intro m
  have hm := hx m
  cases h : x m with
  | error e m₁ =>
    rw [bind_error h]
    rwa [h] at hm
  | ok a m₁ =>
    rw [bind_ok h]
    rw [h] at hm
    have hm₁ := hf a m₁
    cases h₁ : f a m₁ with
    | ok b m₂ =>
      rw [h₁] at hm₁
      exact ⟨hm₁.1.trans hm.1, hm.2.trans hm₁.2⟩
    | error e m₂ =>
      rw [h₁] at hm₁
      exact ⟨hm₁.1.trans hm.1, hm.2.trans hm₁.2.1, hm₁.2.2⟩

theorem heap : Aside Exec.heap :=
  fun _ => ⟨rfl, .refl⟩

theorem context : Aside Exec.context :=
  fun _ => ⟨rfl, .refl⟩

theorem setHeap (h : Heap) : Aside (Exec.setHeap h) :=
  fun m => ⟨rfl, m.world.evolves_output h m.world.printed⟩

theorem onHeap (f : Heap → α × Heap) : Aside (Exec.onHeap f) :=
  fun m => ⟨rfl, m.world.evolves_output (f m.world.heap).2 m.world.printed⟩

theorem builtinClass (vm : Vm) (c : Context) (name : String) :
    Aside (MonadExcept.ofExcept (vm.builtinClass c name) : Exec ClassRef) := by
  have hharmless := Harmless.builtinClass vm c name
  unfold Vm.builtinClass at hharmless ⊢
  split at hharmless
  · exact pure _
  · intro _
    exact ⟨rfl, .refl, hharmless _ rfl, rfl⟩

theorem makeInstance (r : ClassRef) (args : List Value) : Aside (Vm.makeInstance r args) :=
  bind (.onHeap _) fun _ => bind (.onHeap _) fun _ => bind .heap fun _ =>
    bind (.setHeap _) fun _ => pure _

theorem makeException (vm : Vm) (kind : ExceptionKind) (message : String) :
    Aside (vm.makeException kind message) :=
  bind .context fun c => bind (.builtinClass vm c _) fun r => makeInstance r _

theorem normalizeException (vm : Vm) (v : Value) : Aside (vm.normalizeException v) := by
  have hcomplaint := makeException vm .typeError "exceptions must derive from BaseException"
  refine bind .context fun c => bind (.builtinClass vm c _) fun base => bind .heap ?_
  intro h
  dsimp only
  split
  · split
    · exact pure _
    · exact hcomplaint
  · split
    · exact makeInstance _ _
    · exact hcomplaint
  · exact hcomplaint

end Exec.Aside

/-! ## Raising -/

open Exec in
theorem Vm.raiseFault_eq (vm : Vm) (fault : Fault) (m : Machine) :
    vm.raiseFault fault m =
      match unwindFrames (vm.isStopIteration m.context m.world.heap) fault m.context.frames with
      | .caught fault frames =>
        .ok .next { m with context :=
          { m.context with frames, fault := none, handled := some fault } }
      | .cleanup frames => .ok .next { m with context := { m.context with frames, fault := none } }
      | .loopEnded exit frames =>
        endLoop exit { m with context := { m.context with frames, fault := none } }
      | .unhandled fault frames =>
        .ok .faulted { m with context := { m.context with frames, fault := some fault } }
      | .noFrames =>
        .error { cause := .emptyCallStack }
          { m with context := { m.context with fault := some fault } } := by
  simp only [Vm.raiseFault]
  rw [bind_ok (rfl : (MonadState.get : Exec Machine) m = .ok m m)]
  cases unwindFrames (vm.isStopIteration m.context m.world.heap) fault m.context.frames <;> rfl

namespace Vm.Meets

open Exec

variable {vm : Vm} {limit : Nat} {exits : Prop} {m : Machine}

theorem raiseFault (vm : Vm) (hexits : ¬ exits) (fault : Fault) (m : Machine) :
    vm.Meets limit exits m (vm.raiseFault fault m) := by
  have hunwinds := unwinds_unwindFrames (vm.isStopIteration m.context m.world.heap) fault
    m.context.frames
  rw [Vm.raiseFault_eq]
  generalize unwindFrames (vm.isStopIteration m.context m.world.heap) fault m.context.frames = u
    at hunwinds
  cases hunwinds with
  | caught fault dropped f g callers hframes hlands =>
    refine ⟨.refl, fun _ => ⟨?_, fun _ => rfl, rfl⟩⟩
    exact .drop dropped f g callers callers hframes rfl ⟨rfl, rfl⟩ (hlands.turns_of_caught hexits)
  | cleanup fault dropped f g callers hframes hlands =>
    refine ⟨.refl, fun _ => ⟨?_, fun _ => rfl, rfl⟩⟩
    exact .drop dropped f g callers callers hframes rfl ⟨rfl, rfl⟩ hlands.turns_of_cleanup
  | loopEnded exit dropped f callers hframes =>
    exact of_stays_drop dropped (Steady.endLoop exit _) hexits hframes (fun _ => List.cons_ne_nil _ _)
      (fun _ => rfl) rfl
  | unhandled fault dropped f g hframes hlands =>
    obtain ⟨hturns, hblocks⟩ := hlands.turns_of_passed
    refine ⟨.refl, fun _ => ⟨?_, ?_, rfl⟩⟩
    · exact .drop dropped f g [] [] hframes rfl ⟨rfl, rfl⟩ hturns
    · simp only [Context.isUnhandled, Option.isSome_some, hblocks, List.isEmpty_nil, Bool.and_self]
  | noFrames hframes => exact ⟨.refl, fun hs => absurd hframes hs.ne_nil⟩

/-- An exception is made, and then raised from the place of the innermost frame. -/
theorem raiseMade {x : Exec Value} (hx : Aside x) (hexits : ¬ exits) (m : Machine) :
    vm.Meets limit exits m ((do
      let value ← x
      vm.raiseFault { value, traceback := [(← frame).place] } : Exec Control) m) := by
  have hm := hx m
  cases h : x m with
  | error e m₁ =>
    rw [h] at hm
    obtain ⟨hc, hw, hinternal, hguest⟩ := hm
    rw [bind_error h]
    refine ⟨hw, fun hs => ⟨?_, fun he => ?_, fun he => ?_⟩⟩
    · rw [hc]
      exact (Context.Quiet.refl m.context).goesOn hs.ne_nil
    · exact absurd he hinternal
    · exact absurd (hguest.symm.trans he) Bool.false_ne_true
  | ok value m₁ =>
    rw [h] at hm
    rw [bind_ok h]
    refine of_evolves hm.1 hm.2 ?_
    cases hframes : m₁.context.frames with
    | nil =>
      rw [bind_error (frame_nil hframes)]
      exact ⟨.refl, fun hs => absurd hframes hs.ne_nil⟩
    | cons f callers =>
      rw [bind_ok (frame_cons hframes)]
      exact raiseFault vm hexits _ m₁

theorem raiseError (vm : Vm) (hexits : ¬ exits) {e : Error} (he : e.isGuest) (m : Machine) :
    vm.Meets limit exits m (vm.raiseError e m) := by
  have hguest : e.cause.isGuest := he
  simp only [Vm.raiseError]
  cases hcause : e.cause with
  | exception kind message => exact raiseMade (.makeException vm kind message) hexits m
  | raised v => exact raiseMade (.normalizeException vm v) hexits m
  | _ =>
    rw [hcause] at hguest
    cases hguest

end Vm.Meets

end TaskletMachine
