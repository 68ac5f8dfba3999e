import TaskletMachine.Proofs.Machine.Places

/-!
# Stack restoration

When blocks are left, the operand stack is what it was when the outermost of them was entered,
whichever way they are left, as long as no instruction takes values from below a block. The
invariant is about whole histories: each block of a frame goes back to a step that has pushed it,
and what lay on the operand stack then lies there still.

## Main definitions

* `Vm.Careful`: a step that takes no value from below a block.
* `PushedAt`: where the blocks of a frame come from.
* `Grounded`: the invariant.
* `Vm.stack_restoration`: blocks are nested in every state, and leaving them restores the stack.
-/
namespace TaskletMachine

open Exec

/-! ## Careful steps -/

/-- An effect takes no value from below a block, and neither does raising its error. -/
structure Vm.Spares (vm : Vm) (effect : Exec Control) (m : Machine) : Prop where
  working : m.context.Spares (left (effect m)).context
  raising : (left (effect m)).context.Spares (left (vm.catching effect m)).context

/-- One step of a tasklet, during a run or between two runs, that takes no value from below a block.
A run may begin with any continuation; in between the host may change the world, the globals and the
loader. -/
inductive Vm.Careful (vm : Vm) : Progress → Progress → Prop
  | advance (phase : Phase) (m : Machine) (h : vm.Spares (vm.perform phase) m) :
      Careful vm (.running phase m) (vm.advance phase m)
  | resume (o : RunOutcome) (k : Continuation) (m : Machine) (hfatal : m.context.fatal = none)
      (hunhandled : m.context.isUnhandled = false)
      (h : ∀ p d s, k = .await p d → (m.world.promise p).settled = some s →
        vm.Spares (handOver s d) m) :
      Careful vm (.stopped o m) (vm.resumption k m)
  | outside (o : RunOutcome) (m : Machine) (world : World) :
      Careful vm (.stopped o m) (.stopped o { m with world })
  | setGlobal (o : RunOutcome) (m : Machine) (name : String) (v : Value) :
      Careful vm (.stopped o m)
        (.stopped o { m with context := m.context.setGlobal name v })
  | setLoader (o : RunOutcome) (m : Machine) (loader : Option (Names ModuleRef)) :
      Careful vm (.stopped o m) (.stopped o { m with context := { m.context with loader } })

/-- Whether a step is to execute an instruction that leaves blocks without a fault. -/
def Progress.Exits : Progress → Prop
  | running phase m => phase.Exits m.context
  | stopped _ _ => False

/-- Every result finds its place. -/
def Progress.Sound : Progress → Prop
  | running phase m => m.context.Sound ∧ phase.Plain
  | stopped _ m => m.context.Sound

/-- What a careful stage does to the call stack. -/
def Restores (exits : Prop) (c : Context) : EStateM.Result Error Machine Control → Prop
  | .ok .finished m => m.context.Sound ∧ ∀ f ∈ m.context.frames, f.blocks = []
  | .ok (.call pending) m =>
    (m.context.Sound ∧ c.Becomes exits m.context) ∧ pending.delivery.Plain
  | .ok _ m | .error _ m => m.context.Sound ∧ c.Becomes exits m.context

section Stages

variable {vm : Vm} {limit : Nat} {exits : Prop} {m : Machine}
  {r : EStateM.Result Error Machine Control}

theorem Context.Finishes.blocks {c c' : Context} (h : c.Finishes c') :
    ∀ f ∈ c'.frames, f.blocks = [] := by
  obtain ⟨f, g, _, hframes', _⟩ := h.root
  have hfinished := h.finished
  rw [Context.isFinished, hframes'] at hfinished
  rw [hframes', List.forall_mem_singleton]
  exact List.isEmpty_iff.1 (Bool.and_eq_true_iff.1 hfinished).2

theorem Vm.Meets.restores {c : Context} (h : vm.Meets limit exits m r) (hm : m.context.Sound)
    (hs : m.context.Spares (left r).context)
    (hbecomes : ∀ c', m.context.Shifts limit exits c' → m.context.Spares c' →
      c.Becomes exits c') : Restores exits c r := by
  have hshifts {c' : Context} (h : m.context.Shifts limit exits c') (hs : m.context.Spares c') :
      c'.Sound ∧ c.Becomes exits c' :=
    ⟨h.sound hm, hbecomes c' h hs⟩
  cases r with
  | error e m' => exact hshifts (h.2 hm).1.shifts hs
  | ok control m' =>
    obtain ⟨hworld, hcontext⟩ := h
    have hfollows := hcontext hm
    match control, hworld, hfollows with
    | .next, _, hgoes => exact hshifts hgoes.shifts hs
    | .call c, hworld, hgoes => exact ⟨hshifts hgoes.shifts hs, hworld.2⟩
    | .suspend k, _, hgoes => exact hshifts hgoes.shifts hs
    | .finished, _, hfinishes => exact ⟨hfinishes.sound hm, hfinishes.blocks⟩
    | .faulted, _, hfaulted => exact hshifts hfaulted.1 hs

/-- Raising an error only drops frames further. -/
theorem Vm.restores_raiseError {c : Context} {e : Error} (hexits : ¬ exits) (he : e.isGuest)
    (hm : m.context.Sound) (hdrops : c.Drops m.context) (hc : c.Spares m.context)
    (hs : m.context.Spares (left (vm.raiseError e m)).context) :
    Restores exits c (vm.raiseError e m) := by
  have hmeets : vm.Meets 0 exits m (vm.raiseError e m) := .raiseError vm hexits he m
  refine hmeets.restores hm hs ?_
  intro c' hshifts hspares
  exact hdrops.becomes hc (hshifts.becomes hspares) hshifts.length_le

theorem Vm.restores_catching {effect : Exec Control} (h : vm.Meets limit exits m (effect m))
    (hm : m.context.Sound) (hs : vm.Spares effect m) :
    Restores exits m.context (vm.catching effect m) := by
  obtain ⟨hworking, hraising⟩ := hs
  have hrestores := h.restores hm hworking fun _ hshifts hspares => hshifts.becomes hspares
  unfold catching at hraising ⊢
  cases hr : effect m with
  | ok control m' =>
    rw [hr] at hrestores
    exact hrestores
  | error e m' =>
    rw [hr] at h hworking hraising hrestores
    dsimp only at hraising ⊢
    split
    · next hguest =>
      rw [if_pos hguest] at hraising
      obtain ⟨hexits, hdrops⟩ := (h.2 hm).2.2 hguest
      exact restores_raiseError hexits hguest hrestores.1 hdrops hworking hraising
    · exact hrestores

/-- What a careful step does: it finishes in a root frame without blocks, or every frame becomes
what it may become. -/
def Progress.Restored (exits : Prop) (c : Context) (p : Progress) : Prop :=
  p.Sound ∧ ((∃ m, p = .stopped .finished m ∧ ∀ f ∈ m.context.frames, f.blocks = []) ∨
    c.Becomes exits p.machine.context)

theorem Vm.restored_proceed {c : Context} {next : Machine → Progress} (h : Restores exits c r)
    (hnext : ∀ m, m.context.Sound → (next m).Sound ∧ (next m).machine = m) :
    (proceed next r).Restored exits c := by
  match r, h with
  | .ok .next m', ⟨hsound, hbecomes⟩ =>
    obtain ⟨hready, hmachine⟩ := hnext m' hsound
    refine ⟨hready, .inr ?_⟩
    show c.Becomes exits (next m').machine.context
    rwa [hmachine]
  | .ok (.call pending) m', ⟨⟨hsound, hbecomes⟩, hplain⟩ => exact ⟨⟨hsound, hplain⟩, .inr hbecomes⟩
  | .ok (.suspend k) m', ⟨hsound, hbecomes⟩ => exact ⟨hsound, .inr hbecomes⟩
  | .ok .finished m', ⟨hsound, hblocks⟩ => exact ⟨hsound, .inl ⟨m', rfl, hblocks⟩⟩
  | .ok .faulted m', ⟨hsound, hbecomes⟩ => exact ⟨hsound, .inr hbecomes⟩
  | .error e m', ⟨hsound, hbecomes⟩ =>
    exact ⟨⟨hsound.ne_nil, hsound.deliveries⟩, .inr ⟨hbecomes.stays, hbecomes.fresh⟩⟩

theorem Vm.sound_afterInstruction (vm : Vm) (m : Machine) (hm : m.context.Sound) :
    (vm.afterInstruction m).Sound ∧ (vm.afterInstruction m).machine = m := by
  simp only [afterInstruction]
  split
  · exact ⟨hm, rfl⟩
  · exact ⟨⟨hm, trivial⟩, rfl⟩

/-- Handing over the result of a promise, wherever it is meant to go. -/
theorem Vm.restores_handOver {p : PromiseId} {s : Settlement} {d : Delivery}
    (hsettled : (m.world.promise p).settled = some s) (hm : m.context.Sound)
    (hs : vm.Spares (handOver s d) m) :
    Restores False m.context (vm.catching (handOver s d) m) := by
  by_cases hd : d.Plain
  · have hmeets : vm.Meets 0 False m (handOver s d m) := .of_stays (.handOver hsettled hd) id
    exact restores_catching hmeets hm hs
  · have herror : ∃ e, handOver s d m = .error e m := by
      simp only [handOver]
      cases s with
      | value v =>
        obtain ⟨e, he⟩ := deliver_of_not_plain hd v m
        exact ⟨e, bind_error he⟩
      | noValue =>
        obtain ⟨e, he⟩ := deliver_of_not_plain hd .none m
        exact ⟨e, bind_error he⟩
      | rejected e => exact ⟨e, rfl⟩
    obtain ⟨e, he⟩ := herror
    obtain ⟨hworking, hraising⟩ := hs
    unfold catching at hraising ⊢
    rw [he] at hworking hraising
    rw [he]
    dsimp only at hraising ⊢
    split
    · next hguest =>
      rw [if_pos hguest] at hraising
      have hdrops := (Context.Quiet.refl m.context).drops [] rfl hm.ne_nil
      exact restores_raiseError id hguest hm hdrops hworking hraising
    · exact ⟨hm, .of_sameFrames ⟨rfl, rfl⟩⟩

/-- A careful step. -/
theorem Vm.Careful.restored {p q : Progress} (h : vm.Careful p q) (hp : p.Sound) :
    q.Restored p.Exits p.machine.context := by
  cases h with
  | advance phase m hs =>
    have hrestores := restores_catching (.perform vm hp.2 m) hp.1 hs
    exact restored_proceed hrestores vm.sound_afterInstruction
  | resume o k m hfatal hunhandled hs =>
    have hsame : Context.Becomes False m.context m.context := .of_sameFrames ⟨rfl, rfl⟩
    cases k with
    | start => exact ⟨⟨hp, trivial⟩, .inr hsame⟩
    | resume => exact ⟨⟨hp, trivial⟩, .inr hsame⟩
    | await p d =>
      simp only [resumption]
      cases hsettled : (m.world.promise p).settled with
      | none => exact ⟨hp, .inr hsame⟩
      | some s =>
        have hrestores := restores_handOver hsettled hp (hs p d s rfl hsettled)
        exact restored_proceed hrestores fun _ hm => ⟨⟨hm, trivial⟩, rfl⟩
  | outside o m world => exact ⟨hp, .inr (.of_sameFrames ⟨rfl, rfl⟩)⟩
  | setGlobal o m name v =>
    have hquiet := m.context.quiet_setGlobal name v
    have hshifts : m.context.Shifts 0 False (m.context.setGlobal name v) := hquiet.shifts hp.ne_nil
    exact ⟨hshifts.sound hp, .inr (.of_sameFrames (Context.sameFrames_mapRoot name v _))⟩
  | setLoader o m loader =>
    exact ⟨⟨hp.ne_nil, hp.deliveries⟩, .inr (.of_sameFrames ⟨rfl, rfl⟩)⟩

end Stages

/-! ## Histories -/

/-- The frame at a place in a state of a run. -/
def frameOf? (σ : Nat → Progress) (i k : Nat) : Option Frame :=
  (σ i).machine.context.frameAt? k

/-- The blocks of the frame at a place have been pushed by step `j`, which has left the frame `h`
there, and have stayed there up to state `i`. -/
structure PushedAt (σ : Nat → Progress) (i k : Nat) (blocks : List Block) (j : Nat) (h : Frame) :
    Prop where
  before : j < i
  pushed : frameOf? σ (j + 1) k = some h
  blocks_eq : h.blocks = blocks
  fresh : ∀ f, frameOf? σ j k = some f → ¬ blocks <:+ f.blocks
  stays : ∀ t, j < t → t ≤ i → ∃ f, frameOf? σ t k = some f ∧ blocks <:+ f.blocks

/-- The blocks of a frame are nested, and each goes back to a step that has pushed it; what lay on
the operand stack then lies there still. -/
structure Grounded (σ : Nat → Progress) (i k : Nat) (f : Frame) : Prop where
  nested : f.Nested
  pushed : ∀ b rest, b :: rest <:+ f.blocks → ∃ j h, PushedAt σ i k (b :: rest) j h ∧
    h.stack.length = b.depth ∧ h.stack <:+ f.stack

section Histories

variable {σ : Nat → Progress} {i j k : Nat} {f g h : Frame} {blocks : List Block}

theorem PushedAt.succ (hp : PushedAt σ i k blocks j h) (hg : frameOf? σ (i + 1) k = some g)
    (hblocks : blocks <:+ g.blocks) : PushedAt σ (i + 1) k blocks j h := by
  refine ⟨Nat.lt_succ_of_lt hp.before, hp.pushed, hp.blocks_eq, hp.fresh, fun t hj ht => ?_⟩
  rcases Nat.lt_or_eq_of_le ht with hlt | rfl
  · exact hp.stays t hj (Nat.le_of_lt_succ hlt)
  · exact ⟨g, hg, hblocks⟩

theorem PushedAt.now (hg : frameOf? σ (i + 1) k = some g)
    (hfresh : ∀ f, frameOf? σ i k = some f → ¬ g.blocks <:+ f.blocks) :
    PushedAt σ (i + 1) k g.blocks i g := by
  refine ⟨Nat.lt_succ_self i, hg, rfl, hfresh, fun t hj ht => ?_⟩
  obtain rfl : t = i + 1 := by omega
  exact ⟨g, hg, List.suffix_rfl⟩

theorem Grounded.of_nil (hf : f.blocks = []) : Grounded σ i k f := by
  refine ⟨⟨hf ▸ List.Pairwise.nil, fun b hb => ?_⟩, fun b rest hb => ?_⟩
  · rw [hf] at hb
    cases hb
  · rw [hf, List.suffix_nil] at hb
    cases hb

/-- Blocks that stay are still grounded when what lay below them is still there. -/
theorem Grounded.pushed_succ (hf : Grounded σ i k f) {b : Block} {rest : List Block}
    (hblocks : b :: rest <:+ f.blocks) {below : List Value} (hbelow : below <:+ f.stack)
    (hdepth : b.depth ≤ below.length) (hg : frameOf? σ (i + 1) k = some g)
    (hblocks' : b :: rest <:+ g.blocks) (hs : below <:+ g.stack) :
    ∃ j h, PushedAt σ (i + 1) k (b :: rest) j h ∧ h.stack.length = b.depth ∧
      h.stack <:+ g.stack := by
  obtain ⟨j, h, hpushed, hlength, hstack⟩ := hf.pushed b rest hblocks
  refine ⟨j, h, hpushed.succ hg hblocks', hlength, ?_⟩
  exact (List.suffix_of_suffix_length_le hstack hbelow (hlength ▸ hdepth)).trans hs

/-- What is below a block that is left. -/
theorem Grounded.below (hf : Grounded σ i k f) {removed rest : List Block} {b : Block}
    {below : List Value} (hbelow : f.Below removed b rest below) :
    below = Frame.cut f.stack b.depth ∧ below <:+ f.stack ∧ below.length = b.depth ∧
      (∀ b' ∈ rest, b'.depth ≤ b.depth) ∧
      rest.Pairwise fun inner outer => outer.depth ≤ inner.depth := by
  have hstack := hbelow.stack hf.nested
  have hsorted := hf.nested.sorted
  have hmem : b ∈ f.blocks := hbelow.blocks ▸ List.mem_append_right removed List.mem_cons_self
  rw [hbelow.blocks, List.pairwise_append, List.pairwise_cons] at hsorted
  refine ⟨hstack, ?_, ?_, hsorted.2.1.1, hsorted.2.1.2⟩
  · rw [hstack]
    exact Frame.cut_suffix f.stack b.depth
  · rw [hstack]
    exact Frame.length_cut (hf.nested.deep b hmem)

/-- A frame outside of the blocks that it has left. -/
theorem Grounded.outside (hf : Grounded σ i k f) {removed rest : List Block} {b : Block}
    {below : List Value} (hbelow : f.Below removed b rest below)
    (hg : frameOf? σ (i + 1) k = some g) (hb : g.blocks = rest) (hs : below <:+ g.stack) :
    Grounded σ (i + 1) k g := by
  obtain ⟨_, hstack, hlength, hsorted, hpairwise⟩ := hf.below hbelow
  subst hb
  refine ⟨⟨hpairwise, fun b' hb' => ?_⟩, fun b' rest' hblocks => ?_⟩
  · exact Nat.le_trans (hsorted b' hb') (hlength ▸ hs.length_le)
  · have hmem : b' ∈ g.blocks := hblocks.subset List.mem_cons_self
    have hblocks' : b' :: rest' <:+ f.blocks := by
      rw [hbelow.blocks]
      exact (hblocks.trans (List.suffix_cons b g.blocks)).trans (List.suffix_append removed _)
    exact hf.pushed_succ hblocks' hstack (hlength ▸ hsorted b' hmem) hg hblocks hs

theorem Grounded.becomes {exits : Prop} {handled : Option Fault} (hf : Grounded σ i k f)
    (hfi : frameOf? σ i k = some f) (hg : frameOf? σ (i + 1) k = some g)
    (h : f.Becomes exits handled g) : Grounded σ (i + 1) k g := by
  have hfloor := hf.nested.floor_le
  have hcut := Frame.cut_suffix f.stack f.floor
  have hdepth {b : Block} {rest : List Block} (hb : b :: rest <:+ f.blocks) :
      b.depth ≤ (Frame.cut f.stack f.floor).length := by
    rw [Frame.length_cut hfloor]
    exact hf.nested.depth_le_floor (hb.subset List.mem_cons_self)
  cases h with
  | keeps hb hs =>
    refine ⟨hf.nested.of_keeps hb hs, fun b rest hblocks => ?_⟩
    have hblocks' : b :: rest <:+ f.blocks := hb ▸ hblocks
    exact hf.pushed_succ hblocks' hcut (hdepth hblocks') hg hblocks hs
  | enters b hb hdepth' hs =>
    have hold {b' : Block} (hb' : b' ∈ f.blocks) : b'.depth ≤ g.stack.length :=
      calc b'.depth ≤ f.floor := hf.nested.depth_le_floor hb'
        _ = (Frame.cut f.stack f.floor).length := (Frame.length_cut hfloor).symm
        _ ≤ g.stack.length := hs.length_le
    refine ⟨⟨?_, ?_⟩, fun b' rest hblocks => ?_⟩
    · rw [hb, List.pairwise_cons, hdepth']
      exact ⟨fun b' hb' => hold hb', hf.nested.sorted⟩
    · rw [hb, List.forall_mem_cons, hdepth']
      exact ⟨Nat.le_refl _, fun b' hb' => hold hb'⟩
    · have hcases := hblocks
      rw [hb, List.suffix_cons_iff] at hcases
      rcases hcases with heq | hold'
      · have hnow : PushedAt σ (i + 1) k g.blocks i g := by
          refine .now hg ?_
          intro f' hf' hsuffix
          cases hf'.symm.trans hfi
          have hlength := hsuffix.length_le
          rw [hb, List.length_cons] at hlength
          omega
        cases heq
        exact ⟨i, g, hb ▸ hnow, hdepth'.symm, List.suffix_rfl⟩
      · exact hf.pushed_succ hold' hcut (hdepth hold') hg hblocks hs
  | leaves removed b rest hbelow hb hkind =>
    exact hf.outside hbelow hg hb List.suffix_rfl
  | caught removed b rest fault below hbelow hb hs hkind hexits hhandled =>
    refine hf.outside hbelow hg hb ?_
    rw [hs]
    exact List.suffix_cons fault.value below
  | cleanup removed b rest fault hbelow hb hkind =>
    obtain ⟨_, hstack, hlength, hsorted, hpairwise⟩ := hf.below hbelow
    refine ⟨⟨?_, ?_⟩, fun b' rest' hblocks => ?_⟩
    · rw [hb, List.pairwise_cons]
      exact ⟨hsorted, hpairwise⟩
    · rw [hb, List.forall_mem_cons, hlength]
      exact ⟨Nat.le_refl _, hsorted⟩
    · have hcases := hblocks
      rw [hb, List.suffix_cons_iff] at hcases
      rcases hcases with heq | hrest
      · -- the cleanup body is a block of its own, although it keeps the place of its guard
        have hnow : PushedAt σ (i + 1) k g.blocks i g := by
          refine .now hg ?_
          intro f' hf' hsuffix
          cases hf'.symm.trans hfi
          have hguard : b :: rest <:+ f.blocks := hbelow.blocks ▸ List.suffix_append removed _
          rw [hb] at hsuffix
          have heq := (List.suffix_of_suffix_length_le hsuffix hguard (Nat.le_refl _)).eq_of_length rfl
          have hbody := congrArg Block.kind (List.cons.inj heq).1
          rw [hkind] at hbody
          cases hbody
        cases heq
        exact ⟨i, g, hb ▸ hnow, hlength, List.suffix_rfl⟩
      · have hmem : b' ∈ rest := hrest.subset List.mem_cons_self
        have hblocks' : b' :: rest' <:+ f.blocks := by
          rw [hbelow.blocks]
          exact (hrest.trans (List.suffix_cons b rest)).trans (List.suffix_append removed _)
        exact hf.pushed_succ hblocks' hstack (hlength ▸ hsorted b' hmem) hg hblocks List.suffix_rfl

/-- A grounded frame that leaves blocks finds the operand stack as it was when the outermost of them
was pushed, with the value of the fault on top if a guard has caught one. -/
theorem Grounded.left_blocks {exits : Prop} {handled : Option Fault} (hf : Grounded σ i k f)
    (h : f.Becomes exits handled g) (hleft : ¬ f.blocks <:+ g.blocks) :
    ∃ removed b rest j h, f.blocks = removed ++ b :: rest ∧
      (g.blocks = rest ∨
        ∃ fault, b.kind = .finallyGuard ∧
          g.blocks = { b with kind := .finallyBody fault } :: rest) ∧
      PushedAt σ i k (b :: rest) j h ∧ h.stack.length = b.depth ∧
      (¬ (b.kind = .exceptGuard ∧ ¬ exits) → g.stack = h.stack) ∧
      (b.kind = .exceptGuard → ¬ exits →
        ∃ fault, handled = some fault ∧ g.stack = fault.value :: h.stack) := by
  have hground {removed rest : List Block} {b : Block} {below : List Value}
      (hbelow : f.Below removed b rest below) :
      ∃ j h, PushedAt σ i k (b :: rest) j h ∧ h.stack.length = b.depth ∧ below = h.stack := by
    have hblocks : b :: rest <:+ f.blocks := hbelow.blocks ▸ List.suffix_append removed _
    obtain ⟨j, h, hpushed, hlength, hstack⟩ := hf.pushed b rest hblocks
    refine ⟨j, h, hpushed, hlength, ?_⟩
    rw [(hf.below hbelow).1, ← hlength, Frame.cut_eq_of_suffix hstack]
  cases h with
  | keeps hb hs => exact absurd (hb ▸ List.suffix_rfl) hleft
  | enters b hb hdepth hs => exact absurd (hb ▸ List.suffix_cons b f.blocks) hleft
  | leaves removed b rest hbelow hb hkind =>
    obtain ⟨j, h, hpushed, hlength, hstack⟩ := hground hbelow
    exact ⟨removed, b, rest, j, h, hbelow.blocks, .inl hb, hpushed, hlength, fun _ => hstack,
      fun hexcept hexits => absurd (hkind hexcept) hexits⟩
  | caught removed b rest fault below hbelow hb hs hkind hexits hhandled =>
    obtain ⟨j, h, hpushed, hlength, hstack⟩ := hground hbelow
    exact ⟨removed, b, rest, j, h, hbelow.blocks, .inl hb, hpushed, hlength,
      fun hnot => absurd ⟨hkind, hexits⟩ hnot, fun _ _ => ⟨fault, hhandled, hstack ▸ hs⟩⟩
  | cleanup removed b rest fault hbelow hb hkind =>
    obtain ⟨j, h, hpushed, hlength, hstack⟩ := hground hbelow
    refine ⟨removed, b, rest, j, h, hbelow.blocks, .inr ⟨fault, hkind, hb⟩, hpushed, hlength,
      fun _ => hstack, fun hexcept => ?_⟩
    cases hkind.symm.trans hexcept

end Histories

/-! ## Runs -/

theorem Context.blocks_start (unit : CodeUnit) (builtins globals : Namespace) :
    ∀ f ∈ (Context.start unit builtins globals).frames, f.blocks = [] := by
  have houtlines := (Context.quiet_setGlobals globals
    { frames := [Frame.start unit .push], builtins }).outlines
  intro f hf
  have hmem : f.outline ∈ (Context.start unit builtins globals).frames.map Frame.outline :=
    List.mem_map_of_mem hf
  rw [Context.start, houtlines, List.map_singleton, List.mem_singleton] at hmem
  exact congrArg Prod.fst hmem

/-- Every state of a careful run is sound, and every frame in it is grounded. -/
theorem Vm.grounded {vm : Vm} {σ : Nat → Progress} {n : Nat} (hsound : (σ 0).Sound)
    (hstart : ∀ f ∈ (σ 0).machine.context.frames, f.blocks = [])
    (hsteps : ∀ i < n, vm.Careful (σ i) (σ (i + 1))) {i : Nat} (hi : i ≤ n) :
    (σ i).Sound ∧ ∀ k f, frameOf? σ i k = some f → Grounded σ i k f := by
  induction i with
  | zero =>
    refine ⟨hsound, fun k f hf => .of_nil (hstart f ?_)⟩
    exact Context.mem_frames_iff_frameAt?.2 ⟨k, hf⟩
  | succ i ih =>
    obtain ⟨hi', hgrounded⟩ := ih (Nat.le_of_succ_le hi)
    obtain ⟨hnext, hfinished | hbecomes⟩ := (hsteps i hi).restored hi'
    · obtain ⟨m, hm, hblocks⟩ := hfinished
      refine ⟨hnext, fun k g hg => .of_nil ?_⟩
      rw [frameOf?, hm] at hg
      exact hblocks g (Context.mem_frames_iff_frameAt?.2 ⟨k, hg⟩)
    · refine ⟨hnext, fun k g hg => ?_⟩
      cases hf : frameOf? σ i k with
      | none => exact .of_nil (hbecomes.fresh k g hf hg)
      | some f =>
        have hfi := hgrounded k f hf
        exact hfi.becomes hf hg (hbecomes.stays k f g hf hg hfi.nested)

/-- In every state of a run in which no instruction takes a value from below a block, the blocks of
all frames are nested. When a frame that stays on the call stack leaves blocks, other than by the
end of the tasklet, its operand stack is as it was when the outermost of them was pushed, with the
value of the fault on top if that block is a guard that catches one. -/
theorem Vm.stack_restoration (vm : Vm) (unit : CodeUnit) (builtins globals modules : Namespace)
    (loader : Option (Names ModuleRef)) (world : World) (σ : Nat → Progress) (n : Nat)
    (hstart : σ 0 = .stopped (.suspended .start)
      { context := { Context.start unit builtins globals with modules, loader }, world })
    (hsteps : ∀ i < n, vm.Careful (σ i) (σ (i + 1))) :
    (∀ i ≤ n, ∀ f ∈ (σ i).machine.context.frames, f.Nested) ∧
    ∀ i < n, (∀ m, σ (i + 1) ≠ .stopped .finished m) →
      ∀ k f g, frameOf? σ i k = some f → frameOf? σ (i + 1) k = some g →
        ¬ f.blocks <:+ g.blocks →
        ∃ removed b rest j h, f.blocks = removed ++ b :: rest ∧
          (g.blocks = rest ∨
            ∃ fault, b.kind = .finallyGuard ∧
              g.blocks = { b with kind := .finallyBody fault } :: rest) ∧
          PushedAt σ i k (b :: rest) j h ∧ h.stack.length = b.depth ∧
          (¬ (b.kind = .exceptGuard ∧ ¬ (σ i).Exits) → g.stack = h.stack) ∧
          (b.kind = .exceptGuard → ¬ (σ i).Exits →
            ∃ fault, (σ (i + 1)).machine.context.handled = some fault ∧
              g.stack = fault.value :: h.stack) := by
  have hgoing := Context.going_start 0 unit builtins globals
  have hsound : (σ 0).Sound := by
    rw [hstart]
    exact ⟨hgoing.sound.ne_nil, hgoing.sound.deliveries⟩
  have hblocks : ∀ f ∈ (σ 0).machine.context.frames, f.blocks = [] := by
    rw [hstart]
    exact Context.blocks_start unit builtins globals
  constructor
  · intro i hi f hf
    obtain ⟨k, hk⟩ := Context.mem_frames_iff_frameAt?.1 hf
    exact ((grounded hsound hblocks hsteps hi).2 k f hk).nested
  · intro i hi hfinished k f g hf hg hleft
    obtain ⟨hi', hgrounded⟩ := grounded hsound hblocks hsteps (Nat.le_of_lt hi)
    obtain ⟨_, ⟨m, hm, _⟩ | hbecomes⟩ := (hsteps i hi).restored hi'
    · exact absurd hm (hfinished m)
    · have hfi := hgrounded k f hf
      exact hfi.left_blocks (hbecomes.stays k f g hf hg hfi.nested) hleft

/-- An effect in a root frame. -/
theorem Vm.Spares.of_ok {vm : Vm} {effect : Exec Control} {m m' : Machine} {control : Control}
    (h : effect m = .ok control m') {f g : Frame} (hf : m.context.frames = [f])
    (hg : m'.context.frames = [g]) (hs : Frame.cut f.stack f.floor <:+ g.stack) :
    vm.Spares effect m := by
  have hone {c c' : Context} {f g : Frame} (hf : c.frames = [f]) (hg : c'.frames = [g])
      (hs : Frame.cut f.stack f.floor <:+ g.stack) : c.Spares c' := by
    intro k f' g' hf' hg' _ _
    have hk := Context.lt_of_frameAt? hf'
    rw [hf, List.length_singleton] at hk
    obtain rfl : k = 0 := by omega
    rw [Context.frameAt?, hf] at hf'
    rw [Context.frameAt?, hg] at hg'
    cases hf'
    cases hg'
    exact hs
  constructor
  · rw [h]
    exact hone hf hg hs
  · simp only [catching]
    rw [h]
    exact hone hg hg (Frame.cut_suffix g.stack g.floor)

namespace LoopRun

/-- A unit that enters a loop with a value on the operand stack, and leaves it with two. -/
def unit : CodeUnit :=
  { bytes := #[0x64, 0, 0, 0x78, 1, 0, 0x64, 0, 0, 0x57], constants := #[.none] }

/-- The block of the loop. -/
def block : Block :=
  { kind := .loop, origin := 6, handler := 7, depth := 1 }

/-- Its frame. -/
def frame (instructionIp ip : Nat) (stack : List Value) (blocks : List Block) : Frame :=
  { Frame.start unit .push with instructionIp, ip, stack, blocks }

/-- The states of a run of it. -/
def state : Nat → Progress
  | 0 => .stopped (.suspended .start) { context := Context.start unit [] [], world := {} }
  | 1 => .running .fetch (state 0).machine
  | i + 2 => (default : Vm).advance .fetch (state (i + 1)).machine

theorem careful_step {i : Nat} {m m' : Machine} (h : state (i + 1) = .running .fetch m)
    {control : Control} (hok : (default : Vm).perform .fetch m = .ok control m') {f g : Frame}
    (hf : m.context.frames = [f]) (hg : m'.context.frames = [g])
    (hs : Frame.cut f.stack f.floor <:+ g.stack) :
    (default : Vm).Careful (state (i + 1)) (state (i + 2)) := by
  show (default : Vm).Careful (state (i + 1))
    ((default : Vm).advance .fetch (state (i + 1)).machine)
  rw [h]
  exact .advance .fetch m (.of_ok hok hf hg hs)

theorem careful (i : Nat) (hi : i < 5) : (default : Vm).Careful (state i) (state (i + 1)) := by
  match i, hi with
  | 0, _ => exact .resume _ .start _ rfl rfl nofun
  | 1, _ => exact careful_step rfl rfl rfl rfl ⟨[.none], rfl⟩
  | 2, _ => exact careful_step rfl rfl rfl rfl ⟨[.none], rfl⟩
  | 3, _ => exact careful_step rfl rfl rfl rfl ⟨[.none], rfl⟩
  | 4, _ => exact careful_step rfl rfl rfl rfl ⟨[], rfl⟩

theorem frameOf?_four :
    frameOf? state 4 0 = some (frame 6 9 [.none, .none] [block]) := by
  rfl

theorem frameOf?_five : frameOf? state 5 0 = some (frame 9 10 [.none] []) := by
  rfl

theorem state_five : ∀ m, state 5 ≠ .stopped .finished m := by
  intro m h
  cases h

end LoopRun

/-- Leaving the loop takes away the value that was pushed in it, and nothing else. -/
theorem LoopRun.stack_restored :
    ∃ f g j h, frameOf? LoopRun.state 4 0 = some f ∧ frameOf? LoopRun.state 5 0 = some g ∧
      f.stack.length = 2 ∧ g.blocks = [] ∧
      PushedAt LoopRun.state 4 0 f.blocks j h ∧ h.stack.length = 1 ∧ g.stack = h.stack := by
  obtain ⟨_, hrestored⟩ := (default : Vm).stack_restoration LoopRun.unit [] [] [] none {}
    LoopRun.state 5 rfl LoopRun.careful
  have hleft : ¬ [LoopRun.block] <:+ [] := fun h => absurd h.length_le (by decide)
  obtain ⟨removed, b, rest, j, h, hf, _, hpushed, hlength, hstack, _⟩ :=
    hrestored 4 (by decide) LoopRun.state_five 0 _ _ LoopRun.frameOf?_four LoopRun.frameOf?_five
      hleft
  have hloop : [LoopRun.block] = removed ++ b :: rest := hf
  obtain ⟨rfl, hb⟩ | ⟨_, hrest⟩ := List.singleton_eq_append_iff.1 hloop
  · cases hb
    exact ⟨_, _, j, h, LoopRun.frameOf?_four, LoopRun.frameOf?_five, rfl, rfl, hpushed, hlength,
      hstack nofun⟩
  · cases hrest

end TaskletMachine
