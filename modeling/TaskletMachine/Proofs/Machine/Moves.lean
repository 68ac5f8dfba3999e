import TaskletMachine.Proofs.Machine.Instructions

/-!
# What one step can do

A step of the machine changes the blocks of at most one frame, and drops or enters frames above that
one; the frames below stay as they are. This is said once here, for every way in which a step can
come out, and every invariant is derived from it.

## Main definitions

* `Frame.Turns`: what can become of the frame that a step works on.
* `Context.Shifts`: what can become of the call stack.
* `Context.Sound`: a call stack on which every result finds its place.
* `Context.Follows`: what can become of the context, for each way of going on.
* `Vm.Meets`: what a step can come to.
-/
namespace TaskletMachine

/-! ## One frame -/

/-- The recorded depths of the blocks grow inwards, and the operand stack is at least as deep as
each of them. -/
structure Frame.Nested (f : Frame) : Prop where
  sorted : f.blocks.Pairwise fun inner outer => outer.depth ≤ inner.depth
  deep : ∀ b ∈ f.blocks, b.depth ≤ f.stack.length

/-- What is left of the operand stack when blocks are left, of which `b` is the outermost. -/
structure Frame.Below (f : Frame) (removed : List Block) (b : Block) (rest : List Block)
    (below : List Value) : Prop where
  blocks : f.blocks = removed ++ b :: rest
  stack : f.Nested → below = cut f.stack b.depth

/-- What can become of a frame. The exits are steps that leave blocks on purpose, and `handled` is
the fault that was caught last afterwards. -/
inductive Frame.Turns (exits : Prop) (handled : Option Fault) (f g : Frame) : Prop
  /-- The blocks stay. -/
  | keeps (hb : g.blocks = f.blocks) (hd : g.delivery = f.delivery)
  /-- A block is entered. -/
  | enters (b : Block) (hb : g.blocks = b :: f.blocks) (hd : g.delivery = f.delivery)
      (hdepth : b.depth = g.stack.length)
  /-- Blocks are left. -/
  | leaves (removed : List Block) (b : Block) (rest : List Block)
      (hbelow : f.Below removed b rest g.stack) (hb : g.blocks = rest)
      (hd : g.delivery = f.delivery) (hkind : b.kind = .exceptGuard → exits)
  /-- A fault is caught by a guard. -/
  | caught (removed : List Block) (b : Block) (rest : List Block) (fault : Fault)
      (below : List Value) (hbelow : f.Below removed b rest below) (hb : g.blocks = rest)
      (hd : g.delivery = f.delivery) (hs : g.stack = fault.value :: below)
      (hkind : b.kind = .exceptGuard) (hexits : ¬ exits) (hhandled : handled = some fault)
  /-- A fault enters a cleanup body, which keeps the place of its guard. -/
  | cleanup (removed : List Block) (b : Block) (rest : List Block) (fault : Fault)
      (hbelow : f.Below removed b rest g.stack)
      (hb : g.blocks = { b with kind := .finallyBody fault } :: rest)
      (hd : g.delivery = f.delivery) (hkind : b.kind = .finallyGuard)

theorem Frame.Turns.delivery_eq {exits : Prop} {handled : Option Fault} {f g : Frame}
    (h : f.Turns exits handled g) : g.delivery = f.delivery := by
  cases h <;> assumption

/-! ## Call stacks -/

/-- Whether the result of a call is meant for its caller, or the call is the body of a class. -/
def Delivery.Sound : Delivery → Prop
  | finishClass _ _ => True
  | d => d.Plain

theorem Delivery.Plain.sound {d : Delivery} (h : d.Plain) : d.Sound := by
  cases d <;> trivial

theorem Delivery.Sound.plain {d : Delivery} (h : d.Sound)
    (hclass : ∀ name bases, d ≠ finishClass name bases) : d.Plain := by
  cases d with
  | finishClass name bases => exact absurd rfl (hclass name bases)
  | _ => exact h

/-- There is a frame, and every frame knows what becomes of its result. -/
structure Context.Sound (c : Context) : Prop where
  ne_nil : c.frames ≠ []
  deliveries : ∀ f ∈ c.frames, f.delivery.Sound

/-- What one step does to the call stack: frames are dropped from the top or one is entered, the
frame below them turns, and its callers stay. -/
inductive Context.Shifts (limit : Nat) (exits : Prop) (c c' : Context) : Prop
  | drop (dropped : List Frame) (f g : Frame) (callers callers' : List Frame)
      (hc : c.frames = dropped ++ f :: callers) (hc' : c'.frames = g :: callers')
      (hsame : SameFrames callers callers') (hturn : f.Turns exits c'.handled g)
  | enter (entered f g : Frame) (callers callers' : List Frame)
      (hc : c.frames = f :: callers) (hc' : c'.frames = entered :: g :: callers')
      (hsame : SameFrames callers callers') (hb : g.blocks = f.blocks)
      (hd : g.delivery = f.delivery) (hfresh : entered.blocks = [])
      (hsound : entered.delivery.Sound) (hlimit : c.frames.length < limit)

/-- Frames are dropped from the top, and the frame below them keeps its outline. -/
structure Context.Drops (c c' : Context) : Prop where
  frames : ∃ dropped f g callers callers', c.frames = dropped ++ f :: callers ∧
    c'.frames = g :: callers' ∧ g.outline = f.outline ∧ SameFrames callers callers'

theorem Context.Drops.shifts {limit : Nat} {exits : Prop} {c c' : Context} (h : c.Drops c') :
    c.Shifts limit exits c' := by
  obtain ⟨dropped, f, g, callers, callers', hc, hc', hg, hsame⟩ := h.frames
  exact .drop dropped f g callers callers' hc hc' hsame
    (.keeps (congrArg Prod.fst hg) (congrArg Prod.snd hg))

/-! ## All ways of going on -/

/-- The root frame has come to its end. -/
structure Context.Finishes (c c' : Context) : Prop where
  root : ∃ f g, c.frames = [f] ∧ c'.frames = [g] ∧ g.delivery = f.delivery
  finished : c'.isFinished
  fault : c'.fault = c.fault
  fatal : c'.fatal = c.fatal

/-- What becomes of the context when a step ends neither the tasklet nor in an unhandled fault. -/
structure Context.GoesOn (limit : Nat) (exits : Prop) (c c' : Context) : Prop where
  shifts : c.Shifts limit exits c'
  fault : c.fault = none → c'.fault = none
  fatal : c'.fatal = c.fatal

/-- What becomes of the context, for each way of going on. -/
def Context.Follows (limit : Nat) (exits : Prop) (c : Context) : Control → Context → Prop
  | .finished, c' => c.Finishes c'
  | .faulted, c' => c.Shifts limit exits c' ∧ c'.isUnhandled ∧ c'.fatal = c.fatal
  | _, c' => c.GoesOn limit exits c'

/-- What a step can come to, if frames can be entered up to a limit. What is said about the context
needs a sound one. -/
def Vm.Meets (vm : Vm) (limit : Nat) (exits : Prop) (m : Machine) :
    EStateM.Result Error Machine Control → Prop
  | .ok control m' =>
    m.world.Follows control m'.world ∧
      (m.context.Sound → m.context.Follows limit exits control m'.context)
  | .error e m' =>
    m.world.Evolves m'.world ∧
      (m.context.Sound →
        m.context.GoesOn limit exits m'.context ∧
        (e.IsInternal → m'.world.Brings vm.host e) ∧
        (e.isGuest → ¬ exits ∧ m.context.Drops m'.context))

/-! ## Higher limits -/

section Limits

variable {limit limit' : Nat} {exits : Prop} {c c' : Context}

theorem Context.Shifts.mono (h : c.Shifts limit exits c') (hl : limit ≤ limit') :
    c.Shifts limit' exits c' := by
  cases h with
  | drop dropped f g callers callers' hc hc' hsame hturn =>
    exact .drop dropped f g callers callers' hc hc' hsame hturn
  | enter entered f g callers callers' hc hc' hsame hb hd hfresh hsound hlimit =>
    exact .enter entered f g callers callers' hc hc' hsame hb hd hfresh hsound (by omega)

theorem Context.GoesOn.mono (h : c.GoesOn limit exits c') (hl : limit ≤ limit') :
    c.GoesOn limit' exits c' :=
  ⟨h.shifts.mono hl, h.fault, h.fatal⟩

theorem Context.Follows.mono {control : Control} (h : c.Follows limit exits control c')
    (hl : limit ≤ limit') : c.Follows limit' exits control c' := by
  cases control with
  | finished => exact h
  | faulted => exact ⟨h.1.mono hl, h.2⟩
  | next => exact GoesOn.mono h hl
  | call pending => exact GoesOn.mono h hl
  | suspend k => exact GoesOn.mono h hl

theorem Vm.Meets.mono {vm : Vm} {m : Machine} {r : EStateM.Result Error Machine Control}
    (h : vm.Meets limit exits m r) (hl : limit ≤ limit') : vm.Meets limit' exits m r := by
  cases r with
  | ok control m' => exact ⟨h.1, fun hm => (h.2 hm).mono hl⟩
  | error e m' => exact ⟨h.1, fun hm => ⟨(h.2 hm).1.mono hl, (h.2 hm).2⟩⟩

end Limits

/-! ## Quiet changes -/

section Quiet

variable {limit : Nat} {exits : Prop} {c c₁ c' : Context} {f : Frame} {callers : List Frame}

theorem Context.Quiet.cons (h : c.Quiet c') (hc : c.frames = f :: callers) :
    ∃ g callers', c'.frames = g :: callers' ∧ g.outline = f.outline ∧
      SameFrames callers callers' := by
  have houtlines := h.outlines
  have hstandings := h.standings
  rw [hc, List.map_cons] at houtlines
  obtain ⟨g, callers', hc', hg, hcallers⟩ := List.map_eq_cons_iff.1 houtlines
  rw [hc, hc', List.tail_cons, List.tail_cons] at hstandings
  exact ⟨g, callers', hc', hg, hcallers, hstandings⟩

/-- A quiet change after frames have been dropped. -/
theorem Context.Quiet.drops (h : c₁.Quiet c') (dropped : List Frame)
    (hc : c.frames = dropped ++ c₁.frames) (hne : c₁.frames ≠ []) : c.Drops c' := by
  obtain ⟨f, callers, hc₁⟩ := List.exists_cons_of_ne_nil hne
  obtain ⟨g, callers', hc', hg, hsame⟩ := h.cons hc₁
  exact ⟨dropped, f, g, callers, callers', hc₁ ▸ hc, hc', hg, hsame⟩

theorem Context.Quiet.shifts (h : c.Quiet c') (hne : c.frames ≠ []) : c.Shifts limit exits c' :=
  (h.drops [] rfl hne).shifts

theorem Context.Quiet.goesOn (h : c.Quiet c') (hne : c.frames ≠ []) : c.GoesOn limit exits c' :=
  ⟨h.shifts hne, fun hfault => h.fault.trans hfault, h.fatal⟩

/-- A frame is entered after a quiet change. -/
theorem Context.Quiet.enter {entered : Frame} (h : c.Quiet c₁) (hne : c.frames ≠ [])
    (hfresh : entered.blocks = []) (hsound : entered.delivery.Sound)
    (hlimit : c.frames.length < limit) :
    c.GoesOn limit exits { c₁ with frames := entered :: c₁.frames } := by
  obtain ⟨f, callers, hc⟩ := List.exists_cons_of_ne_nil hne
  obtain ⟨g, callers', hc₁, hg, hsame⟩ := h.cons hc
  refine ⟨?_, fun hfault => h.fault.trans hfault, h.fatal⟩
  exact .enter entered f g callers callers' hc (by rw [hc₁]) hsame (congrArg Prod.fst hg)
    (congrArg Prod.snd hg) hfresh hsound hlimit

end Quiet

/-! ## The innermost frame -/

section Top

variable {limit : Nat} {exits : Prop} {c c' : Context} {f g : Frame} {callers : List Frame}

/-- Where a frame stands in its code does not matter to what becomes of it. -/
theorem Frame.Turns.of_moved {handled : Option Fault} {ip instructionIp : Nat}
    (h : Frame.Turns exits handled { f with ip, instructionIp } g) : f.Turns exits handled g := by
  have hmoved {removed b rest below}
      (hbelow : Frame.Below { f with ip, instructionIp } removed b rest below) :
      f.Below removed b rest below :=
    ⟨hbelow.blocks, fun hf => hbelow.stack ⟨hf.sorted, hf.deep⟩⟩
  cases h with
  | keeps hb hd => exact .keeps hb hd
  | enters b hb hd hdepth => exact .enters b hb hd hdepth
  | leaves removed b rest hbelow hb hd hkind =>
    exact .leaves removed b rest (hmoved hbelow) hb hd hkind
  | caught removed b rest fault below hbelow hb hd hs hkind hexits hhandled =>
    exact .caught removed b rest fault below (hmoved hbelow) hb hd hs hkind hexits hhandled
  | cleanup removed b rest fault hbelow hb hd hkind =>
    exact .cleanup removed b rest fault (hmoved hbelow) hb hd hkind

theorem Context.Shifts.of_moved {ip instructionIp : Nat} (hc : c.frames = f :: callers)
    (h : Context.Shifts limit exits
      { c with frames := { f with ip, instructionIp } :: callers } c') :
    c.Shifts limit exits c' := by
  cases h with
  | drop dropped f₁ g callers₁ callers' hmoved hc' hsame hturn =>
    cases dropped with
    | nil =>
      cases hmoved
      exact .drop [] f g callers callers' hc hc' hsame hturn.of_moved
    | cons f₀ dropped =>
      rw [List.cons_append, List.cons.injEq] at hmoved
      refine .drop (f :: dropped) f₁ g callers₁ callers' ?_ hc' hsame hturn
      rw [hc, hmoved.2, List.cons_append]
  | enter entered f₁ g callers₁ callers' hmoved hc' hsame hb hd hfresh hsound hlimit =>
    cases hmoved
    refine .enter entered f g callers callers' hc hc' hsame hb hd hfresh hsound ?_
    rw [hc]
    exact hlimit

theorem Context.Drops.of_moved {ip instructionIp : Nat} (hc : c.frames = f :: callers)
    (h : Context.Drops { c with frames := { f with ip, instructionIp } :: callers } c') :
    c.Drops c' := by
  obtain ⟨dropped, f₁, g, callers₁, callers', hmoved, hc', hg, hsame⟩ := h.frames
  cases dropped with
  | nil =>
    cases hmoved
    exact ⟨[], f, g, callers, callers', hc, hc', hg, hsame⟩
  | cons f₀ dropped =>
    rw [List.cons_append, List.cons.injEq] at hmoved
    refine ⟨f :: dropped, f₁, g, callers₁, callers', ?_, hc', hg, hsame⟩
    rw [hc, hmoved.2, List.cons_append]

theorem Context.GoesOn.of_moved {ip instructionIp : Nat} (hc : c.frames = f :: callers)
    (h : Context.GoesOn limit exits
      { c with frames := { f with ip, instructionIp } :: callers } c') :
    c.GoesOn limit exits c' :=
  ⟨h.shifts.of_moved hc, h.fault, h.fatal⟩

/-- The innermost frame turns. -/
theorem Context.GoesOn.of_turns (hc : c.frames = f :: callers) (h : f.Turns exits c.handled g) :
    c.GoesOn limit exits { c with frames := g :: callers } :=
  ⟨.drop [] f g callers callers hc rfl ⟨rfl, rfl⟩ h, id, rfl⟩

end Top

/-! ## Results -/

namespace Vm.Meets

variable {vm : Vm} {limit : Nat} {exits : Prop} {m : Machine}

/-- A computation that stays within the frame on which it starts, after frames have been dropped. -/
theorem of_stays_drop {r : EStateM.Result Error Machine Control} (dropped : List Frame) {c : Context}
    (hr : vm.Stays { m with context := c } r) (hexits : ¬ exits)
    (hm : m.context.frames = dropped ++ c.frames) (hne : m.context.frames ≠ [] → c.frames ≠ [])
    (hfault : m.context.fault = none → c.fault = none) (hfatal : c.fatal = m.context.fatal) :
    vm.Meets limit exits m r := by
  have hdrops {c' : Context} (hq : c.Quiet c') (h : m.context.Sound) : m.context.Drops c' :=
    hq.drops dropped hm (hne h.ne_nil)
  have hgoes {c' : Context} (hq : c.Quiet c') (h : m.context.Sound) :
      m.context.GoesOn limit exits c' :=
    ⟨(hdrops hq h).shifts, fun hnone => hq.fault.trans (hfault hnone), hq.fatal.trans hfatal⟩
  cases r with
  | error e m' =>
    obtain ⟨hq, hbrings⟩ := hr
    exact ⟨hq.world, fun hm => ⟨hgoes hq.context hm, hbrings (hne hm.ne_nil),
      fun _ => ⟨hexits, hdrops hq.context hm⟩⟩⟩
  | ok control m' =>
    obtain ⟨hq, hfollows, hlasts⟩ := hr
    refine ⟨hfollows, fun hm => ?_⟩
    cases control with
    | next => exact hgoes hq hm
    | call c => exact hgoes hq hm
    | suspend k => exact hgoes hq hm
    | finished => exact hlasts.elim
    | faulted => exact hlasts.elim

theorem of_stays {r : EStateM.Result Error Machine Control} (hr : vm.Stays m r) (hexits : ¬ exits) :
    vm.Meets limit exits m r :=
  of_stays_drop [] hr hexits rfl id id rfl

/-- What goes on after the world has evolved. -/
theorem of_evolves {m₁ : Machine} {r : EStateM.Result Error Machine Control}
    (hc : m₁.context = m.context) (hw : m.world.Evolves m₁.world) (h : vm.Meets limit exits m₁ r) :
    vm.Meets limit exits m r := by
  cases r with
  | error e m' => exact ⟨hw.trans h.1, hc ▸ h.2⟩
  | ok control m' => exact ⟨.of_evolves hw h.1, hc ▸ h.2⟩

/-- What an instruction comes to, after the frame has been moved past it. -/
theorem of_moved {f : Frame} {callers : List Frame} {ip instructionIp : Nat}
    {r : EStateM.Result Error Machine Control} (hm : m.context.frames = f :: callers)
    (h : vm.Meets limit exits { m with context := { m.context with
      frames := { f with ip, instructionIp } :: callers } } r) :
    vm.Meets limit exits m r := by
  have hsound (hs : m.context.Sound) : Context.Sound { m.context with
      frames := { f with ip, instructionIp } :: callers } := by
    have hdeliveries := hs.deliveries
    rw [hm, List.forall_mem_cons] at hdeliveries
    exact ⟨List.cons_ne_nil _ _, List.forall_mem_cons.2 hdeliveries⟩
  cases r with
  | error e m' =>
    refine ⟨h.1, fun hs => ?_⟩
    obtain ⟨hgoes, hbrings, hguest⟩ := h.2 (hsound hs)
    exact ⟨hgoes.of_moved hm, hbrings, fun he => ⟨(hguest he).1, (hguest he).2.of_moved hm⟩⟩
  | ok control m' =>
    refine ⟨h.1, fun hs => ?_⟩
    have hfollows := h.2 (hsound hs)
    cases control with
    | finished =>
      obtain ⟨⟨f₁, g, hmoved, hc', hd⟩, hfinished, hfault, hfatal⟩ := hfollows
      cases hmoved
      exact ⟨⟨f, g, hm, hc', hd⟩, hfinished, hfault, hfatal⟩
    | faulted => exact ⟨hfollows.1.of_moved hm, hfollows.2⟩
    | next => exact hfollows.of_moved hm
    | call c => exact hfollows.of_moved hm
    | suspend k => exact hfollows.of_moved hm

end Vm.Meets

end TaskletMachine
