import TaskletMachine.Proofs.Machine.Steps

/-!
# The life of a tasklet

A tasklet is resumed again and again, each time with the continuation that the last run has left.
Its call stack is never empty and never too deep, a fault is pending only when a run ends in one, no
internal failure occurs, and a tasklet that has ended stays as it is.

## Main definitions

* `Context.Bounded`, `Context.Going`: the invariants of a call stack and of a run.
* `Vm.Session`: a tasklet between two resumptions.
* `Vm.Visits`: what a resumption passes through.
* `Vm.Session.lifecycle`: what holds on the way, and how a resumption ends.
-/
namespace TaskletMachine

open Exec

/-! ## Invariants -/

/-- The call stack is sound, and it is not too deep. -/
structure Context.Bounded (limit : Nat) (c : Context) : Prop where
  sound : c.Sound
  depth : c.frames.length ≤ max 1 limit

/-- The tasklet has not ended, and no fault is on its way. -/
structure Context.Going (limit : Nat) (c : Context) : Prop extends c.Bounded limit where
  fault : c.fault = none
  fatal : c.fatal = none

/-- Whether a continuation keeps its result within the frame. -/
def Continuation.Plain : Continuation → Prop
  | await _ delivery => delivery.Plain
  | _ => True

section Shifts

variable {limit : Nat} {exits : Prop} {c c' : Context}

theorem SameFrames.deliveries {frames frames' : List Frame} (h : SameFrames frames frames') :
    frames'.map Frame.delivery = frames.map Frame.delivery := by
  have houtlines := congrArg (List.map Prod.snd) h.outlines
  rwa [List.map_map, List.map_map] at houtlines

theorem SameFrames.sound {frames frames' : List Frame} (h : SameFrames frames frames')
    (hs : ∀ f ∈ frames, f.delivery.Sound) : ∀ f ∈ frames', f.delivery.Sound := by
  rw [← List.forall_mem_map (f := Frame.delivery) (P := Delivery.Sound)] at hs ⊢
  rwa [h.deliveries]

theorem Context.Shifts.sound (h : c.Shifts limit exits c') (hc : c.Sound) : c'.Sound := by
  have hdeliveries := hc.deliveries
  cases h with
  | drop dropped f g callers callers' hframes hframes' hsame hturn =>
    rw [hframes, List.forall_mem_append, List.forall_mem_cons] at hdeliveries
    refine ⟨by rw [hframes']; exact List.cons_ne_nil _ _, ?_⟩
    rw [hframes', List.forall_mem_cons, hturn.delivery_eq]
    exact ⟨hdeliveries.2.1, hsame.sound hdeliveries.2.2⟩
  | enter entered f g callers callers' hframes hframes' hsame hb hd hfresh hsound hlimit =>
    rw [hframes, List.forall_mem_cons] at hdeliveries
    refine ⟨by rw [hframes']; exact List.cons_ne_nil _ _, ?_⟩
    rw [hframes', List.forall_mem_cons, List.forall_mem_cons, hd]
    exact ⟨hsound, hdeliveries.1, hsame.sound hdeliveries.2⟩

theorem Context.Shifts.bounded (h : c.Shifts limit exits c') (hc : c.Bounded limit) :
    c'.Bounded limit := by
  refine ⟨h.sound hc.sound, ?_⟩
  have hdepth := hc.depth
  cases h with
  | drop dropped f g callers callers' hframes hframes' hsame hturn =>
    rw [hframes, List.length_append, List.length_cons] at hdepth
    rw [hframes', List.length_cons, hsame.length_eq]
    omega
  | enter entered f g callers callers' hframes hframes' hsame hb hd hfresh hsound hlimit =>
    rw [hframes, List.length_cons] at hlimit
    rw [hframes', List.length_cons, List.length_cons, hsame.length_eq]
    omega

theorem Context.GoesOn.going (h : c.GoesOn limit exits c') (hc : c.Going limit) :
    c'.Going limit :=
  ⟨h.shifts.bounded hc.toBounded, h.fault hc.fault, h.fatal.trans hc.fatal⟩

theorem Context.Finishes.sound (h : c.Finishes c') (hc : c.Sound) : c'.Sound := by
  obtain ⟨f, g, hframes, hframes', hd⟩ := h.root
  refine ⟨by rw [hframes']; exact List.cons_ne_nil _ _, ?_⟩
  rw [hframes', List.forall_mem_singleton, hd]
  exact hc.deliveries f (hframes ▸ List.mem_cons_self)

theorem Context.Finishes.going (h : c.Finishes c') (hc : c.Going limit) : c'.Going limit := by
  refine ⟨⟨h.sound hc.sound, ?_⟩, h.fault.trans hc.fault, h.fatal.trans hc.fatal⟩
  obtain ⟨f, g, hframes, hframes', hd⟩ := h.root
  have hdepth := hc.depth
  rw [hframes] at hdepth
  rw [hframes']
  exact hdepth

end Shifts

/-! ## Steps -/

/-- The machine that a step leads to. -/
def Progress.machine : Progress → Machine
  | running _ m => m
  | stopped _ m => m

/-- What holds of a tasklet on its way and when a run ends. -/
def Progress.Lawful (limit : Nat) : Progress → Prop
  | .running phase m => m.context.Going limit ∧ phase.Plain
  | .stopped (.suspended k) m => m.context.Going limit ∧ k.Plain
  | .stopped .finished m => m.context.Going limit ∧ m.context.isFinished
  | .stopped .faulted m =>
    m.context.Bounded limit ∧ m.context.isUnhandled ∧ m.context.fatal = none
  | .stopped .fatal m =>
    m.context.Bounded limit ∧ m.context.fault = none ∧ m.context.fatal.isSome

/-- A tasklet that ends by an internal failure has got it from outside. -/
def Progress.Excused (host : Host) : Progress → Prop
  | .stopped .fatal m => ∀ e, m.context.fatal = some e → e.IsInternal →
    ∃ e', e'.cause = e.cause ∧ m.world.Brings host e'
  | _ => True

namespace Vm

variable {vm : Vm} {limit : Nat} {exits : Prop} {m : Machine}

theorem lawful_failWith {e : Error} (h : m.context.Going limit) :
    (Progress.stopped .fatal (failWith e m)).Lawful limit :=
  ⟨⟨⟨h.sound.ne_nil, h.sound.deliveries⟩, h.depth⟩, h.fault, rfl⟩

theorem lawful_proceed {next : Machine → Progress} {r : EStateM.Result Error Machine Control}
    (hnext : ∀ m, m.context.Going limit → (next m).Lawful limit)
    (hm : m.context.Going limit) (h : vm.Meets limit exits m r) :
    (proceed next r).Lawful limit := by
  cases r with
  | error e m' => exact lawful_failWith ((h.2 hm.sound).1.going hm)
  | ok control m' =>
    obtain ⟨hworld, hcontext⟩ := h
    have hfollows := hcontext hm.sound
    match control, hworld, hfollows with
    | .next, _, hgoes => exact hnext m' (hgoes.going hm)
    | .call c, hworld, hgoes => exact ⟨hgoes.going hm, hworld.2⟩
    | .suspend .start, hworld, _ => exact hworld.elim
    | .suspend .resume, _, hgoes => exact ⟨hgoes.going hm, trivial⟩
    | .suspend (.await p d), hworld, hgoes => exact ⟨hgoes.going hm, hworld.1⟩
    | .finished, _, hfinishes => exact ⟨hfinishes.going hm, hfinishes.finished⟩
    | .faulted, _, ⟨hshifts, hunhandled, hfatal⟩ =>
      exact ⟨hshifts.bounded hm.toBounded, hunhandled, hfatal.trans hm.fatal⟩

theorem excused_proceed {next : Machine → Progress} {r : EStateM.Result Error Machine Control}
    (hnext : ∀ m, (next m).Excused vm.host) (hm : m.context.Sound)
    (h : vm.Meets limit exits m r) : (proceed next r).Excused vm.host := by
  match r, h with
  | .error e m', h =>
    rintro _ ⟨rfl⟩ he
    exact ⟨e, rfl, (h.2 hm).2.1 he⟩
  | .ok .next m', _ => exact hnext m'
  | .ok (.call c) m', _ => trivial
  | .ok (.suspend k) m', _ => trivial
  | .ok .finished m', _ => trivial
  | .ok .faulted m', _ => trivial

/-- An error that guest code can catch is raised where the effect has left the machine. -/
theorem meets_catching {effect : Exec Control} (hm : m.context.Going limit)
    (h : vm.Meets limit exits m (effect m)) :
    ∃ m₁, m₁.context.Going limit ∧ vm.Meets limit exits m₁ (vm.catching effect m) := by
  simp only [catching]
  cases hr : effect m with
  | ok control m' =>
    rw [hr] at h
    exact ⟨m, hm, h⟩
  | error e m' =>
    rw [hr] at h
    dsimp only
    split
    · next hguest =>
      obtain ⟨hgoes, _, hexits⟩ := h.2 hm.sound
      exact ⟨m', hgoes.going hm, .raiseError vm (hexits hguest).1 hguest m'⟩
    · exact ⟨m, hm, h⟩

theorem lawful_conclude {next : Machine → Progress} {effect : Exec Control}
    (hnext : ∀ m, m.context.Going limit → (next m).Lawful limit)
    (hm : m.context.Going limit) (h : vm.Meets limit exits m (effect m)) :
    (vm.conclude next effect m).Lawful limit := by
  obtain ⟨m₁, hm₁, hmeets⟩ := meets_catching hm h
  exact lawful_proceed hnext hm₁ hmeets

theorem excused_conclude {next : Machine → Progress} {effect : Exec Control}
    (hnext : ∀ m, (next m).Excused vm.host) (hm : m.context.Going limit)
    (h : vm.Meets limit exits m (effect m)) : (vm.conclude next effect m).Excused vm.host := by
  obtain ⟨m₁, hm₁, hmeets⟩ := meets_catching hm h
  exact excused_proceed hnext hm₁.sound hmeets

theorem lawful_afterInstruction (h : m.context.Going limit) :
    (vm.afterInstruction m).Lawful limit := by
  simp only [afterInstruction]
  split
  · exact ⟨h, trivial⟩
  · exact ⟨h, trivial⟩

theorem excused_afterInstruction (vm : Vm) (m : Machine) :
    (vm.afterInstruction m).Excused vm.host := by
  simp only [afterInstruction]
  split <;> trivial

/-- One step keeps the invariants. -/
theorem lawful_advance (hl : vm.maxCallDepth ≤ limit) {phase : Phase}
    (h : (Progress.running phase m).Lawful limit) :
    (vm.advance phase m).Lawful limit ∧ (vm.advance phase m).Excused vm.host := by
  have hmeets := (Meets.perform vm h.2 m).mono hl
  exact ⟨lawful_conclude (fun _ => lawful_afterInstruction) h.1 hmeets,
    excused_conclude (fun m => excused_afterInstruction vm m) h.1 hmeets⟩

/-- So does the beginning of a resumption. -/
theorem lawful_resumption {k : Continuation} (hm : m.context.Going limit)
    (hk : k.Plain) :
    (vm.resumption k m).Lawful limit ∧ (vm.resumption k m).Excused vm.host := by
  cases k with
  | start => exact ⟨⟨hm, trivial⟩, trivial⟩
  | resume => exact ⟨⟨hm, trivial⟩, trivial⟩
  | await p d =>
    simp only [resumption]
    cases hs : (m.world.promise p).settled with
    | none => exact ⟨⟨hm, hk⟩, trivial⟩
    | some s =>
      have hmeets : vm.Meets limit False m (handOver s d m) := .of_stays (.handOver hs hk) id
      exact ⟨lawful_conclude (fun _ h => ⟨h, trivial⟩) hm hmeets,
        excused_conclude (fun _ => trivial) hm hmeets⟩

/-! ## Resumptions -/

/-- Where a resumption begins: a tasklet that has ended in an error stays as it is. -/
def entry (vm : Vm) (k : Continuation) (m : Machine) : Progress :=
  if m.context.fatal.isSome then .stopped .fatal m
  else if m.context.isUnhandled then .stopped .faulted m
  else vm.resumption k m

/-- What a resumption passes through. -/
inductive Visits (vm : Vm) (k : Continuation) (m : Machine) : Progress → Prop
  | begin (hfatal : m.context.fatal = none) (hunhandled : m.context.isUnhandled = false) :
      Visits vm k m (vm.resumption k m)
  | step {phase : Phase} {m' : Machine} (h : Visits vm k m (.running phase m')) :
      Visits vm k m (vm.advance phase m')

theorem Visits.runFor {k : Continuation} {p : Progress} (h : vm.Visits k m p) {steps : Nat}
    {o : RunOutcome} {m' : Machine} (hrun : vm.runFor steps p = some (o, m')) :
    vm.Visits k m (.stopped o m') := by
  induction steps generalizing p with
  | zero =>
    cases p with
    | stopped o m =>
      cases hrun
      exact h
    | running phase m => cases hrun
  | succ steps ih =>
    cases p with
    | stopped o m =>
      cases hrun
      exact h
    | running phase m => exact ih h.step hrun

theorem resume_eq (vm : Vm) (steps : Nat) (k : Continuation) (m : Machine) :
    vm.resume steps k m = vm.runFor steps (vm.entry k m) := by
  unfold resume entry
  split
  · cases steps <;> rfl
  · split
    · cases steps <;> rfl
    · rfl

/-- Either the tasklet has ended, or the run begins. -/
theorem entry_cases (vm : Vm) (k : Continuation) (m : Machine) :
    (∃ o, vm.entry k m = .stopped o m) ∨ vm.Visits k m (vm.entry k m) := by
  unfold entry
  by_cases hfatal : m.context.fatal.isSome
  · rw [if_pos hfatal]
    exact .inl ⟨.fatal, rfl⟩
  · rw [if_neg hfatal]
    by_cases hunhandled : m.context.isUnhandled
    · rw [if_pos hunhandled]
      exact .inl ⟨.faulted, rfl⟩
    · rw [if_neg hunhandled]
      exact .inr (.begin (Option.not_isSome_iff_eq_none.1 hfatal) (Bool.eq_false_iff.2 hunhandled))

/-- A tasklet between two resumptions, with the continuation of the next one. In between, the host
may change the world, the globals and the loader in any way. -/
inductive Session (vm : Vm) : Continuation → Machine → Prop
  | start (unit : CodeUnit) (builtins globals modules : Namespace)
      (loader : Option (Names ModuleRef)) (world : World) :
      Session vm .start
        { context := { Context.start unit builtins globals with modules, loader }, world }
  | outside {k : Continuation} {m : Machine} (h : Session vm k m) (world : World) :
      Session vm k { m with world }
  | setGlobal {k : Continuation} {m : Machine} (h : Session vm k m) (name : String) (v : Value) :
      Session vm k { m with context := m.context.setGlobal name v }
  | setLoader {k : Continuation} {m : Machine} (h : Session vm k m)
      (loader : Option (Names ModuleRef)) :
      Session vm k { m with context := { m.context with loader } }
  | resume {k : Continuation} {m : Machine} (h : Session vm k m) {steps : Nat} {o : RunOutcome}
      {m' : Machine} (hrun : vm.resume steps k m = some (o, m')) : Session vm o.next m'

end Vm

/-! ## Between resumptions -/

/-- What holds between two resumptions: the tasklet can go on, or it has ended by a fault or by a
failure. -/
def Context.Between (limit : Nat) (k : Continuation) (c : Context) : Prop :=
  (c.Going limit ∧ k.Plain) ∨ (c.Bounded limit ∧ c.isUnhandled ∧ c.fatal = none) ∨
    (c.Bounded limit ∧ c.fault = none ∧ c.fatal.isSome)

section Between

variable {limit : Nat} {k : Continuation} {c c' : Context}

theorem Context.Quiet.bounded (h : c.Quiet c') (hc : c.Bounded limit) : c'.Bounded limit :=
  (h.shifts hc.sound.ne_nil : c.Shifts limit True c').bounded hc

theorem Context.Quiet.going (h : c.Quiet c') (hc : c.Going limit) : c'.Going limit :=
  (h.goesOn hc.sound.ne_nil : c.GoesOn limit True c').going hc

theorem Context.Quiet.isUnhandled_eq (h : c.Quiet c') : c'.isUnhandled = c.isUnhandled := by
  simp only [isUnhandled]
  rw [h.fault]
  cases hc : c.frames with
  | nil => rw [h.frames_eq_nil.2 hc]
  | cons f callers =>
    obtain ⟨g, callers', hc', hg, hsame⟩ := h.cons hc
    rw [hc']
    cases callers with
    | nil =>
      have hblocks : g.blocks = f.blocks := congrArg Prod.fst hg
      rw [List.eq_nil_of_length_eq_zero hsame.length_eq]
      dsimp only
      rw [hblocks]
    | cons caller rest =>
      cases callers' with
      | nil => cases hsame.length_eq
      | cons _ _ => rfl

theorem Context.Quiet.between (h : c.Quiet c') (hc : c.Between limit k) : c'.Between limit k := by
  rcases hc with ⟨hgoing, hk⟩ | ⟨hbounded, hunhandled, hfatal⟩ | ⟨hbounded, hfault, hfatal⟩
  · exact .inl ⟨h.going hgoing, hk⟩
  · exact .inr (.inl ⟨h.bounded hbounded, h.isUnhandled_eq.trans hunhandled,
      h.fatal.trans hfatal⟩)
  · exact .inr (.inr ⟨h.bounded hbounded, h.fault.trans hfault, h.fatal ▸ hfatal⟩)

theorem Context.Bounded.mono {limit' : Nat} (h : c.Bounded limit) (hl : limit ≤ limit') :
    c.Bounded limit' :=
  ⟨h.sound, Nat.le_trans h.depth (by omega)⟩

theorem Context.Going.mono {limit' : Nat} (h : c.Going limit) (hl : limit ≤ limit') :
    c.Going limit' :=
  ⟨h.toBounded.mono hl, h.fault, h.fatal⟩

theorem Context.Between.mono {limit' : Nat} (h : c.Between limit k) (hl : limit ≤ limit') :
    c.Between limit' k := by
  rcases h with ⟨hgoing, hk⟩ | ⟨hbounded, hended⟩ | ⟨hbounded, hended⟩
  · exact .inl ⟨hgoing.mono hl, hk⟩
  · exact .inr (.inl ⟨hbounded.mono hl, hended⟩)
  · exact .inr (.inr ⟨hbounded.mono hl, hended⟩)

theorem Progress.Lawful.between {o : RunOutcome} {m : Machine}
    (h : (Progress.stopped o m).Lawful limit) : m.context.Between limit o.next := by
  cases o with
  | finished => exact .inl ⟨h.1, trivial⟩
  | suspended k => exact .inl h
  | faulted => exact .inr (.inl h)
  | fatal => exact .inr (.inr h)

end Between

theorem Context.quiet_setGlobals (globals : Namespace) (c : Context) :
    c.Quiet (globals.foldl (fun c (name, v) => c.setGlobal name v) c) := by
  induction globals generalizing c with
  | nil => exact .refl c
  | cons entry rest ih => exact (c.quiet_setGlobal entry.1 entry.2).trans (ih _)

theorem Context.going_start (limit : Nat) (unit : CodeUnit) (builtins globals : Namespace) :
    (Context.start unit builtins globals).Going limit := by
  refine (quiet_setGlobals globals _).going ⟨⟨⟨List.cons_ne_nil _ _, ?_⟩, ?_⟩, rfl, rfl⟩
  · rw [List.forall_mem_singleton]
    trivial
  · exact Nat.le_max_left 1 limit

namespace Vm

variable {vm : Vm} {limit : Nat} {k : Continuation} {m : Machine}

theorem Visits.lawful (hl : vm.maxCallDepth ≤ limit) (hm : m.context.Between limit k)
    {p : Progress} (h : vm.Visits k m p) : p.Lawful limit ∧ p.Excused vm.host := by
  induction h with
  | begin hfatal hunhandled =>
    rcases hm with ⟨hgoing, hk⟩ | ⟨_, h, _⟩ | ⟨_, _, h⟩
    · exact lawful_resumption hgoing hk
    · cases hunhandled.symm.trans h
    · rw [hfatal] at h
      cases h
  | step _ ih => exact lawful_advance hl ih.1

/-- A resumption either goes on from the continuation, or the tasklet has ended before. -/
theorem resume_cases {k : Continuation} {steps : Nat} {o : RunOutcome} {m' : Machine}
    (h : vm.resume steps k m = some (o, m')) :
    (m' = m ∧ ((o = .fatal ∧ m.context.fatal.isSome) ∨ (o = .faulted ∧ m.context.isUnhandled))) ∨
    (m.context.fatal = none ∧ m.context.isUnhandled = false ∧
      vm.runFor steps (vm.resumption k m) = some (o, m')) := by
  unfold resume at h
  by_cases hfatal : m.context.fatal.isSome
  · rw [if_pos hfatal] at h
    cases h
    exact .inl ⟨rfl, .inl ⟨rfl, hfatal⟩⟩
  · rw [if_neg hfatal] at h
    by_cases hunhandled : m.context.isUnhandled
    · rw [if_pos hunhandled] at h
      cases h
      exact .inl ⟨rfl, .inr ⟨rfl, hunhandled⟩⟩
    · rw [if_neg hunhandled] at h
      exact .inr ⟨Option.not_isSome_iff_eq_none.1 hfatal, Bool.eq_false_iff.2 hunhandled, h⟩

theorem lawful_resume (hl : vm.maxCallDepth ≤ limit) (hm : m.context.Between limit k)
    {steps : Nat} {o : RunOutcome} {m' : Machine} (h : vm.resume steps k m = some (o, m')) :
    (Progress.stopped o m').Lawful limit := by
  rcases resume_cases h with ⟨rfl, ⟨rfl, hfatal⟩ | ⟨rfl, hunhandled⟩⟩ | ⟨hfatal, hunhandled, hrun⟩
  · rcases hm with ⟨hgoing, _⟩ | ⟨_, _, hnone⟩ | hended
    · simp [hgoing.fatal] at hfatal
    · simp [hnone] at hfatal
    · exact hended
  · rcases hm with ⟨hgoing, _⟩ | hended | ⟨_, hnone, _⟩
    · simp [Context.isUnhandled, hgoing.fault] at hunhandled
    · exact hended
    · simp [Context.isUnhandled, hnone] at hunhandled
  · have hbegin : vm.Visits k m (vm.resumption k m) := .begin hfatal hunhandled
    exact ((hbegin.runFor hrun).lawful hl hm).1

theorem Session.between (h : vm.Session k m) : m.context.Between vm.maxCallDepth k := by
  induction h with
  | start unit builtins globals modules loader world =>
    have hgoing := Context.going_start vm.maxCallDepth unit builtins globals
    exact .inl ⟨⟨⟨⟨hgoing.sound.1, hgoing.sound.2⟩, hgoing.depth⟩, hgoing.fault, hgoing.fatal⟩,
      trivial⟩
  | outside _ world ih => exact ih
  | setGlobal _ name v ih => exact (Context.quiet_setGlobal _ name v).between ih
  | @setLoader k m _ loader ih =>
    have hquiet : m.context.Quiet { m.context with loader } := ⟨rfl, rfl, rfl, rfl⟩
    exact hquiet.between ih
  | resume _ hrun ih => exact (lawful_resume (Nat.le_refl _) ih hrun).between

/-! ## The end -/

/-- A tasklet that has finished finishes again at once. -/
theorem advance_finished (hne : m.context.frames ≠ []) (hfinished : m.context.isFinished) :
    vm.advance .fetch m = .stopped .finished m := by
  obtain ⟨f, callers, hframes⟩ := List.exists_cons_of_ne_nil hne
  unfold Context.isFinished at hfinished
  rw [hframes] at hfinished
  cases callers with
  | cons caller rest => cases hfinished
  | nil =>
    obtain ⟨hend, hblocks⟩ := Bool.and_eq_true_iff.1 hfinished
    have hfetch : vm.perform .fetch m = .ok .finished m := by
      unfold perform fetch endOfUnit
      dsimp only
      rw [bind_ok (frame_cons hframes), if_pos hend,
        bind_ok (rfl : Exec.context m = .ok m.context m), hframes]
      dsimp only
      rw [if_pos hblocks]
      rfl
    unfold advance conclude catching
    rw [hfetch]
    rfl

theorem resume_ended {o : RunOutcome} (h : (Progress.stopped o m).Lawful limit)
    (ho : ∀ k, o ≠ .suspended k) {steps : Nat} (hsteps : 0 < steps) (world : World) :
    vm.resume steps .resume { m with world } = some (o, { m with world }) := by
  simp only [resume]
  cases o with
  | suspended k => exact absurd rfl (ho k)
  | fatal => exact if_pos h.2.2
  | faulted =>
    have hfatal : ¬ m.context.fatal.isSome := by simp [h.2.2]
    rw [if_neg hfatal]
    exact if_pos h.2.1
  | finished =>
    obtain ⟨steps, rfl⟩ := Nat.exists_eq_succ_of_ne_zero (Nat.ne_of_gt hsteps)
    have hfatal : ¬ m.context.fatal.isSome := by simp [h.1.fatal]
    have hunhandled : ¬ m.context.isUnhandled := by simp [Context.isUnhandled, h.1.fault]
    have hfinished : vm.advance .fetch { m with world } = .stopped .finished { m with world } :=
      advance_finished h.1.sound.ne_nil h.2
    rw [if_neg hfatal, if_neg hunhandled]
    show vm.runFor steps (vm.advance .fetch { m with world }) = _
    rw [hfinished]
    cases steps <;> rfl

end Vm

/-- What the outcome of a run says about the context. -/
def RunOutcome.Describes : RunOutcome → Context → Prop
  | suspended _, c => c.fault = none
  | finished, c => c.fault = none ∧ c.isFinished
  | faulted, c => c.isUnhandled
  | fatal, c => c.fault = none ∧ c.fatal.isSome

theorem Progress.Lawful.describes {limit : Nat} {o : RunOutcome} {m : Machine}
    (h : (Progress.stopped o m).Lawful limit) :
    m.context.Bounded limit ∧ o.Describes m.context := by
  cases o with
  | finished => exact ⟨h.1.toBounded, h.1.fault, h.2⟩
  | suspended k => exact ⟨h.1.toBounded, h.1.fault⟩
  | faulted => exact ⟨h.1, h.2.1⟩
  | fatal => exact h

theorem Progress.Lawful.bounded {limit : Nat} {p : Progress} (h : p.Lawful limit) :
    p.machine.context.Bounded limit := by
  cases p with
  | running phase m => exact h.1.toBounded
  | stopped o m => exact h.describes.1

/-- On the way through a resumption the call stack is neither empty nor too deep, and a failure that
ends the tasklet is internal only if it comes from outside. When the run ends, the context is as the
outcome says; and if the tasklet has ended, every further resumption ends at once in the same way
and changes nothing, whatever has become of the world. -/
theorem Vm.Session.lifecycle {vm : Vm} {k : Continuation} {m : Machine} (h : vm.Session k m) :
    (∀ p, vm.Visits k m p →
      p.machine.context.frames ≠ [] ∧ p.machine.context.frames.length ≤ max 1 vm.maxCallDepth ∧
      ∀ m' e, p = .stopped .fatal m' → m'.context.fatal = some e → e.IsInternal →
        ∃ e', e'.cause = e.cause ∧ m'.world.Brings vm.host e') ∧
    ∀ steps o m', vm.resume steps k m = some (o, m') →
      m'.context.frames ≠ [] ∧ m'.context.frames.length ≤ max 1 vm.maxCallDepth ∧
      o.Describes m'.context ∧
      ((∀ k, o ≠ .suspended k) → ∀ steps' world, 0 < steps' →
        vm.resume steps' .resume { m' with world } = some (o, { m' with world })) := by
  constructor
  · intro p hp
    obtain ⟨hlawful, hexcused⟩ := hp.lawful (Nat.le_refl _) h.between
    refine ⟨hlawful.bounded.sound.ne_nil, hlawful.bounded.depth, ?_⟩
    rintro m' e rfl he hinternal
    exact hexcused e he hinternal
  · intro steps o m' hrun
    have hlawful := lawful_resume (Nat.le_refl _) h.between hrun
    obtain ⟨hbounded, hdescribes⟩ := hlawful.describes
    refine ⟨hbounded.sound.ne_nil, hbounded.depth, hdescribes, ?_⟩
    intro ho steps' world hsteps
    exact resume_ended hlawful ho hsteps world

/-- A unit that pops a value which is not there ends the tasklet by a failure, for good. -/
theorem Vm.Session.lifecycle_of_underflow :
    ∃ m', (default : Vm).resume 1 .start
        { context := Context.start { bytes := #[0x01] } [] [], world := {} } = some (.fatal, m') ∧
      m'.context.fault = none ∧ m'.context.fatal.isSome ∧
      (default : Vm).resume 1 .resume m' = some (.fatal, m') := by
  have hsession : (default : Vm).Session .start _ :=
    .start { bytes := #[0x01] } [] [] [] none {}
  obtain ⟨_, hends⟩ := hsession.lifecycle
  obtain ⟨_, _, ⟨hfault, hfatal⟩, hstays⟩ := hends 1 _ _ rfl
  exact ⟨_, rfl, hfault, hfatal, hstays nofun 1 _ Nat.one_pos⟩

end TaskletMachine
