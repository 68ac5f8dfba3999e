import Mathlib.Data.List.Chain
import TaskletMachine.Proofs.Machine.Inversion

/-!
# Loops that wait for their next value

A loop asks for its next value by a call whose result is meant for it. As long as the call lasts, the
frame of the loop stands at the instruction that asked, with the iterator on its stack; so whenever
the call stops the iteration there is an iterator to drop, and a loop to leave.

## Main definitions

* `Frame.Asks`: a frame that asks for the next value of a loop.
* `Context.LoopsWait`: the frames whose result a loop waits for have been called by one.
* `Vm.Raising`: the machines on which a fault can be raised.
* `Vm.Raising.loopsWait`: the loops wait on each of them.
-/
namespace TaskletMachine

open Exec

/-! ## Frames that ask -/

/-- The current instruction asks for the next value of a loop with the given exit, and the iterator
is on the stack. -/
structure Frame.Asks (f : Frame) (exit : Nat) : Prop where
  instruction : ∃ next, decodeAt f.unit.bytes f.instructionIp = some ⟨.forIter exit, next⟩
  iterator : f.stack ≠ []

theorem Frame.Asks.of_standing {f g : Frame} {exit : Nat} (h : f.Asks exit)
    (hg : g.standing = f.standing) : g.Asks exit := by
  have hunit : g.unit = f.unit := congrArg (·.1) hg
  have hip : g.instructionIp = f.instructionIp := congrArg (·.2.2.1) hg
  have hstack : g.stack = f.stack := congrArg (·.2.2.2) hg
  refine ⟨?_, ?_⟩
  · rw [hunit, hip]
    exact h.instruction
  · rw [hstack]
    exact h.iterator

/-- If a loop waits for the result of a frame, the caller asks for it. -/
def Frame.AskedBy (f caller : Frame) : Prop :=
  ∀ exit, f.delivery.loopExit? = some exit → caller.Asks exit

/-- The frames whose result a loop waits for have been called by that loop. -/
structure Context.LoopsWait (c : Context) : Prop where
  ne_nil : c.frames ≠ []
  chain : c.frames.IsChain Frame.AskedBy

/-- If a loop waits for the result of a call, the innermost frame asks for it. -/
def Phase.Asked (phase : Phase) (c : Context) : Prop :=
  ∀ call exit, phase = .link call → call.delivery.loopExit? = some exit →
    ∃ f callers, c.frames = f :: callers ∧ f.Asks exit

theorem SameFrames.of_cons {f : Frame} {frames frames' : List Frame}
    (h : SameFrames (f :: frames) frames') :
    ∃ g rest, frames' = g :: rest ∧ g.outline = f.outline ∧ g.standing = f.standing ∧
      SameFrames frames rest := by
  obtain ⟨g, rest, rfl, hg, hrest⟩ := List.map_eq_cons_iff.1 h.outlines
  have hstandings := h.standings
  rw [List.map_cons, List.map_cons, List.cons.injEq] at hstandings
  exact ⟨g, rest, rfl, hg, hstandings.1, hrest, hstandings.2⟩

section Chain

variable {f g caller : Frame} {callers : List Frame} {c c' : Context}

theorem Frame.AskedBy.of_eq (h : f.AskedBy caller) (hd : g.delivery = f.delivery)
    {caller' : Frame} (hs : caller'.standing = caller.standing) : g.AskedBy caller' := by
  intro exit hexit
  rw [hd] at hexit
  exact (h exit hexit).of_standing hs

theorem isChain_of_sameFrames {callers' : List Frame} (hsame : SameFrames callers callers')
    (hd : g.delivery = f.delivery) (h : (f :: callers).IsChain Frame.AskedBy) :
    (g :: callers').IsChain Frame.AskedBy := by
  induction callers generalizing f g callers' with
  | nil =>
    rw [List.eq_nil_of_length_eq_zero hsame.length_eq]
    exact .singleton g
  | cons caller rest ih =>
    obtain ⟨caller', rest', rfl, houtline, hstanding, hrest⟩ := hsame.of_cons
    rw [List.isChain_cons_cons] at h ⊢
    exact ⟨h.1.of_eq hd hstanding, ih hrest (congrArg Prod.snd houtline) h.2⟩

theorem Context.Within.loopsWait (h : c.Within f callers)
    (hchain : (f :: callers).IsChain Frame.AskedBy) : c.LoopsWait := by
  obtain ⟨g, callers', hc, hd, hsame⟩ := h
  refine ⟨by rw [hc]; exact List.cons_ne_nil g callers', ?_⟩
  rw [hc]
  exact isChain_of_sameFrames hsame hd hchain

theorem Context.Unwinds.loopsWait {frames : List Frame} (h : c.Unwinds frames)
    (hchain : frames.IsChain Frame.AskedBy) : c.LoopsWait := by
  obtain ⟨dropped, f, callers, rfl, hwithin⟩ := h
  exact hwithin.loopsWait hchain.right_of_append

theorem Context.Quiet.loopsWait (h : c.Quiet c') (hc : c.LoopsWait) : c'.LoopsWait := by
  obtain ⟨f, callers, hframes⟩ := List.exists_cons_of_ne_nil hc.ne_nil
  exact (h.within hframes).loopsWait (hframes ▸ hc.chain)

theorem Phase.Asked.fetch (c : Context) : Phase.Asked .fetch c :=
  nofun

end Chain

/-! ## Steps -/

/-- The loops wait on the way and when a run ends. -/
def Progress.LoopsWait : Progress → Prop
  | .running phase m => m.context.LoopsWait ∧ phase.Asked m.context
  | .stopped _ m => m.context.LoopsWait

/-- The loops wait after a result, also for the call that it starts. -/
structure Vm.Waits (r : EStateM.Result Error Machine Control) : Prop where
  context : (left r).context.LoopsWait
  asked : ∀ c m, r = .ok (.call c) m → Phase.Asked (.link c) m.context

/-- The innermost frame is dropped for its result. -/
theorem Vm.within_returnFrom (vm : Vm) (v : Value) (m : Machine) (f caller : Frame)
    (rest : List Frame) :
    (left (returnFrom v (m.withFrames (f :: caller :: rest)))).context.Within caller rest := by
  have hrun : returnFrom v (m.withFrames (f :: caller :: rest)) =
      (do deliverFrom f v; return .next : Exec Control) (m.withFrames (caller :: rest)) := rfl
  rw [hrun]
  by_cases hsound : f.delivery.Sound
  · have hsteady : vm.Stays _ _ := Steady.deliverFrom v hsound (m.withFrames (caller :: rest))
    cases h : (do deliverFrom f v; return .next : Exec Control) (m.withFrames (caller :: rest)) with
    | ok control m' =>
      rw [h] at hsteady
      exact hsteady.1.within rfl
    | error e m' =>
      rw [h] at hsteady
      exact hsteady.1.context.within rfl
  · obtain ⟨e, he⟩ := deliverFrom_of_not_sound hsound v (m.withFrames (caller :: rest))
    rw [bind_error he]
    exact .of_frames rfl rfl

namespace Vm

variable {vm : Vm} {m : Machine}

theorem Stays.quiet {r : EStateM.Result Error Machine Control} (h : vm.Stays m r) :
    m.context.Quiet (left r).context := by
  cases r with
  | ok control m' => exact h.1
  | error e m' => exact h.1.context

theorem Waits.of_quiet {r : EStateM.Result Error Machine Control} (hm : m.context.LoopsWait)
    (hq : m.context.Quiet (left r).context)
    (hasked : ∀ c m, r = .ok (.call c) m → Phase.Asked (.link c) m.context) : Waits r :=
  ⟨hq.loopsWait hm, hasked⟩

theorem waits_fetch (hm : m.context.LoopsWait) : Waits (vm.perform .fetch m) := by
  obtain ⟨f, callers, hframes⟩ := List.exists_cons_of_ne_nil hm.ne_nil
  have hchain := hm.chain
  rw [hframes] at hchain
  refine ⟨?_, ?_⟩
  · have hfetches := fetches_fetch vm hframes
    generalize vm.perform .fetch m = r at hfetches
    cases hfetches with
    | stays control m' h hlasts => exact h.loopsWait hchain
    | fails e m' h => exact h.loopsWait hchain
    | finishes m' h hcallers => exact h.loopsWait hchain
    | enters entered c m' name bases hentered h hm' =>
      have hc := h.loopsWait hchain
      obtain ⟨g, callers', hc', _, _⟩ := h
      refine ⟨by rw [left, hm']; exact List.cons_ne_nil entered c.frames, ?_⟩
      rw [left, hm', hc', List.isChain_cons_cons, ← hc']
      refine ⟨?_, hc.chain⟩
      intro exit hexit
      rw [hentered] at hexit
      cases hexit
    | returns v g hv hd hcallers =>
      obtain ⟨caller, rest, rfl⟩ := List.exists_cons_of_ne_nil hcallers
      exact (vm.within_returnFrom v m g caller rest).loopsWait (List.isChain_cons_cons.1 hchain).2
    | raises fault g hd hi =>
      have hchain' := isChain_of_sameFrames (.refl callers) hd hchain
      exact (unwinds_raiseFault vm fault (List.cons_ne_nil g callers)).loopsWait hchain'
  · rintro c m' hcall call exit ⟨rfl⟩ hexit
    cases hd : decodeAt f.unit.bytes f.ip with
    | none =>
      have hend : f.atEnd := decide_eq_true (decodeAt_eq_none.1 hd)
      have hrun : vm.perform .fetch m = Vm.endOfUnit m := by
        simp only [perform, fetch]
        rw [bind_ok (frame_cons hframes), if_pos hend]
      rw [hrun] at hcall
      cases hexit.symm.trans (Local.endOfUnit.calls hcall)
    | some d =>
      rw [perform_fetch vm hframes hd] at hcall
      obtain ⟨hi, -, rfl, f', callers', v, stack, hf', hstack⟩ := calls_execute hcall hexit
      cases hf'
      have hstack' : f.stack ≠ [] := by
        rw [show f.stack = v :: stack from hstack]
        exact List.cons_ne_nil v stack
      refine ⟨f.reading d.next, callers, rfl, ⟨d.next, ?_⟩, hstack'⟩
      rw [← hi]
      exact hd

/-! ## Links -/

theorem waits_deliver (vm : Vm) {d : Delivery} {m₁ : Machine} (v : Value) (hm : m.context.LoopsWait)
    (hm₁ : m₁.context = m.context) (hd : d.Plain) :
    Waits ((do deliver v d; return .next : Exec Control) m₁) := by
  have hsteady : vm.Stays _ _ := Steady.deliver v hd m₁
  have hquiet := hsteady.quiet
  rw [hm₁] at hquiet
  refine .of_quiet hm hquiet ?_
  intro c m' hcall
  cases EndsIn.next m₁ (.call c) m' hcall

theorem waits_call {c c' : PendingCall} {m' : Machine} (hm : m.context.LoopsWait)
    (hc : m'.context = m.context) (hasked : Phase.Asked (.link c) m.context)
    (hexit : c'.delivery.loopExit? = c.delivery.loopExit?) : Waits (.ok (.call c') m') := by
  refine ⟨by rw [left, hc]; exact hm, ?_⟩
  rintro _ _ ⟨rfl⟩ call exit ⟨rfl⟩ h
  rw [hc]
  exact hasked c exit rfl (hexit ▸ h)

theorem waits_complete (vm : Vm) {c : PendingCall} {m₁ : Machine} (reply : Reply)
    (hm : m.context.LoopsWait) (hm₁ : m₁.context = m.context) (hd : c.delivery.Plain)
    (hasked : Phase.Asked (.link c) m.context) : Waits (complete reply c.delivery m₁) := by
  have hsteady : vm.Stays _ _ := Steady.complete reply hd m₁
  have hquiet := hsteady.quiet
  rw [hm₁] at hquiet
  cases reply with
  | value v => exact waits_deliver vm v hm hm₁ hd
  | noValue => exact waits_deliver vm .none hm hm₁ hd
  | tailCall callee args => exact waits_call hm hm₁ hasked rfl
  | yield =>
    have hends : EndsIn (· = .suspend .resume) (complete .yield c.delivery) :=
      .bind fun _ => .parkTasklet
    exact .of_quiet hm hquiet fun c m' h => nomatch hends m₁ (.call c) m' h
  | await p =>
    refine .of_quiet hm hquiet fun c' m' h => ?_
    rcases EndsIn.awaitPromise p c.delivery m₁ (.call c') m' h with h | h <;> cases h

theorem waits_link (vm : Vm) {c : PendingCall} (hm : m.context.LoopsWait) (hd : c.delivery.Plain)
    (hasked : Phase.Asked (.link c) m.context) : Waits (vm.link c m) := by
  have hlinks := vm.links_link c m
  generalize vm.link c m = r at hlinks
  cases hlinks with
  | call c' m' hcallee hc hd' => exact waits_call hm hc hasked (congrArg _ hd')
  | construct r c' m' hcallee hc hd' => exact waits_call hm hc hasked (by rw [hd']; rfl)
  | make r m' hcallee hc => exact waits_deliver vm _ hm hc hd
  | enter r f m' hcallee hc hd' =>
    obtain ⟨caller, callers, hframes⟩ := List.exists_cons_of_ne_nil hm.ne_nil
    refine ⟨⟨by rw [left, hc]; exact List.cons_ne_nil f m.context.frames, ?_⟩, ?_⟩
    case refine_2 =>
      intro c' m₁ h
      cases h
    rw [left, hc]
    show (f :: m.context.frames).IsChain Frame.AskedBy
    rw [hframes, List.isChain_cons_cons, ← hframes]
    refine ⟨?_, hm.chain⟩
    intro exit hexit
    rw [hd'] at hexit
    obtain ⟨g, callers', hg, hasks⟩ := hasked c exit rfl hexit
    cases hframes.symm.trans hg
    exact hasks
  | replies effect reply w heffect hreply => exact waits_complete vm reply hm rfl hd hasked
  | error e m' hc =>
    refine ⟨by rw [left, hc]; exact hm, ?_⟩
    intro c' m₁ h
    cases h

/-- An error of a link may end the loop instead. -/
theorem waits_follow {c : PendingCall} (hm : m.context.LoopsWait) (hd : c.delivery.Plain)
    (hasked : Phase.Asked (.link c) m.context) : Waits (vm.follow c m) := by
  have hlink := waits_link vm hm hd hasked
  simp only [follow]
  cases h : vm.link c m with
  | ok control m' =>
    rw [h] at hlink
    exact hlink
  | error e m' =>
    rw [h] at hlink
    cases c.delivery.loopExit? with
    | none => exact hlink
    | some exit =>
      dsimp only
      split
      · have hquiet := left_tame (.endLoop vm exit) m'
        refine .of_quiet hlink.context hquiet ?_
        intro c m₁ h
        cases EndsIn.endLoop exit m' (.call c) m₁ h
      · exact hlink

theorem waits_perform (vm : Vm) {phase : Phase} (h : (Progress.running phase m).LoopsWait)
    (hphase : phase.Plain) : Waits (vm.perform phase m) := by
  cases phase with
  | fetch => exact waits_fetch h.1
  | link c => exact waits_follow h.1 hphase h.2

/-! ## Runs -/

theorem waits_catching (vm : Vm) {effect : Exec Control} (h : Waits (effect m)) :
    Waits (vm.catching effect m) := by
  simp only [catching]
  cases hr : effect m with
  | ok control m' =>
    rw [hr] at h
    exact h
  | error e m' =>
    rw [hr] at h
    dsimp only
    split
    · have hm' : m'.context.LoopsWait := h.context
      refine ⟨(unwinds_raiseError vm e hm'.ne_nil).loopsWait hm'.chain, ?_⟩
      rintro c m₁ hcall call exit ⟨rfl⟩ hexit
      rcases EndsIn.raiseError e m' (.call c) m₁ hcall with h | h <;> cases h
    · exact h

theorem loopsWait_conclude {next : Machine → Progress} {effect : Exec Control}
    (hnext : ∀ m, m.context.LoopsWait → (next m).LoopsWait) (h : Waits (effect m)) :
    (vm.conclude next effect m).LoopsWait := by
  have hcatching := waits_catching vm h
  simp only [conclude]
  cases hr : vm.catching effect m with
  | ok control m' =>
    rw [hr] at hcatching
    cases control with
    | next => exact hnext m' hcatching.context
    | call c => exact ⟨hcatching.context, hcatching.asked c m' rfl⟩
    | suspend k => exact hcatching.context
    | finished => exact hcatching.context
    | faulted => exact hcatching.context
  | error e m' =>
    rw [hr] at hcatching
    exact ⟨hcatching.context.ne_nil, hcatching.context.chain⟩

theorem loopsWait_advance {phase : Phase} (h : (Progress.running phase m).LoopsWait)
    (hphase : phase.Plain) : (vm.advance phase m).LoopsWait := by
  refine loopsWait_conclude ?_ (waits_perform vm h hphase)
  intro m' hm'
  simp only [afterInstruction]
  split
  · exact hm'
  · exact ⟨hm', .fetch _⟩

theorem loopsWait_resumption {k : Continuation} (hm : m.context.LoopsWait) (hk : k.Plain) :
    (vm.resumption k m).LoopsWait := by
  cases k with
  | start => exact ⟨hm, .fetch _⟩
  | resume => exact ⟨hm, .fetch _⟩
  | await p d =>
    simp only [resumption]
    cases hs : (m.world.promise p).settled with
    | none => exact hm
    | some s =>
      refine loopsWait_conclude (fun m' hm' => ⟨hm', .fetch _⟩) ?_
      have hstays : vm.Stays _ _ := .handOver hs hk
      have hquiet := hstays.quiet
      refine .of_quiet hm hquiet ?_
      intro c m' h
      cases EndsIn.next m (.call c) m' h

theorem Visits.loopsWait {k : Continuation} (hbetween : m.context.Between vm.maxCallDepth k)
    (hm : m.context.LoopsWait) {p : Progress} (h : vm.Visits k m p) : p.LoopsWait := by
  induction h with
  | begin hfatal hunhandled =>
    rcases hbetween with ⟨_, hk⟩ | ⟨_, h, _⟩ | ⟨_, _, h⟩
    · exact loopsWait_resumption hm hk
    · cases hunhandled.symm.trans h
    · rw [hfatal] at h
      cases h
  | step hvisits ih => exact loopsWait_advance ih (hvisits.lawful (Nat.le_refl _) hbetween).1.2

theorem Session.loopsWait {k : Continuation} (h : vm.Session k m) : m.context.LoopsWait := by
  induction h with
  | start unit builtins globals modules loader world =>
    have hroot : Context.LoopsWait { frames := [Frame.start unit .push], builtins } :=
      ⟨List.cons_ne_nil _ _, .singleton _⟩
    have hstart := (Context.quiet_setGlobals globals _).loopsWait hroot
    exact ⟨hstart.ne_nil, hstart.chain⟩
  | outside _ world ih => exact ih
  | setGlobal _ name v ih => exact (Context.quiet_setGlobal _ name v).loopsWait ih
  | setLoader _ loader ih => exact ⟨ih.ne_nil, ih.chain⟩
  | @resume k m hsession steps o m' hrun ih =>
    rcases resume_cases hrun with ⟨rfl, _⟩ | ⟨hfatal, hunhandled, hrun⟩
    · exact ih
    · have hbegin : vm.Visits k m (vm.resumption k m) := .begin hfatal hunhandled
      exact (hbegin.runFor hrun).loopsWait hsession.between ih

/-! ## Where faults are raised -/

/-- The machines on which a fault can be raised: those between two resumptions and on the way
through one, those that a step or a result leaves when it ends in an error, and what becomes of them
while an instruction works on the innermost frame and an exception is made on the heap. -/
inductive Raising (vm : Vm) : Machine → Prop
  | session {k : Continuation} {m : Machine} (h : vm.Session k m) : Raising vm m
  | visit {k : Continuation} {m : Machine} {p : Progress} (h : vm.Session k m)
      (hp : vm.Visits k m p) : Raising vm p.machine
  | failed {k : Continuation} {m m₁ m' : Machine} {phase : Phase} {e : Error} (h : vm.Session k m)
      (hp : vm.Visits k m (.running phase m₁)) (he : vm.perform phase m₁ = .error e m') :
      Raising vm m'
  | within {m : Machine} {f g : Frame} {callers : List Frame} (h : Raising vm m)
      (hm : m.context.frames = f :: callers) (hd : g.delivery = f.delivery) (world : World) :
      Raising vm { m.withFrames (g :: callers) with world }

/-- On each of these machines the loops that wait for a value have asked for it. -/
theorem Raising.loopsWait (h : vm.Raising m) : m.context.LoopsWait := by
  induction h with
  | session h => exact h.loopsWait
  | @visit k m p h hp =>
    have hwaits := hp.loopsWait h.between h.loopsWait
    cases p with
    | running phase m' => exact hwaits.1
    | stopped o m' => exact hwaits
  | @failed k m m₁ m' phase e h hp he =>
    have hplain := (hp.lawful (Nat.le_refl _) h.between).1.2
    have hwaits := waits_perform vm (hp.loopsWait h.between h.loopsWait) hplain
    rw [he] at hwaits
    exact hwaits.context
  | within _ hm hd world ih =>
    have hchain := ih.chain
    rw [hm] at hchain
    exact ⟨List.cons_ne_nil _ _, isChain_of_sameFrames (.refl _) hd hchain⟩

end Vm

end TaskletMachine
