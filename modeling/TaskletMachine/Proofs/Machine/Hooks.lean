import TaskletMachine.Proofs.Machine.Tracebacks

/-!
# Hooks that loops call

A loop over a value with a hook asks for its next value by calling the hook. Until the call is over
the frame of the loop stands still, with the iterator on its stack: either the run is about to
follow a link of the call, or it waits for a promise, or there are frames above, the lowest of which
hands its result over to the loop. Where the call leads to a class, the new instance takes the place
of the result.

## Main definitions

* `Delivery.Iterates`: deliveries of a result, or of what has taken its place, to a loop.
* `Context.Above`, `Context.KeepsAbove`: the frames above a caller that stands still.
* `Progress.Awaits`: the stages of the call.
* `Vm.Stage.awaits`: a stage during which the call goes on.
* `HookRequest`, `Machine.Asks`: a loop that asks for its next value.
-/
namespace TaskletMachine

open Exec

/-! ## Deliveries to a loop -/

/-- The delivery hands the result over to a loop; if an instance has taken its place, it hands that
over. -/
inductive Delivery.Iterates (exit : Nat) : Option Value → Delivery → Prop
  | iteration : Iterates exit none (.iteration exit)
  | replace {made : Option Value} (v : Value) {next : Delivery} (h : Iterates exit made next) :
      Iterates exit (made.or (some v)) (.replace v next)

section Iterates

variable {exit : Nat} {made : Option Value} {d : Delivery}

theorem Delivery.Iterates.loopExit? (h : d.Iterates exit made) : d.loopExit? = some exit := by
  induction h with
  | iteration => rfl
  | replace v h ih => exact ih

theorem deliver_of_iterates (h : d.Iterates exit made) (v : Value) :
    deliver v d = push (made.getD v) := by
  induction h generalizing v with
  | iteration => rfl
  | @replace made other next h ih =>
    rw [deliver, ih other]
    cases made <;> rfl

theorem deliverFrom_of_iterates {f : Frame} (h : f.delivery.Iterates exit made) (v : Value) :
    deliverFrom f v = push (made.getD v) := by
  rw [← deliver_of_iterates h v]
  unfold deliverFrom
  split
  · next hd =>
    rw [hd] at h
    cases h
  · rfl

/-- A frame hands its result to the loop itself exactly if nothing takes the place of the result. -/
theorem Delivery.Iterates.eq_iteration_iff (h : d.Iterates exit made) {exit' : Nat} :
    d = .iteration exit' ↔ made = none ∧ exit' = exit := by
  cases h with
  | iteration => simp [eq_comm]
  | @replace made v next h => cases made <;> simp

end Iterates

/-! ## Frames above a caller -/

/-- There are frames above those that stand still, and the lowest of them hands its result over in
the given way. -/
def Context.Above (base : List Frame) (d : Delivery) (c : Context) : Prop :=
  ∃ above entered base', c.frames = above ++ entered :: base' ∧ entered.delivery = d ∧
    SameFrames base base'

/-- As long as there are frames above those that stand still, the lowest of them hands its result
over as before. -/
def Context.KeepsAbove (c c' : Context) : Prop :=
  ∀ base d, c.Above base d → base.length < c'.frames.length → c'.Above base d

section Above

variable {limit : Nat} {exits : Prop} {c c₁ c' : Context} {f g : Frame}
  {base callers above : List Frame} {d : Delivery}

theorem Context.Above.length_lt (h : c.Above base d) : base.length < c.frames.length := by
  obtain ⟨above, entered, base', hframes, _, hsame⟩ := h
  rw [hframes, List.length_append, List.length_cons, hsame.length_eq]
  omega

theorem Context.Above.ne_nil (h : c.Above base d) : c.frames ≠ [] :=
  List.ne_nil_of_length_pos (Nat.zero_lt_of_lt h.length_lt)

namespace Context.KeepsAbove

/-- Nothing happens but above frames that stand still, of which the innermost is the caller in one
of the two call stacks, and hands its result over as before. -/
theorem of_shared (above above' : List Frame) {callers' : List Frame}
    (hc : c.frames = above ++ f :: callers) (hc' : c'.frames = above' ++ g :: callers')
    (hd : g.delivery = f.delivery) (hsame : SameFrames callers callers')
    (habove : above = [] ∨ above' = []) : c.KeepsAbove c' := by
  rintro base d ⟨passed, entered, base', hframes, hentered, hbase⟩ hlength
  have hlowest : ∃ between, f :: callers = between ++ entered :: base' := by
    rcases List.append_eq_append_iff.1 (hc.symm.trans hframes) with
      ⟨between, _, h⟩ | ⟨between, rfl, h⟩
    · exact ⟨between, h⟩
    · cases between with
      | nil => exact ⟨[], h.symm⟩
      | cons f' between =>
        -- the frame that changes would be one of those that stand still
        obtain rfl := habove.resolve_left (by simp)
        have hlengths := congrArg List.length h
        simp only [List.length_append, List.length_cons, hbase.length_eq] at hlengths
        rw [hc', List.nil_append, List.length_cons, hsame.length_eq] at hlength
        omega
  obtain ⟨between, hbetween⟩ := hlowest
  cases between with
  | nil =>
    obtain ⟨rfl, rfl⟩ := List.cons.inj hbetween
    exact ⟨above', g, callers', hc', hd.trans hentered, hbase.trans hsame⟩
  | cons f' between =>
    obtain ⟨rfl, rfl⟩ := List.cons.inj hbetween
    obtain ⟨between', rest, rfl, -, hrest⟩ := hsame.of_append
    obtain ⟨entered', base'', rfl, houtline, -, hbase'⟩ := hrest.of_cons
    have hentered' : entered'.delivery = entered.delivery := congrArg Prod.snd houtline
    refine ⟨above' ++ g :: between', entered', base'', ?_, hentered'.trans hentered,
      hbase.trans hbase'⟩
    rw [hc', List.append_assoc]
    rfl

theorem of_sameFrames (h : SameFrames c.frames c'.frames) : c.KeepsAbove c' := by
  intro base d habove hlength
  obtain ⟨f, callers, hc⟩ := List.exists_cons_of_ne_nil habove.ne_nil
  obtain ⟨g, callers', hc', houtline, -, hsame⟩ := SameFrames.of_cons (hc ▸ h)
  exact of_shared [] [] hc hc' (congrArg Prod.snd houtline) hsame (.inl rfl) base d habove hlength

/-- Frames that are dropped leave the others as they stand. -/
theorem trans (h : c.KeepsAbove c₁) (h₁ : c₁.KeepsAbove c')
    (hlength : c'.frames.length ≤ c₁.frames.length) : c.KeepsAbove c' :=
  fun base d habove hlt => h₁ base d (h base d habove (Nat.lt_of_lt_of_le hlt hlength)) hlt

theorem of_within (h : c'.Within f callers) (hc : c.frames = f :: callers) : c.KeepsAbove c' := by
  obtain ⟨g, callers', hc', hd, hsame⟩ := h
  exact of_shared [] [] hc hc' hd hsame (.inl rfl)

theorem of_shifts (h : c.Shifts limit exits c') : c.KeepsAbove c' := by
  cases h with
  | drop dropped f g callers callers' hc hc' hsame hturn =>
    exact of_shared dropped [] hc hc' hturn.delivery_eq hsame (.inr rfl)
  | enter entered f g callers callers' hc hc' hsame hb hd hfresh hsound hlimit =>
    exact of_shared [] [entered] hc hc' hd hsame (.inl rfl)

theorem of_unwinds (h : c'.Unwinds c.frames) : c.KeepsAbove c' := by
  obtain ⟨dropped, f, callers, hc, g, callers', hc', hd, hsame⟩ := h
  exact of_shared dropped [] hc hc' hd hsame (.inr rfl)

theorem of_meets {vm : Vm} {m : Machine} {r : EStateM.Result Error Machine Control}
    (h : vm.Meets limit exits m r) (hm : m.context.Sound) :
    m.context.KeepsAbove (left r).context := by
  match r, h with
  | .ok .next m', h => exact of_shifts (h.2 hm).shifts
  | .ok (.call c) m', h => exact of_shifts (h.2 hm).shifts
  | .ok (.suspend k) m', h => exact of_shifts (h.2 hm).shifts
  | .ok .finished m', h =>
    obtain ⟨f, g, hc, hc', hd⟩ := (h.2 hm).root
    exact of_shared [] [] hc hc' hd (.refl []) (.inl rfl)
  | .ok .faulted m', h => exact of_shifts (h.2 hm).1
  | .error e m', h => exact of_shifts (h.2 hm).1.shifts

end Context.KeepsAbove

end Above

/-! ## Stages above a caller -/

section Stages

variable {vm : Vm} {limit depth : Nat} {m m' : Machine} {p p' : Progress} {effect : Exec Control}
  {next : Machine → Progress} {control : Control}

/-- What is performed meets what a step can come to. -/
theorem Vm.Performs.meets (h : vm.Performs p effect next) (hp : p.Lawful limit) :
    p.machine.context.Going limit ∧
      ∃ limit' exits, vm.Meets limit' exits p.machine (effect p.machine) := by
  cases h with
  | phase phase m => exact ⟨hp.1, _, _, Meets.perform vm hp.2 m⟩
  | handOver q d m s hs => exact ⟨hp.1, limit, False, .of_stays (.handOver hs hp.2) id⟩

theorem Vm.Performs.keepsAbove (h : vm.Performs p effect next) (hp : p.Lawful limit) :
    p.machine.context.KeepsAbove (left (effect p.machine)).context := by
  obtain ⟨hgoing, _, _, hmeets⟩ := h.meets hp
  exact .of_meets hmeets hgoing.sound

/-- An error that guest code can catch has dropped frames at most. -/
theorem Vm.Performs.drops_of_error (h : vm.Performs p effect next) (hp : p.Lawful limit)
    {e : Error} (herror : effect p.machine = .error e m) (hguest : e.isGuest) :
    p.machine.context.Drops m.context := by
  obtain ⟨hgoing, _, _, hmeets⟩ := h.meets hp
  rw [herror] at hmeets
  exact ((hmeets.2 hgoing.sound).2.2 hguest).2

theorem Vm.Performs.length_le_of_error (h : vm.Performs p effect next) (hp : p.Lawful limit)
    {e : Error} (herror : effect p.machine = .error e m) (hguest : e.isGuest) :
    m.context.frames.length ≤ p.machine.context.frames.length := by
  have hshifts : p.machine.context.Shifts 0 False m.context :=
    (h.drops_of_error hp herror hguest).shifts
  exact hshifts.length_le

/-- Raising the error of an effect only drops frames further. -/
theorem Vm.keepsAbove_conclude (h : vm.Performs p effect next) (hp : p.Lawful limit) :
    p.machine.context.KeepsAbove (vm.conclude next effect p.machine).machine.context := by
  have heffect := h.keepsAbove hp
  obtain ⟨hgoing, _, _, hmeets⟩ := h.meets hp
  have hcatching : p.machine.context.KeepsAbove
      (left (vm.catching effect p.machine)).context := by
    unfold catching
    cases hr : effect p.machine with
    | ok control m' =>
      rw [hr] at heffect
      exact heffect
    | error e m' =>
      rw [hr] at heffect hmeets
      have hne : m'.context.frames ≠ [] :=
        ((hmeets.2 hgoing.sound).1.shifts.sound hgoing.sound).ne_nil
      dsimp only
      split
      · have hunwinds := unwinds_raiseError vm e hne
        exact heffect.trans (.of_unwinds hunwinds) hunwinds.length_le
      · exact heffect
  intro base d habove hlength
  rw [conclude, frames_proceed h.goesOnWith] at hlength
  obtain ⟨passed, entered, base', hframes, hrest⟩ := hcatching base d habove hlength
  exact ⟨passed, entered, base', (frames_proceed h.goesOnWith _).trans hframes, hrest⟩

/-- What starts a call or waits has not left the frame. -/
theorem Vm.Performs.length_eq (h : vm.Performs p effect next) (hp : p.Lawful limit)
    (hrun : effect p.machine = .ok control m') :
    control = .next ∨ control = .faulted ∨
      m'.context.frames.length = p.machine.context.frames.length := by
  obtain ⟨hgoing, _, _, hmeets⟩ := h.meets hp
  obtain ⟨f, callers, hframes⟩ := List.exists_cons_of_ne_nil hgoing.sound.ne_nil
  have hwithin (hwithin : m'.context.Within f callers) :
      m'.context.frames.length = p.machine.context.frames.length := by
    obtain ⟨g, callers', hc, -, hsame⟩ := hwithin
    rw [hc, hframes, List.length_cons, List.length_cons, hsame.length_eq]
  cases h with
  | phase phase m =>
    cases phase with
    | fetch =>
      have hfetches := fetches_fetch vm hframes
      rw [hrun] at hfetches
      generalize hr : EStateM.Result.ok control m' = r at hfetches
      cases hfetches with
      | stays control m' h hlasts =>
        cases hr
        exact .inr (.inr (hwithin h))
      | fails e m' h => cases hr
      | enters entered c m' name bases hentered h hm' =>
        cases hr
        exact .inl rfl
      | returns v g hv hd hcallers => exact .inl (EndsIn.returnFrom v _ _ _ hr.symm)
      | finishes m' h hcallers =>
        cases hr
        exact .inr (.inr (hwithin h))
      | raises fault g hd hi =>
        exact (EndsIn.raiseFault fault _ _ _ hr.symm).imp id .inl
    | link c =>
      have hfollows : FollowsIn f callers (vm.perform (.link c) m) :=
        followsIn_follow vm hp.2 hframes
      rw [show vm.perform (.link c) m = .ok control m' from hrun] at hfollows
      cases hfollows with
      | enters entered m' hm' => exact .inl rfl
      | stays control m' h hlasts => exact .inr (.inr (hwithin h))
  | handOver q d m s hs => exact .inl (EndsIn.next m control m' hrun)

theorem Vm.Performs.length_lt (h : vm.Performs p effect next) (hp : p.Lawful limit)
    (hlength : depth < p.machine.context.frames.length)
    (hcalling : (vm.conclude next effect p.machine).Calling depth) :
    depth < (vm.conclude next effect p.machine).machine.context.frames.length := by
  have hproceed {r : EStateM.Result Error Machine Control}
      (hends : ∀ control m', r = .ok control m' → control = .next ∨ control = .faulted ∨
        m'.context.frames.length = p.machine.context.frames.length)
      (hcalling : (proceed next r).Calling depth) : depth < (left r).context.frames.length := by
    cases r with
    | error e m' => exact hcalling.elim
    | ok control m' =>
      rcases hends control m' rfl with rfl | rfl | heq
      · exact h.goesOnWith.calling_iff.1 hcalling
      · exact hcalling.elim
      · exact Nat.lt_of_lt_of_eq hlength heq.symm
  rw [conclude] at hcalling ⊢
  rw [frames_proceed h.goesOnWith]
  refine hproceed (fun control m' hr => ?_) hcalling
  unfold catching at hr
  cases heffect : effect p.machine with
  | ok control' m₁ =>
    rw [heffect] at hr
    cases hr
    exact h.length_eq hp heffect
  | error e m₁ =>
    rw [heffect] at hr
    dsimp only at hr
    split at hr
    · exact (EndsIn.raiseError e _ _ _ hr).imp id .inl
    · cases hr

/-- While a call is under way, a stage above the caller leaves frames above it. -/
theorem Vm.Stage.above {base : List Frame} {d : Delivery} (h : vm.Stage p p')
    (hp : p.Lawful limit) (habove : p.machine.context.Above base d)
    (hcalling : p'.Calling base.length) : p'.machine.context.Above base d := by
  have hperforms {effect : Exec Control} {next : Machine → Progress}
      (h : vm.Performs p effect next)
      (hcalling : (vm.conclude next effect p.machine).Calling base.length) :
      (vm.conclude next effect p.machine).machine.context.Above base d :=
    keepsAbove_conclude h hp base d habove (h.length_lt hp habove.length_lt hcalling)
  cases h with
  | advance phase m => exact hperforms (.phase phase m) hcalling
  | resume k m hfatal hunhandled =>
    cases k with
    | start => exact habove
    | resume => exact habove
    | await q d =>
      simp only [resumption] at hcalling ⊢
      cases hs : (m.world.promise q).settled with
      | none => exact habove
      | some s =>
        rw [hs] at hcalling
        exact hperforms (.handOver q d m s hs) hcalling
  | outside k m world => exact habove
  | setGlobal k m name v =>
    have hsame := Context.sameFrames_mapRoot name v m.context.frames
    exact Context.KeepsAbove.of_sameFrames hsame base d habove
      (Nat.lt_of_lt_of_eq habove.length_lt hsame.length_eq.symm)
  | setLoader k m loader => exact habove

end Stages

/-! ## Stages of the call -/

/-- The frames of the loop and of its callers stand still, and the result of the call is meant for
the loop, or what has taken its place. -/
inductive Progress.Awaits (base : List Frame) (exit : Nat) (made : Option Value) : Progress → Prop
  | linking (c : PendingCall) (m : Machine) (hsame : SameFrames base m.context.frames)
      (hd : c.delivery.Iterates exit made) : Awaits base exit made (.running (.link c) m)
  | waiting (q : PromiseId) (d : Delivery) (m : Machine)
      (hsame : SameFrames base m.context.frames) (hd : d.Iterates exit made) :
      Awaits base exit made (.stopped (.suspended (.await q d)) m)
  | above (p : Progress) (d : Delivery) (hd : d.Iterates exit made)
      (h : p.machine.context.Above base d) : Awaits base exit made p

section Calls

variable {vm : Vm} {limit depth exit : Nat} {m m' : Machine} {p p' : Progress}
  {effect : Exec Control} {next : Machine → Progress} {control : Control} {loop : Frame}
  {callers : List Frame} {c : PendingCall} {made : Option Value} {d : Delivery}

/-! ### After the call -/

theorem Vm.not_calling_ok (hnext : GoesOnWith next) (hrun : effect m = .ok control m')
    (hcontrol : control = .next ∨ control = .suspend .resume)
    (hlength : m'.context.frames.length ≤ depth) :
    ¬ (vm.conclude next effect m).Calling depth := by
  rw [conclude_ok vm hrun]
  rcases hcontrol with rfl | rfl
  · exact fun h => Nat.not_lt.2 hlength (hnext.calling_iff.1 h)
  · exact Nat.not_lt.2 hlength

theorem Vm.not_calling_error (hnext : GoesOnWith next) {e : Error}
    (hrun : effect m = .error e m') (hne : m'.context.frames ≠ [])
    (hlength : m'.context.frames.length ≤ depth) :
    ¬ (vm.conclude next effect m).Calling depth := by
  rw [conclude, catching, hrun]
  dsimp only
  split
  · have hunwinds := unwinds_raiseError vm e hne
    cases hraise : vm.raiseError e m' with
    | error e' m₁ => exact id
    | ok control m₁ =>
      rw [hraise] at hunwinds
      rcases EndsIn.raiseError e m' control m₁ hraise with rfl | rfl
      · exact fun h => Nat.not_lt.2 (Nat.le_trans hunwinds.length_le hlength)
          (hnext.calling_iff.1 h)
      · exact id
  · exact id

/-! ### Values -/

theorem Vm.deliver_cons {g : Frame} {rest : List Frame} (hm : m.context.frames = g :: rest)
    (hd : d.Iterates exit made) (v : Value) :
    deliver v d m =
      .ok () (m.withFrames ({ g with stack := made.getD v :: g.stack } :: rest)) := by
  rw [deliver_of_iterates hd]
  exact push_cons hm (made.getD v)

/-- The value of a reply that does not let the call go on. -/
theorem Vm.complete_iterates {g : Frame} {rest : List Frame} {reply : Reply} {v : Value}
    (hm : m.context.frames = g :: rest)
    (h : reply = .value v ∨ (reply = .noValue ∨ reply = .yield) ∧ v = .none)
    (hd : d.Iterates exit made) :
    ∃ control m', complete reply d m = .ok control m' ∧
      (control = .next ∨ control = .suspend .resume) ∧
      m'.context.frames = { g with stack := made.getD v :: g.stack } :: rest := by
  have hpush (v : Value) := deliver_cons hm hd v
  rcases h with rfl | ⟨rfl | rfl, rfl⟩
  · exact ⟨.next, _, bind_ok (hpush v), .inl rfl, rfl⟩
  · exact ⟨.next, _, bind_ok (hpush .none), .inl rfl, rfl⟩
  · exact ⟨.suspend .resume, _, bind_ok (hpush .none), .inr rfl, rfl⟩

theorem Settlement.value_or_rejected (s : Settlement) :
    (∃ v, s.value? = some v) ∨ ∃ e, s = .rejected e := by
  cases s with
  | value v => exact .inl ⟨v, rfl⟩
  | noValue => exact .inl ⟨.none, rfl⟩
  | rejected e => exact .inr ⟨e, rfl⟩

theorem Vm.handOver_iterates {g : Frame} {rest : List Frame} {s : Settlement} {v : Value}
    (hm : m.context.frames = g :: rest) (hv : s.value? = some v) (hd : d.Iterates exit made) :
    handOver s d m =
      .ok .next (m.withFrames ({ g with stack := made.getD v :: g.stack } :: rest)) := by
  have hpush (v : Value) := deliver_cons hm hd v
  cases s with
  | value v' =>
    cases hv
    exact bind_ok (hpush v)
  | noValue =>
    cases hv
    exact bind_ok (hpush .none)
  | rejected e => cases hv

theorem Vm.follow_ok (h : vm.link c m = .ok control m') : vm.follow c m = .ok control m' := by
  unfold follow
  rw [h]

/-- An error of a link ends the loop that waits for the result, if it stops the iteration. -/
theorem Vm.follow_loopError {e : Error} (h : vm.link c m = .error e m')
    (hexit : c.delivery.loopExit? = some exit) :
    vm.follow c m = if vm.stopsIteration m' e then endLoop exit m' else .error e m' := by
  unfold follow
  rw [h, hexit]

theorem Vm.follow_error {e : Error} (h : vm.link c m = .error e m')
    (hd : c.delivery = .iteration exit) :
    vm.follow c m = if vm.stopsIteration m' e then endLoop exit m' else .error e m' :=
  follow_loopError h (by rw [hd]; rfl)

/-- The loop's own frame, where the others stand still. -/
theorem SameFrames.innermost {frames : List Frame} (h : SameFrames (loop :: callers) frames) :
    ∃ g rest, frames = g :: rest ∧ g.stack = loop.stack := by
  obtain ⟨g, rest, hframes, -, hstanding, -⟩ := h.of_cons
  exact ⟨g, rest, hframes, congrArg (·.2.2.2) hstanding⟩

section Stands

variable (hsame : SameFrames (loop :: callers) m.context.frames)
include hsame

theorem Vm.not_calling_settled (hnext : GoesOnWith next) (s : Settlement)
    (hd : d.Iterates exit made) :
    ¬ (vm.conclude next (handOver s d) m).Calling (loop :: callers).length := by
  obtain ⟨g, rest, hframes, -⟩ := hsame.innermost
  have hlength : (g :: rest).length = (loop :: callers).length := hframes ▸ hsame.length_eq
  rcases s.value_or_rejected with ⟨v, hv⟩ | ⟨e, rfl⟩
  · exact not_calling_ok hnext (handOver_iterates hframes hv hd) (.inl rfl)
      (Nat.le_of_eq hlength)
  · have hne : m.context.frames ≠ [] := hframes ▸ List.cons_ne_nil g rest
    exact not_calling_error hnext rfl hne (Nat.le_of_eq hsame.length_eq)

omit hsame in
/-- An error of a link ends the call. -/
theorem Vm.not_calling_link {e : Error} (hlink : vm.link c m = .error e m')
    (hsame : SameFrames (loop :: callers) m'.context.frames) (hstack : loop.stack ≠ [])
    (hd : c.delivery.Iterates exit made) :
    ¬ (vm.advance (.link c) m).Calling (loop :: callers).length := by
  have hnext := vm.goesOnWith_afterInstruction
  obtain ⟨g, rest, hframes, hg⟩ := hsame.innermost
  have hlength : (g :: rest).length = (loop :: callers).length := hframes ▸ hsame.length_eq
  have hfollow := follow_loopError hlink hd.loopExit?
  split at hfollow
  · obtain ⟨iterator, below, hbelow⟩ := List.exists_cons_of_ne_nil hstack
    rw [endLoop_cons hframes (hg.trans hbelow)] at hfollow
    exact not_calling_ok hnext hfollow (.inl rfl) (Nat.le_of_eq hlength)
  · have hne : m'.context.frames ≠ [] := hframes ▸ List.cons_ne_nil g rest
    exact not_calling_error hnext hfollow hne (Nat.le_of_eq hsame.length_eq)

/-- What a link of the call itself comes to: the call goes on, or a callee replies, or it fails. -/
inductive Vm.HookLinks (vm : Vm) (c : PendingCall) (m : Machine) (base : List Frame) (exit : Nat)
    (made : Option Value) : EStateM.Result Error Machine Control → Prop
  | goesOn (control : Control) (m' : Machine)
      (h : ∀ next, GoesOnWith next →
        (proceed next (.ok control m')).Awaits base exit
          (made.or ((Progress.running (.link c) m).made? base.length)) ∧
        (proceed next (.ok control m')).Calling base.length) :
      HookLinks vm c m base exit made (.ok control m')
  | replies (control : Control) (m' : Machine) (v : Value)
      (hv : vm.Results (.running (.link c) m) v) (hclass : ∀ r, c.callee ≠ .classObj r)
      (hcontrol : control = .next ∨ control = .suspend .resume)
      (hlength : m'.context.frames.length = base.length) :
      HookLinks vm c m base exit made (.ok control m')
  | makes (r : ClassRef) (m₁ m' : Machine) (hm : m₁.context = m.context)
      (hrun : (do deliver (m.made r) c.delivery; return .next : Exec Control) m₁ = .ok .next m')
      (hlength : m'.context.frames.length = base.length) :
      HookLinks vm c m base exit made (.ok .next m')
  | fails (e : Error) (m' : Machine) (hm : m'.context = m.context) :
      HookLinks vm c m base exit made (.error e m')

theorem Vm.hookLinks_complete {effect : Effect Reply} {reply : Reply} {w : World}
    (heffect : c.effect? vm.host m.world.heap = some effect)
    (hreply : effect m.world = .ok reply w) (hd : c.delivery.Iterates exit made) :
    vm.HookLinks c m (loop :: callers) exit made
      (complete reply c.delivery { m with world := w }) := by
  obtain ⟨g, rest, hframes, hg⟩ := hsame.innermost
  have hlength : (g :: rest).length = (loop :: callers).length := hframes ▸ hsame.length_eq
  have hm : ({ m with world := w } : Machine).context.frames = g :: rest := hframes
  have hclass := ne_class_of_effect? heffect
  have hmade : made.or ((Progress.running (.link c) m).made? (loop :: callers).length) = made := by
    rw [made?_of_ne_class hclass, Option.or_none]
  have hreplies {reply : Reply} {v : Value} (hv : vm.Results (.running (.link c) m) v)
      (h : reply = .value v ∨ (reply = .noValue ∨ reply = .yield) ∧ v = .none) :
      vm.HookLinks c m (loop :: callers) exit made
        (complete reply c.delivery { m with world := w }) := by
    obtain ⟨control, m', hrun, hcontrol, hm'⟩ := complete_iterates hm h hd
    rw [hrun]
    exact .replies control m' v hv hclass hcontrol (by rw [hm']; exact hlength)
  cases reply with
  | value v => exact hreplies (.value c m effect v w heffect hreply) (.inl rfl)
  | noValue =>
    exact hreplies (.noValue c m effect _ w heffect hreply (.inl rfl)) (.inr ⟨.inl rfl, rfl⟩)
  | yield =>
    exact hreplies (.noValue c m effect _ w heffect hreply (.inr rfl)) (.inr ⟨.inr rfl, rfl⟩)
  | tailCall callee args =>
    refine .goesOn _ _ fun next _ => ⟨?_, hsame.length_eq.ge⟩
    rw [hmade]
    exact .linking _ _ hsame hd
  | await j =>
    rw [complete]
    cases hs : (w.promise j).settled with
    | none =>
      rw [awaitPromise_pending hs]
      refine .goesOn _ _ fun next _ => ⟨?_, hsame.length_eq.ge⟩
      rw [hmade]
      exact .waiting j _ _ hsame hd
    | some s =>
      rw [awaitPromise_settled hs]
      cases s with
      | value v =>
        exact @hreplies (.value v) v (.settled c m effect j w _ v heffect hreply hs rfl) (.inl rfl)
      | noValue =>
        exact @hreplies .noValue .none (.settled c m effect j w _ .none heffect hreply hs rfl)
          (.inr ⟨.inl rfl, rfl⟩)
      | rejected e => exact .fails e _ rfl

/-- Every link of the call goes one of these ways. -/
theorem Vm.hookLinks_link (vm : Vm) (hd : c.delivery.Iterates exit made) :
    vm.HookLinks c m (loop :: callers) exit made (vm.link c m) := by
  have hlinks := vm.links_link c m
  generalize vm.link c m = r at hlinks
  cases hlinks with
  | call c' m' hcallee hm' hd' =>
    have hsame' : SameFrames (loop :: callers) m'.context.frames := hm' ▸ hsame
    refine .goesOn _ m' fun next _ => ⟨?_, hsame'.length_eq.ge⟩
    rw [made?_of_ne_class hcallee, Option.or_none]
    exact .linking c' m' hsame' (hd' ▸ hd)
  | construct r c' m' hcallee hm' hd' =>
    have hsame' : SameFrames (loop :: callers) m'.context.frames := hm' ▸ hsame
    refine .goesOn _ m' fun next _ => ⟨?_, hsame'.length_eq.ge⟩
    rw [made?_of_class hcallee hsame.length_eq]
    exact .linking c' m' hsame' (hd' ▸ hd.replace (m.made r))
  | make r m' hcallee hm' =>
    obtain ⟨g, rest, hframes, -⟩ := hsame.innermost
    have hlength : (g :: rest).length = (loop :: callers).length := hframes ▸ hsame.length_eq
    have hrun : (do deliver (m.made r) c.delivery; return .next : Exec Control) m' = .ok .next _ :=
      bind_ok (deliver_cons (hm' ▸ hframes) hd (m.made r))
    rw [hrun]
    exact .makes r m' _ hm' hrun hlength
  | enter r f m' hcallee hm' hd' =>
    have hclass (r' : ClassRef) : c.callee ≠ .classObj r' := by
      rw [hcallee]
      exact nofun
    refine .goesOn _ m' fun next hnext => ⟨?_, hnext.calling_iff.2 ?_⟩
    · rw [made?_of_ne_class hclass, Option.or_none]
      refine .above _ f.delivery (hd' ▸ hd) ⟨[], f, m.context.frames, ?_, rfl, hsame⟩
      rw [proceed, hnext.machine_eq, hm']
      rfl
    · rw [hm', ← hsame.length_eq]
      exact Nat.lt_succ_self m.context.frames.length
  | replies effect reply w heffect hreply => exact hookLinks_complete hsame heffect hreply hd
  | error e m' hm' => exact .fails e m' hm'

/-- The call goes on after a link of its own. -/
theorem Vm.awaits_link (hstack : loop.stack ≠ []) (hd : c.delivery.Iterates exit made)
    (hcalling : (vm.advance (.link c) m).Calling (loop :: callers).length) :
    (vm.advance (.link c) m).Awaits (loop :: callers) exit
      (made.or ((Progress.running (.link c) m).made? (loop :: callers).length)) := by
  have hnext := vm.goesOnWith_afterInstruction
  have hlinks := hookLinks_link hsame vm hd
  generalize hlink : vm.link c m = r at hlinks
  cases hlinks with
  | goesOn control m' h =>
    have hadvance : vm.advance (.link c) m = _ := conclude_ok vm (follow_ok hlink)
    rw [hadvance]
    exact (h _ hnext).1
  | replies control m' v hv hclass hcontrol hlength =>
    exact absurd hcalling
      (not_calling_ok hnext (follow_ok hlink) hcontrol (Nat.le_of_eq hlength))
  | makes r m₁ m' hm hrun hlength =>
    exact absurd hcalling
      (not_calling_ok hnext (follow_ok hlink) (.inl rfl) (Nat.le_of_eq hlength))
  | fails e m' hm => exact absurd hcalling (not_calling_link hlink (hm ▸ hsame) hstack hd)

theorem Vm.context_of_link_error {e : Error} (hd : c.delivery.Iterates exit made)
    (hlink : vm.link c m = .error e m') : m'.context = m.context := by
  have hlinks := hookLinks_link hsame vm hd
  rw [hlink] at hlinks
  cases hlinks with
  | fails _ _ hm => exact hm

end Stands

/-- No class is called from a stack of another depth. -/
theorem Progress.made?_of_length_ne (h : p.machine.context.frames.length ≠ depth) :
    p.made? depth = none := by
  match p, h with
  | .running _ _, h => exact Vm.made?_of_length_ne h
  | .stopped _ _, _ => rfl

/-- While the call is under way, its result is still to come to the loop. -/
theorem Vm.Stage.awaits (h : vm.Stage p p') (hp : p.Lawful limit)
    (hawaits : p.Awaits (loop :: callers) exit made) (hstack : loop.stack ≠ [])
    (hcalling : p'.Calling (loop :: callers).length) :
    p'.Awaits (loop :: callers) exit (made.or (p.made? (loop :: callers).length)) := by
  cases hawaits with
  | above _ d hd habove =>
    rw [p.made?_of_length_ne (Nat.ne_of_gt habove.length_lt), Option.or_none]
    exact .above _ d hd (h.above hp habove hcalling)
  | linking c m hsame hd =>
    cases h with
    | advance phase m => exact awaits_link hsame hstack hd hcalling
  | waiting q d m hsame hd =>
    have hmade : made.or ((Progress.stopped (.suspended (.await q d)) m).made?
        (loop :: callers).length) = made := Option.or_none
    rw [hmade]
    cases h with
    | resume k m hfatal hunhandled =>
      simp only [resumption] at hcalling ⊢
      cases hs : (m.world.promise q).settled with
      | none => exact .waiting q d _ hsame hd
      | some s =>
        rw [hs] at hcalling
        exact absurd hcalling (not_calling_settled hsame (fun _ => .inl rfl) s hd)
    | outside k m world => exact .waiting q d _ hsame hd
    | setGlobal k m name v =>
      exact .waiting q d _ (hsame.trans (Context.sameFrames_mapRoot name v m.context.frames)) hd
    | setLoader k m loader => exact .waiting q d _ hsame hd

end Calls

/-! ## Requests -/

/-- A loop that asks for its next value: the frame of the loop, which stands at the instruction, and
its callers, the iterator with the values below it, the hook, and the offsets of the exit and of the
next instruction. -/
structure HookRequest where
  frame : Frame
  callers : List Frame
  iterator : Value
  below : List Value
  hook : Value
  exit : Nat
  next : Nat

namespace HookRequest

/-- The frame of the loop while the call lasts. -/
def loop (q : HookRequest) : Frame :=
  q.frame.reading q.next

/-- The frame of the loop with a value above the iterator. -/
def given (q : HookRequest) (v : Value) : Frame :=
  { q.loop with stack := v :: q.iterator :: q.below }

/-- The frame of the loop at the exit, without the iterator. -/
def left (q : HookRequest) : Frame :=
  { q.loop with stack := q.below, ip := q.exit }

/-- The number of frames from which the hook is called. -/
def depth (q : HookRequest) : Nat :=
  q.callers.length + 1

/-- The call of the hook. -/
def call (q : HookRequest) : PendingCall :=
  { callee := q.hook, delivery := .iteration q.exit }

end HookRequest

/-- The next instruction asks for the next value of a loop whose iterator has a hook. -/
structure Machine.Asks (m : Machine) (q : HookRequest) : Prop where
  frames : m.context.frames = q.frame :: q.callers
  instruction : decodeAt q.frame.unit.bytes q.frame.ip = some ⟨.forIter q.exit, q.next⟩
  stack : q.frame.stack = q.iterator :: q.below
  hook : m.world.heap.hook? q.iterator "__next__" = some q.hook

section Requests

variable {vm : Vm} {m : Machine} {q : HookRequest}

theorem Exec.peek_cons {f : Frame} {callers : List Frame} {v : Value} {stack : List Value}
    (hm : m.context.frames = f :: callers) (hf : f.stack = v :: stack) :
    peek m = .ok v m := by
  simp only [peek]
  rw [bind_ok (frame_cons hm), hf]
  rfl

/-- The loop calls the hook, once. -/
theorem Machine.Asks.advance (h : m.Asks q) (vm : Vm) :
    vm.advance .fetch m = .running (.link q.call) (m.withFrames (q.loop :: q.callers)) := by
  have hrun : vm.perform .fetch m =
      .ok (.call q.call) (m.withFrames (q.loop :: q.callers)) := by
    have hhook := h.hook
    have hpeek : peek (m.withFrames (q.loop :: q.callers)) = .ok q.iterator _ :=
      peek_cons rfl h.stack
    have hheap : Exec.heap (m.withFrames (q.loop :: q.callers)) = .ok m.world.heap _ := rfl
    rw [Vm.perform_fetch vm h.frames h.instruction]
    simp only [Vm.execute, runForIter]
    rw [← HookRequest.loop, bind_ok hpeek]
    cases hiterator : q.iterator with
    | iterator r =>
      rw [hiterator] at hhook
      cases hhook
    | _ =>
      rw [hiterator] at hhook
      dsimp only
      rw [bind_ok hheap, hhook]
      rfl
  rw [Vm.advance, Vm.conclude_ok vm hrun]
  rfl

end Requests

end TaskletMachine
