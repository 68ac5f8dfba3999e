import TaskletMachine.Proofs.Machine.Lockstep

/-!
# Steps in lockstep

A step above the callers does the same in both runs. It may raise a fault, which may get to the
callers, or leave the frame that was entered first, whose result then goes to the callers.

## Main definitions

* `Vm.together_conclude`, `Vm.together_raiseError`: steps that fail.
* `Vm.together_returnFrom`: leaving a frame.
* `Vm.together_fetch`: the next instruction.
-/
namespace TaskletMachine

open Exec

section Steps

variable {vm : Vm} {exit : Nat} {base base' frames : List Frame} {d d' : Delivery} {m : Machine}

/-! ## Above the callers -/

theorem Exec.Respects.exceptionOf {R : List Frame → List Frame → Prop} (e : Error) :
    Respects R (vm.exceptionOf e) := by
  unfold Vm.exceptionOf
  cases e.cause with
  | exception kind message => exact makeException kind message
  | raised v => exact normalizeException v
  | _ => exact throw e

/-- An error is raised at the same place in both runs. -/
theorem Vm.together_raiseError (hd : d.Twin exit d') (hbase : AwaitsNext base)
    (h : TwinFrames base base' d d' m.context.frames frames) (e : Error) :
    vm.Together exit base base' d (proceed vm.afterInstruction (vm.raiseError e m))
      (proceed vm.afterInstruction (vm.raiseError e (m.withFrames frames))) := by
  have hvalue : SameResult (Machine.SameBut (TwinFrames base base' d d')) (vm.exceptionOf e m)
    (vm.exceptionOf e (m.withFrames frames)) := Respects.exceptionOf e m frames h
  rw [raiseError_eq]
  cases hrun : vm.exceptionOf e m with
  | error e' m₁ =>
    rw [hrun] at hvalue
    generalize hrun' : vm.exceptionOf e (m.withFrames frames) = r at hvalue
    cases hvalue with
    | error _ hsame =>
      rw [bind_error hrun, bind_error hrun']
      exact together_same hd (.error e' hsame)
  | ok v m₁ =>
    rw [hrun] at hvalue
    generalize hrun' : vm.exceptionOf e (m.withFrames frames) = r at hvalue
    cases hvalue with
    | ok _ hsame =>
      obtain ⟨frames₁, h₁, rfl⟩ := hsame
      obtain ⟨f, e', callers, callers', hframes, hframes', -⟩ := h₁.top
      have hplace : (f.withDelivery e').place = f.place := rfl
      rw [bind_ok hrun, bind_ok hrun', bind_ok (frame_cons hframes),
        bind_ok (frame_cons (m := m₁.withFrames frames₁) hframes'), hplace]
      exact together_raiseFault hd hbase h₁ _

theorem Vm.together_conclude (hd : d.Twin exit d') (hbase : AwaitsNext base) {x y : Exec Control}
    {m' : Machine} (h : SameResult (Machine.SameBut (TwinFrames base base' d d')) (x m) (y m')) :
    vm.Together exit base base' d (vm.conclude vm.afterInstruction x m)
      (vm.conclude vm.afterInstruction y m') := by
  unfold conclude catching
  generalize x m = r at h
  generalize y m' = r' at h
  cases h with
  | ok control hsame => exact together_same hd (.ok control hsame)
  | error e hsame =>
    dsimp only
    split
    · obtain ⟨frames, hframes, rfl⟩ := hsame
      exact together_raiseError hd hbase hframes e
    · exact together_same hd (.error e hsame)

theorem Vm.together_concludeFault (hd : d.Twin exit d') (hbase : AwaitsNext base)
    (h : TwinFrames base base' d d' m.context.frames frames) {x y : Exec Control} {fault : Fault}
    {m₀ m₀' : Machine} (hx : x m₀ = vm.raiseFault fault m)
    (hy : y m₀' = vm.raiseFault fault (m.withFrames frames)) :
    vm.Together exit base base' d (vm.conclude vm.afterInstruction x m₀)
      (vm.conclude vm.afterInstruction y m₀') := by
  rw [conclude, conclude, catching_raiseFault hx, catching_raiseFault hy]
  exact together_raiseFault hd hbase h fault

/-! ### Leaving a frame -/

theorem AwaitsNext.ne_nil (h : AwaitsNext base) : base ≠ [] := by
  obtain ⟨f, callers, iterator, stack, rfl, -⟩ := h
  exact List.cons_ne_nil f callers

/-- The same value is given to both callers. -/
theorem CallersAlike.push (h : CallersAlike base base' m.context.frames frames) (hbase : base ≠ [])
    (v : Value) : ∃ f g callers callers', CallersAlike base base' (f :: callers) (g :: callers') ∧
      Exec.push v m = .ok () (m.withFrames ({ f with stack := v :: f.stack } :: callers)) ∧
      Exec.push v (m.withFrames frames) =
        .ok () (m.withFrames ({ g with stack := v :: g.stack } :: callers')) := by
  obtain ⟨f, g, callers, callers', hframes, rfl⟩ := h.exists_cons hbase
  exact ⟨f, g, callers, callers', hframes ▸ h, Vm.push_cons hframes v, Vm.push_cons rfl v⟩

theorem returnFrom_cons {f : Frame} {callers : List Frame} (hm : m.context.frames = f :: callers)
    (hcallers : callers ≠ []) (v : Value) :
    returnFrom v m = (do deliverFrom f v; return .next : Exec Control) (m.withFrames callers) := by
  obtain ⟨caller, rest, rfl⟩ := List.exists_cons_of_ne_nil hcallers
  unfold returnFrom
  rw [bind_ok (rfl : Exec.context m = .ok m.context m), hm]
  rfl

/-- The innermost frame is left with a result. It may be that of the callee. -/
theorem Vm.together_returnFrom (hd : d.Twin exit d') (hbase : AwaitsNext base)
    (h : TwinFrames base base' d d' m.context.frames frames) (v : Value) {x y : Exec Control}
    {m₀ m₀' : Machine} (hx : x m₀ = returnFrom v m)
    (hy : y m₀' = returnFrom v (m.withFrames frames)) :
    vm.Together exit base base' d (vm.conclude vm.afterInstruction x m₀)
      (vm.conclude vm.afterInstruction y m₀') := by
  generalize hm : m.context.frames = frames₀ at h
  cases h with
  | @entered f callers callers' hf h =>
    obtain ⟨caller, caller', rest, rest', rfl, rfl⟩ := h.exists_cons hbase.ne_nil
    obtain ⟨given, hdeliver, hdeliver'⟩ := hd.deliver v
    obtain ⟨hfrom, hfrom'⟩ := hd.deliverFrom hf v
    rw [returnFrom_cons hm (List.cons_ne_nil caller rest), hfrom, hdeliver] at hx
    rw [returnFrom_cons rfl (List.cons_ne_nil caller' rest'), hfrom', hdeliver'] at hy
    have hgiven : x m₀ = .ok .next _ := hx.trans (bind_ok (push_cons rfl given))
    have hgiven' : y m₀' = .ok .next _ := hy.trans (bind_ok (push_cons rfl given))
    rw [conclude_ok vm hgiven, conclude_ok vm hgiven']
    exact .inr (.value given m vm.afterInstruction h (.inl rfl))
  | @inner f callers callers' h =>
    obtain ⟨g, e, rest, rest', rfl, rfl, -⟩ := h.top
    have hsame : Respects (TwinFrames base base' d d')
        (do deliverFrom f v; return .next : Exec Control) :=
      .bind (Respects.deliverFrom (I := TwinFrames.relation base base' hd) f v) fun _ => .pure _
    refine together_conclude hd hbase ?_
    rw [hx, hy, returnFrom_cons hm (List.cons_ne_nil g rest),
      returnFrom_cons rfl (List.cons_ne_nil (g.withDelivery e) rest')]
    exact hsame (m.withFrames (g :: rest)) _ h

/-! ### Instructions -/

/-- The end of a cleanup body in a frame with another delivery. -/
def FinallyEnd.withDelivery (d : Delivery) : FinallyEnd → FinallyEnd
  | outside => outside
  | done f => done (f.withDelivery d)
  | fault x f => fault x (f.withDelivery d)

theorem Frame.endFinally_withDelivery (f : Frame) (d : Delivery) :
    (f.withDelivery d).endFinally = f.endFinally.withDelivery d := by
  have hblocks : (f.withDelivery d).blocks = f.blocks := rfl
  have hip : (f.withDelivery d).instructionIp = f.instructionIp := rfl
  unfold endFinally
  rw [hblocks, hip]
  cases f.blocks with
  | nil => rfl
  | cons b rest =>
    dsimp only
    split
    · rfl
    · split <;> rfl
    · rfl
    · rfl

section Fetching

variable (hd : d.Twin exit d') (hbase : AwaitsNext base)
  (h : TwinFrames base base' d d' m.context.frames frames) {x y : Exec Control} {m₀ m₀' : Machine}
include hd hbase h

/-- A cleanup body ends in both runs. -/
theorem Vm.together_endFinally (hx : x m₀ = vm.execute .endFinally m)
    (hy : y m₀' = vm.execute .endFinally (m.withFrames frames)) :
    vm.Together exit base base' d (vm.conclude vm.afterInstruction x m₀)
      (vm.conclude vm.afterInstruction y m₀') := by
  obtain ⟨f, e, callers, callers', hm, rfl, htop⟩ := h.top
  have hself : m.withFrames (f :: callers) = m := by rw [Machine.withFrames, ← hm]
  rw [← hself, execute_endFinally] at hx
  rw [execute_endFinally, Frame.endFinally_withDelivery] at hy
  rcases f.endFinally_cases with hends | ⟨b, rest, -, hends | ⟨fault, -, hends⟩⟩
  · rw [hends] at hx hy
    refine together_conclude hd hbase ?_
    rw [hx, hy]
    exact .ok Control.next ⟨_, htop f rfl, rfl⟩
  · rw [hends] at hx hy
    refine together_conclude hd hbase ?_
    rw [hx, hy]
    exact .ok Control.next ⟨_, htop (f.without b rest) rfl, rfl⟩
  · rw [hends] at hx hy
    exact together_concludeFault hd hbase (htop (f.without b rest) rfl) hx hy

/-- The exception that was caught last is raised again in both runs. -/
theorem Vm.together_reraise (hx : x m₀ = vm.execute (.raise 0) m)
    (hy : y m₀' = vm.execute (.raise 0) (m.withFrames frames)) :
    vm.Together exit base base' d (vm.conclude vm.afterInstruction x m₀)
      (vm.conclude vm.afterInstruction y m₀') := by
  have hsame : (m.withFrames frames).context.handled = m.context.handled := rfl
  rw [execute_raise_zero] at hx hy
  rw [hsame] at hy
  cases hhandled : m.context.handled with
  | some fault =>
    rw [hhandled] at hx hy
    exact together_concludeFault hd hbase h hx hy
  | none =>
    rw [hhandled] at hx hy
    refine together_conclude hd hbase ?_
    rw [hx, hy]
    exact Respects.raise _ _ m frames h

/-- The innermost frame is left with its top value. -/
theorem Vm.together_returnValue (hx : x m₀ = vm.execute .returnValue m)
    (hy : y m₀' = vm.execute .returnValue (m.withFrames frames)) :
    vm.Together exit base base' d (vm.conclude vm.afterInstruction x m₀)
      (vm.conclude vm.afterInstruction y m₀') := by
  obtain ⟨f, e, caller, caller', rest, rest', hm, rfl, htop⟩ := h.callers hbase.ne_nil
  cases hstack : f.stack with
  | nil =>
    refine together_conclude hd hbase ?_
    have hleft : vm.execute .returnValue m = .error _ m := bind_error (pop_nil hm hstack)
    have hright : vm.execute .returnValue (m.withFrames (f.withDelivery e :: caller' :: rest')) =
      .error _ _ := bind_error (pop_nil rfl hstack)
    rw [hx, hy, hleft, hright]
    exact .error _ ⟨_, h, rfl⟩
  | cons v stack =>
    have hstack' : (f.withDelivery e).stack = v :: stack := hstack
    exact together_returnFrom hd hbase (htop { f with stack } rfl) v
      (hx.trans (execute_returnValue hm hstack)) (hy.trans (execute_returnValue rfl hstack'))

/-- The next instruction, or the end of the code. -/
theorem Vm.together_fetch :
    vm.Together exit base base' d (vm.advance .fetch m)
      (vm.advance .fetch (m.withFrames frames)) := by
  obtain ⟨f, e, caller, caller', rest, rest', hm, rfl, htop⟩ := h.callers hbase.ne_nil
  have hm' : (m.withFrames (f.withDelivery e :: caller' :: rest')).context.frames =
      f.withDelivery e :: caller' :: rest' := rfl
  cases hdecode : decodeAt f.unit.bytes f.ip with
  | none =>
    have hend : f.atEnd := decide_eq_true (decodeAt_eq_none.1 hdecode)
    have hend' : (f.withDelivery e).atEnd := hend
    exact together_returnFrom hd hbase h .none (perform_atEnd hm hend) (perform_atEnd hm' hend')
  | some decoded =>
    obtain ⟨i, next⟩ := decoded
    have hread := htop (f.reading next) rfl
    have hleft := vm.perform_fetch hm hdecode
    have hright := vm.perform_fetch hm' hdecode
    by_cases hreturn : i = .returnValue
    · subst hreturn
      exact together_returnValue hd hbase hread hleft hright
    by_cases hfinally : i = .endFinally
    · subst hfinally
      exact together_endFinally hd hbase hread hleft hright
    by_cases hraise : i = .raise 0
    · subst hraise
      exact together_reraise hd hbase hread hleft hright
    refine together_conclude hd hbase ?_
    rw [hleft, hright]
    exact respects_execute (I := TwinFrames.relation base base' hd) hreturn hfinally hraise
      (m.withFrames (f.reading next :: caller :: rest)) _ hread

end Fetching

end Steps

end TaskletMachine
