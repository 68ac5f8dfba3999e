import TaskletMachine.Proofs.Machine.HookEndings
import TaskletMachine.Proofs.Machine.RelationSteps

/-!
# Two runs of one call

A loop calls for its next value, and other code calls the same callee and has the result pushed. The
two calls run alike: above the callers there are the same frames, but for the one that was entered
first, whose result goes to the loop in one run and is pushed in the other. The callers stand still,
in different units perhaps, and bind the same names.

## Main definitions

* `Delivery.Twin`: what becomes of the result in the two runs.
* `CallersAlike`, `TwinFrames`: the call stacks of the two runs.
* `TwinFrames.relation`: instructions do the same on them.
-/
namespace TaskletMachine

open Exec

/-! ## Deliveries -/

/-- The result of a call goes to a loop, or is pushed. If a value has taken the place of the result,
it has done so in both. -/
inductive Delivery.Twin (exit : Nat) : Delivery → Delivery → Prop
  | loop : Twin exit (.iteration exit) .push
  | replace (v : Value) {d d' : Delivery} (h : Twin exit d d') :
      Twin exit (.replace v d) (.replace v d')

namespace Delivery.Twin

variable {exit : Nat} {d d' : Delivery}

theorem loopExit? (h : d.Twin exit d') : d.loopExit? = some exit ∧ d'.loopExit? = none := by
  induction h with
  | loop => exact ⟨rfl, rfl⟩
  | replace v h ih => exact ih

/-- A value is pushed in both cases. -/
theorem deliver (h : d.Twin exit d') (v : Value) :
    ∃ given, TaskletMachine.deliver v d = Exec.push given ∧
      TaskletMachine.deliver v d' = Exec.push given := by
  induction h generalizing v with
  | loop => exact ⟨v, rfl, rfl⟩
  | replace other h ih => exact ih other

theorem deliverFrom {f : Frame} (h : d.Twin exit d') (hf : f.delivery = d) (v : Value) :
    TaskletMachine.deliverFrom f v = TaskletMachine.deliver v d ∧
      TaskletMachine.deliverFrom (f.withDelivery d') v = TaskletMachine.deliver v d' := by
  unfold TaskletMachine.deliverFrom
  rw [hf]
  cases h <;> exact ⟨rfl, rfl⟩

theorem bindsOwn {f : Frame} (h : d.Twin exit d') (hf : f.delivery = d) (name : String) :
    Context.bindsOwn (f.withDelivery d') name = Context.bindsOwn f name := by
  unfold Context.bindsOwn
  rw [hf]
  cases h <;> rfl

/-- The loop asks for the value itself, or a class does that it has called. -/
theorem iterationExit? {f : Frame} (h : d.Twin exit d') (hf : f.delivery = d) :
    (f.withDelivery d').iterationExit? = none ∧
      (d = .iteration exit ∧ f.iterationExit? = some exit ∨
        (∃ v next, d = .replace v next) ∧ f.iterationExit? = none) := by
  unfold Frame.iterationExit?
  rw [hf]
  cases h with
  | loop => exact ⟨rfl, .inl ⟨rfl, rfl⟩⟩
  | replace v h => exact ⟨rfl, .inr ⟨⟨v, _, rfl⟩, rfl⟩⟩

end Delivery.Twin

/-! ## Locals -/

/-- The frames have the same locals with the same values, wherever they stand. -/
structure Frame.SameLocals (f g : Frame) : Prop where
  localNames : g.unit.localNames = f.unit.localNames
  slots : g.slots = f.slots
  names : g.names = f.names

namespace Frame.SameLocals

variable {f g : Frame}

theorem withDelivery (f : Frame) (d : Delivery) : f.SameLocals (f.withDelivery d) :=
  ⟨rfl, rfl, rfl⟩

theorem localIndex? (h : f.SameLocals g) (name : String) :
    g.unit.localIndex? name = f.unit.localIndex? name := by
  unfold UnitOf.localIndex?
  rw [h.localNames]

theorem local? (h : f.SameLocals g) (name : String) : g.local? name = f.local? name := by
  unfold Frame.local? slotOf?
  rw [h.localIndex?, h.slots, h.names]

theorem hasLocal (h : f.SameLocals g) (name : String) : g.hasLocal name = f.hasLocal name := by
  unfold Frame.hasLocal
  rw [h.local?]

theorem setLocal (h : f.SameLocals g) (name : String) (v : Value) :
    (f.setLocal name v).SameLocals (g.setLocal name v) := by
  unfold Frame.setLocal
  rw [h.localIndex?, h.slots, h.names]
  split
  · exact ⟨h.localNames, rfl, rfl⟩
  · exact ⟨h.localNames, rfl, rfl⟩

end Frame.SameLocals

section Locals

variable {R Q : List Frame → List Frame → Prop} {f g : Frame} {frames frames' : List Frame}
  {name : String} {v : Value}

theorem findSome?_sameLocals (h : List.Forall₂ Frame.SameLocals frames frames') (name : String) :
    frames'.findSome? (·.local? name) = frames.findSome? (·.local? name) := by
  induction h with
  | nil => rfl
  | cons hf h ih => rw [List.findSome?_cons, List.findSome?_cons, hf.local?, ih]

theorem root_sameLocals (h : List.Forall₂ Frame.SameLocals frames frames') (name : String) :
    (frames'.getLast?.bind fun f => f.local? name) =
      frames.getLast?.bind fun f => f.local? name := by
  induction h with
  | nil => rfl
  | @cons f g rest rest' hf h ih =>
    cases h with
    | nil => exact hf.local? name
    | cons hg h => exact ih

theorem mapRoot_sameLocals (h : List.Forall₂ Frame.SameLocals frames frames') (name : String)
    (v : Value) : List.Forall₂ Frame.SameLocals (Context.mapRoot (·.setLocal name v) frames)
      (Context.mapRoot (·.setLocal name v) frames') := by
  induction h with
  | nil => exact .nil
  | @cons f g rest rest' hf h ih =>
    cases h with
    | nil => exact .cons (hf.setLocal name v) .nil
    | cons hg h => exact .cons hf ih

/-- A name is stored in frames at the same place, or in none. -/
def StoresAlike (R : List Frame → List Frame → Prop) (name : String) (v : Value)
    (frames frames' : List Frame) : Prop :=
  Context.storeInNearest? name v frames = none ∧ Context.storeInNearest? name v frames' = none ∨
    ∃ stored stored', Context.storeInNearest? name v frames = some stored ∧
      Context.storeInNearest? name v frames' = some stored' ∧ R stored stored'

theorem StoresAlike.cons (hf : f.SameLocals g)
    (hset : R (f.setLocal name v :: frames) (g.setLocal name v :: frames'))
    (h : StoresAlike Q name v frames frames')
    (hcons : ∀ stored stored', Q stored stored' → R (f :: stored) (g :: stored')) :
    StoresAlike R name v (f :: frames) (g :: frames') := by
  unfold StoresAlike Context.storeInNearest?
  rw [hf.hasLocal]
  split
  · exact .inr ⟨_, _, rfl, rfl, hset⟩
  · rcases h with ⟨hnone, hnone'⟩ | ⟨stored, stored', hstored, hstored', hR⟩
    · exact .inl ⟨by rw [hnone]; rfl, by rw [hnone']; rfl⟩
    · exact .inr ⟨_, _, by rw [hstored]; rfl, by rw [hstored']; rfl, hcons _ _ hR⟩

/-- The innermost frame binds the name itself, or the frames below it are looked at. -/
theorem StoresAlike.storeName {c : Context} (hc : c.frames = f :: frames)
    (hown : Context.bindsOwn g name = Context.bindsOwn f name)
    (hset : R (f.setLocal name v :: frames) (g.setLocal name v :: frames'))
    (h : StoresAlike Q name v frames frames')
    (hcons : ∀ stored stored', Q stored stored' → R (f :: stored) (g :: stored')) :
    ∃ stored stored', R stored stored' ∧
      c.storeName? name v = some { c with frames := stored } ∧
      Context.storeName? { c with frames := g :: frames' } name v =
        some { c with frames := stored' } := by
  unfold Context.storeName?
  rw [hc]
  dsimp only
  rw [hown]
  split
  · exact ⟨_, _, hset, rfl, rfl⟩
  · rcases h with ⟨hnone, hnone'⟩ | ⟨stored, stored', hstored, hstored', hQ⟩
    · rw [hnone, hnone']
      exact ⟨_, _, hset, rfl, rfl⟩
    · rw [hstored, hstored']
      exact ⟨_, _, hcons _ _ hQ, rfl, rfl⟩

theorem storesAlike_sameLocals (h : List.Forall₂ Frame.SameLocals frames frames') (name : String)
    (v : Value) : StoresAlike (List.Forall₂ Frame.SameLocals) name v frames frames' := by
  induction h with
  | nil => exact .inl ⟨rfl, rfl⟩
  | cons hf h ih => exact .cons hf (.cons (hf.setLocal name v) h) ih fun _ _ => .cons hf

end Locals

/-! ## Call stacks -/

/-- The callers of the two calls, innermost first. They stand where they stood when the calls were
made, and bind the same names. -/
structure CallersAlike (base base' frames frames' : List Frame) : Prop where
  locals : List.Forall₂ Frame.SameLocals frames frames'
  left : SameFrames base frames
  right : SameFrames base' frames'

/-- The call stacks of the two runs. There are the same frames above that of the callee, which has
another delivery, above the callers. -/
inductive TwinFrames (base base' : List Frame) (d d' : Delivery) : List Frame → List Frame → Prop
  | entered (f : Frame) {callers callers' : List Frame} (hf : f.delivery = d)
      (h : CallersAlike base base' callers callers') :
      TwinFrames base base' d d' (f :: callers) (f.withDelivery d' :: callers')
  | inner (f : Frame) {callers callers' : List Frame}
      (h : TwinFrames base base' d d' callers callers') :
      TwinFrames base base' d d' (f :: callers) (f :: callers')

section Stacks

variable {base base' frames frames' : List Frame} {d d' : Delivery} {exit : Nat}

namespace CallersAlike

theorem length_eq (h : CallersAlike base base' frames frames') : frames'.length = frames.length :=
  h.locals.length_eq.symm

theorem exists_cons (h : CallersAlike base base' frames frames') (hbase : base ≠ []) :
    ∃ f g callers callers', frames = f :: callers ∧ frames' = g :: callers' := by
  have hne : frames ≠ [] := by
    rintro rfl
    exact hbase (List.eq_nil_of_length_eq_zero h.left.length_eq.symm)
  obtain ⟨f, callers, rfl⟩ := List.exists_cons_of_ne_nil hne
  obtain ⟨g, callers', -, -, rfl⟩ := List.forall₂_cons_left_iff.1 h.locals
  exact ⟨f, g, callers, callers', rfl, rfl⟩

theorem storeGlobal (h : CallersAlike base base' frames frames') (name : String) (v : Value) :
    CallersAlike base base' (Context.mapRoot (·.setLocal name v) frames)
      (Context.mapRoot (·.setLocal name v) frames') :=
  ⟨mapRoot_sameLocals h.locals name v, h.left.trans (Context.sameFrames_mapRoot name v frames),
    h.right.trans (Context.sameFrames_mapRoot name v frames')⟩

theorem storesAlike (h : CallersAlike base base' frames frames') (name : String) (v : Value) :
    StoresAlike (CallersAlike base base') name v frames frames' := by
  refine (storesAlike_sameLocals h.locals name v).imp_right ?_
  rintro ⟨stored, stored', hstored, hstored', hlocals⟩
  exact ⟨stored, stored', hstored, hstored', hlocals,
    h.left.trans (Context.sameFrames_storeInNearest? hstored),
    h.right.trans (Context.sameFrames_storeInNearest? hstored')⟩

end CallersAlike

namespace TwinFrames

theorem locals (h : TwinFrames base base' d d' frames frames') :
    List.Forall₂ Frame.SameLocals frames frames' := by
  induction h with
  | entered f hf h => exact .cons (.withDelivery f d') h.locals
  | inner f h ih => exact .cons ⟨rfl, rfl, rfl⟩ ih

theorem top (h : TwinFrames base base' d d' frames frames') :
    ∃ f e callers callers', frames = f :: callers ∧ frames' = f.withDelivery e :: callers' ∧
      ∀ g : Frame, g.delivery = f.delivery →
        TwinFrames base base' d d' (g :: callers) (g.withDelivery e :: callers') := by
  cases h with
  | entered f hf h => exact ⟨f, d', _, _, rfl, rfl, fun g hg => .entered g (hg.trans hf) h⟩
  | inner f h =>
    refine ⟨f, f.delivery, _, _, rfl, rfl, fun g hg => ?_⟩
    rw [Frame.withDelivery_of_eq hg]
    exact .inner g h

/-- There is a caller below the innermost frame. -/
theorem callers (h : TwinFrames base base' d d' frames frames') (hbase : base ≠ []) :
    ∃ f e caller caller' rest rest', frames = f :: caller :: rest ∧
      frames' = f.withDelivery e :: caller' :: rest' ∧
      ∀ g : Frame, g.delivery = f.delivery →
        TwinFrames base base' d d' (g :: caller :: rest)
          (g.withDelivery e :: caller' :: rest') := by
  cases h with
  | entered f hf h =>
    obtain ⟨caller, caller', rest, rest', rfl, rfl⟩ := h.exists_cons hbase
    exact ⟨f, d', caller, caller', rest, rest', rfl, rfl, fun g hg => .entered g (hg.trans hf) h⟩
  | inner f h =>
    obtain ⟨caller, e, rest, rest', rfl, rfl, -⟩ := h.top
    refine ⟨f, f.delivery, caller, caller.withDelivery e, rest, rest', rfl, rfl, fun g hg => ?_⟩
    rw [Frame.withDelivery_of_eq hg]
    exact .inner g h

theorem setLocal_entered {f : Frame} {callers callers' : List Frame} (hf : f.delivery = d)
    (h : CallersAlike base base' callers callers') (name : String) (v : Value) :
    TwinFrames base base' d d' (f.setLocal name v :: callers)
      ((f.withDelivery d').setLocal name v :: callers') := by
  rw [Frame.setLocal_withDelivery]
  exact .entered _ ((congrArg Prod.snd (f.outline_setLocal name v)).trans hf) h

theorem storeGlobal (h : TwinFrames base base' d d' frames frames') (name : String) (v : Value) :
    TwinFrames base base' d d' (Context.mapRoot (·.setLocal name v) frames)
      (Context.mapRoot (·.setLocal name v) frames') := by
  induction h with
  | @entered f callers callers' hf h =>
    have hcallers := h.storeGlobal name v
    cases h.locals with
    | nil => exact setLocal_entered hf h name v
    | cons hg _ => exact .entered f hf hcallers
  | @inner f callers callers' h ih =>
    cases h with
    | entered g hg h => exact .inner f ih
    | inner g h => exact .inner f ih

theorem storesAlike (h : TwinFrames base base' d d' frames frames') (name : String) (v : Value) :
    StoresAlike (TwinFrames base base' d d') name v frames frames' := by
  induction h with
  | entered f hf h =>
    exact .cons (.withDelivery f d') (setLocal_entered hf h name v) (h.storesAlike name v)
      fun _ _ => .entered f hf
  | inner f h ih => exact .cons ⟨rfl, rfl, rfl⟩ (.inner _ h) ih fun _ _ => .inner f

theorem storeName {c : Context} (hd : d.Twin exit d')
    (h : TwinFrames base base' d d' c.frames frames) (name : String) (v : Value) :
    ∃ stored stored', TwinFrames base base' d d' stored stored' ∧
      c.storeName? name v = some { c with frames := stored } ∧
      Context.storeName? { c with frames } name v = some { c with frames := stored' } := by
  generalize hc : c.frames = frames₀ at h
  cases h with
  | entered f hf h =>
    exact StoresAlike.storeName hc (hd.bindsOwn hf name) (setLocal_entered hf h name v)
      (h.storesAlike name v) fun _ _ => .entered f hf
  | inner f h =>
    exact StoresAlike.storeName hc rfl (.inner _ h) (h.storesAlike name v) fun _ _ => .inner f

/-- Instructions do the same in both runs. -/
def relation (base base' : List Frame) (hd : d.Twin exit d') : FrameRelation where
  Related := TwinFrames base base' d d'
  top h := h.top
  enter h f := .inner f h
  length_eq h := h.locals.length_eq.symm
  loadName h name := by
    unfold Context.loadName?
    rw [findSome?_sameLocals h.locals name]
  loadGlobal h name := by
    unfold Context.loadGlobal? Context.global? Context.root?
    dsimp only
    rw [root_sameLocals h.locals name]
  storeName h name v := h.storeName hd name v
  storeGlobal h name v := h.storeGlobal name v

end TwinFrames

end Stacks

end TaskletMachine
