import TaskletMachine.Proofs.Machine.Inversion
import TaskletMachine.Proofs.Machine.Pending
import TaskletMachine.Proofs.Value.Lineage
import TaskletMachine.Proofs.Value.Parts

/-!
# How a callee is resolved

A call goes on from callee to callee until it comes to something that is executed. The next callee
is read from the heap, where guest code may have put anything: an instance may be its own `__call__`,
and then the call never gets anywhere. It does get somewhere in all other cases, since a call passes
each of the finitely many callees at most once.

## Main definitions

* `Heap.nextCallee?`, `Heap.Forwards`: the callee that takes the place of a callee.
* `Heap.CallsInCircles`: calls that come to a callee again and again.
* `Vm.Resolves`: a link of a call that leads to another callee.
* `Vm.Settles`: the ways in which a call ends that has come to its last callee.

## Main results

* `Vm.call_resolution`: which calls come to an end.
-/
namespace TaskletMachine

open Exec

namespace Heap

variable {h h' : Heap} {v w x : Value}

/-! ## Callees -/

/-- The callee that takes the place of a callee, if it does not come to an end with this one. -/
def nextCallee? (h : Heap) : Value → Option Value
  | .method _ callee => some callee
  | .classObj r => h.classAttr? r "__init__"
  | .instanceObj r => h.instanceAttr? r "__call__"
  | .foreignType _ constructor => some (.native constructor)
  | _ => none

/-- A call of the first value goes on as a call of the second. -/
def Forwards (h : Heap) (v w : Value) : Prop :=
  h.nextCallee? v = some w

/-- A call of the value comes to some callee again and again. -/
def CallsInCircles (h : Heap) (v : Value) : Prop :=
  ∃ w, Relation.ReflTransGen h.Forwards v w ∧ Relation.TransGen h.Forwards w w

/-- There is always a next callee in a circle. -/
theorem CallsInCircles.exists_forwards (hv : h.CallsInCircles v) :
    ∃ w, h.Forwards v w ∧ h.CallsInCircles w := by
  obtain ⟨x, hvx, hcircle⟩ := hv
  rcases Relation.ReflTransGen.cases_head hvx with rfl | ⟨w, hvw, hwx⟩
  · obtain ⟨w, hvw, hback⟩ := Relation.TransGen.head'_iff.1 hcircle
    exact ⟨w, hvw, v, hback, hcircle⟩
  · exact ⟨w, hvw, x, hwx, hcircle⟩

/-- An instance that is its own next callee leads nowhere else. -/
theorem eq_of_forwards_self (hv : h.Forwards v v) (hvw : Relation.ReflTransGen h.Forwards v w) :
    w = v := by
  induction hvw with
  | refl => rfl
  | tail _ hstep ih =>
    subst ih
    exact Option.some.inj (hstep.symm.trans hv)

theorem CallsInCircles.of_forwards (hvw : h.Forwards v w) (hw : h.CallsInCircles w) :
    h.CallsInCircles v := by
  obtain ⟨x, hwx, hcircle⟩ := hw
  exact ⟨x, .head hvw hwx, hcircle⟩

/-! ## There are finitely many callees -/

/-- The values of all attributes of classes and instances. -/
def attributes (h : Heap) : List Value :=
  h.classes.toList.flatMap (fun c => c.attrs.map Prod.snd) ++ h.ownAttributes

/-- All values that a call of a value can come to, but for the functions that are bound to instances
on the way and for native functions. -/
def callees (h : Heap) (v : Value) : List Value :=
  Value.partsOfAll (v :: h.attributes)

theorem mem_callees_self (v : Value) : v ∈ h.callees v := by
  rw [callees, Value.partsOfAll]
  exact List.mem_append_left _ v.mem_parts_self

theorem mem_callees_of_attribute (hw : w ∈ h.attributes) : w ∈ h.callees v := by
  rw [callees, Value.partsOfAll_eq]
  exact List.mem_flatMap.2 ⟨w, List.mem_cons_of_mem v hw, w.mem_parts_self⟩

theorem classAttr?_mem_attributes {r : ClassRef} {name : String}
    (hw : h.classAttr? r name = some w) : w ∈ h.attributes := by
  rw [classAttr?_eq] at hw
  obtain ⟨d, -, hd⟩ := List.exists_of_findSome?_eq_some hw
  obtain ⟨_, hd, -⟩ := Entries.exists_mem_of_get?_eq_some hd
  rcases h.classes.getD_mem_or_eq d.index default with hmem | hdefault
  · refine List.mem_append_left _ (List.mem_flatMap.2 ⟨_, hmem, ?_⟩)
    exact List.mem_map_of_mem (f := Prod.snd) hd
  · rw [classObj, hdefault] at hd
    cases hd

theorem bindTo_eq_or (receiver v : Value) :
    bindTo receiver v = v ∨
      bindTo receiver v = .method receiver v ∧ h.nextCallee? v = none := by
  cases v with
  | function _ | native _ => exact .inr ⟨rfl, rfl⟩
  | _ => exact .inl rfl

/-- The next callee is one of finitely many, or there is at most one more. -/
theorem Forwards.cases (hvw : h.Forwards v w) (hv : v ∈ h.callees x) :
    w ∈ h.callees x ∨ ∀ u, h.Forwards w u → h.nextCallee? u = none := by
  unfold Forwards nextCallee? at hvw
  split at hvw
  · cases hvw
    refine .inl (Value.mem_partsOfAll_trans hv ?_)
    rw [Value.parts]
    exact List.mem_cons_of_mem _ (List.mem_append_right _ (Value.mem_parts_self _))
  · exact .inl (mem_callees_of_attribute (classAttr?_mem_attributes hvw))
  · next r =>
    rw [instanceAttr?] at hvw
    cases hown : h.ownAttr? r "__call__" with
    | some f =>
      rw [hown] at hvw
      cases hvw
      exact .inl (mem_callees_of_attribute
        (List.mem_append_right _ (ownAttr?_mem_ownAttributes hown)))
    | none =>
      rw [hown, Option.none_or, Option.map_eq_some_iff] at hvw
      obtain ⟨f, hf, rfl⟩ := hvw
      rcases bindTo_eq_or (h := h) (.instanceObj r) f with heq | ⟨heq, hnone⟩
      · rw [heq]
        exact .inl (mem_callees_of_attribute (classAttr?_mem_attributes hf))
      · rw [heq]
        refine .inr fun u hu => ?_
        cases hu
        exact hnone
  · cases hvw
    exact .inr fun u hu => nomatch hu
  · cases hvw

/-- A call goes on only as its next callee does. -/
theorem acc_of_forwards (hvw : h.Forwards v w) (hw : Acc (fun w v => h.Forwards v w) w) :
    Acc (fun w v => h.Forwards v w) v := by
  refine .intro v fun u hvu => ?_
  cases hvw.symm.trans hvu
  exact hw

theorem acc_of_nextCallee?_eq_none (hv : h.nextCallee? v = none) :
    Acc (fun w v => h.Forwards v w) v :=
  .intro v fun _ hvu => nomatch hv.symm.trans hvu

/-- A call that does not come to any callee twice passes fewer and fewer of the finitely many. -/
theorem acc_of_not_callsInCircles (hv : v ∈ h.callees x) (hends : ¬ h.CallsInCircles v) :
    Acc (fun w v => h.Forwards v w) v := by
  induction hn : Value.ahead (h.callees x) (Relation.TransGen h.Forwards) v
    using Nat.strong_induction_on generalizing v with
  | h n ih =>
    subst hn
    cases hnext : h.nextCallee? v with
    | none => exact acc_of_nextCallee?_eq_none hnext
    | some w =>
      have hvw : h.Forwards v w := hnext
      have hends' : ¬ h.CallsInCircles w := fun hw => hends (.of_forwards hvw hw)
      refine acc_of_forwards hvw ?_
      rcases hvw.cases hv with hw | hlast
      · exact ih _ (Value.ahead_transGen_lt hw hvw fun hc => hends' ⟨w, .refl, hc⟩) hw hends' rfl
      · exact .intro w fun u hwu => acc_of_nextCallee?_eq_none (hlast u hwu)

/-! ## Instances that are made on the way -/

/-- The callees of the first heap are those of the second, which may have more instances. -/
structure SameCallees (h h' : Heap) : Prop where
  classes : h'.classes = h.classes
  size : h.instances.size ≤ h'.instances.size
  instances : ∀ r : InstanceRef, r.index < h.instances.size → h'.instanceObj r = h.instanceObj r

theorem SameCallees.refl (h : Heap) : h.SameCallees h :=
  ⟨rfl, Nat.le_refl _, fun _ _ => rfl⟩

theorem SameCallees.trans {h₁ : Heap} (hs : h.SameCallees h₁) (hs' : h₁.SameCallees h') :
    h.SameCallees h' :=
  ⟨hs'.classes.trans hs.classes, Nat.le_trans hs.size hs'.size, fun r hr =>
    (hs'.instances r (Nat.lt_of_lt_of_le hr hs.size)).trans (hs.instances r hr)⟩

theorem SameCallees.instantiate (h : Heap) (r : ClassRef) :
    h.SameCallees (h.instantiate r).2 where
  classes := rfl
  size := by
    rw [Heap.instantiate, newInstance, Array.size_push]
    exact Nat.le_succ _
  instances i hi := by
    simp only [Heap.instantiate, newInstance, instanceObj, Array.getD_eq_getD_getElem?,
      Array.getElem?_push_lt hi, Array.getElem?_eq_getElem hi]

theorem SameCallees.classAttr? (hs : h.SameCallees h') (r : ClassRef) (name : String) :
    h'.classAttr? r name = h.classAttr? r name := by
  have hown (d : ClassRef) : h'.classOwnAttr? d name = h.classOwnAttr? d name := by
    rw [classOwnAttr?, classOwnAttr?, classObj, classObj, hs.classes]
  rw [classAttr?_eq, classAttr?_eq, lineage_congr hs.classes]
  simp only [hown]

/-- The next callee is the same, unless the callee is an instance that has been made since. -/
theorem SameCallees.nextCallee? (hs : h.SameCallees h')
    (hv : ∀ r, v = .instanceObj r → r.index < h.instances.size) :
    h'.nextCallee? v = h.nextCallee? v := by
  cases v with
  | classObj r => exact hs.classAttr? r "__init__"
  | instanceObj r =>
    have hr := hs.instances r (hv r rfl)
    simp only [Heap.nextCallee?, instanceAttr?, ownAttr?, hr, hs.classAttr?]
  | _ => rfl

end Heap

namespace Vm

variable {vm : Vm} {c c' : PendingCall} {m m' : Machine} {v w : Value}

/-! ## Links to another callee -/

/-- One link of a call, which leads to the next callee and makes instances at most. -/
theorem link_of_forwards (vm : Vm) (hvw : m.world.heap.Forwards c.callee w) :
    ∃ c' m', vm.link c m = .ok (.call c') m' ∧ c'.callee = w ∧
      m.world.heap.SameCallees m'.world.heap := by
  have hheap : Exec.heap m = .ok m.world.heap m := rfl
  have hsame := Heap.SameCallees.refl m.world.heap
  unfold Heap.Forwards at hvw
  simp only [link]
  rw [bind_ok hheap]
  cases hcallee : c.callee with
  | method receiver callee =>
    rw [hcallee] at hvw
    cases hvw
    exact ⟨_, m, rfl, rfl, hsame⟩
  | foreignType name constructor =>
    rw [hcallee] at hvw
    cases hvw
    exact ⟨_, m, rfl, rfl, hsame⟩
  | instanceObj r =>
    rw [hcallee] at hvw
    have hcall : m.world.heap.instanceAttr? r "__call__" = some w := hvw
    dsimp only
    rw [hcall]
    exact ⟨_, m, rfl, rfl, hsame⟩
  | classObj r =>
    rw [hcallee] at hvw
    have hsame : m.world.heap.SameCallees (m.instantiated r).world.heap := .instantiate m.world.heap r
    have hinit : (m.instantiated r).world.heap.classAttr? r "__init__" = some w :=
      (hsame.classAttr? r "__init__").trans hvw
    dsimp only
    rw [instantiate_eq, hinit]
    exact ⟨_, _, rfl, rfl, hsame⟩
  | _ =>
    rw [hcallee] at hvw
    cases hvw

/-- A link of a call has led to the next callee. -/
def Resolves (vm : Vm) (p q : PendingCall × Machine) : Prop :=
  p.2.world.heap.Forwards p.1.callee q.1.callee ∧
    vm.advance (.link p.1) p.2 = .running (.link q.1) q.2

theorem exists_resolves (vm : Vm) (hvw : m.world.heap.Forwards c.callee w) :
    ∃ c' m', vm.Resolves (c, m) (c', m') ∧ c'.callee = w ∧
      m.world.heap.SameCallees m'.world.heap := by
  obtain ⟨c', m', hlink, rfl, hsame⟩ := vm.link_of_forwards hvw
  have hperform : vm.perform (.link c) m = .ok (.call c') m' := by
    rw [perform, follow, hlink]
  exact ⟨c', m', ⟨hvw, conclude_ok vm hperform⟩, rfl, hsame⟩

/-! ## Ends of calls -/

/-- The ways in which a call ends that goes on with no other callee. -/
inductive Settles (vm : Vm) (c : PendingCall) (m : Machine) : Prop
  /-- A function of guest code is entered in a new frame, or the call is refused. -/
  | enter (r : FunctionRef) (hcallee : c.callee = .function r)
      (h : (∃ f m', vm.link c m = .ok .next m' ∧ m'.context.frames = f :: m.context.frames) ∨
        ∃ e m', vm.link c m = .error e m')
  /-- A native function or an object of the host is called. -/
  | native (effect : Effect Reply) (heffect : c.effect? vm.host m.world.heap = some effect)
      (h : vm.link c m = (do Vm.complete (← ofEffect effect) c.delivery : Exec Control) m)
  /-- A new instance is delivered. -/
  | make (r : ClassRef) (m' : Machine) (hcallee : c.callee = .classObj r)
      (h : vm.link c m = (do deliver (m.made r) c.delivery; return .next : Exec Control) m')
  /-- The callee, or a class that takes no arguments, cannot be called like this. -/
  | typeError (message : String) (m' : Machine)
      (h : vm.link c m = .error (.raise .typeError message) m')

/-- A call that does not go on with another callee ends. -/
theorem settles_of_nextCallee?_eq_none (vm : Vm)
    (hnone : m.world.heap.nextCallee? c.callee = none) : vm.Settles c m := by
  have hheap : Exec.heap m = .ok m.world.heap m := rfl
  cases hcallee : c.callee with
  | function r =>
    refine .enter r hcallee ?_
    rw [link_of_function hcallee]
    rcases vm.enterFunction_cases r c m with ⟨f, m', hrun, hm', -⟩ | ⟨e, m', hrun, -⟩
    · exact .inl ⟨f, m', hrun, by rw [hm']⟩
    · exact .inr ⟨e, m', hrun⟩
  | native r =>
    have heffect : c.effect? vm.host m.world.heap =
        some (callNative vm.host (m.world.heap.native r).behaviour c.args c.keywords) := by
      rw [PendingCall.effect?, hcallee]
    exact .native _ heffect (link_of_effect heffect)
  | hostObj r =>
    have heffect : c.effect? vm.host m.world.heap =
        some (callHost vm.host r c.args c.keywords) := by
      rw [PendingCall.effect?, hcallee]
    exact .native _ heffect (link_of_effect heffect)
  | classObj r =>
    rw [hcallee] at hnone
    have hsame : m.world.heap.SameCallees (m.instantiated r).world.heap := .instantiate m.world.heap r
    have hinit : (m.instantiated r).world.heap.classAttr? r "__init__" = none :=
      (hsame.classAttr? r "__init__").trans hnone
    have hlink : vm.link c m = instantiate r c m := link_of_classObj hcallee
    rw [instantiate_eq, hinit] at hlink
    dsimp only at hlink
    by_cases hargs : (!c.args.isEmpty || !c.keywords.isEmpty) = true
    · rw [if_pos hargs] at hlink
      exact .typeError _ _ hlink
    · rw [if_neg hargs] at hlink
      exact .make r _ hcallee hlink
  | method receiver callee => rw [hcallee] at hnone; cases hnone
  | foreignType name constructor => rw [hcallee] at hnone; cases hnone
  | instanceObj r =>
    rw [hcallee] at hnone
    have hcall : m.world.heap.instanceAttr? r "__call__" = none := hnone
    have hlink : vm.link c m = .error (.notCallable (m.world.heap.typeName (.instanceObj r))) m := by
      simp only [link]
      rw [bind_ok hheap, hcallee]
      dsimp only
      rw [hcall]
      rfl
    exact .typeError _ m hlink
  | _ =>
    have hlink : vm.link c m = .error (.notCallable (m.world.heap.typeName c.callee)) m := by
      simp only [link]
      rw [bind_ok hheap, hcallee]
      rfl
    exact .typeError _ m hlink

/-! ## Resolution -/

/-- A call whose callees end is resolved link by link. The induction is on the callees, in the heap
before the first link; the links only add instances to it. -/
theorem exists_settles {h : Heap} (hacc : Acc (fun w v => h.Forwards v w) v)
    (hheld : ∀ r, Relation.ReflTransGen h.Forwards v (.instanceObj r) →
      r.index < h.instances.size)
    (hcallee : c.callee = v) (hsame : h.SameCallees m.world.heap) :
    ∃ c' m', Relation.ReflTransGen vm.Resolves (c, m) (c', m') ∧ vm.Settles c' m' := by
  induction hacc generalizing c m with
  | intro v _ ih =>
    subst hcallee
    have hnext : m.world.heap.nextCallee? c.callee = h.nextCallee? c.callee :=
      hsame.nextCallee? fun r hr => hheld r (hr ▸ .refl)
    cases hv : h.nextCallee? c.callee with
    | none => exact ⟨c, m, .refl, vm.settles_of_nextCallee?_eq_none (hnext.trans hv)⟩
    | some w =>
      obtain ⟨c₁, m₁, hstep, hcallee, hsame₁⟩ := vm.exists_resolves (hnext.trans hv)
      obtain ⟨c', m', hrest, hsettles⟩ := ih w hv (fun r hr => hheld r (.head hv hr)) hcallee
        (hsame.trans hsame₁)
      exact ⟨c', m', .head hstep hrest, hsettles⟩

/-- What some steps lead to. -/
def advanceBy (vm : Vm) : (steps : Nat) → Progress → Progress
  | steps + 1, .running phase m => vm.advanceBy steps (vm.advance phase m)
  | _, p => p

/-- A run does not end if it does not end after some of its steps. -/
theorem runFor_eq_none_of_advanceBy {n : Nat} {p : Progress}
    (h : ∀ steps, vm.runFor steps (vm.advanceBy n p) = none) (steps : Nat) :
    vm.runFor steps p = none := by
  induction n generalizing p steps with
  | zero => exact h steps
  | succ n ih =>
    cases p with
    | stopped o m => exact h steps
    | running phase m =>
      cases steps with
      | zero => rfl
      | succ steps => exact ih (p := vm.advance phase m) h steps

/-- A call in circles needs more steps than any number. -/
theorem runFor_eq_none {h : Heap} (hcircles : h.CallsInCircles c.callee)
    (hheld : ∀ r, Relation.ReflTransGen h.Forwards c.callee (.instanceObj r) →
      r.index < h.instances.size)
    (hsame : h.SameCallees m.world.heap) (steps : Nat) :
    vm.runFor steps (.running (.link c) m) = none := by
  induction steps generalizing c m with
  | zero => rfl
  | succ steps ih =>
    obtain ⟨w, hvw, hw⟩ := hcircles.exists_forwards
    have hnext : m.world.heap.nextCallee? c.callee = h.nextCallee? c.callee :=
      hsame.nextCallee? fun r hr => hheld r (hr ▸ .refl)
    obtain ⟨c₁, m₁, ⟨-, hstep⟩, rfl, hsame₁⟩ := vm.exists_resolves (hnext.trans hvw)
    rw [runFor, hstep]
    exact ih hw (fun r hr => hheld r (.head hvw hr)) (hsame.trans hsame₁)

/-- A call that comes to no callee twice is resolved by finitely many links, and then guest code is
entered, a native function is called, a new instance is delivered, or the call is refused. A call that
comes to a callee again is followed for ever, in one step of the tasklet. -/
theorem call_resolution (vm : Vm) (c : PendingCall) (m : Machine)
    (hheld : ∀ r, Relation.ReflTransGen m.world.heap.Forwards c.callee (.instanceObj r) →
      r.index < m.world.heap.instances.size) :
    (¬ m.world.heap.CallsInCircles c.callee →
        ∃ c' m', Relation.ReflTransGen vm.Resolves (c, m) (c', m') ∧ vm.Settles c' m') ∧
      (m.world.heap.CallsInCircles c.callee →
        ∀ steps, vm.runFor steps (.running (.link c) m) = none) :=
  ⟨fun hends => exists_settles
      (Heap.acc_of_not_callsInCircles (Heap.mem_callees_self c.callee) hends) hheld rfl (.refl _),
    fun hcircles => runFor_eq_none hcircles hheld (.refl _)⟩

end Vm

namespace CallableObject

/-- A class whose instances are called by a function. -/
def heap : Heap :=
  { functions := #[{ name := "__call__", unit := {}, defaults := [] }]
    classes := #[{ name := "C", bases := [], attrs := [("__call__", .function ⟨0⟩)] }]
    instances := #[{ cls := ⟨0⟩, attrs := [] }] }

/-- A machine on which an instance of the class is called. -/
def machine : Machine :=
  { context := Context.start {} [] [], world := { heap } }

/-- The call. -/
def call : PendingCall :=
  { callee := .instanceObj ⟨0⟩, delivery := .push }

theorem forwards_instance :
    heap.Forwards (.instanceObj ⟨0⟩) (.method (.instanceObj ⟨0⟩) (.function ⟨0⟩)) := by
  rfl

theorem forwards_method :
    heap.Forwards (.method (.instanceObj ⟨0⟩) (.function ⟨0⟩)) (.function ⟨0⟩) :=
  rfl

/-- The callees of the call are the instance, its method and its function. -/
theorem callees {v : Value} (hv : Relation.ReflTransGen heap.Forwards call.callee v) :
    v = .instanceObj ⟨0⟩ ∨ v = .method (.instanceObj ⟨0⟩) (.function ⟨0⟩) ∨ v = .function ⟨0⟩ := by
  induction hv with
  | refl => exact .inl rfl
  | tail _ hstep ih =>
    rcases ih with rfl | rfl | rfl
    · exact .inr (.inl (Option.some.inj (hstep.symm.trans forwards_instance)))
    · exact .inr (.inr (Option.some.inj (hstep.symm.trans forwards_method)))
    · cases hstep

theorem not_callsInCircles : ¬ heap.CallsInCircles call.callee := by
  have hfunction : ¬ heap.CallsInCircles (.function ⟨0⟩) := by
    intro hcircles
    obtain ⟨w, hw, -⟩ := hcircles.exists_forwards
    cases hw
  have hmethod : ¬ heap.CallsInCircles (.method (.instanceObj ⟨0⟩) (.function ⟨0⟩)) := by
    intro hcircles
    obtain ⟨w, hw, hcircles⟩ := hcircles.exists_forwards
    cases hw
    exact hfunction hcircles
  intro hcircles
  obtain ⟨w, hw, hcircles⟩ := hcircles.exists_forwards
  cases hw.symm.trans forwards_instance
  exact hmethod hcircles

/-- The call comes to its end. -/
theorem is_resolved :
    ∃ c' m', Relation.ReflTransGen (default : Vm).Resolves (call, machine) (c', m') ∧
      (default : Vm).Settles c' m' := by
  refine (Vm.call_resolution default call machine fun r hr => ?_).1 not_callsInCircles
  rcases callees hr with h | h | h
  · cases h
    exact Nat.zero_lt_one
  · cases h
  · cases h

end CallableObject

namespace SelfCall

/-- A module that makes an instance its own `__call__`, and calls it. -/
def unit : CodeUnit :=
  { bytes := #[0x65, 0, 0, 0x83, 0, 0, 0x5A, 1, 0, 0x65, 1, 0, 0x65, 1, 0, 0x5F, 2, 0, 0x65, 1, 0,
      0x83, 0, 0]
    names := #["C", "e", "__call__"] }

/-- The machine before the module is executed. -/
def machine : Machine :=
  { context := Context.start unit [("C", .classObj ⟨0⟩)] []
    world := { heap := { classes := #[{ name := "C", bases := [], attrs := [] }] } } }

/-- Whether the next step is a link of a call of an instance that is its own next callee. -/
def isCalling : Progress → Bool
  | .running (.link c) m =>
    match c.callee, m.world.heap.nextCallee? c.callee with
    | .instanceObj r, some (.instanceObj s) =>
      r == s && decide (r.index < m.world.heap.instances.size)
    | _, _ => false
  | _ => false

/-- The module calls the instance in its ninth step, and no number of steps ends the run. -/
theorem never_resolved :
    isCalling ((default : Vm).advanceBy 9 (.running .fetch machine)) = true ∧
      ∀ steps, (default : Vm).runFor steps (.running .fetch machine) = none := by
  have hcalling : isCalling ((default : Vm).advanceBy 9 (.running .fetch machine)) = true := by
    decide +kernel
  refine ⟨hcalling, Vm.runFor_eq_none_of_advanceBy (n := 9) fun steps => ?_⟩
  generalize (default : Vm).advanceBy 9 (.running .fetch machine) = p at hcalling
  unfold isCalling at hcalling
  split at hcalling
  · next c m =>
    split at hcalling
    · next r s hcallee hnext =>
      simp only [Bool.and_eq_true, beq_iff_eq, decide_eq_true_eq] at hcalling
      obtain ⟨rfl, hr⟩ := hcalling
      have hself : m.world.heap.Forwards c.callee c.callee := by
        rw [Heap.Forwards, hnext, hcallee]
      refine Vm.runFor_eq_none ⟨_, .refl, .single hself⟩ (fun s hs => ?_) (.refl _) steps
      cases (Heap.eq_of_forwards_self hself hs).trans hcallee
      exact hr
    · cases hcalling
  · cases hcalling

end SelfCall

end TaskletMachine
