import TaskletMachine.Proofs.Machine.IteratorCalls

/-!
# Asking about values

Guest code can ask whether a value has an attribute and whether it can be called. The functions that
answer do not try it. They look for themselves, and know less than the machine. What a value keeps
in a table they find there. What the machine makes up for a value is overlooked: the methods of
lists, dicts and strings, and the names of functions and classes. Of an instance only the class is
asked whether it can be called, although a call looks at the instance first.

## Main definitions

* `Overlooked`: the attributes that are overlooked.
* `Vm.Answers`: calls that are answered.
* `Vm.introspection_agrees`: how the answers compare to what the machine does.
-/
namespace TaskletMachine

open Exec

/-- Attributes that the machine makes up for a value. -/
inductive Overlooked (l : Library) (h : Heap) : Value → String → Prop
  /-- A list, dict or string has the methods of the library. -/
  | method {v : Value} {name : String} {f : Value} (hf : (l.methods v).find? name = some f) :
      Overlooked l h v name
  | functionName (r : FunctionRef) : Overlooked l h (.function r) "__name__"
  /-- A class may keep another value under its name. -/
  | className (r : ClassRef) (hattr : h.classAttr? r "__name__" = none) :
      Overlooked l h (.classObj r) "__name__"

/-! ## Attributes -/

namespace Builtin

variable {l : Library} {v : Value} {name : String} {w : World}

/-- How `hasattr` compares to the instruction: an attribute that can be loaded is denied only if it
is overlooked, and what it says of an attribute that cannot be loaded is no success. -/
inductive HasattrAgrees (l : Library) (v : Value) (name : String) (w : World) : Prop
  | overlooked (attr : Value) (hoverlooked : Overlooked l w.heap v name)
      (hload : getAttr l w.heap v name = .ok attr)
      (hask : callHasattr [v, .str name] w = .ok (.value (.bool false)) w)
  | found (attr : Value) (hknown : ¬ Overlooked l w.heap v name)
      (hload : getAttr l w.heap v name = .ok attr)
      (hask : callHasattr [v, .str name] w = .ok (.value (.bool true)) w)
  | absent (e : Error) (hknown : ¬ Overlooked l w.heap v name)
      (hload : getAttr l w.heap v name = .error e)
      (hask : callHasattr [v, .str name] w = .ok (.value (.bool false)) w ∨
        callHasattr [v, .str name] w = .error e w)

/-- An attribute that is kept in a table. -/
theorem hasattrAgrees_of_table {owner : String} {attr? : Option Value}
    (hknown : ¬ Overlooked l w.heap v name)
    (hload : getAttr l w.heap v name = foundAttr owner name attr?)
    (hask : callHasattr [v, .str name] w = .ok (.value (.bool attr?.isSome)) w) :
    HasattrAgrees l v name w := by
  cases attr? with
  | some attr => exact .found attr hknown hload hask
  | none => exact .absent _ hknown hload (.inl hask)

/-- An attribute that is made up, or missing. -/
theorem hasattrAgrees_of_denied {owner : String} {attr? : Option Value}
    (hoverlooked : Overlooked l w.heap v name ↔ attr?.isSome)
    (hload : getAttr l w.heap v name = foundAttr owner name attr?)
    (hask : callHasattr [v, .str name] w = .ok (.value (.bool false)) w) :
    HasattrAgrees l v name w := by
  cases attr? with
  | some attr => exact .overlooked attr (hoverlooked.2 rfl) hload hask
  | none => exact .absent _ (fun h => Bool.false_ne_true (hoverlooked.1 h)) hload (.inl hask)

theorem overlooked_iff_of_native (hfunction : ∀ r, v ≠ .function r)
    (hclass : ∀ r, v ≠ .classObj r) :
    Overlooked l w.heap v name ↔ (l.boundMethod? v name).isSome := by
  rw [Library.boundMethod?, Option.isSome_map, Option.isSome_iff_exists]
  constructor
  · intro h
    cases h with
    | method hf => exact ⟨_, hf⟩
    | functionName r => exact absurd rfl (hfunction r)
    | className r hattr => exact absurd rfl (hclass r)
  · rintro ⟨f, hf⟩
    exact .method hf

theorem callHasattr_hostObj (r : HostRef) (name : String) (w : World) :
    callHasattr [.hostObj r, .str name] w =
      (do Effect.reply (.bool ((← Effect.readHost r).attrs.has name)) : Effect Reply) w :=
  rfl

/-- An object that is being called can neither be asked nor read. -/
theorem hasattrAgrees_hostObj (r : HostRef) : HasattrAgrees l (.hostObj r) name w := by
  have hknown : ¬ Overlooked l w.heap (.hostObj r) name := by rintro ⟨⟨⟩⟩
  by_cases hbusy : (w.heap.hostObj r).busy = true
  · have hload : getAttr l w.heap (.hostObj r) name = .error .borrowed := if_pos hbusy
    have hread : Effect.readHost r w = .error .borrowed w := by
      rw [Effect.readHost, Effect.bind_heap]
      simp only [hbusy]
      rfl
    have hask : callHasattr [.hostObj r, .str name] w = .error .borrowed w := by
      rw [callHasattr_hostObj]
      simp only [Bind.bind, EStateM.bind, hread]
    exact .absent _ hknown hload (.inr hask)
  · have hload : getAttr l w.heap (.hostObj r) name =
        foundAttr (objectOf (w.heap.typeName (.hostObj r))) name
          ((w.heap.hostObj r).attrs.find? name) := if_neg hbusy
    have hread : Effect.readHost r w = .ok (w.heap.hostObj r) w := by
      rw [Effect.readHost, Effect.bind_heap]
      simp only [hbusy]
      rfl
    have hask : callHasattr [.hostObj r, .str name] w =
        .ok (.value (.bool ((w.heap.hostObj r).attrs.find? name).isSome)) w := by
      rw [callHasattr_hostObj]
      simp only [Bind.bind, EStateM.bind, hread]
      rfl
    exact hasattrAgrees_of_table hknown hload hask

/-- A class has its name, unless it is asked: then it has what is kept under this attribute. -/
theorem hasattrAgrees_classObj (r : ClassRef) : HasattrAgrees l (.classObj r) name w := by
  have hask : callHasattr [.classObj r, .str name] w =
      .ok (.value (.bool (w.heap.classAttr? r name).isSome)) w := rfl
  by_cases hname : name = "__name__"
  · subst hname
    have hload : getAttr l w.heap (.classObj r) "__name__" =
        .ok (.str (w.heap.classObj r).name) := rfl
    cases hattr : w.heap.classAttr? r "__name__" with
    | some attr =>
      rw [hattr] at hask
      refine .found _ (fun h => ?_) hload hask
      cases h with
      | method hf => cases hf
      | className _ hnone =>
        rw [hattr] at hnone
        cases hnone
    | none =>
      rw [hattr] at hask
      exact .overlooked _ (.className r hattr) hload hask
  · have hload : getAttr l w.heap (.classObj r) name =
        foundAttr ("type object '" ++ (w.heap.classObj r).name ++ "'") name
          (w.heap.classAttr? r name) := if_neg (by simpa using hname)
    refine hasattrAgrees_of_table (fun h => ?_) hload hask
    cases h with
    | method hf => cases hf
    | className => exact hname rfl

/-- A function has its name, and nothing else. -/
theorem hasattrAgrees_function (r : FunctionRef) : HasattrAgrees l (.function r) name w := by
  have hask : callHasattr [.function r, .str name] w = .ok (.value (.bool false)) w := rfl
  by_cases hname : name = "__name__"
  · subst hname
    have hload : getAttr l w.heap (.function r) "__name__" =
        .ok (.str (w.heap.function r).name) := rfl
    exact .overlooked _ (.functionName r) hload hask
  · have hload : getAttr l w.heap (.function r) name =
        .error (.noAttribute (objectOf "function") name) := by
      simp [getAttr, hname, foundAttr, Heap.typeName]
    refine .absent _ (fun h => ?_) hload (.inl hask)
    cases h with
    | method hf => cases hf
    | functionName => exact hname rfl

theorem hasattrAgrees (l : Library) (v : Value) (name : String) (w : World) :
    HasattrAgrees l v name w := by
  cases v with
  | instanceObj r => exact hasattrAgrees_of_table (by rintro ⟨⟨⟩⟩) rfl rfl
  | moduleObj r => exact hasattrAgrees_of_table (by rintro ⟨⟨⟩⟩) rfl rfl
  | hostObj r => exact hasattrAgrees_hostObj r
  | classObj r => exact hasattrAgrees_classObj r
  | function r => exact hasattrAgrees_function r
  | _ => exact hasattrAgrees_of_denied (overlooked_iff_of_native nofun nofun) rfl rfl

end Builtin

/-! ## Calls -/

theorem Heap.instanceAttr?_of_class_none {h : Heap} {r : InstanceRef} {name : String}
    (hclass : h.classAttr? (h.instanceObj r).cls name = none) :
    h.instanceAttr? r name = h.ownAttr? r name := by
  rw [Heap.instanceAttr?, hclass, Option.map_none, Option.or_none]

namespace Vm

variable {vm : Vm} {m : Machine} {c d : PendingCall} {frame : Frame} {callers : List Frame}
  {v : Value} {below : List Value} {name : String} {index : Nat}

/-- The call is answered with a value, which is pushed, and nothing else happens. -/
def Answers (vm : Vm) (c : PendingCall) (m : Machine) (v : Value) : Prop :=
  ∃ frame callers, m.context.frames = frame :: callers ∧
    vm.link c m = .ok .next (m.withFrames ({ frame with stack := v :: frame.stack } :: callers))

theorem Answers.inj {v v' : Value} (h : vm.Answers c m v) (h' : vm.Answers c m v') : v = v' := by
  obtain ⟨frame, callers, hm, hlink⟩ := h
  obtain ⟨frame', callers', hm', hlink'⟩ := h'
  obtain ⟨rfl, rfl⟩ := List.cons.inj (hm.symm.trans hm')
  simpa [Machine.withFrames] using hlink.symm.trans hlink'

theorem answers_of_reply {effect : Effect Reply} (hm : m.context.frames = frame :: callers)
    (heffect : c.effect? vm.host m.world.heap = some effect)
    (hreply : effect m.world = .ok (.value v) m.world) (hd : c.delivery = .push) :
    vm.Answers c m v := by
  refine ⟨frame, callers, hm, ?_⟩
  rw [link_reply heffect hreply, hd]
  exact bind_ok (push_cons hm v)

/-- The instruction pushes the attribute of the value on top of the stack. -/
theorem loadAttr_eq (hm : m.context.frames = frame :: callers) (hstack : frame.stack = v :: below)
    (hname : frame.unit.names[index]? = some name) :
    vm.loadAttr index m =
      match getAttr vm.library m.world.heap v name with
      | .ok attr => .ok .next (m.withFrames ({ frame with stack := attr :: below } :: callers))
      | .error e => .error e (m.withFrames ({ frame with stack := below } :: callers)) := by
  have hread : Exec.name index m = .ok name m := by
    rw [Exec.name, bind_ok (frame_cons hm), hname]
    rfl
  have hheap (frames : List Frame) : (m.withFrames frames).world.heap = m.world.heap := rfl
  rw [loadAttr, bind_ok hread, bind_pop hm hstack, bind_heap, hheap]
  cases getAttr vm.library m.world.heap v name with
  | ok attr => rfl
  | error e => rfl

/-- What `hasattr` answers about the value on top of the stack, and whether the instruction loads the
attribute. -/
theorem hasattr_answers (hm : m.context.frames = frame :: callers)
    (hstack : frame.stack = v :: below) (hname : frame.unit.names[index]? = some name)
    (hc : c.Calls m.world.heap .hasattr [v, .str name]) (hd : c.delivery = .push) :
    (¬ Overlooked vm.library m.world.heap v name →
      (vm.Answers c m (.bool true) ↔ ∃ m', vm.loadAttr index m = .ok .next m')) ∧
    (Overlooked vm.library m.world.heap v name →
      vm.Answers c m (.bool false) ∧ ∃ m', vm.loadAttr index m = .ok .next m') := by
  have heffect : c.effect? vm.host m.world.heap = some (Builtin.callHasattr [v, .str name]) :=
    effect?_calls hc
  have hinstruction : vm.loadAttr index m = _ := loadAttr_eq hm hstack hname
  cases Builtin.hasattrAgrees vm.library v name m.world with
  | overlooked attr hoverlooked hload hask =>
    rw [hload] at hinstruction
    have hanswer := answers_of_reply hm heffect hask hd
    exact ⟨fun hknown => absurd hoverlooked hknown, fun _ => ⟨hanswer, _, hinstruction⟩⟩
  | found attr hknown hload hask =>
    rw [hload] at hinstruction
    have hanswer := answers_of_reply hm heffect hask hd
    exact ⟨fun _ => ⟨fun _ => ⟨_, hinstruction⟩, fun _ => hanswer⟩, fun h => absurd h hknown⟩
  | absent e hknown hload hask =>
    rw [hload] at hinstruction
    refine ⟨fun _ => ⟨fun htrue => ?_, fun hloads => ?_⟩, fun h => absurd h hknown⟩
    · rcases hask with hask | hask
      · cases htrue.inj (answers_of_reply hm heffect hask hd)
      · obtain ⟨_, _, _, hlink⟩ := htrue
        rw [link_error heffect hask] at hlink
        cases hlink
    · obtain ⟨m', hm'⟩ := hloads
      rw [hinstruction] at hm'
      cases hm'

/-- What `callable` answers. -/
theorem callable_answers (hm : m.context.frames = frame :: callers)
    (hc : c.Calls m.world.heap .callable [v]) (hd : c.delivery = .push) :
    vm.Answers c m (.bool (m.world.heap.isCallable v)) := by
  have heffect : c.effect? vm.host m.world.heap = some (Builtin.callCallable [v]) :=
    effect?_calls hc
  exact answers_of_reply hm heffect rfl hd

/-- A value that is said not to be callable cannot be called, unless it is an instance that has a
`__call__` of its own. -/
theorem link_of_not_callable (hcallee : d.callee = v)
    (hcallable : m.world.heap.isCallable v = false) :
    ((∀ r, v = .instanceObj r → m.world.heap.ownAttr? r "__call__" = none) →
      vm.link d m = .error (.notCallable (m.world.heap.typeName v)) m) ∧
    ∀ r f, v = .instanceObj r → m.world.heap.ownAttr? r "__call__" = some f →
      vm.link d m = .ok (.call { d with callee := f }) m := by
  subst hcallee
  have hclass (r : InstanceRef) (hcallee : d.callee = .instanceObj r) :
      m.world.heap.instanceAttr? r "__call__" = m.world.heap.ownAttr? r "__call__" := by
    refine Heap.instanceAttr?_of_class_none ?_
    simpa [hcallee, Heap.isCallable] using hcallable
  constructor
  · intro hown
    simp only [link]
    rw [bind_heap]
    cases hcallee : d.callee with
    | instanceObj r =>
      dsimp only
      rw [hclass r hcallee, hown r hcallee]
      rfl
    | function | native | method | classObj | hostObj | foreignType =>
      rw [hcallee] at hcallable
      cases hcallable
    | _ => rfl
  · intro r f hcallee hown
    simp only [link]
    rw [bind_heap, hcallee]
    dsimp only
    rw [hclass r hcallee, hown]
    rfl

/-- The functions by which guest code asks about a value, compared to what the machine does with the
value on top of the stack. The answer to whether it has an attribute is true exactly if the
instruction loads this attribute, except for an attribute that is overlooked, which is denied and
loaded. A value that is said not to be callable cannot be called: any call of it ends at once in the
exception that says so. The exception is an instance that has a `__call__` of its own, which is then
called. -/
theorem introspection_agrees (hm : m.context.frames = frame :: callers)
    (hstack : frame.stack = v :: below) :
    (∀ (c : PendingCall) (name : String) (index : Nat), frame.unit.names[index]? = some name →
      c.Calls m.world.heap .hasattr [v, .str name] → c.delivery = .push →
      (¬ Overlooked vm.library m.world.heap v name →
        (vm.Answers c m (.bool true) ↔ ∃ m', vm.loadAttr index m = .ok .next m')) ∧
      (Overlooked vm.library m.world.heap v name →
        vm.Answers c m (.bool false) ∧ ∃ m', vm.loadAttr index m = .ok .next m')) ∧
    ∀ c d : PendingCall, c.Calls m.world.heap .callable [v] → c.delivery = .push →
      vm.Answers c m (.bool false) → d.callee = v →
      ((∀ r, v = .instanceObj r → m.world.heap.ownAttr? r "__call__" = none) →
        vm.link d m = .error (.notCallable (m.world.heap.typeName v)) m) ∧
      ∀ r f, v = .instanceObj r → m.world.heap.ownAttr? r "__call__" = some f →
        vm.link d m = .ok (.call { d with callee := f }) m := by
  refine ⟨fun c name index hname hc hd => hasattr_answers hm hstack hname hc hd, ?_⟩
  intro c d hc hd hfalse hcallee
  have hcallable : m.world.heap.isCallable v = false := by
    simpa using (callable_answers hm hc hd).inj hfalse
  exact link_of_not_callable hcallee hcallable

end Vm

namespace AskedValues

theorem classes_older : BasesOlder #[{ name := "C", bases := [], attrs := [] }] := by
  decide

/-- An instance that has attributes of its own, and an empty list. -/
def heap : Heap :=
  { natives := #[{ name := "hasattr", behaviour := .builtin .hasattr },
      { name := "callable", behaviour := .builtin .callable },
      { name := "append", behaviour := .listMethod .append }]
    classes := #[{ name := "C", bases := [], attrs := [] }]
    instances := #[{ cls := ⟨0⟩, attrs := [("append", .int 1), ("__call__", .native ⟨1⟩)] }]
    lists := #[[]]
    bases_older := classes_older }

/-- The machine with a value on top of the stack. -/
def machine (v : Value) : Machine where
  context :=
    { frames := [{ Frame.start { names := #["append"] } .push with stack := [v] }], builtins := [] }
  world := { heap }

def vm : Vm :=
  { library := { list := [("append", .native ⟨2⟩)] } }

/-- The call that asks whether a value has the attribute. -/
def hasattr (v : Value) : PendingCall :=
  { callee := .native ⟨0⟩, args := [v, .str "append"], delivery := .push }

/-- The call that asks whether a value can be called. -/
def callable (v : Value) : PendingCall :=
  { callee := .native ⟨1⟩, args := [v], delivery := .push }

/-- The call of a value. -/
def call (v : Value) : PendingCall :=
  { callee := v, delivery := .push }

/-- The instance has the attribute, and the list cannot be called. -/
theorem answered_rightly :
    vm.Answers (hasattr (.instanceObj ⟨0⟩)) (machine (.instanceObj ⟨0⟩)) (.bool true) ∧
    vm.link (call (.list ⟨0⟩)) (machine (.list ⟨0⟩)) =
      .error (.notCallable "list") (machine (.list ⟨0⟩)) := by
  constructor
  · have hcalls : (hasattr (.instanceObj ⟨0⟩)).Calls heap .hasattr
        [.instanceObj ⟨0⟩, .str "append"] := ⟨⟨_, rfl, rfl⟩, rfl⟩
    have hknown : ¬ Overlooked vm.library heap (.instanceObj ⟨0⟩) "append" := by rintro ⟨⟨⟩⟩
    have hagrees := @Vm.introspection_agrees vm (machine (.instanceObj ⟨0⟩)) _ _ _ _ rfl rfl
    exact ((hagrees.1 _ "append" 0 rfl hcalls rfl).1 hknown).2 ⟨_, rfl⟩
  · have hcalls : (callable (.list ⟨0⟩)).Calls heap .callable [.list ⟨0⟩] :=
      ⟨⟨_, rfl, rfl⟩, rfl⟩
    have hagrees := @Vm.introspection_agrees vm (machine (.list ⟨0⟩)) _ _ _ _ rfl rfl
    exact (hagrees.2 _ (call (.list ⟨0⟩)) hcalls rfl ⟨_, _, rfl, rfl⟩ rfl).1 nofun

/-- The list is denied a method that the instruction loads, and the instance is said not to be
callable although a call of it is followed. -/
theorem answered_wrongly :
    (vm.Answers (hasattr (.list ⟨0⟩)) (machine (.list ⟨0⟩)) (.bool false) ∧
      ∃ m', vm.loadAttr 0 (machine (.list ⟨0⟩)) = .ok .next m') ∧
    vm.Answers (callable (.instanceObj ⟨0⟩)) (machine (.instanceObj ⟨0⟩)) (.bool false) ∧
    vm.link (call (.instanceObj ⟨0⟩)) (machine (.instanceObj ⟨0⟩)) =
      .ok (.call (call (.native ⟨1⟩))) (machine (.instanceObj ⟨0⟩)) :=
  ⟨⟨⟨_, _, rfl, rfl⟩, _, rfl⟩, ⟨_, _, rfl, rfl⟩, rfl⟩

end AskedValues

end TaskletMachine
