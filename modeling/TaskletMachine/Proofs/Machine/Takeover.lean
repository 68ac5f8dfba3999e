import TaskletMachine.Proofs.Machine.Hooks

/-!
# Operations that objects take over

Each operation is owned by one of its operands: by the left one, the container, or the value that is
iterated over. If the owner provides a hook for the operation, the operation is a call of that hook,
whatever the other operand is, and the native value that the owner may stand for is not looked at.
Binary operators with a native right operand are an exception: there the native value comes first.

## Main definitions

* `Takeover`, `Instruction.takeover?`: the operation of an instruction, as its owner sees it.
* `Takeover.IsCoerced`: the owner is replaced by its native value, hook or not.

## Main results

* `Vm.hooks_come_first`: the operation is a call of the hook.
-/
namespace TaskletMachine

open Exec

/-- An operation that its owner may take over: the hooks that are looked up on the owner, in that
order, the arguments of the call, where its result goes, and the stack on which the call starts. -/
structure Takeover where
  owner : Value
  hooks : List String
  args : List Value
  delivery : Delivery := .push
  stack : List Value

/-- The operation that an instruction performs on the operands on a stack. -/
def Instruction.takeover? : Instruction → (stack : List Value) → Option Takeover
  | .unary op, v :: stack =>
    op.hook?.map fun hook => { owner := v, hooks := [hook], args := [], stack }
  | .binary op inPlace, b :: a :: stack =>
    some
      { owner := a
        hooks := if inPlace then [op.inPlaceHook, op.hook] else [op.hook]
        args := [b]
        stack }
  | .compare op, b :: a :: stack =>
    op.hook?.map fun hook =>
      if op ∈ [.isIn, .notIn] then
        { owner := b, hooks := [hook], args := [a], delivery := .truth (op == .notIn), stack }
      else { owner := a, hooks := [hook], args := [b], stack }
  | .subscript, index :: container :: stack =>
    some { owner := container, hooks := ["__getitem__"], args := [index], stack }
  | .getIter, v :: stack => some { owner := v, hooks := ["__iter__"], args := [], stack }
  | .forIter exit, v :: stack =>
    -- the iterator stays on the stack
    some
      { owner := v
        hooks := ["__next__"]
        args := []
        delivery := .iteration exit
        stack := v :: stack }
  | _, _ => none

namespace Takeover

/-- The hook that the owner provides for the operation. -/
def hook? (t : Takeover) (h : Heap) : Option Value :=
  t.hooks.findSome? (h.hook? t.owner)

/-- The call of the hook. -/
def call (t : Takeover) (hook : Value) : PendingCall :=
  { callee := hook, args := t.args, delivery := t.delivery }

/-- A binary operator finds a native operand beside an owner that stands for a native value. -/
def IsCoerced (t : Takeover) (h : Heap) (i : Instruction) : Prop :=
  (∃ op inPlace, i = .binary op inPlace) ∧ (∀ b ∈ t.args, b.isHooked = false) ∧
    (h.rawValue? t.owner).isSome = true

end Takeover

theorem Heap.isHooked_of_hook? {h : Heap} {v hook : Value} {name : String}
    (hv : h.hook? v name = some hook) : v.isHooked = true := by
  cases v with
  | instanceObj r | hostObj r => rfl
  | _ => cases hv

theorem Heap.isHooked_of_rawValue? {h : Heap} {v raw : Value} (hv : h.rawValue? v = some raw) :
    v.isHooked = true := by
  cases v with
  | hostObj r => rfl
  | _ => cases hv

/-! ## One operation at a time -/

section Operations

variable {α : Type} {m : Machine} {f : Frame} {callers : List Frame} {a b v hook : Value}
  {rest : List Value} {name : String}

/-- The machine after the operands have been taken off the stack. -/
theorem bind_pop {k : Value → Exec α} (hm : m.context.frames = f :: callers)
    (hf : f.stack = v :: rest) :
    (pop >>= k) m = k v (m.withFrames ({ f with stack := rest } :: callers)) :=
  bind_ok (pop_cons hm hf)

theorem bind_pop_pop {k : Value → Value → Exec α} (hm : m.context.frames = f :: callers)
    (hf : f.stack = b :: a :: rest) :
    (pop >>= fun b => pop >>= k b) m =
      k b a (m.withFrames ({ f with stack := rest } :: callers)) := by
  have hf' : ({ f with stack := a :: rest } : Frame).stack = a :: rest := rfl
  have hpop := bind_pop (m := m.withFrames ({ f with stack := a :: rest } :: callers)) (k := k b)
    rfl hf'
  rw [bind_pop hm hf, hpop]
  rfl

theorem bind_heap {k : Heap → Exec α} (m : Machine) : (Exec.heap >>= k) m = k m.world.heap m :=
  rfl

theorem runUnary_hook (hm : m.context.frames = f :: callers) (hf : f.stack = v :: rest)
    {op : UnaryOp} (hop : op.hook? = some name) (hhook : m.world.heap.hook? v name = some hook) :
    runUnary op m =
      .ok (.call { callee := hook, delivery := .push })
        (m.withFrames ({ f with stack := rest } :: callers)) := by
  have hheap : op.hook?.bind (m.world.heap.hook? v) = some hook := by
    rw [hop, Option.bind_some, hhook]
  rw [runUnary, bind_pop hm hf, bind_heap]
  simp only [Machine.withFrames, hheap]
  rfl

/-- The hooks of a binary operator are looked up on the left operand, that of the in-place form
first. -/
theorem binaryHook?_eq (h : Heap) (op : BinaryOp) (inPlace : Bool) (a : Value) :
    binaryHook? h op inPlace a =
      (if inPlace then [op.inPlaceHook, op.hook] else [op.hook]).findSome? (h.hook? a) := by
  cases inPlace with
  | true => cases h₁ : h.hook? a op.inPlaceHook <;> simp [binaryHook?, h₁]
  | false => simp [binaryHook?]

theorem isHooked_of_binaryHook? {h : Heap} {op : BinaryOp} {inPlace : Bool}
    (hhook : binaryHook? h op inPlace a = some hook) : a.isHooked = true := by
  rw [binaryHook?_eq] at hhook
  obtain ⟨name, -, hname⟩ := List.exists_of_findSome?_eq_some hhook
  exact Heap.isHooked_of_hook? hname

/-- A binary operator calls the hook of its left operand, unless that one stands for a native value
and the right operand is a native value itself. -/
theorem runBinary_hook (hm : m.context.frames = f :: callers) (hf : f.stack = b :: a :: rest)
    {op : BinaryOp} {inPlace : Bool} (hhook : binaryHook? m.world.heap op inPlace a = some hook)
    (hraw : b.isHooked = true ∨ m.world.heap.rawValue? a = none) :
    runBinary op inPlace m =
      .ok (.call { callee := hook, args := [b], delivery := .push })
        (m.withFrames ({ f with stack := rest } :: callers)) := by
  have hcall : runBinaryHook op inPlace a b (m.withFrames ({ f with stack := rest } :: callers)) =
      .ok (.call { callee := hook, args := [b], delivery := .push })
        (m.withFrames ({ f with stack := rest } :: callers)) := by
    rw [runBinaryHook, bind_heap]
    simp only [Machine.withFrames, hhook]
    rfl
  have ha := isHooked_of_binaryHook? hhook
  rw [runBinary, bind_pop_pop hm hf, bind_heap, ha]
  cases hb : b.isHooked with
  | true => exact hcall
  | false =>
    have hnone : m.world.heap.rawValue? a = none := hraw.resolve_left (by simp [hb])
    simp only [Machine.withFrames, hnone]
    exact hcall

/-- Between a left operand that stands for a native value and a native right operand the operator is
the native one, whether there is a hook or not. -/
theorem runBinary_coerced (hm : m.context.frames = f :: callers) (hf : f.stack = b :: a :: rest)
    {op : BinaryOp} {inPlace : Bool} {raw : Value} (ha : a.isHooked = true)
    (hb : b.isHooked = false) (hraw : m.world.heap.rawValue? a = some raw) :
    runBinary op inPlace m =
      pushMade (binary m.world.heap op raw b)
        (m.withFrames ({ f with stack := rest } :: callers)) := by
  rw [runBinary, bind_pop_pop hm hf, bind_heap, ha, hb]
  simp only [Machine.withFrames, hraw]

/-- A membership test calls the hook of the container. -/
theorem runCompare_member (hm : m.context.frames = f :: callers) (hf : f.stack = b :: a :: rest)
    {op : CompareOp} (hop : op ∈ [.isIn, .notIn])
    (hhook : m.world.heap.hook? b "__contains__" = some hook) :
    runCompare op m =
      .ok (.call { callee := hook, args := [a], delivery := .truth (op == .notIn) })
        (m.withFrames ({ f with stack := rest } :: callers)) := by
  obtain rfl | rfl : op = .isIn ∨ op = .notIn := by simpa using hop
  all_goals
    rw [runCompare, bind_pop_pop hm hf]
    simp only [CompareOp.hook?, runMembership, bind_heap, Machine.withFrames, hhook]
    rfl

/-- All other comparisons that can be taken over call the hook of the left operand. -/
theorem runCompare_hook (hm : m.context.frames = f :: callers) (hf : f.stack = b :: a :: rest)
    {op : CompareOp} (hop : op ∉ [.isIn, .notIn]) (hname : op.hook? = some name)
    (hhook : m.world.heap.hook? a name = some hook) :
    runCompare op m =
      .ok (.call { callee := hook, args := [b], delivery := .push })
        (m.withFrames ({ f with stack := rest } :: callers)) := by
  have ha := Heap.isHooked_of_hook? hhook
  have hcomparison :
      runComparison op name a b (m.withFrames ({ f with stack := rest } :: callers)) =
        .ok (.call { callee := hook, args := [b], delivery := .push })
          (m.withFrames ({ f with stack := rest } :: callers)) := by
    rw [runComparison, bind_heap, if_pos ha]
    simp only [Machine.withFrames, hhook]
    rfl
  rw [runCompare, bind_pop_pop hm hf, hname]
  cases op with
  | isIn | notIn => simp at hop
  | _ => exact hcomparison

theorem runSubscript_hook (hm : m.context.frames = f :: callers) (hf : f.stack = b :: a :: rest)
    (hhook : m.world.heap.hook? a "__getitem__" = some hook) :
    runSubscript m =
      .ok (.call { callee := hook, args := [b], delivery := .push })
        (m.withFrames ({ f with stack := rest } :: callers)) := by
  rw [runSubscript, bind_pop_pop hm hf, bind_heap]
  simp only [Machine.withFrames, hhook]
  rfl

theorem runGetIter_hook (hm : m.context.frames = f :: callers) (hf : f.stack = v :: rest)
    (hhook : m.world.heap.hook? v "__iter__" = some hook) :
    runGetIter m =
      .ok (.call { callee := hook, delivery := .push })
        (m.withFrames ({ f with stack := rest } :: callers)) := by
  rw [runGetIter, bind_pop hm hf, bind_heap]
  simp only [Machine.withFrames, hhook]
  rfl

theorem runForIter_hook (hm : m.context.frames = f :: callers) (hf : f.stack = v :: rest)
    {exit : Nat} (hhook : m.world.heap.hook? v "__next__" = some hook) :
    runForIter exit m = .ok (.call { callee := hook, delivery := .iteration exit }) m := by
  have hv := Heap.isHooked_of_hook? hhook
  rw [runForIter, bind_ok (peek_cons hm hf)]
  cases v with
  | instanceObj r | hostObj r =>
    dsimp only
    rw [bind_heap, hhook]
    rfl
  | _ => cases hv

end Operations

/-! ## All operations -/

namespace Vm

variable {m : Machine} {f : Frame} {callers : List Frame} {i : Instruction} {t : Takeover}

/-- The instruction calls the hook that the owner of its operation provides. -/
theorem execute_hook (vm : Vm) (hm : m.context.frames = f :: callers)
    (ht : i.takeover? f.stack = some t) {hook : Value} (hhook : t.hook? m.world.heap = some hook)
    (hcoerced : ¬ t.IsCoerced m.world.heap i) :
    vm.execute i m =
      .ok (.call (t.call hook)) (m.withFrames ({ f with stack := t.stack } :: callers)) := by
  unfold Instruction.takeover? at ht
  split at ht
  · next op v stack hf =>
    obtain ⟨name, hname, rfl⟩ := Option.map_eq_some_iff.mp ht
    exact runUnary_hook hm hf hname (by simpa [Takeover.hook?] using hhook)
  · next op inPlace b a stack hf =>
    cases ht
    refine runBinary_hook hm hf ((binaryHook?_eq ..).trans hhook) ?_
    by_contra hraw
    rw [not_or, Bool.not_eq_true] at hraw
    refine hcoerced ⟨⟨op, inPlace, rfl⟩, ?_, Option.isSome_iff_ne_none.mpr hraw.2⟩
    simpa using hraw.1
  · next op b a stack hf =>
    obtain ⟨name, hname, rfl⟩ := Option.map_eq_some_iff.mp ht
    by_cases hop : op ∈ [.isIn, .notIn]
    · have hcontains : name = "__contains__" := by
        obtain rfl | rfl : op = .isIn ∨ op = .notIn := by simpa using hop
        all_goals
          cases hname
          rfl
      simp only [if_pos hop] at hhook ⊢
      rw [hcontains] at hhook
      exact runCompare_member hm hf hop (by simpa [Takeover.hook?] using hhook)
    · simp only [if_neg hop] at hhook ⊢
      exact runCompare_hook hm hf hop hname (by simpa [Takeover.hook?] using hhook)
  · next index container stack hf =>
    cases ht
    exact runSubscript_hook hm hf (by simpa [Takeover.hook?] using hhook)
  · next v stack hf =>
    cases ht
    exact runGetIter_hook hm hf (by simpa [Takeover.hook?] using hhook)
  · next exit v stack hf =>
    cases ht
    have hsame : m.withFrames ({ f with stack := v :: stack } :: callers) = m := by
      rw [← hf, ← hm]
      rfl
    rw [hsame]
    exact runForIter_hook hm hf (by simpa [Takeover.hook?] using hhook)
  · cases ht

/-- Hooks come before native values. If the owner of the next operation provides a hook for it, the
machine goes on with the call of the hook, whatever the other operand is and whatever native value
the owner stands for. The exception is a binary operator between an owner that stands for a native
value and a native operand: it is applied to the native value even if there is a hook. -/
theorem hooks_come_first (vm : Vm) {next : Nat} (hm : m.context.frames = f :: callers)
    (hi : decodeAt f.unit.bytes f.ip = some ⟨i, next⟩) (ht : i.takeover? f.stack = some t) :
    (∀ hook, t.hook? m.world.heap = some hook → ¬ t.IsCoerced m.world.heap i →
      vm.advance .fetch m =
        .running (.link (t.call hook))
          (m.withFrames ({ f.reading next with stack := t.stack } :: callers))) ∧
    (∀ op inPlace b raw, i = .binary op inPlace → t.args = [b] → b.isHooked = false →
      m.world.heap.rawValue? t.owner = some raw →
      vm.perform .fetch m =
        pushMade (binary m.world.heap op raw b)
          (m.withFrames ({ f.reading next with stack := t.stack } :: callers))) := by
  constructor
  · intro hook hhook hcoerced
    have hrun : vm.perform .fetch m = .ok (.call (t.call hook))
        (m.withFrames ({ f.reading next with stack := t.stack } :: callers)) := by
      rw [perform_fetch vm hm hi]
      exact execute_hook vm (f := f.reading next) rfl ht hhook hcoerced
    rw [advance, conclude_ok vm hrun]
    rfl
  · rintro op inPlace b raw rfl hargs hb hraw
    have hstack : f.stack = b :: t.owner :: t.stack := by
      unfold Instruction.takeover? at ht
      split at ht
      case h_2 op' inPlace' b' a stack _ hf =>
        cases ht
        cases hargs
        exact hf
      all_goals grind
    rw [perform_fetch vm hm hi]
    exact runBinary_coerced (f := f.reading next) rfl hstack (Heap.isHooked_of_rawValue? hraw) hb
      hraw

end Vm

namespace FiveWithHook

/-- An object that stands for the number five and provides a hook for sums. -/
def object : HostObject :=
  { typeName := "Five", raw := some (.int 5), attrs := [("__add__", .native ⟨0⟩)], rule := .closed
    call := none }

/-- A machine that adds a value to the object, with the operands still on the stack or not. -/
def machine (stack : List Value) : Machine :=
  { (default : Machine) with
    context := { frames := [{ Frame.start { bytes := #[0x17] } .push with stack }], builtins := [] }
    world := { heap := { hosts := #[object] } } }

end FiveWithHook

open FiveWithHook in
/-- The sum of the object and itself is a call of the hook. -/
theorem FiveWithHook.calls_hook :
    (default : Vm).advance .fetch (machine [.hostObj ⟨0⟩, .hostObj ⟨0⟩]) =
      .running (.link { callee := .native ⟨0⟩, args := [.hostObj ⟨0⟩], delivery := .push })
        ((machine []).withFrames [{ Frame.start { bytes := #[0x17] } .push with ip := 1 }]) :=
  (Vm.hooks_come_first default (m := machine [.hostObj ⟨0⟩, .hostObj ⟨0⟩]) rfl rfl rfl).1 _ rfl
    fun ⟨_, hnative, _⟩ => absurd (hnative _ (List.mem_singleton_self _)) (by decide)

open FiveWithHook in
/-- The sum of the object and a number is a number, although the object provides the hook: no call
is started. -/
theorem FiveWithHook.passed_over :
    (machine []).world.heap.hook? (.hostObj ⟨0⟩) BinaryOp.add.hook = some (.native ⟨0⟩) ∧
      (default : Vm).advance .fetch (machine [.int 1, .hostObj ⟨0⟩]) =
        .running .fetch
          ((machine []).withFrames
            [{ Frame.start { bytes := #[0x17] } .push with ip := 1, stack := [.int 6] }]) ∧
      ∀ c m, (default : Vm).advance .fetch (machine [.int 1, .hostObj ⟨0⟩]) ≠
        .running (.link c) m := by
  have hsum : (default : Vm).advance .fetch (machine [.int 1, .hostObj ⟨0⟩]) =
      .running .fetch
        ((machine []).withFrames
          [{ Frame.start { bytes := #[0x17] } .push with ip := 1, stack := [.int 6] }]) := rfl
  refine ⟨rfl, hsum, ?_⟩
  intro c m hcall
  rw [hsum] at hcall
  cases hcall

end TaskletMachine
