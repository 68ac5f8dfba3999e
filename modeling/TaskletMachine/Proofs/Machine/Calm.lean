import TaskletMachine.Proofs.Effect.Keeping
import TaskletMachine.Proofs.Machine.Places
import TaskletMachine.Proofs.Value.Growth

/-!
# Calm computations of the machine

Faults are kept in three places: one that is on its way or has ended the tasklet, the one that was
caught last, and those that cleanup bodies keep until they end. Only raising a fault puts one there.
All other computations are calm: they may leave cleanup bodies and drop frames, and with them the
faults that are kept there, but every fault that is kept afterwards was kept before, in the same
place.

What is calm for the context may change the world, in ways that depend on what native functions do.
These are a parameter here.

## Main definitions

* `Frame.Carries`, `Context.CarriesAt`: the faults that cleanup bodies keep.
* `Context.Calm`, `Machine.Calm`, `Exec.Calm`: no fault comes to be kept.
* `World.Admits`: what the changes of the world must include.
-/
namespace TaskletMachine

open Exec

/-! ## Faults that are kept -/

/-- A cleanup body of the frame keeps the fault. -/
def Frame.Carries (f : Frame) (fault : Fault) : Prop :=
  ∃ b ∈ f.blocks, b.kind = .finallyBody fault

/-- A cleanup body of the frame at a place keeps the fault. -/
def Context.CarriesAt (c : Context) (k : Nat) (fault : Fault) : Prop :=
  ∃ f, c.frameAt? k = some f ∧ f.Carries fault

theorem Frame.Carries.of_outline {f g : Frame} {fault : Fault} (h : g.outline = f.outline)
    (hg : g.Carries fault) : f.Carries fault := by
  obtain ⟨b, hb, hkind⟩ := hg
  have hblocks : f.blocks = g.blocks := congrArg Prod.fst h.symm
  exact ⟨b, hblocks ▸ hb, hkind⟩

theorem Frame.Carries.of_suffix {f g : Frame} {fault : Fault} (h : g.blocks <:+ f.blocks)
    (hg : g.Carries fault) : f.Carries fault := by
  obtain ⟨b, hb, hkind⟩ := hg
  exact ⟨b, h.subset hb, hkind⟩

/-- No fault comes to be kept, and the builtins stay. -/
structure Context.Calm (c c' : Context) : Prop where
  builtins : c'.builtins = c.builtins
  handled : c'.handled = c.handled
  fault : c'.fault = c.fault
  carries : ∀ k fault, c'.CarriesAt k fault → c.CarriesAt k fault

section Frames

variable {c c' : Context} {f g : Frame} {callers : List Frame} {k : Nat} {fault : Fault}

theorem Context.carriesAt_cons (hc : c.frames = f :: callers) :
    c.CarriesAt k fault ↔
      (k = callers.length ∧ f.Carries fault) ∨
        ({ c with frames := callers } : Context).CarriesAt k fault := by
  simp only [CarriesAt, frameAt?, hc, List.reverse_cons]
  rcases Nat.lt_trichotomy k callers.length with hk | rfl | hk
  · rw [List.getElem?_append_left (by simpa using hk)]
    simp [Nat.ne_of_lt hk]
  · simp
  · have hframes : (callers.reverse ++ [f])[k]? = none :=
      List.getElem?_eq_none (by simpa using Nat.succ_le_of_lt hk)
    have hcallers : callers.reverse[k]? = none :=
      List.getElem?_eq_none (by simpa using Nat.le_of_lt hk)
    simp [hframes, hcallers, Nat.ne_of_gt hk]

namespace Context.Calm

theorem refl (c : Context) : c.Calm c :=
  ⟨rfl, rfl, rfl, fun _ _ => id⟩

theorem trans {c₁ : Context} (h : c.Calm c₁) (h₁ : c₁.Calm c') : c.Calm c' :=
  ⟨h₁.builtins.trans h.builtins, h₁.handled.trans h.handled, h₁.fault.trans h.fault,
    fun k fault => h.carries k fault ∘ h₁.carries k fault⟩

/-- The innermost frame is replaced by one that keeps no other faults. -/
theorem replace (hc : c.frames = f :: callers) (hg : ∀ fault, g.Carries fault → f.Carries fault) :
    c.Calm { c with frames := g :: callers } := by
  refine ⟨rfl, rfl, rfl, fun k fault h => ?_⟩
  rw [carriesAt_cons hc]
  exact ((carriesAt_cons rfl).1 h).imp (fun h => ⟨h.1, hg fault h.2⟩) id

/-- The innermost frame is dropped. -/
theorem drop (hc : c.frames = f :: callers) : c.Calm { c with frames := callers } :=
  ⟨rfl, rfl, rfl, fun _ _ h => (carriesAt_cons hc).2 (.inr h)⟩

/-- A frame without blocks is entered. -/
theorem enter (hf : f.blocks = []) : c.Calm { c with frames := f :: c.frames } := by
  refine ⟨rfl, rfl, rfl, fun k fault h => ?_⟩
  rcases (carriesAt_cons rfl).1 h with ⟨-, b, hb, -⟩ | h
  · rw [hf] at hb
    cases hb
  · exact h

/-- All frames keep their blocks. -/
theorem of_quiet {frames : List Frame} (h : c.Quiet { c with frames }) :
    c.Calm { c with frames } := by
  refine ⟨rfl, rfl, rfl, ?_⟩
  rintro k fault ⟨g, hg, hfault⟩
  have houtlines := congrArg (fun l => l.reverse[k]?) h.outlines
  simp only [← List.map_reverse, List.getElem?_map] at houtlines
  rw [show frames.reverse[k]? = some g from hg, Option.map_some] at houtlines
  obtain ⟨f, hf, houtline⟩ := Option.map_eq_some_iff.1 houtlines.symm
  exact ⟨f, hf, hfault.of_outline houtline.symm⟩

theorem setGlobal (c : Context) (name : String) (v : Value) : c.Calm (c.setGlobal name v) :=
  of_quiet (c.quiet_setGlobal name v)

theorem setGlobals (globals : Namespace) (c : Context) :
    c.Calm (globals.foldl (fun c (name, v) => c.setGlobal name v) c) := by
  induction globals generalizing c with
  | nil => exact .refl c
  | cons entry rest ih => exact (setGlobal c entry.1 entry.2).trans (ih _)

theorem storeName? {name : String} {v : Value} (h : c.storeName? name v = some c') :
    c.Calm c' := by
  have hquiet := quiet_storeName? h
  have hframes : ∃ frames, c' = { c with frames } := by
    unfold Context.storeName? at h
    grind
  obtain ⟨frames, rfl⟩ := hframes
  exact of_quiet hquiet

end Context.Calm

end Frames

/-! ## The world -/

/-- The changes of the world that calm computations make: the heap grows, tasklets are parked or
wait, and native functions do what they do. -/
structure World.Admits (host : Host) (W : World → World → Prop) : Prop where
  heap : ∀ (w : World) h, w.heap.Grows h → W w { w with heap := h }
  park : ∀ (w : World) id, W w (w.park id)
  wait : ∀ (w : World) p id, W w (w.wait p id)
  native : ∀ f args keywords, Keeps W (callNative host f args keywords)

theorem Keeps.callHost {host : Host} {W : World → World → Prop} [IsPreorder World W]
    (hW : World.Admits host W) (r : HostRef) (args : List Value) (keywords : Namespace) :
    Keeps W (callHost host r args keywords) := by
  have hbusy (w : World) (busy : Bool) : W w { w with heap := w.heap.setBusy r busy } :=
    hW.heap w _ (.of_tables rfl rfl)
  have hcall (f : Behaviour) : Keeps W (whileBusy r (TaskletMachine.callNative host f args keywords)) := by
    intro w
    have hnative := hW.native f args keywords { w with heap := w.heap.setBusy r true }
    unfold KeepsAt whileBusy
    unfold KeepsAt at hnative
    dsimp only
    split at hnative <;> next heq =>
      rw [heq]
      exact trans_of W (hbusy w true) (trans_of W hnative (hbusy _ false))
  unfold TaskletMachine.callHost
  refine bind heap fun h => ?_
  dsimp only
  split
  · refine bind (throw _) fun _ => ?_
    split
    · exact bind heap fun _ => hcall _
    · exact throw _
  · split
    · exact bind heap fun _ => hcall _
    · exact throw _

/-- The context is calm, and the world changes in one of the given ways. -/
structure Machine.Calm (W : World → World → Prop) (m m' : Machine) : Prop where
  context : m.context.Calm m'.context
  world : W m.world m'.world

instance {W : World → World → Prop} [IsPreorder World W] : IsPreorder Machine (Machine.Calm W) where
  refl m := ⟨.refl m.context, refl_of W m.world⟩
  trans _ _ _ h h₁ := ⟨h.context.trans h₁.context, trans_of W h.world h₁.world⟩

/-! ## Calm computations -/

/-- Whichever way the computation ends, it is calm on the machine. -/
def Exec.CalmAt {α : Type} (W : World → World → Prop) (x : Exec α) (m : Machine) : Prop :=
  KeepsAt (Machine.Calm W) x m

/-- The computation is calm on every machine. -/
def Exec.Calm {α : Type} (W : World → World → Prop) (x : Exec α) : Prop :=
  Keeps (Machine.Calm W) x

namespace Exec

variable {α β : Type} {host : Host} {W : World → World → Prop} {m : Machine} {f g : Frame}
  {callers : List Frame}

/-! ## From one machine -/

namespace CalmAt

theorem of_left {x : Exec α} (h : m.Calm W (Exec.left (x m))) : CalmAt W x m := by
  unfold CalmAt KeepsAt
  cases hx : x m <;> rwa [hx] at h

theorem left {x : Exec α} (h : CalmAt W x m) : m.Calm W (Exec.left (x m)) := by
  cases hx : x m with
  | ok a m' => exact h.of_ok hx
  | error e m' => exact h.of_error hx

theorem of_eq {x : Exec α} {r : EStateM.Result Error Machine α} (h : x m = r)
    (hr : m.Calm W (Exec.left r)) : CalmAt W x m :=
  of_left (h ▸ hr)

theorem bind_of_ok {x : Exec α} {k : α → Exec β} {a : α} (hx : x m = .ok a m)
    (hk : CalmAt W (k a) m) : CalmAt W (x >>= k) m := by
  unfold CalmAt KeepsAt at hk ⊢
  rwa [bind_ok hx]

theorem setHeap (hW : World.Admits host W) {h : Heap} (hh : m.world.heap.Grows h) :
    CalmAt W (Exec.setHeap h) m :=
  ⟨.refl m.context, hW.heap m.world h hh⟩

variable [IsPreorder World W]

theorem bind {x : Exec α} {k : α → Exec β} (hx : CalmAt W x m)
    (hk : ∀ a m', x m = .ok a m' → CalmAt W (k a) m') : CalmAt W (x >>= k) m :=
  KeepsAt.bind hx hk

theorem throw (e : Error) : CalmAt W (MonadExcept.throw e : Exec α) m :=
  KeepsAt.throw e

/-- The heap that a result comes with takes the place of the heap. -/
theorem ofExcept {r : Except Error α} {made : α → Heap} {k : α → Exec β}
    (hr : m.world.heap.GrowsBy made r)
    (hk : ∀ a, m.world.heap.Grows (made a) → CalmAt W (k a) m) :
    CalmAt W (MonadExcept.ofExcept r >>= k) m := by
  cases r with
  | error e => exact throw e
  | ok a => exact hk a (hr a rfl)

/-- The innermost frame is replaced by one that keeps no other faults. -/
theorem replace (hm : m.context.frames = f :: callers)
    (hg : ∀ fault, g.Carries fault → f.Carries fault) :
    CalmAt W (Exec.modifyFrame fun _ => g) m :=
  of_eq (modifyFrame_cons hm _) ⟨.replace hm hg, refl_of W m.world⟩

end CalmAt

namespace Calm

/-- What is done with the heap as it is. -/
theorem withHeap {k : Heap → Exec α} (hk : ∀ m, CalmAt W (k m.world.heap) m) :
    Calm W (Exec.heap >>= k) :=
  hk

/-- What is done with the context as it is. -/
theorem withContext {k : Context → Exec α} (hk : ∀ m, CalmAt W (k m.context) m) :
    Calm W (Exec.context >>= k) :=
  hk

theorem onHeap (hW : World.Admits host W) {make : Heap → α × Heap}
    (h : ∀ h : Heap, h.Grows (make h).2) :
    Calm W (Exec.onHeap make) :=
  fun m => ⟨.refl m.context, hW.heap m.world _ (h m.world.heap)⟩

variable [IsPreorder World W]

theorem pure (a : α) : Calm W (Pure.pure a : Exec α) :=
  Keeps.pure a

theorem throw (e : Error) : Calm W (MonadExcept.throw e : Exec α) :=
  Keeps.throw e

theorem bind {x : Exec α} {k : α → Exec β} (hx : Calm W x) (hk : ∀ a, Calm W (k a)) :
    Calm W (x >>= k) :=
  Keeps.bind hx hk

theorem ofExcept (r : Except Error α) : Calm W (MonadExcept.ofExcept r : Exec α) :=
  Keeps.ofExcept r

/-! ## Reading -/

/-- What is done with the innermost frame as it is. -/
theorem withFrame {k : Frame → Exec α}
    (hk : ∀ m f callers, m.context.frames = f :: callers → CalmAt W (k f) m) :
    Calm W (Exec.frame >>= k) := by
  intro m
  cases hm : m.context.frames with
  | nil => exact CalmAt.of_eq (bind_error (frame_nil hm)) (refl_of _ m)
  | cons f callers => exact CalmAt.bind_of_ok (frame_cons hm) (hk m f callers hm)

theorem heap : Calm W Exec.heap :=
  fun m => refl_of _ m

theorem context : Calm W Exec.context :=
  fun m => refl_of _ m

theorem frame : Calm W Exec.frame := by
  refine bind context fun c => ?_
  split
  · exact pure _
  · exact throw _

/-! ## Writing -/

theorem modifyContext {change : Context → Context} (h : ∀ c : Context, c.Calm (change c)) :
    Calm W (Exec.modifyContext change) :=
  fun m => ⟨h m.context, refl_of W m.world⟩

/-- A change of the innermost frame that keeps no other faults. -/
theorem modifyFrame {change : Frame → Frame}
    (h : ∀ f fault, (change f).Carries fault → f.Carries fault) :
    Calm W (Exec.modifyFrame change) := by
  intro m
  cases hm : m.context.frames with
  | nil => exact CalmAt.of_eq (modifyFrame_nil hm _) (refl_of _ m)
  | cons f callers =>
    exact CalmAt.of_eq (modifyFrame_cons hm _) ⟨.replace hm (h f), refl_of W m.world⟩

theorem push (v : Value) : Calm W (Exec.push v) :=
  modifyFrame fun _ _ => id

theorem jump (ip : Nat) : Calm W (Exec.jump ip) :=
  modifyFrame fun _ _ => id

theorem pop : Calm W Exec.pop := by
  refine bind frame fun f => ?_
  split
  · exact bind (modifyFrame fun _ _ => id) fun _ => pure _
  · exact throw _

theorem peek : Calm W Exec.peek := by
  refine bind frame fun f => ?_
  split
  · exact pure _
  · exact throw _

theorem popN (count : Nat) : Calm W (Exec.popN count) := by
  refine bind frame fun f => ?_
  have htake : Calm W (do
      Exec.modifyFrame fun g => { g with stack := f.stack.drop count }
      return (f.stack.take count).reverse) :=
    bind (modifyFrame fun _ _ => id) fun _ => pure _
  dsimp only
  split
  · exact bind (throw _) fun _ => htake
  · exact htake

theorem name (index : Nat) : Calm W (Exec.name index) := by
  refine bind frame fun f => ?_
  split
  · exact pure _
  · exact throw _

theorem slot (index : Nat) : Calm W (Exec.slot index) := by
  refine bind frame fun f => ?_
  split
  · exact pure _
  · exact throw _

theorem raise (kind : ExceptionKind) (message : String) :
    Calm W (Exec.raise kind message : Exec α) :=
  throw _

theorem fail (message : String) : Calm W (Exec.fail message : Exec α) :=
  throw _

theorem failShowing (message : String) (v : Value) :
    Calm W (Exec.failShowing message v : Exec α) :=
  bind heap fun _ => throw _

end Calm

end Exec

end TaskletMachine
