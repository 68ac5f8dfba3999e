import TaskletMachine.Proofs.Machine.Blind
import TaskletMachine.Proofs.Machine.Steps

/-!
# Related call stacks

Two machines may differ in their call stacks only. If the innermost frames are the same, but for
what becomes of their results, and the frames below bind the same names, then the next instruction
does the same on both, unless it leaves its frame. A relation between call stacks that guarantees
this is kept by everything that an instruction is made of.

## Main definitions

* `Frame.withDelivery`: a frame whose result becomes something else.
* `FrameRelation`: such a relation between call stacks.
* `Machine.SameBut`: machines that differ in related call stacks only.
* `Exec.Respects`: a computation that does the same on such machines.
-/
namespace TaskletMachine

open Exec

/-! ## Frames -/

/-- The frame with another delivery. -/
def Frame.withDelivery (f : Frame) (d : Delivery) : Frame :=
  { f with delivery := d }

namespace Frame

variable {f : Frame} {d : Delivery}

theorem withDelivery_self (f : Frame) : f.withDelivery f.delivery = f :=
  rfl

theorem withDelivery_of_eq (h : f.delivery = d) : f.withDelivery d = f := by
  rw [← h, withDelivery_self]

theorem setLocal_withDelivery (name : String) (v : Value) :
    (f.withDelivery d).setLocal name v = (f.setLocal name v).withDelivery d := by
  simp only [setLocal, withDelivery]
  split <;> rfl

theorem foldl_setLocal_withDelivery (attrs : Namespace) :
    attrs.foldl (fun f entry => f.setLocal entry.1 entry.2) (f.withDelivery d) =
      (attrs.foldl (fun f entry => f.setLocal entry.1 entry.2) f).withDelivery d := by
  induction attrs generalizing f with
  | nil => rfl
  | cons attr rest ih => rw [List.foldl_cons, List.foldl_cons, setLocal_withDelivery, ih]

theorem removeLocal?_withDelivery (name : String) :
    (f.withDelivery d).removeLocal? name = (f.removeLocal? name).map (·.withDelivery d) := by
  have hunit : (f.withDelivery d).unit = f.unit := rfl
  have hslot : (f.withDelivery d).slotOf? name = f.slotOf? name := rfl
  have hnames : (f.withDelivery d).names = f.names := rfl
  unfold removeLocal?
  rw [hunit, hslot, hnames]
  split
  · rfl
  · split <;> rfl

theorem popBlock?_withDelivery :
    (f.withDelivery d).popBlock? = f.popBlock?.map (·.withDelivery d) := by
  unfold popBlock?
  dsimp only [withDelivery]
  split <;> rfl

theorem breakFrom_withDelivery (f : Frame) (d : Delivery) (blocks : List Block) :
    (f.withDelivery d).breakFrom blocks =
      ((f.breakFrom blocks).1.withDelivery d, (f.breakFrom blocks).2) := by
  induction blocks generalizing f with
  | nil => rfl
  | cons b rest ih =>
    unfold breakFrom
    dsimp only
    split
    · rfl
    · exact ih { f.restore b.depth with blocks := rest }

theorem continueLoop?_withDelivery (target : Nat) :
    (f.withDelivery d).continueLoop? target = (f.continueLoop? target).map (·.withDelivery d) := by
  unfold continueLoop?
  dsimp only [withDelivery]
  split
  · rfl
  · split <;> rfl

end Frame

/-! ## Relations -/

/-- A relation between call stacks on which instructions do the same. -/
structure FrameRelation where
  Related : List Frame → List Frame → Prop
  /-- The innermost frames differ in their deliveries only, and may change in the same way. -/
  top {frames frames' : List Frame} (h : Related frames frames') :
    ∃ f d callers callers', frames = f :: callers ∧ frames' = f.withDelivery d :: callers' ∧
      ∀ g : Frame, g.delivery = f.delivery → Related (g :: callers) (g.withDelivery d :: callers')
  enter {frames frames' : List Frame} (h : Related frames frames') (f : Frame) :
    Related (f :: frames) (f :: frames')
  length_eq {frames frames' : List Frame} (h : Related frames frames') :
    frames'.length = frames.length
  loadName {c : Context} {frames : List Frame} (h : Related c.frames frames) (name : String) :
    Context.loadName? { c with frames } name = c.loadName? name
  loadGlobal {c : Context} {frames : List Frame} (h : Related c.frames frames) (name : String) :
    Context.loadGlobal? { c with frames } name = c.loadGlobal? name
  storeName {c : Context} {frames : List Frame} (h : Related c.frames frames) (name : String)
    (v : Value) : ∃ stored stored', Related stored stored' ∧
      c.storeName? name v = some { c with frames := stored } ∧
      Context.storeName? { c with frames } name v = some { c with frames := stored' }
  storeGlobal {frames frames' : List Frame} (h : Related frames frames') (name : String)
    (v : Value) : Related (Context.mapRoot (·.setLocal name v) frames)
      (Context.mapRoot (·.setLocal name v) frames')

/-- The machines are the same but for their call stacks, which are related. -/
def Machine.SameBut (R : List Frame → List Frame → Prop) (m m' : Machine) : Prop :=
  ∃ frames, R m.context.frames frames ∧ m' = m.withFrames frames

/-- The computation ends in the same way on two machines with related call stacks, and the call
stacks are related afterwards. -/
def Exec.Respects {α : Type} (R : List Frame → List Frame → Prop) (x : Exec α) : Prop :=
  ∀ m frames, R m.context.frames frames →
    SameResult (Machine.SameBut R) (x m) (x (m.withFrames frames))

namespace Exec.Respects

variable {α β : Type}

/-! ## The world and the context -/

section World

variable {R : List Frame → List Frame → Prop}

@[grind .] theorem pure (a : α) : Respects R (Pure.pure a : Exec α) :=
  fun _ frames h => .ok a ⟨frames, h, rfl⟩

@[grind .] theorem throw (e : Error) : Respects R (MonadExcept.throw e : Exec α) :=
  fun _ frames h => .error e ⟨frames, h, rfl⟩

/-- What follows is done on machines with related call stacks. -/
theorem bindAt {x y : Exec α} {k l : α → Exec β} {m m' : Machine}
    (hx : SameResult (Machine.SameBut R) (x m) (y m'))
    (hk : ∀ a m₁ frames, x m = .ok a m₁ → R m₁.context.frames frames →
      SameResult (Machine.SameBut R) (k a m₁) (l a (m₁.withFrames frames))) :
    SameResult (Machine.SameBut R) ((x >>= k) m) ((y >>= l) m') := by
  cases hrun : x m with
  | ok a m₁ =>
    rw [hrun] at hx
    generalize hrun' : y m' = r at hx
    cases hx with
    | ok _ h₁ =>
      obtain ⟨frames, hR, rfl⟩ := h₁
      rw [bind_ok hrun, bind_ok hrun']
      exact hk a m₁ frames hrun hR
  | error e m₁ =>
    rw [hrun] at hx
    generalize hrun' : y m' = r at hx
    cases hx with
    | error _ h₁ =>
      rw [bind_error hrun, bind_error hrun']
      exact .error e h₁

@[grind ←] theorem bind {x : Exec α} {k : α → Exec β} (hx : Respects R x)
    (hk : ∀ a, Respects R (k a)) : Respects R (x >>= k) :=
  fun m frames h => bindAt (hx m frames h) fun a m₁ frames₁ _ h₁ => hk a m₁ frames₁ h₁

@[grind .] theorem ofExcept (r : Except Error α) :
    Respects R (MonadExcept.ofExcept r : Exec α) := by
  cases r with
  | ok a => exact pure a
  | error e => exact throw e

@[grind .] theorem heap : Respects R Exec.heap :=
  fun _ frames h => .ok _ ⟨frames, h, rfl⟩

@[grind .] theorem setHeap (h : Heap) : Respects R (Exec.setHeap h) :=
  fun _ frames hR => .ok () ⟨frames, hR, rfl⟩

@[grind .] theorem onHeap (f : Heap → α × Heap) : Respects R (Exec.onHeap f) :=
  fun _ frames h => .ok _ ⟨frames, h, rfl⟩

@[grind .] theorem ofEffect (effect : Effect α) : Respects R (Exec.ofEffect effect) := by
  intro m frames h
  unfold Exec.ofEffect
  simp only [Machine.withFrames]
  cases effect m.world with
  | ok a w => exact .ok a ⟨frames, h, rfl⟩
  | error e w => exact .error e ⟨frames, h, rfl⟩

@[grind .] theorem currentTasklet : Respects R TaskletMachine.currentTasklet :=
  fun _ frames h => .ok _ ⟨frames, h, rfl⟩

/-- What is read of the context is the same for related call stacks. -/
theorem withContext {k : Context → Exec α}
    (hk : ∀ (c : Context) frames, R c.frames frames → k { c with frames } = k c)
    (h : ∀ c, Respects R (k c)) : Respects R (Exec.context >>= k) := by
  intro m frames hR
  have hsame : k (m.withFrames frames).context = k m.context := hk m.context frames hR
  show SameResult _ (k m.context m) (k (m.withFrames frames).context (m.withFrames frames))
  rw [hsame]
  exact h m.context m frames hR

@[grind .] theorem raise (kind : ExceptionKind) (message : String) :
    Respects R (Exec.raise kind message : Exec α) :=
  throw _

@[grind .] theorem fail (message : String) : Respects R (Exec.fail message : Exec α) :=
  throw _

@[grind .] theorem failShowing (message : String) (v : Value) :
    Respects R (Exec.failShowing message v : Exec α) :=
  bind heap fun _ => throw _

end World

/-! ## The innermost frame -/

section Frames

variable {I : FrameRelation}

/-- What is read of the innermost frame is not where its result goes. -/
theorem withFrame {k : Frame → Exec α} (hk : ∀ f d, k (f.withDelivery d) = k f)
    (h : ∀ f, Respects I.Related (k f)) : Respects I.Related (Exec.frame >>= k) := by
  intro m frames hR
  obtain ⟨f, d, callers, callers', hm, rfl, -⟩ := I.top hR
  have hm' : (m.withFrames (f.withDelivery d :: callers')).context.frames =
      f.withDelivery d :: callers' := rfl
  rw [bind_ok (frame_cons hm), bind_ok (frame_cons hm'), hk]
  exact h f m _ hR

@[grind ←] theorem modifyFrame {change : Frame → Frame}
    (hchange : ∀ f d, change (f.withDelivery d) = (change f).withDelivery d) :
    Respects I.Related (Exec.modifyFrame change) := by
  intro m frames hR
  obtain ⟨f, d, callers, callers', hm, rfl, htop⟩ := I.top hR
  have hm' : (m.withFrames (f.withDelivery d :: callers')).context.frames =
      f.withDelivery d :: callers' := rfl
  have hself : change f = (change f).withDelivery f.delivery := hchange f f.delivery
  have hdelivery : (change f).delivery = f.delivery := by
    rw [hself]
    rfl
  rw [modifyFrame_cons hm, modifyFrame_cons hm', hchange]
  exact .ok () ⟨_, htop (change f) hdelivery, rfl⟩

/-- The innermost frame is replaced, if there is something to replace it by. -/
theorem update {change : Frame → Option Frame} {e : Error}
    (hchange : ∀ f d, change (f.withDelivery d) = (change f).map (·.withDelivery d)) :
    Respects I.Related (do
      match change (← Exec.frame) with
      | some f =>
        Exec.modifyFrame fun _ => f
        return .next
      | none => MonadExcept.throw e : Exec Control) := by
  intro m frames hR
  obtain ⟨f, d, callers, callers', hm, rfl, htop⟩ := I.top hR
  have hm' : (m.withFrames (f.withDelivery d :: callers')).context.frames =
      f.withDelivery d :: callers' := rfl
  rw [bind_ok (frame_cons hm), bind_ok (frame_cons hm'), hchange]
  cases hg : change f with
  | none => exact .error e ⟨_, hR, rfl⟩
  | some g =>
    have hself : change f = (change f).map (·.withDelivery f.delivery) := hchange f f.delivery
    rw [hg, Option.map_some] at hself
    have hdelivery : g.delivery = f.delivery := by
      rw [Option.some.inj hself]
      rfl
    rw [Option.map_some]
    dsimp only
    rw [bind_ok (modifyFrame_cons hm _), bind_ok (modifyFrame_cons hm' _)]
    exact .ok Control.next ⟨_, htop g hdelivery, rfl⟩

@[grind .] theorem push (v : Value) : Respects I.Related (Exec.push v) :=
  modifyFrame fun _ _ => rfl

@[grind .] theorem jump (ip : Nat) : Respects I.Related (Exec.jump ip) :=
  modifyFrame fun _ _ => rfl

@[grind .] theorem pop : Respects I.Related Exec.pop := by
  refine withFrame (fun _ _ => rfl) fun f => ?_
  split
  · exact bind (modifyFrame fun _ _ => rfl) fun _ => pure _
  · exact throw _

@[grind .] theorem peek : Respects I.Related Exec.peek := by
  refine withFrame (fun _ _ => rfl) fun f => ?_
  split
  · exact pure _
  · exact throw _

@[grind .] theorem popN (count : Nat) : Respects I.Related (Exec.popN count) := by
  refine withFrame (fun _ _ => rfl) fun f => ?_
  have hrest : Respects I.Related (do
      Exec.modifyFrame fun g => { g with stack := f.stack.drop count }
      return (f.stack.take count).reverse) :=
    bind (modifyFrame fun _ _ => rfl) fun _ => pure _
  dsimp only
  split
  · exact bind (throw _) fun _ => hrest
  · exact hrest

@[grind .] theorem name (index : Nat) : Respects I.Related (Exec.name index) := by
  refine withFrame (fun _ _ => rfl) fun f => ?_
  split
  · exact pure _
  · exact throw _

@[grind .] theorem slot (index : Nat) : Respects I.Related (Exec.slot index) := by
  refine withFrame (fun _ _ => rfl) fun f => ?_
  split
  · exact pure _
  · exact throw _

theorem enter (f : Frame) : Respects I.Related (Exec.enter f) :=
  fun _ _ h => .ok () ⟨_, I.enter h f, rfl⟩

end Frames

end Exec.Respects

end TaskletMachine
