import TaskletMachine.Proofs.Machine.InvariantSteps
import TaskletMachine.Proofs.Machine.Locals

/-!
# Binding names

A name is looked up from the innermost frame outwards, and storing it may go to another frame than
the innermost one. Wherever it goes, the name is found there afterwards, and all other names are
found where they were.

## Main definitions

* `Context.seenFrom`: the context as a frame further out sees it.
* `Context.Rebinds`: one cell of one frame gets a value, and nothing else changes.
* `Frame.wellBound`: the invariant that the two stores of a frame keep apart.
* `Context.storeName?_rebinds`: what storing a name does.
* `Vm.Reachable.binds_names`: names in all contexts that a tasklet can have.
-/
namespace TaskletMachine

/-! ## Storing a name -/

namespace Context

/-- The context as the frame sees it that is below the given number of frames. -/
def seenFrom (c : Context) (k : Nat) : Context :=
  { c with frames := c.frames.drop k }

/-- The cell of a name in one frame holds the value afterwards. All other cells of that frame, all
other frames and the rest of the context stay as they are. -/
def Rebinds (c : Context) (name : String) (v : Value) (c' : Context) : Prop :=
  ∃ above f g below, c.frames = above ++ f :: below ∧
    c' = { c with frames := above ++ g :: below } ∧
    g = { f with slots := g.slots, names := g.names } ∧
    ∀ cell, g.held? cell = if cell = f.cellOf name then some v else f.held? cell

variable {c c' : Context} {name name' : String} {v : Value}

/-- A name that all frames have as before is found as before, whichever frame looks it up. -/
theorem loadName?_seenFrom (hframes : c'.frames.map (·.local? name) = c.frames.map (·.local? name))
    (hbuiltins : c'.builtins = c.builtins) (k : Nat) :
    (c'.seenFrom k).loadName? name = (c.seenFrom k).loadName? name := by
  have hfind (c : Context) : (c.frames.drop k).findSome? (·.local? name) =
      ((c.frames.map (·.local? name)).drop k).findSome? id := by
    rw [← List.map_drop, List.findSome?_map, Function.id_comp]
  unfold loadName? seenFrom
  rw [hfind, hfind, hframes, hbuiltins]

/-- Storing a name succeeds, the name is found afterwards, one cell of one frame has changed, and
all other names are found as before. -/
theorem storeName?_rebinds (hne : c.frames ≠ []) (hc : ∀ f ∈ c.frames, f.WellBound) (name : String)
    (v : Value) :
    ∃ c', c.storeName? name v = some c' ∧ c'.loadName? name = some v ∧ c.Rebinds name v c' ∧
      ∀ name', name' ≠ name → ∀ k,
        (c'.seenFrom k).loadName? name' = (c.seenFrom k).loadName? name' := by
  obtain ⟨above, f, below, hframes, hstore, habove⟩ := storeName?_eq hne name v
  have hf : f.WellBound := hc f (by simp [hframes])
  have hlocal := hf.local?_setLocal name v
  refine ⟨_, hstore, ?_, ?_, fun name' hname' k => ?_⟩
  · have hnone : above.findSome? (·.local? name) = none := List.findSome?_eq_none_iff.2 habove
    simp [loadName?, List.findSome?_append, hnone, hlocal]
  · exact ⟨above, f, f.setLocal name v, below, hframes, rfl, f.setLocal_eq name v,
      hf.held?_setLocal name v⟩
  · apply loadName?_seenFrom
    · simp [hframes, hlocal, hname'.symm]
    · rfl

end Context

/-! ## Reachable contexts -/

/-- The two stores of a frame keep apart. -/
def Frame.wellBound : FrameInvariant where
  Holds := WellBound
  start := wellBound_start
  frameOf {unit bound d f} h := by
    unfold Vm.frameOf at h
    dsimp only at h
    split at h
    · cases h
    · cases h
      exact ⟨by simp; omega, fun _ _ => List.not_mem_nil⟩
  moved {f g} h hg := by
    obtain ⟨hunit, hslots, hnames⟩ : g.unit = f.unit ∧ g.slots = f.slots ∧ g.names = f.names := by
      simpa [bindings] using hg
    exact ⟨by rw [hslots, hunit, h.slots], by rw [hunit, hnames]; exact h.names⟩
  setSlot h := h.setSlot
  setName h name hname v := h.setName hname v
  removeName h := h.removeName

/-- In every context that a tasklet can have, each declared local has a slot, and no frame has the
name of one among its other names. Storing a name always succeeds; it is found afterwards, and no
other binding changes, so that all other names are found as before from every frame. And in a frame
whose unit declares no name twice the table of all locals agrees with looking them up one by one. -/
theorem Vm.Reachable.binds_names {vm : Vm} {c : Context} (h : vm.Reachable c) :
    (∀ f ∈ c.frames, (∀ name ∈ f.unit.localNames, name ∉ f.names.map Prod.fst) ∧
      f.slots.size = f.unit.localNames.size) ∧
    (∀ name v, ∃ c', c.storeName? name v = some c' ∧ c'.loadName? name = some v ∧
      c.Rebinds name v c' ∧ ∀ name', name' ≠ name → ∀ k,
        (c'.seenFrom k).loadName? name' = (c.seenFrom k).loadName? name') ∧
    (∀ f : Frame, f.unit.localNames.toList.Nodup → ∀ name,
      Names.find? f.locals name = f.local? name) := by
  have hbound : ∀ f ∈ c.frames, f.WellBound := h.holds Frame.wellBound
  refine ⟨fun f hf => ⟨(hbound f hf).names, (hbound f hf).slots⟩, fun name v => ?_, ?_⟩
  · exact Context.storeName?_rebinds h.ne_nil hbound name v
  · intro f hnodup name
    exact f.find?_locals hnodup name

namespace DeclaredUnset

/-- A tasklet whose unit declares a local that has no value yet, and which was given another one. -/
def context : Context :=
  Context.start { localNames := #["x"] } [] [("y", .int 2)]

theorem reachable : (default : Vm).Reachable context :=
  .between (.start { localNames := #["x"] } [] [("y", .int 2)] [] none {})

theorem loads : context.loadName? "x" = none ∧ context.loadName? "y" = some (.int 2) := by
  simp [context, Context.start, Context.setGlobal, Context.mapRoot, Context.loadName?, Frame.start,
    Frame.setLocal, Frame.local?, Frame.slotOf?, UnitOf.localIndex?, Names.find?, Names.set,
    Entries.insert, Entries.get?]

/-- The declared local gets a value of its own, and the other one keeps its value. -/
theorem stores : context.loadName? "x" = none ∧ ∃ c', context.storeName? "x" (.int 1) = some c' ∧
    c'.loadName? "x" = some (.int 1) ∧ c'.loadName? "y" = some (.int 2) := by
  obtain ⟨-, hstores, -⟩ := reachable.binds_names
  obtain ⟨c', hc', hx, -, hothers⟩ := hstores "x" (.int 1)
  have hy : c'.loadName? "y" = context.loadName? "y" := hothers "y" (by decide) 0
  exact ⟨loads.1, c', hc', hx, hy.trans loads.2⟩

end DeclaredUnset

end TaskletMachine
