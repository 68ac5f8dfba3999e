import TaskletMachine.Proofs.Machine.Lifecycle

/-!
# Frames by their place

A frame keeps its place on the call stack, counted from the root frame, for as long as it stays
there. What a step does to the call stack is said here place by place.

## Main definitions

* `Context.frameAt?`: the frame at a place.
* `Frame.floor`, `Context.Spares`: the values that lie below the innermost block of a frame, and
  changes that keep them.
* `Frame.Becomes`, `Context.Becomes`: what becomes of a frame that keeps its place.
-/
namespace TaskletMachine

open Exec

/-- The frame at a place, counted from the root frame. -/
def Context.frameAt? (c : Context) (k : Nat) : Option Frame :=
  c.frames.reverse[k]?

/-- The depth that the innermost block has recorded. -/
def Frame.floor (f : Frame) : Nat :=
  (f.blocks.head?.map Block.depth).getD 0

/-- No value is removed that lies below the innermost block of its frame, unless the frame leaves
that block. Only the frame in which an instruction starts and the one in which it ends can lose
values. -/
def Context.Spares (c c' : Context) : Prop :=
  ∀ k f g, c.frameAt? k = some f → c'.frameAt? k = some g →
    k + 1 = c.frames.length ∨ k + 1 = c'.frames.length → f.blocks <:+ g.blocks →
    Frame.cut f.stack f.floor <:+ g.stack

/-! ## Places -/

section Places

variable {c c' : Context} {f g : Frame} {k : Nat}

theorem Context.mem_frames_iff_frameAt? : f ∈ c.frames ↔ ∃ k, c.frameAt? k = some f := by
  rw [← List.mem_reverse, List.mem_iff_getElem?]
  rfl

theorem Context.frameAt?_append {above callers : List Frame} (hc : c.frames = above ++ f :: callers) :
    c.frameAt? callers.length = some f := by
  rw [frameAt?, hc, List.reverse_append, List.reverse_cons, List.append_assoc,
    List.getElem?_append_right (Nat.le_of_eq List.length_reverse), List.length_reverse, Nat.sub_self]
  rfl

theorem Context.frameAt?_of_lt {above callers : List Frame} (hc : c.frames = above ++ callers)
    (hk : k < callers.length) : c.frameAt? k = callers.reverse[k]? := by
  rw [frameAt?, hc, List.reverse_append,
    List.getElem?_append_left (by rw [List.length_reverse]; exact hk)]

theorem Context.lt_of_frameAt? (h : c.frameAt? k = some f) : k < c.frames.length := by
  have hk := (List.getElem?_eq_some_iff.1 h).1
  rwa [List.length_reverse] at hk

/-- The callers of a frame keep their outlines and their operand stacks. -/
theorem SameFrames.frameAt? {callers callers' : List Frame} (h : SameFrames callers callers')
    (hf : callers.reverse[k]? = some f) (hg : callers'.reverse[k]? = some g) :
    g.outline = f.outline ∧ g.stack = f.stack := by
  constructor
  · have houtline := congrArg (fun l => l.reverse[k]?) h.outlines
    simp only [← List.map_reverse, List.getElem?_map, hf, hg, Option.map_some,
      Option.some.injEq] at houtline
    exact houtline
  · have hstack := congrArg (fun l => l.reverse[k]?) h.operands
    simp only [← List.map_reverse, List.getElem?_map, hf, hg, Option.map_some,
      Option.some.injEq] at hstack
    exact hstack

end Places

/-! ## What becomes of a frame -/

/-- What becomes of a frame that keeps its place, if no value below its innermost block is removed:
as `Frame.Turns`, with what is left of the operand stack in each case. -/
inductive Frame.Becomes (exits : Prop) (handled : Option Fault) (f g : Frame) : Prop
  | keeps (hb : g.blocks = f.blocks) (hs : cut f.stack f.floor <:+ g.stack)
  | enters (b : Block) (hb : g.blocks = b :: f.blocks) (hdepth : b.depth = g.stack.length)
      (hs : cut f.stack f.floor <:+ g.stack)
  | leaves (removed : List Block) (b : Block) (rest : List Block)
      (hbelow : f.Below removed b rest g.stack) (hb : g.blocks = rest)
      (hkind : b.kind = .exceptGuard → exits)
  | caught (removed : List Block) (b : Block) (rest : List Block) (fault : Fault)
      (below : List Value) (hbelow : f.Below removed b rest below) (hb : g.blocks = rest)
      (hs : g.stack = fault.value :: below) (hkind : b.kind = .exceptGuard) (hexits : ¬ exits)
      (hhandled : handled = some fault)
  | cleanup (removed : List Block) (b : Block) (rest : List Block) (fault : Fault)
      (hbelow : f.Below removed b rest g.stack)
      (hb : g.blocks = { b with kind := .finallyBody fault } :: rest) (hkind : b.kind = .finallyGuard)

section Becomes

variable {exits : Prop} {handled : Option Fault} {f f₁ g : Frame}

theorem Frame.Turns.becomes (h : f.Turns exits handled g)
    (hs : f.blocks <:+ g.blocks → cut f.stack f.floor <:+ g.stack) :
    f.Becomes exits handled g := by
  cases h with
  | keeps hb hd => exact .keeps hb (hs (hb ▸ List.suffix_rfl))
  | enters b hb hd hdepth => exact .enters b hb hdepth (hs (hb ▸ List.suffix_cons b f.blocks))
  | leaves removed b rest hbelow hb hd hkind => exact .leaves removed b rest hbelow hb hkind
  | caught removed b rest fault below hbelow hb hd hs hkind hexits hhandled =>
    exact .caught removed b rest fault below hbelow hb hs hkind hexits hhandled
  | cleanup removed b rest fault hbelow hb hd hkind =>
    exact .cleanup removed b rest fault hbelow hb hkind

theorem Frame.Nested.depth_le_floor (h : f.Nested) {b : Block} (hb : b ∈ f.blocks) :
    b.depth ≤ f.floor := by
  have hsorted := h.sorted
  simp only [floor]
  cases hf : f.blocks with
  | nil =>
    rw [hf] at hb
    cases hb
  | cons inner outer =>
    rw [hf] at hb hsorted
    rcases List.mem_cons.1 hb with rfl | hb
    · exact Nat.le_refl _
    · exact (List.pairwise_cons.1 hsorted).1 b hb

theorem Frame.Nested.floor_le (h : f.Nested) : f.floor ≤ f.stack.length := by
  simp only [floor]
  cases hf : f.blocks with
  | nil => exact Nat.zero_le _
  | cons inner outer => exact h.deep inner (hf ▸ List.mem_cons_self)

/-- What lies below the innermost block lies there in both frames. -/
theorem Frame.Nested.cut_eq (h : f.Nested) (hs : cut f.stack f.floor <:+ g.stack) {depth : Nat}
    (hdepth : depth ≤ f.floor) : cut g.stack depth = cut f.stack depth := by
  have hlength := length_cut h.floor_le
  have hfloor : f.floor ≤ g.stack.length := hlength ▸ hs.length_le
  have hcut : cut g.stack f.floor = cut f.stack f.floor := by
    have heq := cut_eq_of_suffix hs
    rwa [hlength] at heq
  calc cut g.stack depth = cut (cut g.stack f.floor) depth := (cut_cut hdepth hfloor).symm
    _ = cut f.stack depth := by rw [hcut, cut_cut hdepth h.floor_le]

theorem Frame.Nested.of_keeps (h : f.Nested) (hb : g.blocks = f.blocks)
    (hs : cut f.stack f.floor <:+ g.stack) : g.Nested := by
  refine ⟨hb ▸ h.sorted, fun b hmem => ?_⟩
  rw [hb] at hmem
  calc b.depth ≤ f.floor := h.depth_le_floor hmem
    _ = (cut f.stack f.floor).length := (length_cut h.floor_le).symm
    _ ≤ g.stack.length := hs.length_le

theorem Frame.Below.of_keeps {removed rest : List Block} {b : Block} {below : List Value}
    (h : f₁.Below removed b rest below) (hn : f.Nested) (hb : f₁.blocks = f.blocks)
    (hs : cut f.stack f.floor <:+ f₁.stack) : f.Below removed b rest below := by
  have hblocks : f.blocks = removed ++ b :: rest := hb ▸ h.blocks
  refine ⟨hblocks, fun _ => (h.stack (hn.of_keeps hb hs)).trans (hn.cut_eq hs ?_)⟩
  exact hn.depth_le_floor (hblocks ▸ List.mem_append_right removed List.mem_cons_self)

/-- A frame that has kept its blocks, and what lies below them, becomes what the later one
becomes. -/
theorem Frame.Becomes.of_keeps (h : f₁.Becomes exits handled g) (hn : f.Nested)
    (hb : f₁.blocks = f.blocks) (hs : cut f.stack f.floor <:+ f₁.stack) :
    f.Becomes exits handled g := by
  have hfloor : f₁.floor = f.floor := by rw [floor, floor, hb]
  have hcut (hs₁ : cut f₁.stack f₁.floor <:+ g.stack) : cut f.stack f.floor <:+ g.stack := by
    rwa [hfloor, hn.cut_eq hs (Nat.le_refl _)] at hs₁
  cases h with
  | keeps hb₁ hs₁ => exact .keeps (hb₁.trans hb) (hcut hs₁)
  | enters b hb₁ hdepth hs₁ => exact .enters b (hb ▸ hb₁) hdepth (hcut hs₁)
  | leaves removed b rest hbelow hb₁ hkind =>
    exact .leaves removed b rest (hbelow.of_keeps hn hb hs) hb₁ hkind
  | caught removed b rest fault below hbelow hb₁ hs₁ hkind hexits hhandled =>
    exact .caught removed b rest fault below (hbelow.of_keeps hn hb hs) hb₁ hs₁ hkind hexits hhandled
  | cleanup removed b rest fault hbelow hb₁ hkind =>
    exact .cleanup removed b rest fault (hbelow.of_keeps hn hb hs) hb₁ hkind

end Becomes

/-! ## What becomes of a call stack -/

/-- What becomes of the frames, place by place. -/
structure Context.Becomes (exits : Prop) (c c' : Context) : Prop where
  stays : ∀ k f g, c.frameAt? k = some f → c'.frameAt? k = some g → f.Nested →
    f.Becomes exits c'.handled g
  fresh : ∀ k g, c.frameAt? k = none → c'.frameAt? k = some g → g.blocks = []

namespace Context

open TaskletMachine.Frame (cut cut_suffix)

variable {exits : Prop} {c c₁ c' : Context}

/-- The callers of a frame stay as they are. -/
theorem keeps_of_callers {above above' callers callers' : List Frame}
    (hc : c.frames = above ++ callers) (hc' : c'.frames = above' ++ callers')
    (hsame : SameFrames callers callers') {k : Nat} (hk : k < callers.length) {f g : Frame}
    (hf : c.frameAt? k = some f) (hg : c'.frameAt? k = some g) :
    g.blocks = f.blocks ∧ cut f.stack f.floor <:+ g.stack := by
  rw [frameAt?_of_lt hc hk] at hf
  rw [frameAt?_of_lt hc' (hsame.length_eq ▸ hk)] at hg
  obtain ⟨houtline, hstack⟩ := hsame.frameAt? hf hg
  refine ⟨congrArg Prod.fst houtline, ?_⟩
  rw [hstack]
  exact cut_suffix f.stack f.floor

theorem length_le_of_frameAt?_eq_none {k : Nat} (h : c.frameAt? k = none) :
    c.frames.length ≤ k := by
  rwa [frameAt?, List.getElem?_eq_none_iff, List.length_reverse] at h

theorem Becomes.of_sameFrames (h : SameFrames c.frames c'.frames) : c.Becomes exits c' := by
  constructor
  · intro k f g hf hg _
    obtain ⟨hb, hs⟩ := keeps_of_callers (List.nil_append _).symm (List.nil_append _).symm h
      (lt_of_frameAt? hf) hf hg
    exact .keeps hb hs
  · intro k g hnone hg
    have hk := lt_of_frameAt? hg
    have hlength := length_le_of_frameAt?_eq_none hnone
    rw [h.length_eq] at hk
    omega

theorem Shifts.becomes {limit : Nat} (h : c.Shifts limit exits c') (hs : c.Spares c') :
    c.Becomes exits c' := by
  cases h with
  | drop dropped f g callers callers' hc hc' hsame hturn =>
    have hg := frameAt?_append (hc'.trans (List.nil_append _).symm)
    have hf := frameAt?_append hc
    rw [hsame.length_eq] at hg
    constructor
    · intro k f₀ g₀ hf₀ hg₀ _
      have hk := lt_of_frameAt? hg₀
      rw [hc', List.length_cons, hsame.length_eq] at hk
      rcases Nat.lt_or_eq_of_le (Nat.le_of_lt_succ hk) with hlt | rfl
      · obtain ⟨hb, hs⟩ := keeps_of_callers (hc.trans (List.append_cons dropped f callers))
          (hc'.trans (List.singleton_append).symm) hsame hlt hf₀ hg₀
        exact .keeps hb hs
      · cases hf₀.symm.trans hf
        cases hg₀.symm.trans hg
        refine hturn.becomes (hs _ f g hf hg (.inr ?_))
        rw [hc', List.length_cons, hsame.length_eq]
    · intro k g₀ hnone hg₀
      have hk := lt_of_frameAt? hg₀
      have hlength := length_le_of_frameAt?_eq_none hnone
      rw [hc', List.length_cons, hsame.length_eq] at hk
      rw [hc, List.length_append, List.length_cons] at hlength
      omega
  | enter entered f g callers callers' hc hc' hsame hb hd hfresh hsound hlimit =>
    have hf := frameAt?_append (hc.trans (List.nil_append _).symm)
    have hg := frameAt?_append (hc'.trans (List.singleton_append).symm)
    rw [hsame.length_eq] at hg
    constructor
    · intro k f₀ g₀ hf₀ hg₀ _
      have hk := lt_of_frameAt? hf₀
      rw [hc, List.length_cons] at hk
      rcases Nat.lt_or_eq_of_le (Nat.le_of_lt_succ hk) with hlt | rfl
      · obtain ⟨hb, hs⟩ := keeps_of_callers (hc.trans (List.singleton_append).symm)
          (hc'.trans (List.append_cons [entered] g callers')) hsame hlt hf₀ hg₀
        exact .keeps hb hs
      · cases hf₀.symm.trans hf
        cases hg₀.symm.trans hg
        refine .keeps hb (hs _ f g hf hg (.inl ?_) (hb ▸ List.suffix_rfl))
        rw [hc, List.length_cons]
    · intro k g₀ hnone hg₀
      have hk := lt_of_frameAt? hg₀
      have hlength := length_le_of_frameAt?_eq_none hnone
      rw [hc', List.length_cons, List.length_cons, hsame.length_eq] at hk
      rw [hc, List.length_cons] at hlength
      have hlast : k = (g :: callers').length := by
        rw [List.length_cons, hsame.length_eq]
        omega
      have hentered := frameAt?_append (hc'.trans (List.nil_append _).symm)
      rw [← hlast] at hentered
      cases hg₀.symm.trans hentered
      exact hfresh

/-- Where frames are only dropped, a place that is taken afterwards was taken before. -/
theorem Shifts.length_le (h : c.Shifts 0 exits c') : c'.frames.length ≤ c.frames.length := by
  cases h with
  | drop dropped f g callers callers' hc hc' hsame hturn =>
    rw [hc, hc', List.length_append, List.length_cons, List.length_cons, hsame.length_eq]
    omega
  | enter entered f g callers callers' hc hc' hsame hb hd hfresh hsound hlimit =>
    exact absurd hlimit (Nat.not_lt_zero _)

theorem Drops.keeps (h : c.Drops c') (hs : c.Spares c') {k : Nat} {f₀ g₀ : Frame}
    (hf₀ : c.frameAt? k = some f₀) (hg₀ : c'.frameAt? k = some g₀) :
    g₀.blocks = f₀.blocks ∧ cut f₀.stack f₀.floor <:+ g₀.stack := by
  obtain ⟨dropped, f, g, callers, callers', hc, hc', houtline, hsame⟩ := h.frames
  have hk := lt_of_frameAt? hg₀
  rw [hc', List.length_cons, hsame.length_eq] at hk
  rcases Nat.lt_or_eq_of_le (Nat.le_of_lt_succ hk) with hlt | rfl
  · exact keeps_of_callers (hc.trans (List.append_cons dropped f callers))
      (hc'.trans (List.singleton_append).symm) hsame hlt hf₀ hg₀
  · have hf := frameAt?_append hc
    have hg := frameAt?_append (hc'.trans (List.nil_append _).symm)
    rw [hsame.length_eq] at hg
    cases hf₀.symm.trans hf
    cases hg₀.symm.trans hg
    have hb : g₀.blocks = f₀.blocks := congrArg Prod.fst houtline
    refine ⟨hb, hs _ f₀ g₀ hf hg (.inr ?_) (hb ▸ List.suffix_rfl)⟩
    rw [hc', List.length_cons, hsame.length_eq]

/-- Frames that have kept their outlines become what the later ones become. -/
theorem Drops.becomes (h : c.Drops c₁) (hs : c.Spares c₁) (h₁ : c₁.Becomes exits c')
    (hlength : c'.frames.length ≤ c₁.frames.length) : c.Becomes exits c' := by
  have hplace {k : Nat} {g : Frame} (hg : c'.frameAt? k = some g) :
      ∃ f₁, c₁.frameAt? k = some f₁ := by
    have hk := Nat.lt_of_lt_of_le (lt_of_frameAt? hg) hlength
    rw [← List.length_reverse] at hk
    exact ⟨_, List.getElem?_eq_getElem hk⟩
  constructor
  · intro k f g hf hg hn
    obtain ⟨f₁, hf₁⟩ := hplace hg
    obtain ⟨hb, hsuffix⟩ := h.keeps hs hf hf₁
    exact (h₁.stays k f₁ g hf₁ hg (hn.of_keeps hb hsuffix)).of_keeps hn hb hsuffix
  · intro k g hnone hg
    obtain ⟨f₁, hf₁⟩ := hplace hg
    have hk := lt_of_frameAt? hf₁
    have hc := length_le_of_frameAt?_eq_none hnone
    have hdrops := Shifts.length_le (h.shifts : c.Shifts 0 exits c₁)
    omega

end Context

end TaskletMachine
