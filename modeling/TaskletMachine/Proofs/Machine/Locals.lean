import TaskletMachine.Machine.Frame
import TaskletMachine.Proofs.Library.Exceptions
import TaskletMachine.Proofs.Machine.Arguments

/-!
# Locals of a frame

A frame keeps its locals in two stores: a slot for each name that its unit declares, and the names
that it does not declare. As long as neither store holds what belongs in the other, a name has
exactly one place, and looking a local up comes to looking at that place.

## Main definitions

* `Frame.Cell`, `Frame.held?`: the places of both stores, and what they hold.
* `Frame.cellOf`: the place of a name.
* `Frame.WellBound`: neither store holds what belongs in the other.
* `Frame.WellBound.held?_setLocal`, `Frame.WellBound.local?_setLocal`: giving a local a value.
* `Frame.find?_locals`: the table of all locals agrees with looking them up one by one.
-/
namespace TaskletMachine

namespace Names

variable {ν : Type} {names more : Names ν}

theorem find?_cons (head : String) (v : ν) (rest : Names ν) (name : String) :
    Names.find? ((head, v) :: rest) name =
      if head = name then some v else rest.find? name := by
  simp [find?, Entries.get?]

theorem mem_map_fst_remove {names : Names ν} {name name' : String}
    (h : name' ∈ (names.remove name).map Prod.fst) : name' ∈ names.map Prod.fst := by
  unfold remove at h
  induction names with
  | nil => exact h
  | cons entry rest ih =>
    rw [Entries.erase] at h
    split at h
    · exact List.mem_cons_of_mem _ h
    · rw [List.map_cons, List.mem_cons] at h ⊢
      exact h.imp id ih

/-- Names paired with a row of values: the first occurrence of a name tells which value is its. -/
theorem find?_zip (names : List String) (values : List ν) (name : String) :
    Names.find? (names.zip values) name =
      (names.findIdx? (· == name)).bind fun index => values[index]? := by
  induction names generalizing values with
  | nil => rfl
  | cons head names ih =>
    cases values with
    | nil => simp [find?, Entries.get?]
    | cons value values =>
      rw [List.zip_cons_cons, find?_cons, List.findIdx?_cons]
      by_cases hhead : head = name
      · simp [hhead]
      · cases hi : names.findIdx? (· == name) <;> simp [hhead, ih values, hi]

/-- A name that has no value yet comes last. -/
theorem map_fst_set (names : Names ν) (name : String) (v : ν) :
    (names.set name v).map Prod.fst =
      if name ∈ names.map Prod.fst then names.map Prod.fst else names.map Prod.fst ++ [name] := by
  unfold set
  induction names with
  | nil => rfl
  | cons entry rest ih =>
    rw [Entries.insert]
    by_cases hkey : entry.1 = name
    · simp [hkey]
    · have hne : name ≠ entry.1 := Ne.symm hkey
      rw [if_neg (by simpa using hkey), List.map_cons, ih, List.map_cons]
      by_cases hmem : name ∈ rest.map Prod.fst
      · rw [if_pos hmem, if_pos (List.mem_cons_of_mem _ hmem)]
      · rw [if_neg hmem, if_neg (by simpa [hne] using hmem)]
        rfl

theorem nodup_set (h : (names.map Prod.fst).Nodup) (name : String) (v : ν) :
    ((names.set name v).map Prod.fst).Nodup := by
  rw [map_fst_set]
  split
  · exact h
  · next hnew =>
    exact (List.perm_append_singleton name _).nodup_iff.2 (List.nodup_cons.2 ⟨hnew, h⟩)

theorem nodup_setAll (h : (names.map Prod.fst).Nodup) (more : Names ν) :
    ((names.setAll more).map Prod.fst).Nodup := by
  induction more generalizing names with
  | nil => exact h
  | cons entry rest ih => exact ih (nodup_set h entry.1 entry.2)

/-- Setting new names, each once, adds them at the end. -/
theorem setAll_eq_append (h : ((names ++ more).map Prod.fst).Nodup) :
    names.setAll more = names ++ more := by
  induction more generalizing names with
  | nil => exact (List.append_nil names).symm
  | cons entry rest ih =>
    have hnew : entry.1 ∉ names.map Prod.fst := by
      rw [List.map_append, List.nodup_append] at h
      exact fun hmem => h.2.2 entry.1 hmem entry.1 List.mem_cons_self rfl
    have hset : (names.set entry.1 entry.2).setAll rest = names ++ entry :: rest := by
      rw [set_eq_concat hnew, ih (by simpa using h), List.append_assoc, List.singleton_append]
    exact hset

end Names

namespace Frame

/-! ## Cells -/

/-- A place where a frame can hold the value of a local. -/
inductive Cell where
  /-- A slot. -/
  | slot (index : Nat)
  /-- An entry among the names. -/
  | named (name : String)
deriving DecidableEq

/-- The value that a cell holds. -/
def held? (f : Frame) : Cell → Option Value
  | .slot index => f.slots[index]?.join
  | .named name => f.names.find? name

/-- The cell of a name: a slot if the unit declares it. -/
def cellOf (f : Frame) (name : String) : Cell :=
  match f.unit.localIndex? name with
  | some index => .slot index
  | none => .named name

/-- Every declared local has a slot, and no declared name is among the others. -/
structure WellBound (f : Frame) : Prop where
  slots : f.slots.size = f.unit.localNames.size
  names : ∀ name ∈ f.unit.localNames, name ∉ f.names.map Prod.fst

variable {f : Frame} {name name' : String}

theorem localIndex?_eq_none : f.unit.localIndex? name = none ↔ name ∉ f.unit.localNames := by
  simp only [UnitOf.localIndex?, Array.findIdx?_eq_none_iff, beq_eq_false_iff_ne, ne_eq]
  exact ⟨fun h hmem => h name hmem rfl, fun h _ hmem heq => h (heq ▸ hmem)⟩

theorem getElem?_of_localIndex? {index : Nat} (h : f.unit.localIndex? name = some index) :
    f.unit.localNames[index]? = some name := by
  obtain ⟨hindex, hname, -⟩ := Array.findIdx?_eq_some_iff_getElem.1 h
  rw [Array.getElem?_eq_getElem hindex, beq_iff_eq.1 hname]

theorem cellOf_injective (f : Frame) : Function.Injective f.cellOf := by
  intro name name' h
  unfold cellOf at h
  cases hi : f.unit.localIndex? name with
  | none =>
    cases hi' : f.unit.localIndex? name' with
    | none => simpa [hi, hi'] using h
    | some index' => simp [hi, hi'] at h
  | some index =>
    cases hi' : f.unit.localIndex? name' with
    | none => simp [hi, hi'] at h
    | some index' =>
      have hindex : index = index' := by simpa [hi, hi'] using h
      have hname := getElem?_of_localIndex? hi
      rw [hindex, getElem?_of_localIndex? hi'] at hname
      exact (Option.some.inj hname).symm

/-- Looking a local up comes to looking at its cell. -/
theorem WellBound.local?_eq_held? (h : f.WellBound) (name : String) :
    f.local? name = f.held? (f.cellOf name) := by
  unfold local? slotOf? cellOf
  cases hi : f.unit.localIndex? name with
  | none => rfl
  | some index =>
    have hdeclared := Array.mem_of_getElem? (getElem?_of_localIndex? hi)
    have hnames := Names.find?_eq_none (h.names name hdeclared)
    simp only [Option.bind_some, held?, hnames, Option.or_none]

/-! ## Giving a local a value -/

@[simp] theorem unit_setLocal (f : Frame) (name : String) (v : Value) :
    (f.setLocal name v).unit = f.unit := by
  unfold setLocal
  split <;> rfl

/-- Nothing but the two stores changes. -/
theorem setLocal_eq (f : Frame) (name : String) (v : Value) :
    f.setLocal name v =
      { f with slots := (f.setLocal name v).slots, names := (f.setLocal name v).names } := by
  unfold setLocal
  split <;> rfl

/-- The cell of the name holds the value afterwards, and all others hold what they held. -/
theorem WellBound.held?_setLocal (h : f.WellBound) (name : String) (v : Value) (cell : Cell) :
    (f.setLocal name v).held? cell = if cell = f.cellOf name then some v else f.held? cell := by
  unfold setLocal cellOf
  cases hi : f.unit.localIndex? name with
  | none =>
    cases cell with
    | slot index => simp [held?]
    | named name' => simp [held?, Names.find?_set, eq_comm]
  | some index =>
    cases cell with
    | named name' => simp [held?]
    | slot index' =>
      have hindex : index < f.slots.size := by
        obtain ⟨hlt, -⟩ := Array.getElem?_eq_some_iff.1 (getElem?_of_localIndex? hi)
        rwa [h.slots]
      by_cases heq : index = index'
      · simp [held?, ← heq, hindex]
      · simp [held?, Array.getElem?_setIfInBounds_ne heq, Ne.symm heq]

/-! ## Frames stay well bound -/

theorem wellBound_start (unit : CodeUnit) (d : Delivery) : (start unit d).WellBound where
  slots := Array.size_replicate
  names _ _ := List.not_mem_nil

theorem WellBound.setSlot (h : f.WellBound) (index : Nat) (slot : Option Value) :
    WellBound { f with slots := f.slots.setIfInBounds index slot } where
  slots := Array.size_setIfInBounds.trans h.slots
  names := h.names

theorem WellBound.removeName (h : f.WellBound) (name : String) :
    WellBound { f with names := f.names.remove name } where
  slots := h.slots
  names name' hdeclared hmem := h.names name' hdeclared (Names.mem_map_fst_remove hmem)

theorem WellBound.setName (h : f.WellBound) (hname : f.unit.localIndex? name = none) (v : Value) :
    WellBound { f with names := f.names.set name v } where
  slots := h.slots
  names name' hdeclared hmem := by
    rcases (Names.mem_map_fst_set _ _ _).1 hmem with rfl | hmem
    · exact localIndex?_eq_none.1 hname hdeclared
    · exact h.names name' hdeclared hmem

theorem WellBound.setLocal (h : f.WellBound) (name : String) (v : Value) :
    (f.setLocal name v).WellBound := by
  unfold Frame.setLocal
  split
  · exact h.setSlot _ _
  · next hname => exact h.setName hname v

/-- The name has the value afterwards, and all other names have the value they had. -/
theorem WellBound.local?_setLocal (h : f.WellBound) (name : String) (v : Value) (name' : String) :
    (f.setLocal name v).local? name' = if name = name' then some v else f.local? name' := by
  have hcell : (f.setLocal name v).cellOf name' = f.cellOf name' := by
    unfold cellOf
    rw [unit_setLocal]
  rw [(h.setLocal name v).local?_eq_held?, hcell, h.held?_setLocal, h.local?_eq_held?]
  exact if_congr ((cellOf_injective f).eq_iff.trans eq_comm) rfl rfl

/-! ## All locals -/

/-- The declared locals that have a value, put into a table in order. -/
theorem find?_declared (pairs : Names (Option Value)) (acc : Namespace)
    (h : (pairs.map Prod.fst).Nodup) (name : String) :
    Names.find? (pairs.foldl (fun acc (name, slot) =>
      match slot with
      | some v => Names.set acc name v
      | none => acc) acc) name = (pairs.find? name).join.or (acc.find? name) := by
  induction pairs generalizing acc with
  | nil => rfl
  | cons entry rest ih =>
    obtain ⟨head, slot⟩ := entry
    obtain ⟨hhead, hrest⟩ := List.nodup_cons.1 h
    rw [List.foldl_cons, ih _ hrest, Names.find?_cons]
    by_cases hname : head = name
    · have hlater : Names.find? rest name = none := Names.find?_eq_none (hname ▸ hhead)
      cases slot <;> simp [hname, hlater, Names.find?_set]
    · cases slot <;> simp [hname, Names.find?_set]

/-- Further entries do not hide those that are there already. -/
theorem find?_append_absent (names acc : Namespace) (name : String) :
    Names.find? (names.foldl (fun acc (name, v) =>
      if Names.has acc name then acc else acc ++ [(name, v)]) acc) name =
      (acc.find? name).or (names.find? name) := by
  induction names generalizing acc with
  | nil => exact (Option.or_none).symm
  | cons entry rest ih =>
    obtain ⟨head, v⟩ := entry
    rw [List.foldl_cons, ih, Names.find?_cons]
    dsimp only
    by_cases hhas : Names.has acc head
    · rw [if_pos hhas]
      by_cases hname : head = name
      · obtain ⟨v', hv'⟩ := Option.isSome_iff_exists.1 hhas
        simp [← hname, hv']
      · rw [if_neg hname]
    · rw [if_neg hhas, Names.find?_concat]
      by_cases hname : head = name
      · simp [← hname, Option.not_isSome_iff_eq_none.1 hhas]
      · simp [hname]

/-- The table of all locals has for each name the value that the local has. -/
theorem find?_locals (f : Frame) (h : f.unit.localNames.toList.Nodup) (name : String) :
    Names.find? f.locals name = f.local? name := by
  have hkeys : ((f.unit.localNames.toList.zip f.slots.toList).map Prod.fst).Nodup := by
    rw [List.zip_eq_zip_take_min, List.map_fst_zip (by simp)]
    exact h.sublist (List.take_sublist _ _)
  have hslot : (Names.find? (f.unit.localNames.toList.zip f.slots.toList) name).join =
      f.slotOf? name := by
    rw [Names.find?_zip, slotOf?, UnitOf.localIndex?, ← List.findIdx?_toArray, Array.toArray_toList]
    cases f.unit.localNames.findIdx? (· == name) <;> simp
  have hdeclared := (find?_declared _ [] hkeys name).trans (congrArg (Option.or · none) hslot)
  rw [locals, find?_append_absent, local?]
  exact congrArg (Option.or · (f.names.find? name)) (hdeclared.trans Option.or_none)

/-- The table of all locals has each name once. -/
theorem nodup_locals (f : Frame) : (f.locals.map Prod.fst).Nodup := by
  unfold locals
  dsimp only
  refine List.foldlRecOn (motive := fun acc : Namespace => (acc.map Prod.fst).Nodup) _ _ ?_ ?_
  · refine List.foldlRecOn (motive := fun acc : Namespace => (acc.map Prod.fst).Nodup) _ _
      List.nodup_nil ?_
    rintro acc hacc ⟨name, slot⟩ -
    cases slot with
    | none => exact hacc
    | some v => exact Names.nodup_set hacc name v
  · rintro acc hacc ⟨name, v⟩ -
    dsimp only
    split
    · exact hacc
    · next hnew =>
      have habsent : name ∉ acc.map Prod.fst := by
        intro hmem
        obtain ⟨v', -, hfind⟩ := Names.exists_find?_of_mem hmem
        exact hnew (Option.isSome_iff_exists.2 ⟨v', hfind⟩)
      rw [List.map_append]
      exact (List.perm_append_singleton name _).nodup_iff.2 (List.nodup_cons.2 ⟨habsent, hacc⟩)

end Frame

end TaskletMachine
