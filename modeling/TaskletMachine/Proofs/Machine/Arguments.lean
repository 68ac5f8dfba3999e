import Mathlib.Data.List.Nodup
import TaskletMachine.Machine.Arguments
import TaskletMachine.Proofs.Value.Tables

/-!
# How arguments fill parameters

A parameter takes the argument at its position, else the keyword argument of its name, else its
default. A call fits if no positional argument is left over, each keyword argument has a place, and
no parameter stays empty; what is left over may also be collected. A call that does not fit is
refused for the first of these reasons.

The parameters are filled in stages, and after each stage it is known what they hold: the parameters
after some keyword arguments are what these keyword arguments alone would have made of them.

## Main definitions

* `Matching.given?`, `Matching.value?`: what a parameter takes.
* `Matching.Accepts`, `Matching.Fits`: the calls that fit.
* `Matching.Fills`, `Matching.Refuses`: what a call comes to.
* `Matching.arguments_match`: matching arguments comes to that.
-/
namespace TaskletMachine

/-! ## Names -/

namespace Names

variable {ν : Type} {names : Names ν} {name : String}

theorem find?_concat (names : Names ν) (name : String) (v : ν) (name' : String) :
    Names.find? (names ++ [(name, v)]) name' =
      (names.find? name').or (if name = name' then some v else none) := by
  unfold find?
  induction names with
  | nil => simp [Entries.get?]
  | cons entry rest ih =>
    rw [List.cons_append, Entries.get?, Entries.get?]
    split
    · rfl
    · exact ih

theorem find?_eq_none (h : name ∉ names.map Prod.fst) : names.find? name = none := by
  unfold find?
  induction names with
  | nil => rfl
  | cons entry rest ih =>
    rw [List.map_cons, List.mem_cons, not_or] at h
    rw [Entries.get?, if_neg (fun hkey => h.1 (beq_iff_eq.1 hkey).symm)]
    exact ih h.2

/-- A name that is new comes last. -/
theorem set_eq_concat (h : name ∉ names.map Prod.fst) (v : ν) :
    names.set name v = names ++ [(name, v)] := by
  unfold set
  induction names with
  | nil => rfl
  | cons entry rest ih =>
    rw [List.map_cons, List.mem_cons, not_or] at h
    rw [Entries.insert, if_neg (fun hkey => h.1 (beq_iff_eq.1 hkey).symm), ih h.2]
    rfl

end Names

namespace Matching

/-! ## Calls that fit -/

section Specification

variable (unit : CodeUnit) (defaults args : List Value) (keywords : Namespace)

/-- The argument given for a parameter: that at its position, or else that of its name. -/
def given? (i : Nat) : Option Value :=
  args[i]?.or (unit.argNames[i]?.bind keywords.find?)

/-- The default of a parameter, which is as far from the end of the defaults as the parameter is from
the end of the parameters. -/
def default? (i : Nat) : Option Value :=
  defaults.reverse[unit.argCount - 1 - i]?

/-- What a parameter takes. -/
def value? (i : Nat) : Option Value :=
  (given? unit args keywords i).or (default? unit defaults i)

/-- A keyword argument has a place: it names a parameter that no positional argument fills, or it
names no parameter and is collected. -/
def Accepts (name : String) : Prop :=
  (∃ i, unit.argNames[i]? = some name ∧ args.length ≤ i) ∨
    unit.varkeywords = true ∧ name ∉ unit.argNames

/-- The call fits the parameters. -/
structure Fits : Prop where
  positional : args.length ≤ unit.argCount ∨ unit.varargs = true
  named : ∀ entry ∈ keywords, Accepts unit args entry.1
  complete : ∀ i < unit.argCount, (value? unit defaults args keywords i).isSome

/-- The keyword arguments that name no parameter. -/
def unmatched : Namespace :=
  keywords.filter fun entry => entry.1 ∉ unit.argNames

/-- The names of the parameters that nothing fills. -/
def unfilled : List String :=
  (List.range unit.argCount).filterMap fun i =>
    if (value? unit defaults args keywords i).isNone then unit.argNames[i]? else none

/-- The values fill the slots of the call: the parameters, then the surplus positional arguments,
then, in a new dict, the keyword arguments that name no parameter. -/
structure Fills (h : Heap) (values : List Value) (h' : Heap) : Prop where
  length : values.length = unit.slotCount
  declared : ∀ i < unit.argCount, values[i]? = value? unit defaults args keywords i
  surplus : unit.varargs = true →
    ∃ token, values[unit.argCount]? = some (.tuple token (args.drop unit.argCount))
  unmatched : unit.varkeywords = true → ∃ r : DictRef,
    values[unit.argCount + unit.varargs.toNat]? = some (.dict r) ∧ h.dicts.size ≤ r.index ∧
      h'.dict r = (unmatched unit keywords).map fun (name, v) => (.str name, v)

/-- The exception for a keyword argument that has no place. -/
def misplaced (name : String) : Error :=
  refuse unit
    (if name ∈ unit.argNames then "got multiple values for argument '" ++ name ++ "'"
    else "got an unexpected keyword argument '" ++ name ++ "'")

/-- The exception for parameters of the given names that stay empty. -/
def incomplete (names : List String) : Error :=
  let count := names.length
  refuse unit
    (s!"missing {count} required positional argument{plural count}: " ++
      commaSeparated (names.map fun name => "'" ++ name ++ "'"))

/-- The exceptions with which a call is refused, and when: an earlier reason counts before a later
one. -/
inductive Refuses : Error → Prop
  /-- There are too many positional arguments. -/
  | surplus (hmany : unit.argCount < args.length) (hvarargs : unit.varargs = false) :
      Refuses (tooMany unit args.length)
  /-- A keyword argument, the first one, has no place. -/
  | keyword (before : Namespace) (name : String) (v : Value) (after : Namespace)
      (hpositional : args.length ≤ unit.argCount ∨ unit.varargs = true)
      (hkeywords : keywords = before ++ (name, v) :: after)
      (hbefore : ∀ entry ∈ before, Accepts unit args entry.1) (hname : ¬ Accepts unit args name) :
      Refuses (misplaced unit name)
  /-- Parameters stay empty. -/
  | missing (hpositional : args.length ≤ unit.argCount ∨ unit.varargs = true)
      (hkeywords : ∀ entry ∈ keywords, Accepts unit args entry.1)
      (hunfilled : unfilled unit defaults args keywords ≠ []) :
      Refuses (incomplete unit (unfilled unit defaults args keywords))

end Specification

/-! ## Stages -/

section Stages

variable {unit : CodeUnit} {defaults args : List Value} {keywords : Namespace}

/-- The parameters after the positional arguments and some keyword arguments. -/
def filled (unit : CodeUnit) (args : List Value) (keywords : Namespace) : Matching where
  slots := (List.range unit.argCount).map (given? unit args keywords)
  extra := unmatched unit keywords

theorem getElem?_slots_filled {i : Nat} (hi : i < unit.argCount) :
    (filled unit args keywords).slots[i]? = some (given? unit args keywords i) := by
  simp [filled, hi]

theorem length_slots_filled : (filled unit args keywords).slots.length = unit.argCount := by
  simp [filled]

theorem given?_nil (unit : CodeUnit) (args : List Value) (i : Nat) :
    given? unit args [] i = args[i]? := by
  cases h : unit.argNames[i]? <;> simp [given?, h, Names.find?, Entries.get?]

theorem fillPositional_eq (unit : CodeUnit) (args : List Value) :
    fillPositional unit.argCount args = filled unit args [] := by
  simp only [fillPositional, filled, unmatched, List.filter_nil, Matching.mk.injEq, and_true]
  refine List.ext_getElem? fun i => ?_
  by_cases hi : i < unit.argCount
  · rw [List.getElem?_map, List.getElem?_range hi, Option.map_some, given?_nil,
      List.getElem?_append]
    simp only [List.length_map, List.length_take, List.getElem?_map, List.getElem?_take, hi,
      if_true, List.getElem?_replicate]
    by_cases hargs : i < args.length
    · rw [if_pos (by omega), List.getElem?_eq_getElem hargs, Option.map_some]
    · rw [if_neg (by omega), if_pos (by omega), List.getElem?_eq_none (Nat.not_lt.1 hargs)]
  · rw [List.getElem?_eq_none (by simp; omega), List.getElem?_eq_none (by simp; omega)]

theorem given?_concat (i : Nat) (name : String) (v : Value) :
    given? unit args (keywords ++ [(name, v)]) i =
      (given? unit args keywords i).or
        (if unit.argNames[i]? = some name then some v else none) := by
  unfold given?
  rw [Option.or_assoc]
  congr 1
  cases unit.argNames[i]? with
  | none => rfl
  | some name' => simp [Names.find?_concat, eq_comm]

theorem length_argNames_eq (unit : CodeUnit) :
    unit.argNames.length = min unit.argCount unit.localNames.size := by
  simp [UnitOf.argNames]

theorem length_argNames (hargs : unit.argCount ≤ unit.localNames.size) :
    unit.argNames.length = unit.argCount := by
  rw [length_argNames_eq, Nat.min_eq_left hargs]

variable {name : String} {v : Value}

/-- A name fills the slot that it has if the slot is empty. -/
theorem set_slots_filled {index : Nat} (hnames : unit.argNames.Nodup)
    (hindex : unit.argNames[index]? = some name) (hcount : index < unit.argCount)
    (hempty : given? unit args keywords index = none) :
    (filled unit args keywords).slots.set index (some v) =
      (filled unit args (keywords ++ [(name, v)])).slots := by
  obtain ⟨hlt, -⟩ := List.getElem?_eq_some_iff.1 hindex
  simp only [filled]
  refine List.ext_getElem? fun i => ?_
  by_cases hi : i < unit.argCount
  · rw [List.getElem?_set, List.getElem?_map, List.getElem?_map, List.getElem?_range hi,
      Option.map_some, Option.map_some, given?_concat]
    by_cases heq : index = i
    · subst heq
      simp [hempty, hindex, hcount]
    · have hother : unit.argNames[i]? ≠ some name := fun hi' =>
        heq ((List.getElem?_inj hlt hnames).1 (hindex.trans hi'.symm))
      simp [heq, hother]
  · rw [List.getElem?_eq_none (by simp; omega), List.getElem?_eq_none (by simp; omega)]

/-- A keyword argument that has a place is put there. -/
theorem fillKeyword_of_accepts (hargs : unit.argCount ≤ unit.localNames.size)
    (hnames : unit.argNames.Nodup) (hnew : name ∉ keywords.map Prod.fst)
    (haccepts : Accepts unit args name) :
    fillKeyword unit (filled unit args keywords) name v =
      .ok (filled unit args (keywords ++ [(name, v)])) := by
  unfold fillKeyword
  cases hfind : unit.argNames.findIdx? (· == name) with
  | some index =>
    obtain ⟨hlt, hname, -⟩ := List.findIdx?_eq_some_iff_getElem.1 hfind
    have hindex : unit.argNames[index]? = some name := by
      rw [List.getElem?_eq_getElem hlt, beq_iff_eq.1 hname]
    have hmem : name ∈ unit.argNames := List.mem_of_getElem? hindex
    have hcount : index < unit.argCount := length_argNames hargs ▸ hlt
    have hfree : args.length ≤ index := by
      rcases haccepts with ⟨i, hi, hfree⟩ | ⟨-, hnot⟩
      · rwa [← (List.getElem?_inj (List.getElem?_eq_some_iff.1 hi).1 hnames).1
          (hi.trans hindex.symm)]
      · exact absurd hmem hnot
    have hempty : given? unit args keywords index = none := by
      simp [given?, hindex, Names.find?_eq_none hnew, hfree]
    dsimp only
    rw [getElem?_slots_filled hcount, hempty]
    simp only [Except.ok.injEq]
    rw [set_slots_filled hnames hindex hcount hempty, filled, filled, Matching.mk.injEq]
    exact ⟨rfl, by simp [unmatched, hmem]⟩
  | none =>
    have hnot : name ∉ unit.argNames := by
      intro hmem
      simpa using List.findIdx?_eq_none_iff.1 hfind name hmem
    have hvarkeywords : unit.varkeywords = true := by
      rcases haccepts with ⟨i, hi, -⟩ | ⟨hvarkeywords, -⟩
      · exact absurd (List.mem_of_getElem? hi) hnot
      · exact hvarkeywords
    have hextra : name ∉ (unmatched unit keywords).map Prod.fst := by
      intro hmem
      obtain ⟨entry, hentry, rfl⟩ := List.mem_map.1 hmem
      exact hnew (List.mem_map_of_mem (List.mem_filter.1 hentry).1)
    have hgiven : given? unit args (keywords ++ [(name, v)]) = given? unit args keywords := by
      funext i
      rw [given?_concat, if_neg fun hi => hnot (List.mem_of_getElem? hi), Option.or_none]
    dsimp only
    rw [if_pos hvarkeywords]
    simp only [filled, hgiven, Names.set_eq_concat hextra]
    simp [unmatched, hnot]

/-- One that has no place is refused. -/
theorem fillKeyword_of_not_accepts (hargs : unit.argCount ≤ unit.localNames.size)
    (hrefuses : ¬ Accepts unit args name) :
    fillKeyword unit (filled unit args keywords) name v =
      .error (misplaced unit name) := by
  rw [Accepts, not_or] at hrefuses
  unfold fillKeyword misplaced
  cases hfind : unit.argNames.findIdx? (· == name) with
  | some index =>
    obtain ⟨hlt, hname, -⟩ := List.findIdx?_eq_some_iff_getElem.1 hfind
    have hindex : unit.argNames[index]? = some name := by
      rw [List.getElem?_eq_getElem hlt, beq_iff_eq.1 hname]
    have hcount : index < unit.argCount := length_argNames hargs ▸ hlt
    have htaken : index < args.length :=
      Nat.lt_of_not_le fun hfree => hrefuses.1 ⟨index, hindex, hfree⟩
    have hgiven : given? unit args keywords index = some args[index] := by
      simp [given?, htaken]
    dsimp only
    rw [getElem?_slots_filled hcount, hgiven, if_pos (List.mem_of_getElem? hindex)]
  | none =>
    have hnot : name ∉ unit.argNames := by
      intro hmem
      simpa using List.findIdx?_eq_none_iff.1 hfind name hmem
    have hvarkeywords : ¬ unit.varkeywords = true := fun h => hrefuses.2 ⟨h, hnot⟩
    dsimp only
    rw [if_neg hvarkeywords, if_neg hnot]

/-- All keyword arguments are put in their places, or the first one that has none is refused. -/
theorem fillKeywords_cases (hargs : unit.argCount ≤ unit.localNames.size)
    (hnames : unit.argNames.Nodup) (rest : Namespace)
    (hdistinct : ((keywords ++ rest).map Prod.fst).Nodup) :
    ((∀ entry ∈ rest, Accepts unit args entry.1) ∧
      fillKeywords unit rest (filled unit args keywords) =
        .ok (filled unit args (keywords ++ rest))) ∨
    ∃ before name v after, rest = before ++ (name, v) :: after ∧
      (∀ entry ∈ before, Accepts unit args entry.1) ∧ ¬ Accepts unit args name ∧
      fillKeywords unit rest (filled unit args keywords) = .error (misplaced unit name) := by
  induction rest generalizing keywords with
  | nil => exact .inl ⟨nofun, by rw [List.append_nil]; rfl⟩
  | cons entry rest ih =>
    obtain ⟨name, v⟩ := entry
    by_cases haccepts : Accepts unit args name
    · have hnew : name ∉ keywords.map Prod.fst := by
        rw [List.map_append] at hdistinct
        intro hmem
        exact (List.nodup_append.1 hdistinct).2.2 name hmem name List.mem_cons_self rfl
      have hfill := fillKeyword_of_accepts (v := v) hargs hnames hnew haccepts
      have hrest : fillKeywords unit ((name, v) :: rest) (filled unit args keywords) =
          fillKeywords unit rest (filled unit args (keywords ++ [(name, v)])) := by
        rw [fillKeywords, hfill]
      rw [List.append_cons] at hdistinct ⊢
      rw [hrest]
      rcases ih hdistinct with ⟨hall, heq⟩ | ⟨before, name', v', after, rfl, hbefore, hname', heq⟩
      · exact .inl ⟨List.forall_mem_cons.2 ⟨haccepts, hall⟩, heq⟩
      · exact .inr ⟨(name, v) :: before, name', v', after, rfl,
          List.forall_mem_cons.2 ⟨haccepts, hbefore⟩, hname', heq⟩
    · refine .inr ⟨[], name, v, rest, rfl, nofun, haccepts, ?_⟩
      rw [fillKeywords, fillKeyword_of_not_accepts hargs haccepts]

/-- What a parameter holds once the defaults are in. -/
def defaulted (defaults : List Value) (first : Nat) (entry : Option Value × Nat) : Option Value :=
  entry.1.or (if first ≤ entry.2 then defaults[entry.2 - first]? else none)

/-- The parameters with the defaults in them. -/
def completed (defaults : List Value) (slots : List (Option Value)) : List (Option Value) :=
  slots.zipIdx.map (defaulted defaults (slots.length - defaults.length))

theorem fillDefault_eq_ok {first : Nat} {entry : Option Value × Nat}
    (hindex : first ≤ entry.2 → entry.2 - first < defaults.length) :
    fillDefault defaults first entry = .ok (defaulted defaults first entry) := by
  obtain ⟨_ | v, index⟩ := entry
  · by_cases hfirst : first ≤ index
    · have hget := List.getElem?_eq_getElem (hindex hfirst)
      simp only [fillDefault, defaulted, if_pos hfirst, hget, Option.none_or]
    · simp only [fillDefault, defaulted, if_neg hfirst, Option.none_or]
  · rfl

/-- No default is read past the last one, whatever the number of defaults and parameters. -/
theorem fillDefaults_eq_ok (defaults : List Value) (slots : List (Option Value)) :
    fillDefaults defaults slots = .ok (completed defaults slots) := by
  have hindex : ∀ entry ∈ slots.zipIdx, entry.2 < slots.length := fun entry hentry => by
    have := List.mem_zipIdx' hentry
    omega
  unfold fillDefaults completed
  generalize slots.zipIdx = entries at hindex
  induction entries with
  | nil => rfl
  | cons entry rest ih =>
    rw [List.forall_mem_cons] at hindex
    rw [List.mapM_cons, fillDefault_eq_ok (by omega), ih hindex.2]
    rfl

theorem completed_filled (hdefaults : defaults.length ≤ unit.argCount) :
    completed defaults (filled unit args keywords).slots =
      (List.range unit.argCount).map (value? unit defaults args keywords) := by
  simp only [completed, length_slots_filled]
  refine List.ext_getElem? fun i => ?_
  by_cases hi : i < unit.argCount
  · rw [List.getElem?_map, List.getElem?_zipIdx, getElem?_slots_filled hi, List.getElem?_map,
      List.getElem?_range hi]
    simp only [Option.map_some, Nat.zero_add, defaulted, value?, default?]
    congr 2
    by_cases hfirst : unit.argCount - defaults.length ≤ i
    · have hend : unit.argCount - 1 - i < defaults.length := by omega
      rw [if_pos hfirst, List.getElem?_reverse hend]
      congr 1
      omega
    · rw [if_neg hfirst, List.getElem?_eq_none (by simp; omega)]
  · rw [List.getElem?_eq_none (by simp [length_slots_filled]; omega),
      List.getElem?_eq_none (by simp; omega)]

/-! ## Empty parameters -/

theorem empty_map_range (n : Nat) (f : Nat → Option Value) :
    empty ((List.range n).map f) = (List.range n).filter fun i => (f i).isNone := by
  have hzip : ((List.range n).map f).zipIdx = (List.range n).map fun i => (f i, i) := by
    refine List.ext_getElem? fun i => ?_
    by_cases hi : i < n
    · simp [hi]
    · rw [List.getElem?_eq_none (by simp; omega), List.getElem?_eq_none (by simp; omega)]
  simp [empty, hzip, List.filter_map, Function.comp_def]

theorem parameterNames_eq {indexes : List Nat} (h : ∀ i ∈ indexes, i < unit.argNames.length) :
    parameterNames unit indexes = .ok (indexes.filterMap (unit.argNames[·]?)) := by
  induction indexes with
  | nil => rfl
  | cons i rest ih =>
    rw [List.forall_mem_cons] at h
    have hi := List.getElem?_eq_getElem h.1
    rw [parameterNames, hi, ih h.2, List.filterMap_cons_some hi]
    rfl

theorem missing_eq (hargs : unit.argCount ≤ unit.localNames.size) :
    missing unit ((List.range unit.argCount).filter fun i =>
        (value? unit defaults args keywords i).isNone) =
      incomplete unit (unfilled unit defaults args keywords) := by
  have hnames : parameterNames unit ((List.range unit.argCount).filter fun i =>
      (value? unit defaults args keywords i).isNone) =
        .ok (unfilled unit defaults args keywords) := by
    rw [parameterNames_eq, List.filterMap_filter, unfilled]
    intro i hi
    rw [length_argNames hargs]
    exact List.mem_range.1 (List.mem_filter.1 hi).1
  rw [missing, hnames, incomplete]

/-- No parameter stays empty if there are no names to complain about. -/
theorem complete_iff (hargs : unit.argCount ≤ unit.localNames.size) :
    (∀ i < unit.argCount, (value? unit defaults args keywords i).isSome) ↔
      unfilled unit defaults args keywords = [] := by
  simp only [unfilled, List.filterMap_eq_nil_iff, List.mem_range]
  refine forall₂_congr fun i hi => ?_
  rw [← length_argNames hargs] at hi
  cases value? unit defaults args keywords i <;> simp [hi]

/-! ## Matching -/

/-- The values of the slots for arguments that are collected. -/
def collected (h : Heap) (unit : CodeUnit) (surplus : List Value) (extra : Namespace) :
    List Value × Heap :=
  let (positional, h) :=
    if unit.varargs then
      let (v, h) := h.newTuple surplus
      ([v], h)
    else ([], h)
  let (named, h) :=
    if unit.varkeywords then
      let (r, h) := h.newDict (extra.map fun (name, v) => (.str name, v))
      ([.dict r], h)
    else ([], h)
  (positional ++ named, h)

/-- No positional argument is left over, or all that are left over are collected. -/
theorem surplus_eq_false (h : args.length ≤ unit.argCount ∨ unit.varargs = true) :
    (!(args.drop unit.argCount).isEmpty && !unit.varargs) = false := by
  rcases h with hle | hvarargs
  · simp [List.drop_eq_nil_of_le hle]
  · simp [hvarargs]

/-- What comes after the keyword arguments. -/
theorem matchArguments_of_filled {h : Heap} {m : Matching}
    (hpositional : args.length ≤ unit.argCount ∨ unit.varargs = true)
    (hfill : fillKeywords unit keywords (fillPositional unit.argCount args) = .ok m) :
    matchArguments h unit defaults args keywords =
      let slots := completed defaults m.slots
      let (values, h) := collected h unit (args.drop unit.argCount) m.extra
      if empty slots = [] then .ok (slots.filterMap id ++ values, h)
      else .error (missing unit (empty slots)) := by
  simp only [matchArguments, surplus_eq_false hpositional, hfill, fillDefaults_eq_ok, bind,
    Except.bind, collected, ← List.append_assoc]
  cases empty (completed defaults m.slots) <;> rfl

theorem matchArguments_of_surplus {h : Heap} (hmany : unit.argCount < args.length)
    (hvarargs : unit.varargs = false) :
    matchArguments h unit defaults args keywords = .error (tooMany unit args.length) := by
  have hne : args.drop unit.argCount ≠ [] := by simpa using hmany
  have hfail : (!(args.drop unit.argCount).isEmpty && !unit.varargs) = true := by
    simp [hvarargs, List.isEmpty_eq_false_iff.2 hne]
  simp only [matchArguments, hfail]
  rfl

theorem matchArguments_of_misplaced {h : Heap} {e : Error}
    (hpositional : args.length ≤ unit.argCount ∨ unit.varargs = true)
    (hfill : fillKeywords unit keywords (fillPositional unit.argCount args) = .error e) :
    matchArguments h unit defaults args keywords = .error e := by
  simp only [matchArguments, surplus_eq_false hpositional, hfill]
  rfl

/-- Arguments that fit are matched; others are refused. -/
theorem matchArguments_cases (hargs : unit.argCount ≤ unit.localNames.size)
    (hnames : unit.argNames.Nodup) (hdefaults : defaults.length ≤ unit.argCount)
    (hkeywords : (keywords.map Prod.fst).Nodup) (h : Heap) :
    (Fits unit defaults args keywords ∧
      matchArguments h unit defaults args keywords =
        let (values, h) := collected h unit (args.drop unit.argCount) (unmatched unit keywords)
        .ok ((List.range unit.argCount).filterMap (value? unit defaults args keywords) ++ values,
          h)) ∨
    ∃ e, Refuses unit defaults args keywords e ∧
      matchArguments h unit defaults args keywords = .error e := by
  by_cases hpositional : args.length ≤ unit.argCount ∨ unit.varargs = true
  · rcases @fillKeywords_cases unit args [] hargs hnames keywords hkeywords with
      ⟨haccepts, hfill⟩ | ⟨before, name, v, after, heq, hbefore, hname, hfill⟩
    · rw [← fillPositional_eq, List.nil_append] at hfill
      rw [matchArguments_of_filled hpositional hfill, completed_filled hdefaults]
      dsimp only
      rw [empty_map_range, missing_eq hargs, List.filterMap_map, Function.id_comp]
      by_cases hcomplete : ∀ i < unit.argCount, (value? unit defaults args keywords i).isSome
      · refine .inl ⟨⟨hpositional, haccepts, hcomplete⟩, if_pos ?_⟩
        simpa [← Option.isSome_iff_ne_none] using hcomplete
      · refine .inr ⟨_, .missing hpositional haccepts ?_, if_neg ?_⟩
        · rwa [Ne, ← complete_iff hargs]
        · simpa [← Option.isSome_iff_ne_none] using hcomplete
    · rw [← fillPositional_eq] at hfill
      exact .inr ⟨_, .keyword before name v after hpositional heq hbefore hname,
        matchArguments_of_misplaced hpositional hfill⟩
  · rw [not_or, Nat.not_le, Bool.not_eq_true] at hpositional
    exact .inr ⟨_, .surplus hpositional.1 hpositional.2,
      matchArguments_of_surplus hpositional.1 hpositional.2⟩

theorem not_fits_of_refuses {e : Error} (hargs : unit.argCount ≤ unit.localNames.size)
    (h : Refuses unit defaults args keywords e) : ¬ Fits unit defaults args keywords := by
  intro hfits
  cases h with
  | surplus hmany hvarargs =>
    have hpositional := hfits.positional
    rw [hvarargs] at hpositional
    simp only [Bool.false_eq_true, or_false] at hpositional
    omega
  | keyword before name v after hpositional hkeywords hbefore hname =>
    exact hname (hfits.named (name, v) (hkeywords ▸ List.mem_append_right _ List.mem_cons_self))
  | missing hpositional hkeywords hunfilled => exact hunfilled ((complete_iff hargs).1 hfits.complete)

/-- Whatever refuses a call is an exception for arguments of the wrong number or name. -/
theorem exists_refuse {e : Error} (h : Refuses unit defaults args keywords e) :
    ∃ complaint, e = .raise .typeError complaint := by
  cases h with
  | surplus => exact ⟨_, rfl⟩
  | keyword => exact ⟨_, rfl⟩
  | missing => exact ⟨_, rfl⟩

theorem map_some_filterMap {α β : Type} {f : α → Option β} {xs : List α}
    (h : ∀ x ∈ xs, (f x).isSome) : (xs.filterMap f).map some = xs.map f := by
  induction xs with
  | nil => rfl
  | cons x xs ih =>
    rw [List.forall_mem_cons] at h
    obtain ⟨y, hy⟩ := Option.isSome_iff_exists.1 h.1
    rw [List.filterMap_cons_some hy, List.map_cons, List.map_cons, ih h.2, hy]

/-- What is matched fills the slots. -/
theorem Fits.fills (hfits : Fits unit defaults args keywords) (h : Heap) :
    let (values, h') := collected h unit (args.drop unit.argCount) (unmatched unit keywords)
    Fills unit defaults args keywords h
      ((List.range unit.argCount).filterMap (value? unit defaults args keywords) ++ values) h' := by
  have hsome :
      ((List.range unit.argCount).filterMap (value? unit defaults args keywords)).map some =
        (List.range unit.argCount).map (value? unit defaults args keywords) :=
    map_some_filterMap fun i hi => hfits.complete i (List.mem_range.1 hi)
  generalize (List.range unit.argCount).filterMap (value? unit defaults args keywords) = declared
    at hsome
  have hlength : declared.length = unit.argCount := by
    simpa using congrArg List.length hsome
  have hdeclared (values : List Value) (i : Nat) (hi : i < unit.argCount) :
      (declared ++ values)[i]? = value? unit defaults args keywords i := by
    have hslot : (declared.map some)[i]? = some (value? unit defaults args keywords i) := by
      rw [hsome, List.getElem?_map, List.getElem?_range hi, Option.map_some]
    rw [List.getElem?_map] at hslot
    rw [List.getElem?_append_left (hlength ▸ hi)]
    obtain ⟨v, hv, hvalue⟩ := Option.map_eq_some_iff.1 hslot
    rw [hv, hvalue]
  have hslots (varargs varkeywords : Bool) (h₁ : unit.varargs = varargs)
      (h₂ : unit.varkeywords = varkeywords) :
      unit.slotCount = declared.length + varargs.toNat + varkeywords.toNat := by
    rw [UnitOf.slotCount, hlength, h₁, h₂]
  unfold collected
  cases hvarargs : unit.varargs <;> cases hvarkeywords : unit.varkeywords
  · exact ⟨by simp [hslots _ _ hvarargs hvarkeywords], hdeclared _, by simp [hvarargs],
      by simp [hvarkeywords]⟩
  · refine ⟨by simp [hslots _ _ hvarargs hvarkeywords], hdeclared _, by simp [hvarargs],
      fun _ => ⟨⟨h.dicts.size⟩, ?_, Nat.le_refl _, h.dict_newDict _⟩⟩
    simp [← hlength, hvarargs]
  · refine ⟨by simp [hslots _ _ hvarargs hvarkeywords], hdeclared _, fun _ => ⟨h.nextToken, ?_⟩,
      by simp [hvarkeywords]⟩
    simp [← hlength]
  · refine ⟨by simp [hslots _ _ hvarargs hvarkeywords], hdeclared _, fun _ => ⟨h.nextToken, ?_⟩,
      fun _ => ⟨⟨h.dicts.size⟩, ?_, Nat.le_refl _, Heap.dict_newDict _ _⟩⟩
    · simp [← hlength]
    · simp [← hlength, hvarargs]

end Stages

/-! ## The specification of matching -/

/-- Matching the arguments of a call succeeds exactly if the call fits. Then the values fill the
slots: each parameter takes the argument at its position, else that of its name, else its default,
and what is left over is collected. Otherwise the call is refused by a `TypeError`, for the first
reason that there is: surplus positional arguments, a keyword argument without a place, parameters
that stay empty. -/
theorem arguments_match {unit : CodeUnit} {defaults args : List Value} {keywords : Namespace}
    (hargs : unit.argCount ≤ unit.localNames.size) (hnames : unit.argNames.Nodup)
    (hdefaults : defaults.length ≤ unit.argCount) (hkeywords : (keywords.map Prod.fst).Nodup)
    (h : Heap) :
    ((∃ result, matchArguments h unit defaults args keywords = .ok result) ↔
      Fits unit defaults args keywords) ∧
    (∀ values h', matchArguments h unit defaults args keywords = .ok (values, h') →
      Fills unit defaults args keywords h values h') ∧
    ∀ e, matchArguments h unit defaults args keywords = .error e →
      Refuses unit defaults args keywords e ∧ ∃ complaint, e = .raise .typeError complaint := by
  rcases matchArguments_cases hargs hnames hdefaults hkeywords h with
    ⟨hfits, heq⟩ | ⟨e, hrefuses, heq⟩
  · rw [heq]
    refine ⟨⟨fun _ => hfits, fun _ => ⟨_, rfl⟩⟩, ?_, nofun⟩
    rintro values h' ⟨⟩
    exact hfits.fills h
  · rw [heq]
    refine ⟨⟨nofun, fun hfits => absurd hfits (not_fits_of_refuses hargs hrefuses)⟩, nofun, ?_⟩
    rintro _ ⟨⟩
    exact ⟨hrefuses, exists_refuse hrefuses⟩

end Matching

namespace MixedCall

/-- A function of three parameters that collects whatever else there is. -/
def unit : CodeUnit :=
  { name := "f", argCount := 3, localNames := #["a", "b", "c", "rest", "others"]
    varargs := true, varkeywords := true }

/-- Two arguments by name, of which one names no parameter. -/
def keywords : Namespace :=
  [("x", .int 9), ("b", .int 2)]

end MixedCall

open MixedCall in
/-- A call that fills one parameter by position, one by name and one by default. -/
theorem MixedCall.all_filled : ∃ values h',
    matchArguments {} unit [.int 20, .int 30] [.int 1] keywords = .ok (values, h') ∧
      Matching.Fits unit [.int 20, .int 30] [.int 1] keywords ∧
      Matching.Fills unit [.int 20, .int 30] [.int 1] keywords {} values h' ∧
      values.take 3 = [.int 1, .int 2, .int 30] := by
  obtain ⟨hfits, hfills, -⟩ := @Matching.arguments_match unit [.int 20, .int 30] [.int 1] keywords
    (by decide) (by decide) (by decide) (by decide) {}
  exact ⟨_, _, rfl, hfits.1 ⟨_, rfl⟩, hfills _ _ rfl, rfl⟩

end TaskletMachine
