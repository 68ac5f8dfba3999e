import TaskletMachine.Proofs.Machine.Arguments
import TaskletMachine.Proofs.Machine.Inversion

/-!
# Entering functions

Nothing keeps a unit from declaring fewer locals than it has parameters. A call of a function is
safe nevertheless: the arguments are matched within the tables of the unit, and a frame is entered
only if it has a slot for each value. There is one exception. The names of all parameters that stay
empty are looked up for the complaint about them, before the slots are counted, and a parameter past
the last local has no name.

## Main definitions

* `Matching.Overruns`: the calls that leave a parameter without a name empty.
* `Matching.Taken`: which parameters are empty after some keyword arguments.
* `Vm.EntersSafely`: a frame with all parameters bound, or an error that says what is wrong.
* `Vm.function_entered`: what a call of a function comes to.
-/
namespace TaskletMachine

namespace Matching

/-- The parameter of a name, the first one if several have it. -/
def parameter? (unit : CodeUnit) (name : String) : Option Nat :=
  unit.argNames.findIdx? (· == name)

/-- A keyword argument has a place: no positional argument fills the parameter of its name, or there
is no such parameter and it is collected. -/
def Places (unit : CodeUnit) (args : List Value) (name : String) : Prop :=
  match parameter? unit name with
  | some i => args.length ≤ i
  | none => unit.varkeywords = true

/-- All arguments have a place, and they and the defaults leave a parameter empty that has no
name. -/
structure Overruns (unit : CodeUnit) (defaults args : List Value) (keywords : Namespace) :
    Prop where
  positional : args.length ≤ unit.argCount ∨ unit.varargs = true
  named : ∀ entry ∈ keywords, Places unit args entry.1
  unnamed : max args.length unit.localNames.size + defaults.length < unit.argCount

/-- The parameters after the positional arguments and the keyword arguments of some names: one is
empty if none of these has come to it. -/
structure Taken (unit : CodeUnit) (args : List Value) (names : List String) (m : Matching) :
    Prop where
  length : m.slots.length = unit.argCount
  empty_iff : ∀ i < unit.argCount, m.slots[i]? = some none ↔
    args.length ≤ i ∧ ∀ name ∈ names, parameter? unit name ≠ some i

variable {unit : CodeUnit} {defaults args : List Value} {keywords : Namespace}
  {names : List String} {m : Matching}

/-! ## Keyword arguments -/

/-- A parameter that is found by its name has one. -/
theorem parameter?_lt {name : String} {i : Nat} (h : parameter? unit name = some i) :
    i < unit.argNames.length :=
  (List.findIdx?_eq_some_iff_getElem.1 h).1

theorem parameter?_inj {name name' : String} {i : Nat} (h : parameter? unit name = some i)
    (h' : parameter? unit name' = some i) : name = name' := by
  obtain ⟨_, hname, -⟩ := List.findIdx?_eq_some_iff_getElem.1 h
  obtain ⟨_, hname', -⟩ := List.findIdx?_eq_some_iff_getElem.1 h'
  exact (beq_iff_eq.1 hname).symm.trans (beq_iff_eq.1 hname')

theorem taken_fillPositional (unit : CodeUnit) (args : List Value) :
    Taken unit args [] (fillPositional unit.argCount args) := by
  rw [fillPositional_eq]
  refine ⟨length_slots_filled, fun i hi => ?_⟩
  simp [getElem?_slots_filled hi, given?_nil]

/-- A keyword argument comes to the parameter of its name if that is empty, or it is collected; all
else is refused. -/
theorem Taken.fillKeyword (hm : Taken unit args names m) (name : String) (v : Value) :
    (∃ m', fillKeyword unit m name v = .ok m' ∧ Taken unit args (names ++ [name]) m' ∧
      Places unit args name) ∨
    ∃ complaint, fillKeyword unit m name v = .error (refuse unit complaint) ∧
      (Places unit args name → name ∈ names) := by
  unfold Places
  cases hparameter : parameter? unit name with
  | none =>
    have hfind : unit.argNames.findIdx? (· == name) = none := hparameter
    simp only [Matching.fillKeyword, hfind]
    cases unit.varkeywords with
    | false => exact .inr ⟨_, rfl, nofun⟩
    | true =>
      refine .inl ⟨_, rfl, ⟨hm.length, fun i hi => ?_⟩, rfl⟩
      simp [hm.empty_iff i hi, hparameter, or_imp, forall_and]
  | some index =>
    have hfind : unit.argNames.findIdx? (· == name) = some index := hparameter
    have hcount : index < unit.argCount := by
      have hlt := parameter?_lt hparameter
      rw [length_argNames_eq] at hlt
      omega
    have hempty := hm.empty_iff index hcount
    simp only [Matching.fillKeyword, hfind]
    cases hslot : m.slots[index]? with
    | none =>
      rw [List.getElem?_eq_none_iff, hm.length] at hslot
      omega
    | some slot =>
      rw [hslot] at hempty
      cases slot with
      | none =>
        have hplace : args.length ≤ index := (hempty.1 rfl).1
        refine .inl ⟨_, rfl, ⟨by simp [hm.length], fun i hi => ?_⟩, hplace⟩
        by_cases heq : index = i
        · subst heq
          simp [hm.length, hcount, hparameter]
        · simp [heq, hm.empty_iff i hi, hparameter, or_imp, forall_and]
      | some w =>
        refine .inr ⟨_, rfl, fun hplace => ?_⟩
        -- What fills the parameter is no positional argument, so it is one of the same name.
        have htaken : ¬ ∀ name' ∈ names, parameter? unit name' ≠ some index := fun h => by
          cases hempty.2 ⟨hplace, h⟩
        push Not at htaken
        obtain ⟨name', hmem, hname'⟩ := htaken
        rwa [parameter?_inj hparameter hname']

/-- The keyword arguments are filled in, or the first one without a place is refused. -/
theorem Taken.fillKeywords (hm : Taken unit args names m) (keywords : Namespace) :
    (∃ m', fillKeywords unit keywords m = .ok m' ∧
      Taken unit args (names ++ keywords.map Prod.fst) m' ∧
      ∀ entry ∈ keywords, Places unit args entry.1) ∨
    ∃ complaint, fillKeywords unit keywords m = .error (refuse unit complaint) ∧
      ((names ++ keywords.map Prod.fst).Nodup →
        ¬ ∀ entry ∈ keywords, Places unit args entry.1) := by
  induction keywords generalizing names m with
  | nil => exact .inl ⟨m, rfl, by simpa using hm, nofun⟩
  | cons entry rest ih =>
    obtain ⟨name, v⟩ := entry
    have hnames : names ++ ((name, v) :: rest).map Prod.fst =
        (names ++ [name]) ++ rest.map Prod.fst := by simp
    rw [hnames]
    rcases hm.fillKeyword name v with ⟨m₁, hfill, hm₁, hplace⟩ | ⟨complaint, hfill, hname⟩
    · simp only [Matching.fillKeywords, hfill]
      rcases ih hm₁ with ⟨m', hrest, hm', hplaces⟩ | ⟨complaint, hrest, hplaces⟩
      · exact .inl ⟨m', hrest, hm', List.forall_mem_cons.2 ⟨hplace, hplaces⟩⟩
      · exact .inr ⟨complaint, hrest, fun hnodup h =>
          hplaces hnodup (List.forall_mem_cons.1 h).2⟩
    · simp only [Matching.fillKeywords, hfill]
      refine .inr ⟨complaint, rfl, fun hnodup h => ?_⟩
      have hmem := hname (List.forall_mem_cons.1 h).1
      have hnew := (List.nodup_append.1 (List.nodup_append.1 hnodup).1).2.2
      exact hnew name hmem name List.mem_cons_self rfl

/-! ## Empty parameters -/

theorem mem_empty_iff {slots : List (Option Value)} {i : Nat} :
    i ∈ empty slots ↔ slots[i]? = some none := by
  simp [empty, List.mem_zipIdx_iff_getElem?]

theorem length_completed (defaults : List Value) (slots : List (Option Value)) :
    (completed defaults slots).length = slots.length := by
  simp [completed]

/-- The parameters that have no default are the first ones. -/
theorem getElem?_completed_eq_none {slots : List (Option Value)} {i : Nat} :
    (completed defaults slots)[i]? = some none ↔
      slots[i]? = some none ∧ i + defaults.length < slots.length := by
  rw [completed, List.getElem?_map, List.getElem?_zipIdx, Option.map_map]
  by_cases hi : i < slots.length
  · rw [List.getElem?_eq_getElem hi]
    by_cases hfirst : slots.length - defaults.length ≤ i
    · have hdefault : i - (slots.length - defaults.length) < defaults.length := by omega
      simp [defaulted, hfirst, hdefault]
      omega
    · simp [defaulted, hfirst]
      omega
  · rw [List.getElem?_eq_none (Nat.not_lt.1 hi)]
    simp

/-- What stays empty: a parameter that no argument has come to and that has no default. -/
theorem Taken.mem_empty_iff (hm : Taken unit args names m) {i : Nat} :
    i ∈ empty (completed defaults m.slots) ↔ args.length ≤ i ∧
      (∀ name ∈ names, parameter? unit name ≠ some i) ∧ i + defaults.length < unit.argCount := by
  rw [Matching.mem_empty_iff, getElem?_completed_eq_none, hm.length, ← and_assoc]
  refine and_congr_left fun hi => hm.empty_iff i ?_
  omega

/-- A parameter without a name stays empty exactly if the arguments and defaults leave room for it
past the last local. -/
theorem Taken.exists_unnamed_iff (hm : Taken unit args names m) (defaults : List Value) :
    (∃ i ∈ empty (completed defaults m.slots), unit.argNames.length ≤ i) ↔
      max args.length unit.localNames.size + defaults.length < unit.argCount := by
  constructor
  · rintro ⟨i, hmem, hi⟩
    obtain ⟨hargs, -, hcount⟩ := hm.mem_empty_iff.1 hmem
    rw [length_argNames_eq] at hi
    omega
  · intro hcount
    refine ⟨max args.length unit.localNames.size, hm.mem_empty_iff.2 ⟨by omega, ?_, hcount⟩, ?_⟩
    · intro name _ hname
      have hnamed := parameter?_lt hname
      rw [length_argNames_eq] at hnamed
      omega
    · rw [length_argNames_eq]
      omega

/-- A complaint names all parameters that are empty, or breaks down at one that has no name. -/
theorem missing_cases (unit : CodeUnit) (indexes : List Nat) :
    (∃ complaint, missing unit indexes = refuse unit complaint ∧
      ∀ i ∈ indexes, i < unit.argNames.length) ∨
    ∃ i ∈ indexes, unit.argNames.length ≤ i ∧
      missing unit indexes = { cause := .outOfRange i } := by
  by_cases hnamed : ∀ i ∈ indexes, i < unit.argNames.length
  · have heq : missing unit indexes = incomplete unit (indexes.filterMap (unit.argNames[·]?)) := by
      rw [missing, parameterNames_eq hnamed, incomplete]
    exact .inl ⟨_, heq, hnamed⟩
  · refine .inr ?_
    have hbreak : ∃ i ∈ indexes, unit.argNames.length ≤ i ∧
        parameterNames unit indexes = .error { cause := .outOfRange i } := by
      induction indexes with
      | nil => exact absurd (List.forall_mem_nil _) hnamed
      | cons index rest ih =>
        unfold parameterNames
        by_cases hindex : index < unit.argNames.length
        · rw [List.forall_mem_cons] at hnamed
          obtain ⟨i, hmem, hi, heq⟩ := ih fun h => hnamed ⟨hindex, h⟩
          refine ⟨i, List.mem_cons_of_mem _ hmem, hi, ?_⟩
          rw [List.getElem?_eq_getElem hindex, heq]
          rfl
        · rw [List.getElem?_eq_none (Nat.not_lt.1 hindex)]
          exact ⟨index, List.mem_cons_self, Nat.not_lt.1 hindex, rfl⟩
    obtain ⟨i, hmem, hi, heq⟩ := hbreak
    exact ⟨i, hmem, hi, by rw [missing, heq]⟩

/-! ## Matching -/

theorem length_collected (h : Heap) (unit : CodeUnit) (surplus : List Value) (extra : Namespace) :
    (collected h unit surplus extra).1.length = unit.varargs.toNat + unit.varkeywords.toNat := by
  unfold collected
  cases unit.varargs <;> cases unit.varkeywords <;> rfl

theorem length_filterMap_id {slots : List (Option Value)} (h : empty slots = []) :
    (slots.filterMap id).length = slots.length := by
  rw [List.length_filterMap_eq_countP, List.countP_eq_length]
  intro slot hslot
  obtain ⟨i, hi⟩ := List.mem_iff_getElem?.1 hslot
  cases slot with
  | none =>
    have hmem := mem_empty_iff.2 hi
    rw [h] at hmem
    cases hmem
  | some v => rfl

/-- Matching gives a value for each slot, or refuses the call, or breaks down at a parameter without
a name; the latter if the call overruns the names. -/
theorem matchArguments_ends (h : Heap) (unit : CodeUnit) (defaults args : List Value)
    (keywords : Namespace) :
    (∃ values h', matchArguments h unit defaults args keywords = .ok (values, h') ∧
      values.length = unit.slotCount ∧ ¬ Overruns unit defaults args keywords) ∨
    (∃ complaint, matchArguments h unit defaults args keywords = .error (refuse unit complaint) ∧
      ((keywords.map Prod.fst).Nodup → ¬ Overruns unit defaults args keywords)) ∨
    ∃ i, unit.argNames.length ≤ i ∧
      matchArguments h unit defaults args keywords = .error { cause := .outOfRange i } ∧
      Overruns unit defaults args keywords := by
  by_cases hpositional : args.length ≤ unit.argCount ∨ unit.varargs = true
  · rcases (taken_fillPositional unit args).fillKeywords keywords with
      ⟨m, hfill, hm, hplaces⟩ | ⟨complaint, hfill, hplaces⟩
    · have hmatch : matchArguments h unit defaults args keywords = _ :=
        matchArguments_of_filled hpositional hfill
      have hunnamed := hm.exists_unnamed_iff defaults
      dsimp only at hmatch
      by_cases hnil : empty (completed defaults m.slots) = []
      · rw [if_pos hnil] at hmatch
        refine .inl ⟨_, _, hmatch, ?_, fun hover => ?_⟩
        · rw [List.length_append, length_filterMap_id hnil, length_completed, hm.length,
            length_collected, UnitOf.slotCount, Nat.add_assoc]
        · obtain ⟨i, hmem, -⟩ := hunnamed.2 hover.unnamed
          rw [hnil] at hmem
          cases hmem
      · rw [if_neg hnil] at hmatch
        rcases missing_cases unit (empty (completed defaults m.slots)) with
          ⟨complaint, heq, hnamed⟩ | ⟨i, hmem, hi, heq⟩
        · refine .inr (.inl ⟨complaint, by rw [hmatch, heq], fun _ hover => ?_⟩)
          obtain ⟨i, hmem, hi⟩ := hunnamed.2 hover.unnamed
          exact Nat.not_le.2 (hnamed i hmem) hi
        · exact .inr (.inr ⟨i, hi, by rw [hmatch, heq], hpositional, hplaces,
            hunnamed.1 ⟨i, hmem, hi⟩⟩)
    · refine .inr (.inl ⟨complaint, matchArguments_of_misplaced hpositional hfill, ?_⟩)
      exact fun hnodup hover => hplaces hnodup hover.named
  · have hmany := hpositional
    rw [not_or, Nat.not_le, Bool.not_eq_true] at hmany
    exact .inr (.inl ⟨_, matchArguments_of_surplus hmany.1 hmany.2,
      fun _ hover => hpositional hover.positional⟩)

end Matching

/-! ## Frames -/

open Exec

namespace Vm

/-- The failure for a unit that does not declare a local for each value. -/
def tooFewLocals (unit : CodeUnit) (count : Nat) : Error :=
  .fail (s!"'{unit.name}' binds {count} parameters but declares {unit.localNames.size} locals")

/-- A call of a function ends without a breakdown: in a frame in which all parameters are bound, or
in an exception for the arguments, or in the failure that there are not enough locals. -/
inductive EntersSafely (unit : CodeUnit) (c : PendingCall) (m : Machine) :
    EStateM.Result Error Machine Control → Prop
  | entered (f : Frame) (heap : Heap) (hunit : f.unit = unit) (hdelivery : f.delivery = c.delivery)
      (hsize : f.slots.size = unit.localNames.size)
      (hbound : ∀ i < unit.slotCount, ∃ v, f.slots[i]? = some (some v)) :
      EntersSafely unit c m (.ok .next
        { m with
          context := { m.context with frames := f :: m.context.frames }
          world := { m.world with heap } })
  | refused (complaint : String) : EntersSafely unit c m (.error (Matching.refuse unit complaint) m)
  | oversized (heap : Heap) (hsize : unit.localNames.size < unit.slotCount) :
      EntersSafely unit c m
        (.error (tooFewLocals unit unit.slotCount) { m with world := { m.world with heap } })

variable {vm : Vm} {c : PendingCall} {m : Machine} {r : FunctionRef}

/-- A frame is made if there is a slot for each value. -/
theorem frameOf_cases (unit : CodeUnit) (values : List Value) (delivery : Delivery) :
    (unit.localNames.size < values.length ∧
      frameOf unit values delivery = .error (tooFewLocals unit values.length)) ∨
    ∃ f, frameOf unit values delivery = .ok f ∧ f.unit = unit ∧ f.delivery = delivery ∧
      f.slots.size = unit.localNames.size ∧
      ∀ i < values.length, ∃ v, f.slots[i]? = some (some v) := by
  unfold frameOf
  by_cases hsize : unit.localNames.size < values.length
  · rw [if_pos hsize]
    exact .inl ⟨hsize, rfl⟩
  · rw [if_neg hsize]
    refine .inr ⟨_, rfl, rfl, rfl, by simp; omega, fun i hi => ⟨values[i], ?_⟩⟩
    simp [List.getElem?_append, hi]

/-- A call of a function, whatever its unit declares, is refused if the call stack is full. Else it
ends in a frame in which all parameters are bound, in a `TypeError`, or in the failure that there
are fewer locals than parameters. The only calls that break down are those that leave a parameter
without a name empty: the machine then looks up this name. -/
theorem function_entered (hcallee : c.callee = .function r) :
    let f := m.world.heap.function r
    (vm.maxCallDepth ≤ m.context.frames.length →
      vm.link c m = .error (.raise .recursionError "maximum recursion depth exceeded") m) ∧
    (m.context.frames.length < vm.maxCallDepth →
      (¬ Matching.Overruns f.unit f.defaults c.args c.keywords →
        EntersSafely f.unit c m (vm.link c m)) ∧
      ((c.keywords.map Prod.fst).Nodup → Matching.Overruns f.unit f.defaults c.args c.keywords →
        ∃ i, f.unit.argNames.length ≤ i ∧ vm.link c m = .error { cause := .outOfRange i } m)) := by
  dsimp only
  rw [link_of_function hcallee]
  refine ⟨fun hfull => bind_error (checkDepth_of_full hfull), fun hroom => ?_⟩
  rw [enterFunction_of_room hroom]
  dsimp only
  rcases Matching.matchArguments_ends m.world.heap (m.world.heap.function r).unit
      (m.world.heap.function r).defaults c.args c.keywords with
    ⟨values, heap, hmatch, hlength, hnot⟩ | ⟨complaint, hmatch, hnot⟩ | ⟨i, hi, hmatch, hover⟩
  · rw [hmatch]
    refine ⟨fun _ => ?_, fun _ hover => absurd hover hnot⟩
    rcases frameOf_cases (m.world.heap.function r).unit values c.delivery with
      ⟨hsize, hframe⟩ | ⟨frame, hframe, hunit, hdelivery, hsize, hbound⟩
    · rw [hlength] at hsize hframe
      dsimp only
      rw [hframe]
      exact .oversized heap hsize
    · rw [hlength] at hbound
      dsimp only
      rw [hframe]
      exact .entered frame heap hunit hdelivery hsize hbound
  · rw [hmatch]
    exact ⟨fun _ => .refused complaint, fun hnodup hover => absurd hover (hnot hnodup)⟩
  · rw [hmatch]
    exact ⟨fun hnot => absurd hover hnot, fun _ _ => ⟨i, hi, rfl⟩⟩

end Vm

namespace NamelessParameter

/-- A function of one parameter that declares no local for it. -/
def unit : CodeUnit :=
  { name := "f", argCount := 1 }

/-- The function, in a machine that runs a unit without code. -/
def machine : Machine where
  context := { frames := [Frame.start {} .push], builtins := [] }
  world := { heap := { functions := #[{ name := "f", unit, defaults := [] }] } }

/-- A call of the function. -/
def call (args : List Value) : PendingCall :=
  { callee := .function ⟨0⟩, args, delivery := .push }

/-- The machine has nothing to do with the core library. -/
def vm : Vm :=
  default

/-- An argument for the parameter is matched, and there is no local for it. -/
theorem argument_has_no_local :
    Vm.EntersSafely unit (call [.int 7]) machine (vm.link (call [.int 7]) machine) ∧
    vm.link (call [.int 7]) machine = .error (Vm.tooFewLocals unit 1) machine := by
  have hcall := @Vm.function_entered vm (call [.int 7]) machine ⟨0⟩ rfl
  refine ⟨(hcall.2 (by decide)).1 fun hover => ?_, rfl⟩
  exact absurd hover.unnamed (by decide)

/-- Without an argument the machine breaks down, since it looks up the name of the parameter. -/
theorem name_is_missing :
    vm.link (call []) machine = .error { cause := .outOfRange 0 } machine ∧
    ¬ Vm.EntersSafely unit (call []) machine (vm.link (call []) machine) := by
  have hlink : vm.link (call []) machine = .error { cause := .outOfRange 0 } machine := rfl
  refine ⟨hlink, fun h => ?_⟩
  rw [hlink] at h
  cases h

end NamelessParameter

end TaskletMachine
