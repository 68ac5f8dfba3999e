import TaskletMachine.Library.Tables
import TaskletMachine.Proofs.Value.Growth

/-!
# The exception classes of the core library

The core library makes the classes of exceptions one by one, a parent before its children, so each
of them derives from the root of the hierarchy. The builtins name all of them, and keep doing so
whatever becomes of the heap later, since no class loses its bases.

## Main definitions

* `Heap.IsException`: instances of exception classes.
* `Heap.DefinesExceptions`: builtins that name the exception classes.
* `Library.definesExceptions_install`: the builtins of the core library do.
-/
namespace TaskletMachine

/-! ## Exceptions -/

/-- The value is an instance of a class that derives from the root of all exceptions. -/
def Heap.IsException (h : Heap) (base : ClassRef) (v : Value) : Prop :=
  ∃ r, v = .instanceObj r ∧ h.isInstance r base

/-- The builtins name the root of all exceptions and the classes of the kinds, which derive from
it. -/
structure Heap.DefinesExceptions (h : Heap) (builtins : Namespace) (base : ClassRef) : Prop where
  root : builtins.find? ExceptionKind.baseException.name = some (.classObj base)
  derives : ∀ kind : ExceptionKind, ∃ c, builtins.find? kind.name = some (.classObj c) ∧
    h.isSubclass c base

namespace Heap.Grows

variable {h h' : Heap} {base : ClassRef}

theorem isException (hh : h.Grows h') {v : Value} (hv : h.IsException base v) :
    h'.IsException base v := by
  obtain ⟨r, rfl, hr⟩ := hv
  exact ⟨r, rfl, hh.isInstance hr⟩

theorem definesExceptions (hh : h.Grows h') {builtins : Namespace}
    (hb : h.DefinesExceptions builtins base) : h'.DefinesExceptions builtins base := by
  refine ⟨hb.root, fun kind => ?_⟩
  obtain ⟨c, hc, hderives⟩ := hb.derives kind
  exact ⟨c, hc, hh.isSubclass hderives⟩

end Heap.Grows

/-! ## Names -/

namespace Names

variable {ν : Type} {names more : Names ν} {name name' : String} {v v' : ν}

theorem find?_set (names : Names ν) (name : String) (v : ν) (name' : String) :
    (names.set name v).find? name' = if name = name' then some v else names.find? name' := by
  unfold set find?
  induction names with
  | nil => simp [Entries.insert, Entries.get?]
  | cons entry rest ih =>
    simp only [Entries.insert]
    split
    · next hkey =>
      obtain rfl := beq_iff_eq.1 hkey
      by_cases hname : entry.1 = name' <;> simp [Entries.get?, hname]
    · next hkey =>
      by_cases hname : entry.1 = name'
      · have hne : name ≠ name' := fun h => hkey (beq_iff_eq.2 (hname.trans h.symm))
        simp [Entries.get?, hname, hne]
      · simp [Entries.get?, hname, ih]

theorem find?_setAll_of_notMem (h : name ∉ more.map Prod.fst) (names : Names ν) :
    (names.setAll more).find? name = names.find? name := by
  induction more generalizing names with
  | nil => rfl
  | cons entry rest ih =>
    rw [List.map_cons, List.mem_cons, not_or] at h
    exact (ih h.2 _).trans ((find?_set _ _ _ _).trans (if_neg fun heq => h.1 heq.symm))

/-- A name that is among several ones has one of their values after they were set. -/
theorem find?_setAll_of_mem (h : name ∈ more.map Prod.fst) (names : Names ν) :
    ∃ v, (name, v) ∈ more ∧ (names.setAll more).find? name = some v := by
  induction more generalizing names with
  | nil => cases h
  | cons entry rest ih =>
    by_cases hrest : name ∈ rest.map Prod.fst
    · obtain ⟨v, hv, hfind⟩ := ih hrest (names.set entry.1 entry.2)
      exact ⟨v, List.mem_cons_of_mem _ hv, hfind⟩
    · obtain rfl : name = entry.1 := (List.mem_cons.1 h).resolve_right hrest
      refine ⟨entry.2, List.mem_cons_self, ?_⟩
      exact (find?_setAll_of_notMem hrest _).trans ((find?_set _ _ _ _).trans (if_pos rfl))

theorem exists_find?_of_mem (h : name ∈ names.map Prod.fst) :
    ∃ v, (name, v) ∈ names ∧ names.find? name = some v := by
  unfold find?
  induction names with
  | nil => cases h
  | cons entry rest ih =>
    rw [Entries.get?]
    split
    · next hkey => exact ⟨entry.2, beq_iff_eq.1 hkey ▸ List.mem_cons_self, rfl⟩
    · next hkey =>
      rw [List.map_cons, List.mem_cons] at h
      obtain ⟨v, hv, hfind⟩ := ih (h.resolve_left fun heq => hkey (beq_iff_eq.2 heq.symm))
      exact ⟨v, List.mem_cons_of_mem _ hv, hfind⟩

theorem mem_set (h : (name, v) ∈ names.set name' v') :
    (name, v) = (name', v') ∨ (name, v) ∈ names := by
  unfold set at h
  induction names with
  | nil => exact .inl (List.mem_singleton.1 h)
  | cons entry rest ih =>
    rw [Entries.insert] at h
    split at h
    · next hkey =>
      rcases List.mem_cons.1 h with h | h
      · exact .inl (beq_iff_eq.1 hkey ▸ h)
      · exact .inr (List.mem_cons_of_mem _ h)
    · rcases List.mem_cons.1 h with h | h
      · exact .inr (List.mem_cons.2 (.inl h))
      · exact (ih h).imp id (List.mem_cons_of_mem _)

theorem mem_map_fst_set (names : Names ν) (name : String) (v : ν) :
    name' ∈ (names.set name v).map Prod.fst ↔ name' = name ∨ name' ∈ names.map Prod.fst := by
  unfold set
  induction names with
  | nil => simp [Entries.insert]
  | cons entry rest ih =>
    rw [Entries.insert]
    split
    · next hkey => simp [beq_iff_eq.1 hkey]
    · simp only [List.map_cons, List.mem_cons, ih]
      exact or_left_comm

end Names

/-! ## Subclasses -/

namespace Heap

variable {h : Heap} {c d : ClassRef}

theorem isSubclass_self (h : Heap) (c : ClassRef) : h.isSubclass c c :=
  isSubclass_iff.2 .refl

/-- A new class derives from what its bases derive from, if they are older. -/
theorem isSubclass_newClass {o : ClassObject} (hc : c ∈ o.bases) (hlt : c.index < h.classes.size)
    (hd : h.isSubclass c d) : (h.newClass o).2.isSubclass (h.newClass o).1 d :=
  isSubclass_iff.2 (.head (hasBase_newClass.2 ⟨hc, hlt⟩)
    (isSubclass_iff.1 ((Grows.newClass h o).isSubclass hd)))

end Heap

/-! ## Making the classes -/

/-- Every kind of a list has its parent among the given ones or before it. -/
def ExceptionKind.parentsFirst : (known : List ExceptionKind) → List ExceptionKind → Bool
  | _, [] => true
  | known, kind :: rest =>
    kind.parent?.any known.contains && parentsFirst (kind :: known) rest

namespace Library

/-- The classes of the known kinds have been made, and derive from the base. -/
structure Derives (base : ClassRef) (known : List ExceptionKind) (made : Namespace) (h : Heap) :
    Prop where
  named : ∀ kind ∈ known, kind.name ∈ made.map Prod.fst
  derives : ∀ name v, (name, v) ∈ made → ∃ c, v = .classObj c ∧
    c.index < h.classes.size ∧ h.isSubclass c base
  root : ∀ v, (ExceptionKind.baseException.name, v) ∈ made → v = .classObj base

namespace Derives

variable {base : ClassRef} {known : List ExceptionKind} {made : Namespace} {h : Heap}

theorem first (h : Heap) : ∃ base, Derives base [.baseException]
    (Names.set [] ExceptionKind.baseException.name (makeException [] .baseException h).1)
    (makeException [] .baseException h).2 := by
  let c : ClassRef := ⟨h.classes.size⟩
  have hmem (name : String) (v : Value) (hv : (name, v) ∈ Names.set []
      ExceptionKind.baseException.name (makeException [] .baseException h).1) :
      v = .classObj c := by
    cases List.mem_singleton.1 hv
    rfl
  refine ⟨c, ⟨?_, ?_, fun v => hmem _ v⟩⟩
  · rintro kind hkind
    rw [List.mem_singleton.1 hkind]
    exact List.mem_singleton_self _
  · intro name v hv
    refine ⟨c, hmem name v hv, ?_, Heap.isSubclass_self _ c⟩
    simp [c, makeException, ExceptionKind.parent?, Heap.newClass, Heap.newNative]

/-- The class of a kind whose parent is known derives from the base too. -/
theorem next (hd : Derives base known made h) {kind parent : ExceptionKind}
    (hparent : kind.parent? = some parent) (hknown : parent ∈ known) :
    Derives base (kind :: known) (made.set kind.name (makeException made kind h).1)
      (makeException made kind h).2 := by
  obtain ⟨v, hv, hfind⟩ := Names.exists_find?_of_mem (hd.named parent hknown)
  obtain ⟨c, rfl, hlt, hc⟩ := hd.derives parent.name v hv
  let o : ClassObject := { name := kind.name, bases := [c], attrs := [] }
  have hmake : makeException made kind h = (.classObj (h.newClass o).1, (h.newClass o).2) := by
    simp only [makeException, hparent, hfind]
    rfl
  have hsize : (h.newClass o).2.classes.size = h.classes.size + 1 := Array.size_push _
  have hne : ExceptionKind.baseException.name ≠ kind.name := by
    cases kind <;> first | decide | cases hparent
  rw [hmake]
  refine ⟨fun kind' hkind' => ?_, fun name v hv => ?_, fun v hv => ?_⟩
  · rw [Names.mem_map_fst_set]
    exact (List.mem_cons.1 hkind').imp (congrArg _) (hd.named kind')
  · rw [hsize]
    rcases Names.mem_set hv with heq | hv
    · cases heq
      exact ⟨_, rfl, Nat.lt_succ_self _, Heap.isSubclass_newClass List.mem_cons_self hlt hc⟩
    · obtain ⟨c', rfl, hlt', hc'⟩ := hd.derives name v hv
      exact ⟨c', rfl, Nat.lt_succ_of_lt hlt', (Heap.Grows.newClass h o).isSubclass hc'⟩
  · rcases Names.mem_set hv with heq | hv
    · exact absurd (congrArg Prod.fst heq) hne
    · exact hd.root v hv

/-- The classes of kinds are made one by one. -/
theorem makeExceptions (hd : Derives base known made h) {kinds : List ExceptionKind}
    (hkinds : ExceptionKind.parentsFirst known kinds) :
    Derives base (kinds.reverse ++ known) (makeExceptions kinds made h).1
      (makeExceptions kinds made h).2 := by
  induction kinds generalizing known made h with
  | nil => exact hd
  | cons kind kinds ih =>
    rw [ExceptionKind.parentsFirst, Bool.and_eq_true, Option.any_eq_true] at hkinds
    obtain ⟨⟨parent, hparent, hknown⟩, hkinds⟩ := hkinds
    have hnext := ih (hd.next hparent (List.contains_iff_mem.1 hknown)) hkinds
    rwa [List.reverse_cons, List.append_assoc, List.singleton_append]

end Derives

/-- All classes of exceptions are made, a parent before its children. -/
theorem exists_derives (h : Heap) : ∃ base, Derives base ExceptionKind.all.reverse
    (makeExceptions ExceptionKind.all [] h).1 (makeExceptions ExceptionKind.all [] h).2 := by
  obtain ⟨base, hbase⟩ := Derives.first h
  have hparents : ExceptionKind.parentsFirst [.baseException] ExceptionKind.all.tail := by decide
  have hall : ExceptionKind.all = .baseException :: ExceptionKind.all.tail := rfl
  generalize ExceptionKind.all.tail = rest at hparents hall
  rw [hall, List.reverse_cons]
  exact ⟨base, hbase.makeExceptions hparents⟩

/-! ## The core library -/

theorem grows_makeNatives (entries : List (String × Behaviour)) (h : Heap) :
    h.Grows (makeNatives entries h).2 := by
  induction entries generalizing h with
  | nil => exact .refl h
  | cons entry rest ih =>
    exact .trans (.of_tables rfl rfl : h.Grows (h.newNative ⟨entry.1, entry.2⟩).2) (ih _)

theorem grows_makeTypes (entries : List (String × Behaviour)) (h : Heap) :
    h.Grows (makeTypes entries h).2 := by
  induction entries generalizing h with
  | nil => exact .refl h
  | cons entry rest ih =>
    exact .trans (.of_tables rfl rfl : h.Grows (h.newNative ⟨entry.1, entry.2⟩).2) (ih _)

theorem map_fst_makeTypes (entries : List (String × Behaviour)) (h : Heap) :
    (makeTypes entries h).1.map Prod.fst = entries.map Prod.fst := by
  induction entries generalizing h with
  | nil => rfl
  | cons entry rest ih => exact congrArg (entry.1 :: ·) (ih _)

/-- Conversions are not called like exceptions. -/
theorem name_notMem_conversions (kind : ExceptionKind) :
    kind.name ∉ ((conversions ++ otherTypes).map Prod.fst).take conversions.length := by
  cases kind <;> decide

/-- The builtins of the core library name the classes of all exceptions. -/
theorem definesExceptions_install (h : Heap) :
    ∃ base, (install h).2.DefinesExceptions (install h).1.builtins base := by
  obtain ⟨base, hderives⟩ := exists_derives h
  unfold install
  dsimp only
  generalize makeExceptions ExceptionKind.all [] h = exceptions at hderives ⊢
  have hnames := map_fst_makeTypes (conversions ++ otherTypes) exceptions.2
  have htypes := grows_makeTypes (conversions ++ otherTypes) exceptions.2
  generalize makeTypes (conversions ++ otherTypes) exceptions.2 = types at hnames htypes ⊢
  have hnamed := htypes.trans (grows_makeNatives (functions types.1) types.2)
  generalize makeNatives (functions types.1) types.2 = named at hnamed ⊢
  have hgrows := ((hnamed.trans (grows_makeNatives listMethods _)).trans
    (grows_makeNatives dictMethods _)).trans (grows_makeNatives strMethods _)
  have hfind (kind : ExceptionKind) : ∃ v, (kind.name, v) ∈ exceptions.1 ∧
      Names.find? ((Names.setAll named.1 exceptions.1).setAll (types.1.take conversions.length))
        kind.name = some v := by
    have hall : kind ∈ ExceptionKind.all.reverse := by cases kind <;> decide
    obtain ⟨v, hv, hfind⟩ := Names.find?_setAll_of_mem (hderives.named kind hall) named.1
    refine ⟨v, hv, (Names.find?_setAll_of_notMem ?_ _).trans hfind⟩
    rw [List.map_take, hnames]
    exact name_notMem_conversions kind
  refine ⟨base, ?_, fun kind => ?_⟩
  · obtain ⟨v, hv, hfind⟩ := hfind .baseException
    rw [← hderives.root v hv]
    exact hfind
  · obtain ⟨v, hv, hfind⟩ := hfind kind
    obtain ⟨c, rfl, _, hc⟩ := hderives.derives kind.name v hv
    exact ⟨c, hfind, hgrows.isSubclass hc⟩

end Library

/-- The module through which guest code reaches its scheduler changes no class. -/
theorem grows_installSys (h : Heap) : h.Grows (installSys h).2 := by
  have hnatives := Library.grows_makeNatives schedulerFunctions h
  exact hnatives.trans (.of_tables rfl rfl)

end TaskletMachine
