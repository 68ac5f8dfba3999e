import Mathlib.Logic.Relation
import TaskletMachine.Value.Class

/-!
# Searching the lineage of a class

A search with a stack takes classes off the stack and puts their bases back, whereas a lineage is
defined by recursion over the bases. Every turn of a search shortens the lineages that are ahead by
one class, so no search goes on forever. If the first base of a class ends on top, the lineages of
the classes on the stack are met one after the other, class by class; in either order all classes
are met that are in one of these lineages, which are those that base steps lead to.

## Main definitions

* `Heap.HasBase`: a base step.
* `Heap.Turn`: one turn of a search.
* `Heap.FollowsLineage`: what attribute lookup and the subclass relation come to.

## Main results

* `Heap.search_reversed`, `Heap.isSome_search_iff`: what a search with a stack finds.
* `Heap.classAttr?_eq`, `Heap.isSubclass_iff`: the two searches.
* `Heap.lookup_follows_lineage`: they hold what a lineage promises, in every hierarchy.
-/
namespace TaskletMachine.Heap

variable {h h' : Heap} {c d : ClassRef}

/-! ## Hierarchies -/

/-- A class and one of its bases. -/
def HasBase (h : Heap) (c base : ClassRef) : Prop :=
  base ∈ (h.classObj c).bases

theorem classObj_newClass (h : Heap) (o : ClassObject) :
    (h.newClass o).2.classObj (h.newClass o).1 =
      { o with bases := o.bases.filter fun base => base.index < h.classes.size } := by
  simp [newClass, classObj, Array.getD_eq_getD_getElem?]

theorem hasBase_newClass {o : ClassObject} {base : ClassRef} :
    (h.newClass o).2.HasBase (h.newClass o).1 base ↔
      base ∈ o.bases ∧ base.index < h.classes.size := by
  rw [HasBase, classObj_newClass, List.mem_filter, decide_eq_true_iff]

/-- A class that is made over classes that are there has these as its bases, in the same order and
as often. -/
theorem classObj_newClass_of_lt {o : ClassObject}
    (hbases : ∀ base ∈ o.bases, base.index < h.classes.size) :
    (h.newClass o).2.classObj (h.newClass o).1 = o := by
  rw [classObj_newClass,
    List.filter_eq_self.2 fun base hbase => decide_eq_true (hbases base hbase)]

/-- Lineages depend on the classes alone. -/
theorem lineage_congr (hclasses : h'.classes = h.classes) (c : ClassRef) :
    h'.lineage c = h.lineage c := by
  have hclass : h'.classObj c = h.classObj c := by rw [classObj, classObj, hclasses]
  rw [lineage_eq, lineage_eq, hclass, List.flatMap_def, List.flatMap_def]
  refine congrArg (c :: List.flatten ·) (List.map_congr_left fun base hbase => ?_)
  have hlt := index_lt_of_mem_bases hbase
  exact lineage_congr hclasses base
termination_by c.index

/-- The lineage of a class has the classes that base steps lead to, and no others. -/
theorem mem_lineage_iff : d ∈ h.lineage c ↔ Relation.ReflTransGen h.HasBase c d := by
  constructor
  · intro hd
    fun_induction lineage h c with
    | case1 c ih =>
      rcases List.mem_cons.1 hd with rfl | hd
      · exact .refl
      · obtain ⟨⟨base, hbase⟩, -, hd⟩ := List.mem_flatMap.1 hd
        exact .head hbase (ih ⟨base, hbase⟩ hd)
  · intro hcd
    induction hcd using Relation.ReflTransGen.head_induction_on with
    | refl =>
      rw [lineage_eq]
      exact List.mem_cons_self
    | head hbase _ ih =>
      rw [lineage_eq]
      exact List.mem_cons_of_mem _ (List.mem_flatMap.2 ⟨_, hbase, ih⟩)

/-! ## Turns of a search -/

variable {α : Type} {order : PushOrder} {answer? : ClassRef → Option α}

/-- One turn of a search: the class on top of the stack does not answer and gives way to its
bases. -/
inductive Turn (h : Heap) (order : PushOrder) (answer? : ClassRef → Option α) :
    List ClassRef → List ClassRef → Prop where
  | take {c : ClassRef} {pending : List ClassRef} (hc : answer? c = none) :
    h.Turn order answer? (c :: pending) (order.push pending (h.classObj c).bases)

/-- A turn leaves one class less ahead. -/
theorem Turn.classesAhead_lt {pending next : List ClassRef}
    (ht : h.Turn order answer? pending next) : h.classesAhead next < h.classesAhead pending := by
  cases ht with
  | @take c pending _ =>
    rw [h.classesAhead_cons order c pending]
    exact Nat.lt_succ_self _

theorem turns_wellFounded (h : Heap) (order : PushOrder) (answer? : ClassRef → Option α) :
    WellFounded fun next pending => h.Turn order answer? pending next :=
  Subrelation.wf Turn.classesAhead_lt (measure h.classesAhead).wf

/-- A search takes turns until there is none left to take, and answers what the class on top of the
stack answers then, if there is one. -/
theorem search_takes_turns (h : Heap) (order : PushOrder) (answer? : ClassRef → Option α)
    (pending : List ClassRef) :
    ∃ last, Relation.ReflTransGen (h.Turn order answer?) pending last ∧
      (∀ next, ¬h.Turn order answer? last next) ∧
      h.search order answer? pending = last.head?.bind answer? := by
  fun_induction search h order answer? pending with
  | case1 => exact ⟨[], .refl, nofun, rfl⟩
  | case2 c pending a hc =>
    refine ⟨c :: pending, .refl, fun next ht => ?_, hc.symm⟩
    cases ht with
    | take hnone => cases hc.symm.trans hnone
  | case3 c pending hc ih =>
    obtain ⟨last, hturns, hlast, hresult⟩ := ih
    exact ⟨last, .head (.take hc) hturns, hlast, hresult⟩

/-! ## What a search finds -/

/-- If first bases end on top, the lineages of the classes on the stack are met one after the
other. -/
theorem search_reversed (h : Heap) (answer? : ClassRef → Option α) (pending : List ClassRef) :
    h.search .reversed answer? pending = (pending.flatMap h.lineage).findSome? answer? := by
  fun_induction search h .reversed answer? pending with
  | case1 => rfl
  | case2 c pending a hc =>
    rw [List.flatMap_cons, lineage_eq, List.cons_append, List.findSome?_cons, hc]
  | case3 c pending hc ih =>
    -- the bases on the stack are the rest of the lineage of the class
    have hpush : PushOrder.reversed.push pending (h.classObj c).bases =
        (h.classObj c).bases ++ pending := by
      rw [PushOrder.push_eq, PushOrder.arrange, List.reverse_reverse]
    rw [ih, hpush, List.flatMap_append, List.flatMap_cons, lineage_eq, List.cons_append,
      List.findSome?_cons, hc]

/-- In either order, a search finds an answer if there is one in the lineages of the classes on the
stack. -/
theorem isSome_search_iff (h : Heap) (order : PushOrder) (answer? : ClassRef → Option α)
    (pending : List ClassRef) :
    (h.search order answer? pending).isSome ↔
      ∃ d ∈ pending.flatMap h.lineage, (answer? d).isSome := by
  fun_induction search h order answer? pending with
  | case1 => simp
  | case2 c pending a hc =>
    have hmem : c ∈ (c :: pending).flatMap h.lineage := by
      rw [List.flatMap_cons, lineage_eq]
      exact List.mem_cons_self
    exact iff_of_true rfl ⟨c, hmem, by rw [hc]; rfl⟩
  | case3 c pending hc ih =>
    have hmem (d : ClassRef) : d ∈ (c :: pending).flatMap h.lineage ↔
        d = c ∨ d ∈ (order.push pending (h.classObj c).bases).flatMap h.lineage := by
      rw [((order.push_perm pending (h.classObj c).bases).flatMap_right h.lineage).mem_iff,
        List.flatMap_append, List.flatMap_cons, lineage_eq, List.cons_append, List.mem_cons]
    rw [ih]
    simp only [hmem, or_and_right, exists_or, exists_eq_left, hc, Option.isSome_none,
      Bool.false_eq_true, false_or]

/-! ## Attribute lookup and the subclass relation -/

/-- An attribute of a class is that of the first class of its lineage that has it. -/
theorem classAttr?_eq (h : Heap) (c : ClassRef) (name : String) :
    h.classAttr? c name = (h.lineage c).findSome? (h.classOwnAttr? · name) := by
  rw [classAttr?, search_reversed, List.flatMap_singleton]

/-- Whether base steps lead from a class to another one. -/
theorem isSubclass_iff : h.isSubclass c d ↔ Relation.ReflTransGen h.HasBase c d := by
  rw [← mem_lineage_iff, isSubclass, isSome_search_iff, List.flatMap_singleton]
  simp

/-- What attribute lookup and the subclass relation come to in a hierarchy of classes. -/
structure FollowsLineage (h : Heap) : Prop where
  /-- A class is made with any classes that are there as its bases, in any order and repeatedly. -/
  made (o : ClassObject) : (∀ base ∈ o.bases, base.index < h.classes.size) →
    (h.newClass o).2.classObj (h.newClass o).1 = o
  /-- No search goes on forever. -/
  ends {α : Type} (order : PushOrder) (answer? : ClassRef → Option α) :
    WellFounded fun next pending => h.Turn order answer? pending next
  /-- A search takes turns until there is none left to take, and then has its answer on top. -/
  turns {α : Type} (order : PushOrder) (answer? : ClassRef → Option α) (pending : List ClassRef) :
    ∃ last, Relation.ReflTransGen (h.Turn order answer?) pending last ∧
      (∀ next, ¬h.Turn order answer? last next) ∧
      h.search order answer? pending = last.head?.bind answer?
  /-- A lineage is in preorder, base by base. -/
  preorder (c : ClassRef) : h.lineage c = c :: (h.classObj c).bases.flatMap h.lineage
  /-- An attribute is that of the first class of the lineage that has it. -/
  attr (c : ClassRef) (name : String) (v : Value) : h.classAttr? c name = some v ↔
    ∃ before d after, h.lineage c = before ++ d :: after ∧ h.classOwnAttr? d name = some v ∧
      ∀ e ∈ before, h.classOwnAttr? e name = none
  /-- There is no attribute if no class that base steps lead to has it. -/
  noAttr (c : ClassRef) (name : String) : h.classAttr? c name = none ↔
    ∀ d, Relation.ReflTransGen h.HasBase c d → h.classOwnAttr? d name = none
  /-- A class derives from those that base steps lead to. -/
  subclass (c d : ClassRef) : h.isSubclass c d ↔ Relation.ReflTransGen h.HasBase c d
  refl (c : ClassRef) : h.isSubclass c c
  trans (c d e : ClassRef) : h.isSubclass c d → h.isSubclass d e → h.isSubclass c e

/-- **Attributes and subclasses follow the lineage.** In every hierarchy of classes, also where
ancestors are shared and bases are repeated, the searches end. An attribute is that of the first
class of the lineage that has it, and a class derives from those that base steps lead to, so that
the subclass relation is reflexive and transitive. -/
theorem lookup_follows_lineage (h : Heap) : h.FollowsLineage where
  made _ := classObj_newClass_of_lt
  ends := h.turns_wellFounded
  turns := h.search_takes_turns
  preorder := h.lineage_eq
  attr c name v := by
    rw [classAttr?_eq]
    exact List.findSome?_eq_some_iff
  noAttr c name := by
    rw [classAttr?_eq, List.findSome?_eq_none_iff]
    exact forall_congr' fun d => imp_congr_left mem_lineage_iff
  subclass _ _ := isSubclass_iff
  refl _ := isSubclass_iff.2 .refl
  trans _ _ _ hcd hde := isSubclass_iff.2 ((isSubclass_iff.1 hcd).trans (isSubclass_iff.1 hde))

/-- The lineage of the first base is searched before the second base, also for a shared ancestor. -/
example : Heap.classAttr? { classes := #[
    { name := "Root", bases := [], attrs := [("x", .int 1)] },
    { name := "Left", bases := [⟨0⟩], attrs := [] },
    { name := "Right", bases := [⟨0⟩], attrs := [("x", .int 2)] },
    { name := "Derived", bases := [⟨1⟩, ⟨2⟩, ⟨1⟩], attrs := [] }] } ⟨3⟩ "x" = some (.int 1) := rfl

end TaskletMachine.Heap
