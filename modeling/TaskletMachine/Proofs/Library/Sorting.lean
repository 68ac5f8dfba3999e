import TaskletMachine.Library.Lists
import TaskletMachine.Proofs.Library.StableSort
import TaskletMachine.Proofs.Operator.Ordering
import TaskletMachine.Proofs.Value.Tables

/-!
# Sorting lists

A list is sorted as a whole or not at all. The comparisons of values of finite depth are those of an
order, as far as they succeed, so that a correct sort finds a stable order unless two values cannot
be compared, which it always notices. After that all values count as equal, and a correct sort may
break down over this, as the sort of lists does for some lists that are not short.

## Main definitions

* `Heap.Sortable`: any two values of a row can be compared.
* `Heap.SortsTo`: one row is another one in ascending order.
-/
namespace TaskletMachine

namespace Heap

variable {h : Heap}

/-- Any two values at different positions can be compared. -/
def Sortable (h : Heap) (values : List Value) : Prop :=
  ∀ i j : Fin values.length, i ≠ j →
    ∃ less, h.compare .less (values.get i) (values.get j) = .ok less

/-- The second row is the first one in ascending order, with equal values in their old order. -/
def SortsTo (h : Heap) (values sorted : List Value) : Prop :=
  ∃ order : List (Fin values.length), order.Perm (List.finRange values.length) ∧
    (order.Pairwise fun i j => h.compare .less (values.get i) (values.get j) = .ok true ∨
      h.equal (values.get i) (values.get j) = true ∧ i < j) ∧
    sorted = order.map values.get

theorem SortsTo.perm {values sorted : List Value} (hsorted : h.SortsTo values sorted) :
    sorted.Perm values := by
  obtain ⟨order, hperm, -, rfl⟩ := hsorted
  have hmap := hperm.map values.get
  rwa [List.map_get_finRange] at hmap

/-! ## Comparing values -/

/-- Asking for less and for greater finds out which of two values comes first. -/
theorem compareValues_eq (h : Heap) (a b : Value) :
    h.compareValues a b =
      match h.order a b with
      | .ordered o => .ok o
      | .unordered => .ok .eq
      | .incomparable => .error (h.notOrdered .less a b) := by
  unfold compareValues
  rw [compare, compare]
  cases h.order a b with
  | ordered o => cases o <;> rfl
  | unordered => rfl
  | incomparable => rfl

/-- A comparison fails with the exception for values that cannot be ordered. -/
theorem eq_notOrdered_of_compareValues {a b : Value} {e : Error}
    (hab : h.compareValues a b = .error e) : e = h.notOrdered .less a b := by
  rw [compareValues_eq] at hab
  cases horder : h.order a b with
  | ordered | unordered =>
    rw [horder] at hab
    cases hab
  | incomparable =>
    rw [horder] at hab
    exact (Except.error.inj hab).symm

/-- Two values are compared as their trees. -/
theorem Unfolds.compareValues_eq_ok_iff {a b : Value} {t u : Datum} (ha : h.Unfolds a t)
    (hb : h.Unfolds b u) {o : Ordering} :
    h.compareValues a b = .ok o ↔ t.compare? u = some o := by
  rw [compareValues_eq, (ha.order_eq hb).1]
  cases t.compare? u with
  | none => exact ⟨(fun h => by cases h), (fun h => by cases h)⟩
  | some o' => exact ⟨(fun h => by cases h; rfl), (fun h => by cases h; rfl)⟩

section Values

variable {values : List Value}

/-- The comparisons of values of finite depth are those of an order. -/
theorem consistent (hvalues : ∀ v ∈ values, h.Native v) :
    Sorter.Consistent fun i j : Fin values.length =>
      h.compareValues (values.get i) (values.get j) := by
  have hunfolds (i : Fin values.length) : ∃ t, h.Unfolds (values.get i) t :=
    (hvalues _ (List.get_mem values i)).exists_unfolds
  choose tree htree using hunfolds
  constructor
  · intro i j o hij
    rw [(htree i).compareValues_eq_ok_iff (htree j)] at hij
    rw [(htree i).compareValues_eq_ok_iff (htree i)]
    exact Datum.compare?_self (Option.isSome_of_mem hij)
  · intro i j o hij
    rw [(htree i).compareValues_eq_ok_iff (htree j)] at hij
    rw [(htree j).compareValues_eq_ok_iff (htree i), Datum.compare?_swap (tree i) (tree j), hij]
    rfl
  · intro i j k o o' hij hle hjk hle'
    rw [(htree i).compareValues_eq_ok_iff (htree j)] at hij
    rw [(htree j).compareValues_eq_ok_iff (htree k)] at hjk
    simp only [(htree i).compareValues_eq_ok_iff (htree k)]
    exact Datum.exists_compare?_isLE hij hle hjk hle'

theorem sortable_iff (hvalues : ∀ v ∈ values, h.Native v) :
    h.Sortable values ↔ ∀ i j : Fin values.length, i ≠ j →
      ∃ o, h.compareValues (values.get i) (values.get j) = .ok o := by
  refine forall_congr' fun i => forall_congr' fun j => imp_congr_right fun _ => ?_
  obtain ⟨t, ht⟩ := (hvalues _ (List.get_mem values i)).exists_unfolds
  obtain ⟨u, hu⟩ := (hvalues _ (List.get_mem values j)).exists_unfolds
  exact (ht.exists_less_iff hu).trans (exists_congr fun o => (ht.compareValues_eq_ok_iff hu).symm)

/-- What is stable by position is in ascending order. -/
theorem sortsTo_of_isStable (hvalues : ∀ v ∈ values, h.Native v)
    {order : List (Fin values.length)}
    (horder : Sorter.IsStable
      (fun i j o => h.compareValues (values.get i) (values.get j) = .ok o) order) :
    h.SortsTo values (order.map values.get) := by
  refine ⟨order, horder.perm, horder.ascending.imp ?_, rfl⟩
  intro i j hij
  obtain ⟨t, ht⟩ := (hvalues _ (List.get_mem values i)).exists_unfolds
  obtain ⟨u, hu⟩ := (hvalues _ (List.get_mem values j)).exists_unfolds
  rcases hij with hless | ⟨heq, hpos⟩
  · exact .inl ((ht.less_iff hu).2 ((ht.compareValues_eq_ok_iff hu).1 hless))
  · have htree := Datum.eq_of_compare? ((ht.compareValues_eq_ok_iff hu).1 heq)
    exact .inr ⟨(ht.order_eq hu).2.2 htree, hpos⟩

/-- A correct sort finds the ascending order of values that can all be compared, and otherwise fails
with the exception for values that cannot be ordered, or breaks down. -/
theorem sortValues_cases {sorter : (n : Nat) → Sorter n} (hsorter : ∀ n, (sorter n).Correct)
    (hvalues : ∀ v ∈ values, h.Native v) :
    (h.Sortable values ∧
      ∃ sorted, sortValues sorter h values = .ok sorted ∧ h.SortsTo values sorted) ∨
    ¬ h.Sortable values ∧
      ((∃ a b, sortValues sorter h values = .error (h.notOrdered .less a b)) ∨
        sortValues sorter h values = .error { cause := .noOrder } ∧
          (sorter values.length).run
            (fun i j => h.compareValues (values.get i) (values.get j)) none = none) := by
  have hcorrect := hsorter values.length
  have hconsistent := consistent hvalues
  rw [sortable_iff hvalues, ← hcorrect.exists_run_iff hconsistent, sortValues]
  rcases hrun : (sorter values.length).run
    (fun i j => h.compareValues (values.get i) (values.get j)) none with _ | ⟨order, _ | e⟩
  · exact .inr ⟨nofun, .inr ⟨rfl, rfl⟩⟩
  · have hstable := hcorrect.isStable_run hconsistent hrun
    exact .inl ⟨⟨order, rfl⟩, _, rfl, sortsTo_of_isStable hvalues hstable⟩
  · obtain ⟨i, j, -, hij⟩ := Asking.exists_error_of_run hrun
    rw [eq_notOrdered_of_compareValues hij]
    exact .inr ⟨nofun, .inl ⟨_, _, rfl⟩⟩

end Values

end Heap

namespace ListMethod

/-- Sorted items in the direction that the keywords ask for. -/
def directed (h : Heap) (keywords : Namespace) (sorted : List Value) : List Value :=
  if (keywords.find? "reverse").any h.isTruthy then sorted.reverse else sorted

theorem length_directed (h : Heap) (keywords : Namespace) (sorted : List Value) :
    (directed h keywords sorted).length = sorted.length := by
  unfold directed
  split
  · exact List.length_reverse
  · rfl

/-- Sorting changes the list once, when all is done. -/
theorem sortItems_eq (sorter : (n : Nat) → Sorter n) (r : ListRef) (keywords : Namespace)
    (w : World) :
    sortItems sorter r keywords w =
      match sortValues sorter w.heap (w.heap.list r) with
      | .ok sorted =>
        .ok .noValue { w with heap := w.heap.setList r (directed w.heap keywords sorted) }
      | .error e => .error e w := by
  -- the comparisons read the heap as it is before the list is written back
  have hstart : sortItems sorter r keywords w =
      (do
        let sorted ← ofExcept (sortValues sorter w.heap (w.heap.list r))
        Effect.setList r (directed w.heap keywords sorted)
        return .noValue : Effect Reply) w := rfl
  rw [hstart]
  cases sortValues sorter w.heap (w.heap.list r) <;> rfl

/-- **A list is sorted as a whole or not at all.** The sort of lists is correct. With any correct
sort, the values of a list can be sorted exactly if any two at different positions can be compared.
The list is then what it was in ascending order, with equal values in their old order, or the
reverse of that if so asked for. Otherwise nothing has changed, and a type error is raised or the
sort breaks down, which that of lists does not for up to twenty values. -/
theorem sort_all_or_nothing {sorter : (n : Nat) → Sorter n} (hsorter : ∀ n, (sorter n).Correct)
    {w : World} {r : ListRef} (hvalues : ∀ v ∈ w.heap.list r, w.heap.Native v)
    (keywords : Namespace) :
    (call .sort [.list r] keywords w = sortItems Sorter.standard r keywords w ∧
      ∀ n, (Sorter.standard n).Correct) ∧
    ((∃ w', sortItems sorter r keywords w = .ok .noValue w') ↔
      w.heap.Sortable (w.heap.list r)) ∧
    (∀ reply w', sortItems sorter r keywords w = .ok reply w' →
      ∃ sorted, w.heap.SortsTo (w.heap.list r) sorted ∧
        w'.heap.list r = (if (keywords.find? "reverse").any w.heap.isTruthy then sorted.reverse
          else sorted) ∧
        w' = { w with heap := w.heap.setList r (w'.heap.list r) }) ∧
    (∀ e w', sortItems sorter r keywords w = .error e w' →
      ((∃ message, e = .raise .typeError message) ∨ e = { cause := .noOrder }) ∧ w' = w) ∧
    ∀ e w', (w.heap.list r).length ≤ 20 → call .sort [.list r] keywords w = .error e w' →
      ∃ message, e = .raise .typeError message := by
  refine ⟨⟨rfl, Sorter.standard_correct⟩, ?_⟩
  rw [← and_assoc, ← and_assoc]
  refine ⟨?_, fun e w' hshort herror => ?_⟩
  · rw [sortItems_eq]
    obtain ⟨hsortable, sorted, heq, hsorts⟩ | ⟨hsortable, hfails⟩ :=
      Heap.sortValues_cases hsorter hvalues
    · rw [heq]
      refine ⟨⟨iff_of_true ⟨_, rfl⟩ hsortable, ?_⟩, nofun⟩
      rintro reply w' ⟨⟩
      have hlist : (w.heap.setList r (directed w.heap keywords sorted)).list r =
          directed w.heap keywords sorted :=
        Heap.list_setList ((length_directed _ _ _).trans hsorts.perm.length_eq)
      exact ⟨sorted, hsorts, hlist, by rw [hlist]⟩
    · obtain ⟨e, heq, he⟩ : ∃ e, sortValues sorter w.heap (w.heap.list r) = .error e ∧
          ((∃ message, e = .raise .typeError message) ∨ e = { cause := .noOrder }) := by
        rcases hfails with ⟨a, b, heq⟩ | ⟨heq, -⟩
        · exact ⟨_, heq, .inl ⟨_, rfl⟩⟩
        · exact ⟨_, heq, .inr rfl⟩
      rw [heq]
      refine ⟨⟨iff_of_false nofun hsortable, nofun⟩, ?_⟩
      rintro _ _ ⟨⟩
      exact ⟨he, rfl⟩
  · have hcall : sortItems Sorter.standard r keywords w = .error e w' := herror
    rw [sortItems_eq] at hcall
    obtain ⟨-, sorted, heq, -⟩ | ⟨-, ⟨a, b, heq⟩ | ⟨-, hrun⟩⟩ :=
      Heap.sortValues_cases Sorter.standard_correct hvalues
    · rw [heq] at hcall
      cases hcall
    · rw [heq] at hcall
      cases hcall
      exact ⟨_, rfl⟩
    · exact absurd hrun (Sorter.run_standard_ne_none hshort)

end ListMethod

/-- A list of three tuples, of which the last two are equal, and a list of the same value twice that
cannot be ordered. -/
def EqualTuples.world : World where
  heap := { lists := #[
    [.tuple 0 [.int 2, .str "x"], .tuple 1 [.bool true, .none], .tuple 2 [.int 1, .none]],
    [.none, .none]] }

/-- The first list can be sorted, here in reverse; the second one cannot. -/
theorem EqualTuples.sorted_in_reverse :
    (∀ n, (Sorter.standard n).Correct) ∧
    ((∀ v ∈ world.heap.list ⟨0⟩, world.heap.Native v) ∧
      ∃ w', ListMethod.call .sort [.list ⟨0⟩] [("reverse", .int 1)] world = .ok .noValue w' ∧
        w'.heap.list ⟨0⟩ =
          [.tuple 0 [.int 2, .str "x"], .tuple 2 [.int 1, .none], .tuple 1 [.bool true, .none]] ∧
        world.heap.SortsTo (world.heap.list ⟨0⟩) (w'.heap.list ⟨0⟩).reverse) ∧
    (∀ v ∈ world.heap.list ⟨1⟩, world.heap.Native v) ∧
      ¬ world.heap.Sortable (world.heap.list ⟨1⟩) := by
  have hpair {token : Nat} {a b : Value} (ha : a.isAtom = true) (hb : b.isAtom = true) :
      world.heap.Native (.tuple token [a, b]) :=
    .tuple (List.forall_mem_cons.2 ⟨.atom ha, List.forall_mem_singleton.2 (.atom hb)⟩)
  have hfirst : ∀ v ∈ world.heap.list ⟨0⟩, world.heap.Native v := List.forall_mem_cons.2
    ⟨hpair rfl rfl, List.forall_mem_cons.2 ⟨hpair rfl rfl, List.forall_mem_singleton.2
      (hpair rfl rfl)⟩⟩
  have hsecond : ∀ v ∈ world.heap.list ⟨1⟩, world.heap.Native v := List.forall_mem_cons.2
    ⟨.atom rfl, List.forall_mem_singleton.2 (.atom rfl)⟩
  refine ⟨Sorter.standard_correct, ⟨hfirst, _, rfl, rfl, ?_⟩, hsecond, ?_⟩
  · obtain ⟨sorted, hsorts, hlist, -⟩ := (ListMethod.sort_all_or_nothing
      Sorter.standard_correct hfirst [("reverse", .int 1)]).2.2.1 _ _ rfl
    rw [hlist]
    exact (List.reverse_reverse sorted).symm ▸ hsorts
  · rw [← (ListMethod.sort_all_or_nothing Sorter.standard_correct hsecond []).2.1]
    rintro ⟨w', hok⟩
    cases hok

namespace MixedPairs

/-- A pair of a number and a text, or of two numbers. -/
def pair (token k : Nat) (text : Bool) : Value :=
  .tuple token [.int (Int64.ofNat k), if text then .str "a" else .int 0]

/-- Two rows of pairs, of which those of one row cannot be compared with those of the other one if
they begin with the same number. -/
def items : List Value :=
  [2, 1, 3, 4, 5, 6, 7, 8, 9, 10, 11].map (fun k => pair k k false) ++
    [1, 0, 2, 3, 4, 5, 6, 7, 8, 9, 11].map fun k => pair (20 + k) k true

/-- A list of the pairs. -/
def world : World where
  heap := { lists := #[items] }

theorem native : ∀ v ∈ world.heap.list ⟨0⟩, world.heap.Native v := by
  have hpair (token k : Nat) (text : Bool) : world.heap.Native (pair token k text) := by
    refine .tuple (List.forall_mem_cons.2 ⟨.atom rfl, List.forall_mem_singleton.2 ?_⟩)
    cases text <;> exact .atom rfl
  refine List.forall_mem_append.2 ⟨?_, ?_⟩ <;> exact List.forall_mem_map.2 fun k _ => hpair _ _ _

/-- The greatest pairs of the two rows are the first ones that cannot be compared. From then on all
pairs count as equal, and the ends of the rows do not meet where they are merged. -/
theorem sort_breaks_down :
    (∀ v ∈ world.heap.list ⟨0⟩, world.heap.Native v) ∧
      ¬ world.heap.Sortable (world.heap.list ⟨0⟩) ∧
      ∃ e, ListMethod.call .sort [.list ⟨0⟩] [] world = .error e world ∧ e.cause.isBreakdown := by
  have hbreaks : (match sortValues Sorter.standard world.heap (world.heap.list ⟨0⟩) with
    | .ok _ => false
    | .error e => e.cause.isBreakdown) = true := by decide +kernel
  have hcall : ListMethod.call .sort [.list ⟨0⟩] [] world =
      ListMethod.sortItems Sorter.standard ⟨0⟩ [] world := rfl
  rw [ListMethod.sortItems_eq] at hcall
  cases hsort : sortValues Sorter.standard world.heap (world.heap.list ⟨0⟩) with
  | ok sorted =>
    rw [hsort] at hbreaks
    cases hbreaks
  | error e =>
    rw [hsort] at hbreaks hcall
    refine ⟨native, fun hsortable => ?_, e, hcall, hbreaks⟩
    obtain ⟨-, sorted, hsorted, -⟩ | ⟨hnot, -⟩ :=
      Heap.sortValues_cases Sorter.standard_correct native
    · cases hsort.symm.trans hsorted
    · exact hnot hsortable

end MixedPairs

end TaskletMachine
