import Mathlib.Data.Fintype.Card
import TaskletMachine.Library.StableSort
import TaskletMachine.Proofs.Library.Sorter

/-!
# Merging

Each item has a place in the final order, and rows are sorted by places. What a sort asks about two
items tells their places apart as long as it asks in the right direction: of two equal items that
which came first has the lower place, so it must not be asked whether it is less than the other one.
Every step of the sort therefore keeps equal items in their old order, and asks whether an item is
less than one that stands before it.

## Main definitions

* `Sorter.Places`: the places of the items in the final order.
* `Row.Steady`: rows in which equal items stand in their old order.
* `Row.SortsTo`: a row is another one in ascending order.
* `Row.ensures_insertAll`, `Row.ensures_merge`: steady rows are sorted.
* `Row.Taken`: what has been taken from two rows that are merged.
-/
namespace TaskletMachine

open Asking

variable {n : Nat} {cmp : Fin n → Fin n → Ordering}

/-! ## Places -/

namespace Sorter

/-- The places of items in the final order. -/
def Places (cmp : Fin n → Fin n → Ordering) (place : Fin n → Nat) : Prop :=
  ∀ i j, place i < place j ↔ Precedes (fun i j o => cmp i j = o) i j

/-- An item may stand before another one while they are sorted: if they are equal, it came first. -/
def Before (cmp : Fin n → Fin n → Ordering) (i j : Fin n) : Prop :=
  cmp i j = .eq → i < j

variable [Std.TransCmp cmp] {i j k : Fin n}

theorem Precedes.trans (hij : Precedes (fun i j o => cmp i j = o) i j)
    (hjk : Precedes (fun i j o => cmp i j = o) j k) :
    Precedes (fun i j o => cmp i j = o) i k := by
  rcases hij with hij | ⟨hij, hpos⟩ <;> rcases hjk with hjk | ⟨hjk, hpos'⟩
  · exact .inl (Std.TransCmp.lt_trans hij hjk)
  · exact .inl (Std.TransCmp.lt_of_lt_of_eq hij hjk)
  · exact .inl (Std.TransCmp.lt_of_eq_of_lt hij hjk)
  · exact .inr ⟨Std.TransCmp.eq_trans hij hjk, hpos.trans hpos'⟩

theorem not_precedes_self (i : Fin n) : ¬ Precedes (fun i j o => cmp i j = o) i i := by
  rintro (h | ⟨-, h⟩)
  · cases h.symm.trans Std.ReflCmp.compare_self
  · exact h.false

theorem Before.precedes (h : Before cmp i j) (hji : cmp j i ≠ .lt) :
    Precedes (fun i j o => cmp i j = o) i j := by
  rw [Precedes]
  cases hij : cmp i j with
  | lt => exact .inl rfl
  | eq => exact .inr ⟨rfl, h hij⟩
  | gt => exact absurd (Std.OrientedCmp.gt_iff_lt.1 hij) hji

/-- The place of an item is the number of those that precede it. -/
theorem exists_places (cmp : Fin n → Fin n → Ordering) [Std.TransCmp cmp] :
    ∃ place, Places cmp place := by
  classical
  let before (i : Fin n) : Finset (Fin n) :=
    Finset.univ.filter fun j => Precedes (fun i j o => cmp i j = o) j i
  have hmono {i j : Fin n} (h : Precedes (fun i j o => cmp i j = o) i j) : before i ⊂ before j := by
    refine (Finset.ssubset_iff_of_subset fun k hk => ?_).2 ⟨i, ?_, ?_⟩
    · exact Finset.mem_filter.2 ⟨Finset.mem_univ k, (Finset.mem_filter.1 hk).2.trans h⟩
    · exact Finset.mem_filter.2 ⟨Finset.mem_univ i, h⟩
    · exact fun hi => not_precedes_self i (Finset.mem_filter.1 hi).2
  refine ⟨fun i => (before i).card, fun i j => ⟨fun h => ?_, fun h => Finset.card_lt_card (hmono h)⟩⟩
  by_contra hij
  by_cases hne : i = j
  · exact h.ne (hne ▸ rfl)
  · -- of two items one precedes the other
    have hji : Precedes (fun i j o => cmp i j = o) j i := by
      rcases lt_or_gt_of_ne hne with hpos | hpos
      · by_contra hji
        refine hij (Before.precedes (fun _ => hpos) fun hlt => hji (.inl hlt))
      · exact Before.precedes (fun _ => hpos) fun hlt => hij (.inl hlt)
    exact (Finset.card_lt_card (hmono hji)).not_gt h

end Sorter

namespace Row

open Sorter

/-- Equal items stand in their old order. -/
def Steady (cmp : Fin n → Fin n → Ordering) (row : Row n) : Prop :=
  row.Pairwise (Before cmp)

/-- The items stand by their places. -/
def Ascends (place : Fin n → Nat) (row : Row n) : Prop :=
  row.Pairwise fun i j => place i < place j

/-- The second row is the first one in ascending order. -/
structure SortsTo (place : Fin n → Nat) (row sorted : Row n) : Prop where
  perm : sorted.Perm row
  ascends : sorted.Ascends place

variable {place : Fin n → Nat} {i j : Fin n} {row sorted other left right : Row n}

theorem SortsTo.trans {row' : Row n} (h : row'.SortsTo place sorted) (hperm : row'.Perm row) :
    row.SortsTo place sorted :=
  ⟨h.perm.trans hperm, h.ascends⟩

/-- There is only one ascending order. -/
theorem SortsTo.eq_of_perm (h : row.SortsTo place sorted) (hother : other.Ascends place)
    (hperm : other.Perm row) : other = sorted :=
  List.Perm.eq_of_pairwise (fun _ _ _ _ hij hji => absurd hji hij.asymm) hother h.ascends
    (hperm.trans h.perm.symm)

section Places

variable (hplaces : Places cmp place)
include hplaces

theorem lt_of_less (h : cmp i j = .lt) : place i < place j :=
  (hplaces i j).2 (.inl h)

theorem before_of_lt (h : place i < place j) : Before cmp i j := by
  intro heq
  rcases (hplaces i j).1 h with hlt | ⟨-, hpos⟩
  · cases heq.symm.trans hlt
  · exact hpos

theorem Ascends.steady (h : row.Ascends place) : row.Steady cmp :=
  h.imp fun hij => before_of_lt hplaces hij

variable [Std.TransCmp cmp]

theorem lt_of_not_less (h : Before cmp i j) (hji : cmp j i ≠ .lt) : place i < place j :=
  (hplaces i j).2 (h.precedes hji)

/-- Asking whether an item is less than one before it tells their places apart. -/
theorem ensures_less (h : Before cmp i j) {post : Bool → Prop}
    (hlt : place j < place i → post true) (hge : place i < place j → post false) :
    (less j i).Ensures cmp post := by
  rw [Asking.ensures_less]
  by_cases hji : cmp j i = .lt
  · rw [beq_iff_eq.2 hji]
    exact hlt (lt_of_less hplaces hji)
  · rw [beq_eq_false_iff_ne.2 hji]
    exact hge (lt_of_not_less hplaces h hji)

/-! ## Insertion -/

/-- Inserting an item that stands after all others keeps the order. -/
theorem ensures_insert (hsorted : sorted.Pairwise fun k l => place l < place k)
    (hi : ∀ j ∈ sorted, Before cmp j i) :
    (insert i sorted).Ensures cmp fun s =>
      s.Perm (i :: sorted) ∧ s.Pairwise fun k l => place l < place k := by
  induction sorted with
  | nil => exact ⟨.refl _, List.pairwise_singleton _ _⟩
  | cons j rest ih =>
    obtain ⟨hfirst, hrest⟩ := List.pairwise_cons.1 hsorted
    obtain ⟨hj, hi⟩ := List.forall_mem_cons.1 hi
    rw [insert, ensures_bind]
    refine ensures_less hplaces hj (fun hlt => ?_) fun hlt => ?_
    · rw [if_pos rfl, ensures_bind]
      refine (ih hrest hi).imp fun s ⟨hperm, hs⟩ => ⟨?_, List.pairwise_cons.2 ⟨fun k hk => ?_, hs⟩⟩
      · exact (hperm.cons j).trans (.swap i j rest)
      · exact (List.mem_cons.1 (hperm.mem_iff.1 hk)).elim (fun hk => hk ▸ hlt) (hfirst k)
    · refine ⟨.refl _, List.pairwise_cons.2 ⟨List.forall_mem_cons.2 ⟨hlt, fun k hk => ?_⟩, hsorted⟩⟩
      exact (hfirst k hk).trans hlt

/-- Inserting items in the order in which they stand sorts them. -/
theorem ensures_insertAll {items : Row n} (hitems : items.Steady cmp)
    (hsorted : sorted.Pairwise fun k l => place l < place k)
    (hbefore : ∀ j ∈ sorted, ∀ i ∈ items, Before cmp j i) :
    (insertAll items sorted).Ensures cmp ((items ++ sorted).SortsTo place) := by
  induction items generalizing sorted with
  | nil => exact ⟨List.reverse_perm _, List.pairwise_reverse.2 hsorted⟩
  | cons i rest ih =>
    obtain ⟨hfirst, hrest⟩ := List.pairwise_cons.1 hitems
    rw [insertAll, ensures_bind]
    have hinsert := ensures_insert hplaces hsorted fun j hj => hbefore j hj i List.mem_cons_self
    refine hinsert.imp fun s ⟨hperm, hs⟩ => ?_
    refine (ih hrest hs fun j hj k hk => ?_).imp fun sorted h => h.trans ?_
    · rcases List.mem_cons.1 (hperm.mem_iff.1 hj) with rfl | hj
      · exact hfirst k hk
      · exact hbefore j hj k (List.mem_cons_of_mem i hk)
    · exact (hperm.append_left rest).trans List.perm_middle

omit hplaces [Std.TransCmp cmp] in
theorem completes_insert (i : Fin n) (sorted : Row n) : (insert i sorted).Completes := by
  induction sorted with
  | nil => trivial
  | cons j rest ih =>
    rw [insert]
    refine (completes_less i j).bind fun b => ?_
    split
    · exact ih.bind fun _ => trivial
    · trivial

omit hplaces [Std.TransCmp cmp] in
theorem completes_insertAll (items sorted : Row n) : (insertAll items sorted).Completes := by
  induction items generalizing sorted with
  | nil => trivial
  | cons i rest ih =>
    rw [insertAll]
    exact (completes_insert i sorted).bind ih

theorem ensures_insertAll_nil (hrow : row.Steady cmp) :
    (insertAll row []).Ensures cmp (row.SortsTo place) := by
  refine (ensures_insertAll hplaces hrow .nil nofun).imp fun sorted h => h.trans ?_
  rw [List.append_nil]

end Places

/-! ## Merging -/

section Merging

variable {goesBefore : Fin n → Fin n → Asking n Bool} {r : Fin n → Fin n → Prop}
  [IsTrans (Fin n) r] {x : Fin n} {next : Row n → Asking n (Row n)}

/-- Asking whether an item of one row goes before an item of another one tells them apart. -/
def Decides (cmp : Fin n → Fin n → Ordering) (goesBefore : Fin n → Fin n → Asking n Bool)
    (r : Fin n → Fin n → Prop) (row other : Row n) : Prop :=
  ∀ x ∈ row, ∀ y ∈ other, (goesBefore y x).Ensures cmp fun b => bif b then r y x else r x y

theorem ensures_mergeItem (hx : ∀ y ∈ row, r x y) (hother : other.Pairwise r)
    (hdecides : ∀ y ∈ other, (goesBefore y x).Ensures cmp fun b => bif b then r y x else r x y)
    (hnext : ∀ other' : Row n, other' <:+ other → (next other').Ensures cmp fun s =>
      s.Perm (row ++ other') ∧ s.Pairwise r) :
    (mergeItem goesBefore x next other).Ensures cmp fun s =>
      s.Perm (x :: (row ++ other)) ∧ s.Pairwise r := by
  induction other with
  | nil =>
    rw [mergeItem, ensures_bind]
    refine (hnext [] (List.suffix_refl _)).imp fun s ⟨hperm, hs⟩ =>
      ⟨hperm.cons x, List.pairwise_cons.2 ⟨fun y hy => hx y ?_, hs⟩⟩
    rw [List.append_nil] at hperm
    exact hperm.mem_iff.1 hy
  | cons y other ih =>
    obtain ⟨hy, hother⟩ := List.pairwise_cons.1 hother
    obtain ⟨hdecides, hrest⟩ := List.forall_mem_cons.1 hdecides
    rw [mergeItem, ensures_bind]
    refine hdecides.imp fun b hb => ?_
    cases b with
    | true =>
      have hyx : r y x := hb
      rw [if_pos rfl, ensures_bind]
      have hnext' (other' : Row n) (hsuffix : other' <:+ other) :=
        hnext other' (hsuffix.trans (List.suffix_cons y other))
      refine (ih hother hrest hnext').imp fun s ⟨hperm, hs⟩ =>
        ⟨?_, List.pairwise_cons.2 ⟨fun z hz => ?_, hs⟩⟩
      · exact ((hperm.cons y).trans (.swap x y _)).trans (List.perm_middle.symm.cons x)
      · rcases List.mem_cons.1 (hperm.mem_iff.1 hz) with rfl | hz
        · exact hyx
        · exact (List.mem_append.1 hz).elim (fun hz => trans_of r hyx (hx z hz)) (hy z)
    | false =>
      have hxy : r x y := hb
      rw [if_neg Bool.false_ne_true, ensures_bind]
      refine (hnext _ (List.suffix_refl _)).imp fun s ⟨hperm, hs⟩ =>
        ⟨hperm.cons x, List.pairwise_cons.2 ⟨fun z hz => ?_, hs⟩⟩
      rcases List.mem_append.1 (hperm.mem_iff.1 hz) with hz | hz
      · exact hx z hz
      · exact (List.mem_cons.1 hz).elim (fun hz => hz ▸ hxy) fun hz => trans_of r hxy (hy z hz)

theorem ensures_mergeBy (hrow : row.Pairwise r) (hother : other.Pairwise r)
    (hdecides : Decides cmp goesBefore r row other) :
    (mergeBy goesBefore row other).Ensures cmp fun s =>
      s.Perm (row ++ other) ∧ s.Pairwise r := by
  induction row generalizing other with
  | nil => exact ⟨.refl _, hother⟩
  | cons x row ih =>
    obtain ⟨hx, hrow⟩ := List.pairwise_cons.1 hrow
    obtain ⟨hdecides, hrest⟩ := List.forall_mem_cons.1 hdecides
    refine ensures_mergeItem hx hother hdecides fun other' hsuffix => ?_
    refine ih hrow (hother.sublist hsuffix.sublist) fun y hy z hz => ?_
    exact hrest y hy z (hsuffix.subset hz)

end Merging

instance (place : Fin n → Nat) : IsTrans (Fin n) fun i j => place i < place j :=
  ⟨fun _ _ _ => Nat.lt_trans⟩

instance (place : Fin n → Nat) : IsTrans (Fin n) fun i j => place j < place i :=
  ⟨fun _ _ _ hij hjk => Nat.lt_trans hjk hij⟩

section Rows

variable [Std.TransCmp cmp] (hplaces : Places cmp place) (hsteady : (left ++ right).Steady cmp)
include hplaces hsteady

theorem decides_less : Decides cmp less (fun i j => place i < place j) left right :=
  fun l hl r hr =>
    ensures_less hplaces ((List.pairwise_append.1 hsteady).2.2 l hl r hr) id id

theorem decides_less_reverse : Decides cmp (fun l r => less r l) (fun i j => place j < place i)
    right.reverse left.reverse :=
  fun r hr l hl =>
    ensures_less hplaces ((List.pairwise_append.1 hsteady).2.2 l (List.mem_reverse.1 hl) r
      (List.mem_reverse.1 hr)) id id

variable (hleft : left.Ascends place) (hright : right.Ascends place)
include hleft hright

/-- Merging two sorted parts of a row sorts the row. -/
theorem ensures_merge : (merge left right).Ensures cmp ((left ++ right).SortsTo place) := by
  unfold merge
  split
  · refine (ensures_mergeBy hleft hright (decides_less hplaces hsteady)).imp ?_
    exact fun s ⟨hperm, hs⟩ => ⟨hperm, hs⟩
  · rw [ensures_bind]
    refine (ensures_mergeBy (List.pairwise_reverse.2 hright) (List.pairwise_reverse.2 hleft)
      (decides_less_reverse hplaces hsteady)).imp fun s ⟨hperm, hs⟩ => ⟨?_, ?_⟩
    · rw [← List.reverse_append] at hperm
      exact (List.reverse_perm s).trans (hperm.trans (List.reverse_perm _))
    · exact List.pairwise_reverse.2 hs

end Rows

/-! ## Merging from both ends -/

/-- The items that have been taken from two sorted rows, the last one first, go before what is left
of the rows. -/
structure Taken (r : Fin n → Fin n → Prop) (row other taken row' other' : Row n) : Prop where
  perm : (taken ++ (row' ++ other')).Perm (row ++ other)
  sorted : taken.Pairwise fun i j => r j i
  before : ∀ x ∈ taken, ∀ y ∈ row' ++ other', r x y
  row : row' <:+ row
  other : other' <:+ other

section Taken

variable {r : Fin n → Fin n → Prop} {taken row' other' : Row n}

theorem taken_nil (r : Fin n → Fin n → Prop) (row other : Row n) : Taken r row other [] row other :=
  ⟨.refl _, .nil, nofun, List.suffix_refl _, List.suffix_refl _⟩

theorem Taken.length_eq (h : Taken r row other taken row' other') :
    taken.length + (row'.length + other'.length) = row.length + other.length := by
  have hlength := h.perm.length_eq
  simpa only [List.length_append] using hlength

theorem Taken.next [IsTrans (Fin n) r] {goesBefore : Fin n → Fin n → Asking n Bool}
    (h : Taken r row other taken row' other') (hrow : row.Pairwise r) (hother : other.Pairwise r)
    (hdecides : Decides cmp goesBefore r row other) (hlt : taken.length < row.length)
    (hlt' : taken.length < other.length) :
    (takeNext goesBefore row' other').Ensures cmp fun t =>
      Taken r row other (t.1 :: taken) t.2.1 t.2.2 := by
  have hlength := h.length_eq
  have hrow' := hrow.sublist h.row.sublist
  have hother' := hother.sublist h.other.sublist
  obtain ⟨x, row', rfl⟩ : ∃ x rest, row' = x :: rest :=
    List.exists_cons_of_length_pos (by have := h.other.length_le; omega)
  obtain ⟨y, other', rfl⟩ : ∃ y rest, other' = y :: rest :=
    List.exists_cons_of_length_pos (by have := h.row.length_le; omega)
  obtain ⟨hx, -⟩ := List.pairwise_cons.1 hrow'
  obtain ⟨hy, -⟩ := List.pairwise_cons.1 hother'
  rw [takeNext, ensures_bind]
  have hxy := hdecides x (h.row.subset List.mem_cons_self) y (h.other.subset List.mem_cons_self)
  refine hxy.imp fun b hb => ?_
  have hperm := h.perm
  have hbefore := h.before
  cases b with
  | true =>
    have hyx : r y x := hb
    refine ⟨.trans ?_ hperm, List.pairwise_cons.2 ⟨fun z hz => ?_, h.sorted⟩, ?_, h.row,
      (List.suffix_cons y other').trans h.other⟩
    · exact List.perm_middle.symm.trans (List.perm_middle.symm.append_left taken)
    · exact hbefore z hz y (List.mem_append_right _ List.mem_cons_self)
    · refine List.forall_mem_cons.2 ⟨fun z hz => ?_, fun w hw z hz => hbefore w hw z ?_⟩
      · rcases List.mem_append.1 hz with hz | hz
        · exact (List.mem_cons.1 hz).elim (fun hz => hz ▸ hyx) fun hz => trans_of r hyx (hx z hz)
        · exact hy z hz
      · exact (List.append_sublist_append_left _).2 (List.sublist_cons_self y _) |>.subset hz
  | false =>
    have hxy : r x y := hb
    refine ⟨.trans ?_ hperm, List.pairwise_cons.2 ⟨fun z hz => ?_, h.sorted⟩, ?_,
      (List.suffix_cons x row').trans h.row, h.other⟩
    · exact List.perm_middle.symm
    · exact hbefore z hz x (List.mem_append_left _ List.mem_cons_self)
    · refine List.forall_mem_cons.2 ⟨fun z hz => ?_, fun w hw z hz => hbefore w hw z ?_⟩
      · rcases List.mem_append.1 hz with hz | hz
        · exact hx z hz
        · exact (List.mem_cons.1 hz).elim (fun hz => hz ▸ hxy) fun hz => trans_of r hxy (hy z hz)
      · exact List.mem_cons_of_mem x hz

end Taken

end Row

end TaskletMachine
