import TaskletMachine.Proofs.Library.ShortRows

/-!
# The sort of lists

The runs of a row stand one after the other, each in order or as it was. Joining neighbouring runs
rearranges a part of the row, in which equal items keep their order, and leaves the other parts as
they are; in the end there is one run. Partitioning splits a row at an item into two parts that are
sorted on their own.

## Main definitions

* `Row.Run.IsStart`, `Row.Joined`: a run at the start of a row, and runs that a row has become.
* `Row.ensures_sortRuns`, `Row.ensures_quicksort`: rows are sorted.
* `Sorter.standard_correct`: the sort of lists is correct.
-/
namespace TaskletMachine

namespace Row

open Asking Sorter

variable {n : Nat} {cmp : Fin n → Fin n → Ordering} {place : Fin n → Nat} {row rest : Row n}
  [Std.TransCmp cmp] (hplaces : Places cmp place)

/-! ## Runs at the start of a row -/

/-- Items that stand in one direction. -/
def Goes (place : Fin n → Nat) (descending : Bool) (i j : Fin n) : Prop :=
  bif descending then place j < place i else place i < place j

/-- A run stands for the first items of a row. -/
structure Run.IsStart (cmp : Fin n → Fin n → Ordering) (place : Fin n → Nat) (row : Row n)
    (run : Run n) : Prop where
  perm : run.items.Perm (row.take run.items.length)
  steady : run.items.Steady cmp
  ascends : run.sorted → run.items.Ascends place
  pos : row ≠ [] → 0 < run.items.length

instance (place : Fin n → Nat) (descending : Bool) : IsTrans (Fin n) (Goes place descending) where
  trans _ _ _ hij hjk := by
    cases descending with
    | false => exact Nat.lt_trans hij hjk
    | true => exact Nat.lt_trans hjk hij

section Starts

include hplaces

theorem ensures_runOn (descending : Bool) {last : Fin n} (hsteady : Steady cmp (last :: rest)) :
    (runOn descending last rest).Ensures cmp fun k =>
      k ≤ rest.length ∧ List.IsChain (Goes place descending) (last :: rest.take k) := by
  induction rest generalizing last with
  | nil => exact ⟨Nat.le_refl 0, .singleton last⟩
  | cons x rest ih =>
    obtain ⟨hbefore, hrest⟩ := List.pairwise_cons.1 hsteady
    have hgoes (hgoes : Goes place descending last x) :
        ((runOn descending x rest >>= fun k => pure (k + 1)) : Asking n Nat).Ensures cmp fun k =>
          k ≤ (x :: rest).length ∧
            List.IsChain (Goes place descending) (last :: (x :: rest).take k) := by
      rw [ensures_bind]
      refine (ih hrest).imp fun k ⟨hk, hchain⟩ => ⟨Nat.succ_le_succ hk, ?_⟩
      exact .cons_cons hgoes hchain
    have hstops : (0 : Nat) ≤ (x :: rest).length ∧
        List.IsChain (Goes place descending) (last :: (x :: rest).take 0) :=
      ⟨Nat.zero_le _, .singleton last⟩
    rw [runOn, ensures_bind]
    refine ensures_less hplaces (hbefore x List.mem_cons_self) (fun hlt => ?_) fun hlt => ?_
    · cases descending with
      | true => exact hgoes hlt
      | false => exact hstops
    · cases descending with
      | true => exact hstops
      | false => exact hgoes hlt

theorem ensures_firstRun (hrow : row.Steady cmp) :
    (firstRun row).Ensures cmp fun t =>
      t.1 ≤ row.length ∧ (row ≠ [] → 0 < t.1) ∧ (row.take t.1).Pairwise (Goes place t.2) := by
  match row, hrow with
  | [], _ => exact ⟨Nat.le_refl 0, fun h => absurd rfl h, .nil⟩
  | [x], _ => exact ⟨Nat.le_refl 1, fun _ => Nat.one_pos, List.pairwise_singleton _ x⟩
  | x :: y :: rest, hrow =>
    obtain ⟨hbefore, hrest⟩ := List.pairwise_cons.1 hrow
    have hgoes (descending : Bool) (hgoes : Goes place descending x y) :
        (runOn descending y rest).Ensures cmp fun k => k + 2 ≤ (x :: y :: rest).length ∧
          ((x :: y :: rest) ≠ [] → 0 < k + 2) ∧
          ((x :: y :: rest).take (k + 2)).Pairwise (Goes place descending) := by
      refine (ensures_runOn hplaces descending hrest).imp fun k ⟨hk, hchain⟩ =>
        ⟨Nat.add_le_add_right hk 2, fun _ => Nat.succ_pos _, ?_⟩
      exact List.isChain_iff_pairwise.1 (.cons_cons hgoes hchain)
    rw [firstRun, ensures_bind]
    refine ensures_less hplaces (hbefore y List.mem_cons_self) (fun hlt => ?_) fun hlt => ?_
    · rw [ensures_bind]
      exact hgoes true hlt
    · rw [ensures_bind]
      exact hgoes false hlt

omit [Std.TransCmp cmp] in
/-- Sorting the first items of a row makes a run. -/
theorem isStart_of_sortsTo {items : Row n} {k : Nat} (hk : 0 < k)
    (h : SortsTo place (row.take k) items) : Run.IsStart cmp place row ⟨items, true⟩ := by
  have hlength := h.perm.length_eq
  refine ⟨?_, h.ascends.steady hplaces, fun _ => h.ascends, fun hne => ?_⟩
  · refine h.perm.trans (.of_eq ?_)
    dsimp only
    rw [hlength, List.length_take, ← List.take_eq_take_min]
  · have hpos := List.length_pos_of_ne_nil hne
    rw [List.length_take] at hlength
    exact hlength ▸ Nat.lt_min.2 ⟨hk, hpos⟩

theorem ensures_longRun? {least : Nat} (hrow : row.Steady cmp) (hleast : 0 < least) :
    (longRun? least row).Ensures cmp fun r => ∀ run, r = some run → run.IsStart cmp place row := by
  unfold longRun?
  split
  · exact nofun
  · rw [ensures_bind]
    refine (ensures_firstRun hplaces hrow).imp fun ⟨k, descending⟩ ⟨hk, hpos, hgoes⟩ => ?_
    dsimp only
    split
    · exact nofun
    · next hlong =>
      rintro run ⟨⟩
      refine isStart_of_sortsTo hplaces (k := k) (by omega) ?_
      cases descending with
      | true => exact ⟨List.reverse_perm _, List.pairwise_reverse.2 hgoes⟩
      | false => exact ⟨.refl _, hgoes⟩

theorem ensures_takeRun {least : Nat} (eager : Bool) (hrow : row.Steady cmp) (hleast : 0 < least) :
    (takeRun least eager row).Ensures cmp fun run => run.IsStart cmp place row := by
  unfold takeRun
  rw [ensures_bind]
  refine (ensures_longRun? hplaces hrow hleast).imp fun r hr => ?_
  cases r with
  | some run => exact hr run rfl
  | none =>
    cases eager with
    | true =>
      have hsort := ensures_sortSmall hplaces (hrow.sublist (List.take_sublist shortLength row))
      rw [if_pos rfl, ensures_bind]
      exact hsort.imp fun items h => isStart_of_sortsTo hplaces (by decide) h
    | false =>
      refine ⟨?_, hrow.sublist (List.take_sublist least row), nofun, fun hne => ?_⟩
      · exact .of_eq (by rw [List.length_take, ← List.take_eq_take_min])
      · rw [List.length_take]
        exact Nat.lt_min.2 ⟨hleast, List.length_pos_of_ne_nil hne⟩

end Starts

/-! ## Joining runs -/

theorem leastRun_pos {k : Nat} (hk : 0 < k) : 0 < leastRun k := by
  unfold leastRun
  split
  · omega
  · next hlong =>
    have hlog : 1 ≤ k.log2 := (Nat.le_log2 (by omega)).2 (by omega)
    have hpow : 2 ^ 1 ≤ 1 <<< ((1 + k.log2) / 2) := by
      rw [Nat.one_shiftLeft]
      exact Nat.pow_le_pow_right Nat.two_pos (by omega)
    exact Nat.div_pos (hpow.trans (Nat.le_add_right _ _)) Nat.two_pos

/-- The items of a run are in order, or left for later as they stand in a steady row. -/
structure Run.IsSteady (cmp : Fin n → Fin n → Ordering) (place : Fin n → Nat) (run : Run n) :
    Prop where
  steady : run.items.Steady cmp
  ascends : run.sorted → run.items.Ascends place

/-- The row that consists of runs, the last one first, and more items. -/
def laidOut : List (Run n × Nat) → Row n → Row n
  | [], items => items
  | (run, _) :: earlier, items => laidOut earlier (run.items ++ items)

/-- What a row has become: runs, the last one first, and more items. -/
structure Joined (cmp : Fin n → Fin n → Ordering) (place : Fin n → Nat) (row : Row n)
    (earlier : List (Run n × Nat)) (items : Row n) : Prop where
  perm : (laidOut earlier items).Perm row
  steady : (laidOut earlier items).Steady cmp
  runs : ∀ t ∈ earlier, t.1.IsSteady cmp place

section Joining

variable {earlier : List (Run n × Nat)} {items items' : Row n} {run last : Run n} {d : Nat}

omit [Std.TransCmp cmp] in
theorem laidOut_eq (earlier : List (Run n × Nat)) (items : Row n) :
    laidOut earlier items = laidOut earlier [] ++ items := by
  induction earlier generalizing items with
  | nil => rfl
  | cons t earlier ih =>
    rw [laidOut, laidOut, ih (t.1.items ++ items), ih (t.1.items ++ []), List.append_nil,
      List.append_assoc]

omit [Std.TransCmp cmp] in
theorem Joined.steady_items (h : Joined cmp place row earlier items) : items.Steady cmp := by
  have hsteady := h.steady
  rw [laidOut_eq] at hsteady
  exact (List.pairwise_append.1 hsteady).2.1

omit [Std.TransCmp cmp] in
/-- The items behind the runs can be rearranged. -/
theorem Joined.rearrange (h : Joined cmp place row earlier items) (hperm : items'.Perm items)
    (hsteady : items'.Steady cmp) : Joined cmp place row earlier items' := by
  obtain ⟨hrow, hsteady', hruns⟩ := h
  rw [laidOut_eq] at hrow hsteady'
  refine ⟨?_, ?_, hruns⟩ <;> rw [laidOut_eq]
  · exact (hperm.append_left _).trans hrow
  · exact hsteady'.rearrange (List.pairwise_append.1 hsteady').1 (.refl _) hsteady hperm

omit [Std.TransCmp cmp] in
theorem Joined.push (h : Joined cmp place row earlier (run.items ++ items))
    (hrun : run.IsSteady cmp place) (d : Nat) :
    Joined cmp place row ((run, d) :: earlier) items :=
  ⟨h.perm, h.steady, List.forall_mem_cons.2 ⟨hrun, h.runs⟩⟩

omit [Std.TransCmp cmp] in
theorem Joined.pop (h : Joined cmp place row ((run, d) :: earlier) items) :
    Joined cmp place row earlier (run.items ++ items) ∧ run.IsSteady cmp place :=
  have hruns := List.forall_mem_cons.1 h.runs
  ⟨⟨h.perm, h.steady, hruns.2⟩, hruns.1⟩

variable {quick : Row n → Asking n (Row n)}
  (hquick : ∀ row : Row n, row.Steady cmp → (quick row).Ensures cmp (row.SortsTo place))
include hquick

omit [Std.TransCmp cmp] in
theorem Run.IsSteady.ensures_sort (h : run.IsSteady cmp place) :
    (run.sort quick).Ensures cmp (run.items.SortsTo place) := by
  unfold Run.sort
  split
  · next hsorted => exact ⟨.refl _, h.ascends hsorted⟩
  · exact hquick run.items h.steady

include hplaces

/-- Joining two runs makes a run of their items. -/
theorem ensures_join (space : Nat) (hsteady : (run.items ++ last.items).Steady cmp)
    (hrun : run.IsSteady cmp place) (hlast : last.IsSteady cmp place) :
    (run.join quick space last).Ensures cmp fun joined =>
      joined.items.Perm (run.items ++ last.items) ∧ joined.IsSteady cmp place := by
  unfold Run.join
  split
  · exact ⟨.refl _, hsteady, nofun⟩
  · rw [ensures_bind]
    refine (hrun.ensures_sort hquick).imp fun lefts hlefts => ?_
    rw [ensures_bind]
    refine (hlast.ensures_sort hquick).imp fun rights hrights => ?_
    have hparts := hsteady.rearrange (hlefts.ascends.steady hplaces) hlefts.perm
      (hrights.ascends.steady hplaces) hrights.perm
    rw [ensures_bind]
    refine (ensures_merge hplaces hparts hlefts.ascends hrights.ascends).imp fun s hs => ?_
    exact ⟨hs.perm.trans (hlefts.perm.append hrights.perm), hs.ascends.steady hplaces,
      fun _ => hs.ascends⟩

theorem ensures_collapse (space depth : Nat)
    (h : Joined cmp place row earlier (last.items ++ rest)) (hlast : last.IsSteady cmp place) :
    (collapse quick space depth earlier last).Ensures cmp fun t =>
      Joined cmp place row t.1 (t.2.items ++ rest) ∧ t.2.IsSteady cmp place ∧
        (depth = 0 → t.1 = []) := by
  induction earlier generalizing last with
  | nil => exact ⟨h, hlast, fun _ => rfl⟩
  | cons t earlier ih =>
    obtain ⟨run, d⟩ := t
    rw [collapse]
    split
    · obtain ⟨hjoined, hrun⟩ := h.pop
      have hsteady := hjoined.steady_items
      rw [← List.append_assoc] at hsteady
      rw [ensures_bind]
      refine (ensures_join hplaces hquick space (List.pairwise_append.1 hsteady).1 hrun
        hlast).imp fun joined ⟨hperm, hjoinedRun⟩ => ih ?_ hjoinedRun
      refine hjoined.rearrange ?_ ?_
      · rw [← List.append_assoc]
        exact hperm.append_right rest
      · exact hsteady.rearrange hjoinedRun.steady hperm
          (List.pairwise_append.1 hsteady).2.1 (.refl _)
    · next hdepth => exact ⟨h, hlast, fun hzero => absurd (hzero ▸ Nat.zero_le d) hdepth⟩

/-- At the end of the row all runs are joined. -/
theorem ensures_joinLast (space total : Nat) (eager : Bool) (least k : Nat)
    (h : Joined cmp place row earlier (last.items ++ [])) (hlast : last.IsSteady cmp place) :
    (joinRuns quick space least total eager k earlier last []).Ensures cmp fun run =>
      run.items.Perm row ∧ run.IsSteady cmp place := by
  rw [joinRuns, ensures_bind]
  refine (ensures_collapse hplaces hquick space 0 h hlast).imp
    fun ⟨earlier, run⟩ ⟨hjoined, hrun, hnil⟩ => ⟨?_, hrun⟩
  obtain rfl : earlier = [] := hnil rfl
  have hperm := hjoined.perm
  rwa [List.append_nil] at hperm

/-- The runs of a row become one run. -/
theorem ensures_joinRuns (space total : Nat) (eager : Bool) {least : Nat} (hleast : 0 < least)
    {k : Nat} (hk : rest.length ≤ k) (h : Joined cmp place row earlier (last.items ++ rest))
    (hlast : last.IsSteady cmp place) :
    (joinRuns quick space least total eager k earlier last rest).Ensures cmp fun run =>
      run.items.Perm row ∧ run.IsSteady cmp place := by
  induction k generalizing earlier last rest with
  | zero =>
    obtain rfl := List.eq_nil_of_length_eq_zero (Nat.le_zero.1 hk)
    exact ensures_joinLast hplaces hquick space total eager least 0 h hlast
  | succ k ih =>
    cases rest with
    | nil => exact ensures_joinLast hplaces hquick space total eager least (k + 1) h hlast
    | cons x rest =>
      obtain ⟨-, hrest, -⟩ := List.pairwise_append.1 h.steady_items
      rw [joinRuns, ensures_bind]
      refine (ensures_takeRun hplaces eager hrest hleast).imp fun run hrun => ?_
      dsimp only
      rw [ensures_bind]
      refine (ensures_collapse hplaces hquick space _ h hlast).imp
        fun ⟨earlier, joined⟩ ⟨hjoined, hsteady, _⟩ => ?_
      have hparts := List.take_append_drop run.items.length (x :: rest)
      have hdrop := hrest.sublist (List.drop_sublist run.items.length (x :: rest))
      refine ih ?_ ((hjoined.push hsteady _).rearrange ?_ ?_) ⟨hrun.steady, hrun.ascends⟩
      · have hpos := hrun.pos (List.cons_ne_nil x rest)
        rw [List.length_drop]
        omega
      · exact (hrun.perm.append_right _).trans (.of_eq hparts)
      · exact Steady.rearrange (hparts.symm ▸ hrest) hrun.steady hrun.perm hdrop (.refl _)

/-- A row is sorted by its runs, if what they leave for later is. -/
theorem ensures_sortRuns (space : Nat) (eager : Bool) (hrow : row.Steady cmp) (hne : row ≠ []) :
    (sortRuns quick space eager row).Ensures cmp (row.SortsTo place) := by
  have hleast := leastRun_pos (List.length_pos_of_ne_nil hne)
  unfold sortRuns
  dsimp only
  rw [ensures_bind]
  refine (ensures_takeRun hplaces eager hrow hleast).imp fun first hfirst => ?_
  have hparts := List.take_append_drop first.items.length row
  have hdrop := hrow.sublist (List.drop_sublist first.items.length row)
  have hjoined : Joined cmp place row [] (first.items ++ row.drop first.items.length) :=
    ⟨(hfirst.perm.append_right _).trans (.of_eq hparts),
      Steady.rearrange (hparts.symm ▸ hrow) hfirst.steady hfirst.perm hdrop (.refl _), nofun⟩
  rw [ensures_bind]
  refine (ensures_joinRuns hplaces hquick space row.length eager hleast ?_ hjoined
    ⟨hfirst.steady, hfirst.ascends⟩).imp fun run ⟨hperm, hrun⟩ => ?_
  · rw [List.length_drop]
    exact Nat.sub_le _ _
  · exact (hrun.ensures_sort hquick).imp fun sorted h => h.trans hperm

end Joining

/-! ## Partitions -/

section Partitions

variable {pivot : Fin n} {ancestor : Option (Fin n)} {q : Fin n → Bool} {lefts rights : Row n}

omit [Std.TransCmp cmp] in
theorem ensures_median (a b c : Fin n) :
    (median a b c).Ensures cmp fun m => m = a ∨ m = b ∨ m = c := by
  unfold median
  simp only [ensures_bind, Asking.ensures_less]
  split
  · rw [ensures_bind, Asking.ensures_less]
    split
    · exact .inr (.inl rfl)
    · exact .inr (.inr rfl)
  · exact .inl rfl

omit [Std.TransCmp cmp] in
theorem ensures_choosePivot (levels : Nat) (hrow : row ≠ []) :
    (choosePivot levels row).Ensures cmp (· ∈ row) := by
  induction levels generalizing row with
  | zero =>
    cases row with
    | nil => exact absurd rfl hrow
    | cons x rest => exact List.mem_cons_self
  | succ levels ih =>
    cases row with
    | nil => exact absurd rfl hrow
    | cons x rest =>
      unfold choosePivot
      dsimp only
      generalize hwhole : x :: rest = row
      split
      · exact hwhole ▸ List.mem_cons_self
      · next hlength =>
        -- an item for an eighth of the row
        have hpart (k : Nat) (hk : k < row.length) :
            (choosePivot levels ((row.drop k).take (row.length / 8))).Ensures cmp (· ∈ row) := by
          refine (ih ?_).imp fun y hy => List.mem_of_mem_drop (List.mem_of_mem_take hy)
          rw [← List.length_pos_iff, List.length_take, List.length_drop]
          omega
        rw [ensures_bind]
        refine (hpart 0 (by omega)).imp fun a ha => ?_
        rw [ensures_bind]
        refine (hpart (4 * (row.length / 8)) (by omega)).imp fun b hb => ?_
        rw [ensures_bind]
        refine (hpart (7 * (row.length / 8)) (by omega)).imp fun c hc => ?_
        refine (ensures_median a b c).imp fun m hm => ?_
        rcases hm with rfl | rfl | rfl
        · exact ha
        · exact hb
        · exact hc

omit [Std.TransCmp cmp] in
theorem ensures_partition {goesLeft : Fin n → Asking n Bool} {pivotLeft : Bool}
    (hpivot : q pivot = pivotLeft)
    (hq : ∀ x ∈ row, x ≠ pivot → (goesLeft x).Ensures cmp (· = q x)) :
    (partition goesLeft pivot pivotLeft row).Ensures cmp fun t =>
      t = (row.filter q, row.filter (!q ·)) := by
  induction row with
  | nil => rfl
  | cons x rest ih =>
    obtain ⟨hx, hrest⟩ := List.forall_mem_cons.1 hq
    have hside : (side goesLeft pivot pivotLeft x).Ensures cmp (· = q x) := by
      unfold side
      split
      · next heq => exact heq ▸ hpivot.symm
      · next hne => exact hx hne
    rw [partition, ensures_bind]
    refine hside.imp fun left hleft => ?_
    rw [ensures_bind]
    refine (ih hrest).imp fun t ht => ?_
    subst hleft ht
    cases hqx : q x <;> simp [hqx]

omit [Std.TransCmp cmp] in
/-- Sorting both parts of a row sorts the row. -/
theorem sortsTo_append (hlefts : SortsTo place (row.filter q) lefts)
    (hrights : SortsTo place (row.filter (!q ·)) rights)
    (hlt : ∀ x ∈ row, q x = true → ∀ y ∈ row, q y = false → place x < place y) :
    row.SortsTo place (lefts ++ rights) := by
  refine ⟨(hlefts.perm.append hrights.perm).trans (List.filter_append_perm q row), ?_⟩
  refine List.pairwise_append.2 ⟨hlefts.ascends, hrights.ascends, fun x hx y hy => ?_⟩
  obtain ⟨hx, hqx⟩ := List.mem_filter.1 (hlefts.perm.mem_iff.1 hx)
  obtain ⟨hy, hqy⟩ := List.mem_filter.1 (hrights.perm.mem_iff.1 hy)
  exact hlt x hx hqx y hy (by simpa using hqy)

theorem ensures_partition_less (pivot : Fin n) (row : Row n) :
    (partition (fun x => less x pivot) pivot false row).Ensures cmp fun t =>
      t = (row.filter fun x => cmp x pivot == .lt, row.filter fun x => !(cmp x pivot == .lt)) := by
  have hself : cmp pivot pivot = .eq := Std.ReflCmp.compare_self
  have hpivot : (cmp pivot pivot == .lt) = false := by
    rw [hself]
    rfl
  have hless (x : Fin n) : (less x pivot).Ensures cmp (· = (cmp x pivot == .lt)) := rfl
  exact ensures_partition (q := fun x => cmp x pivot == .lt) hpivot fun x _ _ => hless x

theorem ensures_partition_notLess (pivot : Fin n) (row : Row n) :
    (partition (fun x => notLess pivot x) pivot true row).Ensures cmp fun t =>
      t = (row.filter fun x => !(cmp pivot x == .lt),
        row.filter fun x => !!(cmp pivot x == .lt)) := by
  have hself : cmp pivot pivot = .eq := Std.ReflCmp.compare_self
  have hpivot : (!(cmp pivot pivot == .lt)) = true := by
    rw [hself]
    rfl
  have hless (x : Fin n) : (notLess pivot x).Ensures cmp (· = !(cmp pivot x == .lt)) := rfl
  exact ensures_partition (q := fun x => !(cmp pivot x == .lt)) hpivot fun x _ _ => hless x

theorem isLE_of_not_lt {i j : Fin n} (h : cmp i j ≠ .lt) : (cmp j i).isLE := by
  cases hji : cmp j i with
  | gt => exact absurd (Std.OrientedCmp.gt_iff_lt.1 hji) h
  | _ => rfl

/-- No item is less than a pivot that repeats an earlier one. -/
theorem ensures_splitLess (hancestor : ∀ a, ancestor = some a → ∀ x ∈ row, cmp x a ≠ .lt) :
    (splitLess pivot ancestor row).Ensures cmp fun t =>
      t.1 = [] ∧ (∀ x ∈ row, cmp x pivot ≠ .lt) ∨
      t = (row.filter fun x => cmp x pivot == .lt, row.filter fun x => !(cmp x pivot == .lt)) := by
  have hrepeats : (repeats pivot ancestor).Ensures cmp fun b =>
      b = true → ∀ x ∈ row, cmp x pivot ≠ .lt := by
    cases ancestor with
    | none => exact nofun
    | some a =>
      rw [repeats, ensures_notLess]
      intro hnot x hx hlt
      rw [Bool.not_eq_true', beq_eq_false_iff_ne] at hnot
      exact hancestor a rfl x hx (Std.TransCmp.lt_of_lt_of_isLE hlt (isLE_of_not_lt hnot))
  unfold splitLess
  rw [ensures_bind]
  refine hrepeats.imp fun b hb => ?_
  cases b with
  | true => exact .inl ⟨rfl, hb rfl⟩
  | false =>
    exact (ensures_partition_less pivot row).imp fun t ht => .inr ht

include hplaces

/-- Items that equal a least one stand in the final order. -/
theorem sortsTo_same (hrow : row.Steady cmp) (hleast : ∀ x ∈ row, cmp x pivot ≠ .lt) :
    SortsTo place (row.filter fun x => !(cmp pivot x == .lt))
      (row.filter fun x => !(cmp pivot x == .lt)) := by
  have hsame {x : Fin n} (hx : x ∈ row.filter fun x => !(cmp pivot x == .lt)) :
      cmp x pivot = .eq := by
    obtain ⟨hx, hnot⟩ := List.mem_filter.1 hx
    rw [Bool.not_eq_true', beq_eq_false_iff_ne] at hnot
    cases hxp : cmp x pivot with
    | eq => rfl
    | lt => exact absurd hxp (hleast x hx)
    | gt => exact absurd (Std.OrientedCmp.gt_iff_lt.1 hxp) hnot
  refine ⟨.refl _, (hrow.sublist List.filter_sublist).imp_of_mem fun hx hy hbefore => ?_⟩
  refine lt_of_not_less hplaces hbefore ?_
  rw [Std.TransCmp.eq_trans (hsame hy) (Std.OrientedCmp.eq_symm (hsame hx))]
  exact nofun

/-- Rows are sorted by partitioning. -/
theorem ensures_quicksort (space levels : Nat) (hrow : row.Steady cmp)
    (hancestor : ∀ a, ancestor = some a → ∀ x ∈ row, cmp x a ≠ .lt) :
    (quicksort space levels ancestor row).Ensures cmp (row.SortsTo place) := by
  induction levels generalizing row ancestor with
  | zero =>
    unfold quicksort
    split
    · exact ensures_sortSmall hplaces hrow
    · next hlong =>
      refine ensures_sortRuns hplaces (fun row h => ensures_sortSmall hplaces h) space true hrow ?_
      rintro rfl
      exact hlong (Nat.zero_le _)
  | succ levels ih =>
    rw [quicksort]
    split
    · exact ensures_sortSmall hplaces hrow
    · next hlong =>
      have hne : row ≠ [] := by
        rintro rfl
        exact hlong (Nat.zero_le _)
      have hpart (q : Fin n → Bool) : Steady cmp (row.filter q) :=
        hrow.sublist List.filter_sublist
      rw [ensures_bind]
      refine (ensures_choosePivot row.length hne).imp fun pivot hpivot => ?_
      rw [ensures_bind]
      refine (ensures_splitLess hancestor).imp fun ⟨lefts, rights⟩ hsplit => ?_
      dsimp only at hsplit ⊢
      split
      · next hnil =>
        have hleast : ∀ x ∈ row, cmp x pivot ≠ .lt := by
          rcases hsplit with ⟨-, hleast⟩ | heq
          · exact hleast
          · obtain ⟨rfl, -⟩ := Prod.mk.inj heq
            exact fun x hx hlt => List.filter_eq_nil_iff.1 (List.isEmpty_iff.1 hnil) x hx
              (beq_iff_eq.2 hlt)
        rw [ensures_bind]
        refine (ensures_partition_notLess pivot row).imp fun t ht => ?_
        subst ht
        rw [ensures_bind]
        refine (ih (hpart _) fun a (h : none = some a) => nomatch h).imp fun rights hrights => ?_
        refine sortsTo_append (sortsTo_same hplaces hrow hleast) hrights fun x _ hqx y _ hqy => ?_
        rw [Bool.not_eq_true', beq_eq_false_iff_ne] at hqx
        rw [Bool.not_eq_false', beq_iff_eq] at hqy
        exact lt_of_less hplaces (Std.TransCmp.lt_of_isLE_of_lt (isLE_of_not_lt hqx) hqy)
      · next hcons =>
        obtain ⟨rfl, rfl⟩ : lefts = row.filter (fun x => cmp x pivot == .lt) ∧
            rights = row.filter fun x => !(cmp x pivot == .lt) := by
          rcases hsplit with ⟨hnil, -⟩ | heq
          · exact absurd (List.isEmpty_iff.2 hnil) hcons
          · exact Prod.mk.inj heq
        have hrights : ∀ a, some pivot = some a →
            ∀ x ∈ row.filter (fun x => !(cmp x pivot == .lt)), cmp x a ≠ .lt := by
          rintro _ ⟨⟩ x hx
          simpa using (List.mem_filter.1 hx).2
        rw [ensures_bind]
        refine (ih (hpart _) hrights).imp fun rights hrights => ?_
        rw [ensures_bind]
        refine (ih (hpart _) fun a ha x hx => hancestor a ha x (List.mem_filter.1 hx).1).imp
          fun lefts hlefts => ?_
        refine sortsTo_append hlefts hrights fun x _ hqx y _ hqy => ?_
        rw [beq_iff_eq] at hqx
        rw [beq_eq_false_iff_ne] at hqy
        exact lt_of_less hplaces (Std.TransCmp.lt_of_lt_of_isLE hqx (isLE_of_not_lt hqy))

end Partitions

end Row

/-! ## The whole sort -/

namespace Sorter

variable {n : Nat} {cmp : Fin n → Fin n → Ordering} {place : Fin n → Nat}

theorem isStable_of_sortsTo {order : Row n} (hplaces : Places cmp place)
    (h : Row.SortsTo place (List.finRange n) order) : IsStable (fun i j o => cmp i j = o) order :=
  ⟨h.perm, h.ascends.imp (hplaces _ _).1⟩

theorem steady_finRange (cmp : Fin n → Fin n → Ordering) : Row.Steady cmp (List.finRange n) :=
  (List.pairwise_lt_finRange n).imp (S := Before cmp) fun hlt _ => hlt

/-- **The sort of lists is correct.** -/
theorem standard_correct (n : Nat) : (standard n).Correct := by
  constructor
  · intro i j hasks
    by_contra hfew
    match n, i, j, hfew, hasks with
    | 0, i, _, _, _ => exact i.elim0
    | 1, _, _, _, hasks => cases hasks
    | n + 2, _, _, hfew, _ => exact hfew (Nat.le_add_left 2 n)
  · intro cmp htrans
    obtain ⟨place, hplaces⟩ := exists_places cmp
    have hsteady := steady_finRange cmp
    unfold standard
    split
    · exact (Row.ensures_insertAll_nil hplaces hsteady).imp fun order h =>
        isStable_of_sortsTo hplaces h
    · next hmany =>
      have hne : List.finRange n ≠ [] := by
        rw [← List.length_pos_iff, List.length_finRange]
        omega
      have hquick (row : Row n) (hrow : row.Steady cmp) :
          (Row.quicksort (space n) (2 * row.length.log2) none row).Ensures cmp
            (row.SortsTo place) :=
        Row.ensures_quicksort hplaces _ _ hrow fun a (h : none = some a) => nomatch h
      exact (Row.ensures_sortRuns hplaces hquick _ _ hsteady hne).imp fun order h =>
        isStable_of_sortsTo hplaces h

/-- Sorting by insertion does not break off, whatever the answers are. -/
theorem run_standard_ne_none {ε : Type} {compare : Fin n → Fin n → Except ε Ordering}
    (hn : n ≤ 20) : (standard n).run compare none ≠ none := by
  unfold standard insertion
  rw [if_pos hn]
  exact (Row.completes_insertAll _ _).run_ne_none none

end Sorter

end TaskletMachine
