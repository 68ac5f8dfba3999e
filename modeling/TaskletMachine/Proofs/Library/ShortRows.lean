import TaskletMachine.Proofs.Library.Merging

/-!
# Sorting short rows

The halves of a short row are merged from both ends at once. With the answers of an order, what is
taken at the front and at the back are the first and the last items of the sorted row, so that the
two ends meet in both halves.

## Main definitions

* `Row.Ends.Reached`: what has been taken from both ends.
* `Row.ensures_mergeEnds`: the ends meet.
* `Row.ensures_sortSmall`: short rows are sorted.
-/
namespace TaskletMachine.Row

open Asking Sorter

variable {n : Nat} {cmp : Fin n → Fin n → Ordering} {place : Fin n → Nat}
  {row sorted left right : Row n}

/-! ## Steady rows -/

/-- Parts of a steady row can be rearranged. -/
theorem Steady.rearrange {left' right' : Row n} (h : (left ++ right).Steady cmp)
    (hleft : left'.Steady cmp) (hperm : left'.Perm left) (hright : right'.Steady cmp)
    (hperm' : right'.Perm right) : (left' ++ right').Steady cmp :=
  List.pairwise_append.2 ⟨hleft, hright, fun i hi j hj =>
    (List.pairwise_append.1 h).2.2 i (hperm.mem_iff.1 hi) j (hperm'.mem_iff.1 hj)⟩

section Steady

variable [Std.TransCmp cmp]

theorem Steady.nodup (h : row.Steady cmp) : row.Nodup := by
  refine h.imp fun hbefore heq => ?_
  subst heq
  exact (hbefore Std.ReflCmp.compare_self).false

/-- Every steady row has an ascending order. -/
theorem Steady.exists_sortsTo (h : row.Steady cmp) (hplaces : Places cmp place) :
    ∃ sorted, row.SortsTo place sorted :=
  (ensures_insertAll_nil hplaces h).exists

end Steady

/-! ## Both ends -/

/-- What has been taken from two sorted rows at the front and at the back. -/
structure Ends.Reached (place : Fin n → Nat) (left right : Row n) (e : Ends n) (k : Nat) :
    Prop where
  front : Taken (fun i j => place i < place j) left right e.front e.left e.right
  back : Taken (fun i j => place j < place i) right.reverse left.reverse e.back e.rightBack
    e.leftBack
  length_front : e.front.length = k
  length_back : e.back.length = k

section Ends

variable [Std.TransCmp cmp] (hplaces : Places cmp place) (hsteady : (left ++ right).Steady cmp)
  (hleft : left.Ascends place) (hright : right.Ascends place) {e : Ends n} {k t : Nat}
include hplaces hsteady hleft hright

theorem ensures_take (h : e.Reached place left right t) (hl : t + k ≤ left.length)
    (hr : t + k ≤ right.length) :
    (Ends.take k e).Ensures cmp fun e' => e'.Reached place left right (t + k) := by
  induction k generalizing t e with
  | zero => exact h
  | succ k ih =>
    rw [Ends.take, ensures_bind]
    have hfront := h.front.next hleft hright (decides_less hplaces hsteady)
      (by rw [h.length_front]; omega) (by rw [h.length_front]; omega)
    refine hfront.imp fun ⟨x, left', right'⟩ hfront => ?_
    dsimp only
    rw [ensures_bind]
    have hback := h.back.next (List.pairwise_reverse.2 hright) (List.pairwise_reverse.2 hleft)
      (decides_less_reverse hplaces hsteady)
      (by rw [h.length_back, List.length_reverse]; omega)
      (by rw [h.length_back, List.length_reverse]; omega)
    refine hback.imp fun ⟨y, rightBack', leftBack'⟩ hback => ?_
    have hreached : Ends.Reached place left right
        { front := x :: e.front, left := left', right := right', leftBack := leftBack',
          rightBack := rightBack', back := y :: e.back } (t + 1) :=
      ⟨hfront, hback, congrArg (· + 1) h.length_front, congrArg (· + 1) h.length_back⟩
    have htake := ih hreached (by omega) (by omega)
    rwa [Nat.add_right_comm, Nat.add_assoc] at htake

omit hplaces hsteady hleft hright [Std.TransCmp cmp] in
/-- What has been taken at the front goes before the rest in order. -/
theorem sortsTo_front {taken left' right' rest : Row n}
    (h : Taken (fun i j => place i < place j) left right taken left' right')
    (hrest : (left' ++ right').SortsTo place rest) :
    (left ++ right).SortsTo place (taken.reverse ++ rest) := by
  refine ⟨((List.reverse_perm _).append hrest.perm).trans h.perm, ?_⟩
  refine List.pairwise_append.2 ⟨List.pairwise_reverse.2 h.sorted, hrest.ascends, ?_⟩
  exact fun x hx y hy => h.before x (List.mem_reverse.1 hx) y (hrest.perm.mem_iff.1 hy)

omit hplaces hsteady hleft hright [Std.TransCmp cmp] in
/-- What has been taken at the back goes behind the rest in order. -/
theorem sortsTo_back {taken left' right' rest : Row n}
    (h : Taken (fun i j => place j < place i) right.reverse left.reverse taken right' left')
    (hrest : SortsTo place (left'.reverse ++ right'.reverse) rest) :
    (left ++ right).SortsTo place (rest ++ taken) := by
  have hperm : rest.Perm (right' ++ left') := by
    rw [← List.reverse_append] at hrest
    exact hrest.perm.trans (List.reverse_perm _)
  have hwhole := h.perm
  rw [← List.reverse_append] at hwhole
  refine ⟨.trans ?_ (hwhole.trans (List.reverse_perm _)), ?_⟩
  · exact (hperm.append_right _).trans List.perm_append_comm
  · exact List.pairwise_append.2 ⟨hrest.ascends, h.sorted, fun x hx y hy =>
      h.before y hy x (hperm.mem_iff.1 hx)⟩

omit hleft hright in
/-- What has been taken at both ends are the first and the last items of the sorted row. -/
theorem Ends.Reached.exists_middle (h : e.Reached place left right k)
    (hk : k + k ≤ left.length + right.length) :
    ∃ middle : Row n, middle.length + (k + k) = left.length + right.length ∧
      (left ++ right).SortsTo place (e.front.reverse ++ (middle ++ e.back)) ∧
      (e.left ++ e.right).SortsTo place (middle ++ e.back) ∧
      (e.leftBack ++ e.rightBack).Perm (e.front.reverse ++ middle) := by
  have hpart (row row' : Row n) (h : row' <:+ row.reverse) : row'.reverse.Sublist row := by
    have hreverse := h.sublist.reverse
    rwa [List.reverse_reverse] at hreverse
  -- the whole row is sorted from what is left at either end
  obtain ⟨rest, hrest⟩ := Steady.exists_sortsTo
    (hsteady.sublist (h.front.row.sublist.append h.front.other.sublist)) hplaces
  obtain ⟨rest', hrest'⟩ := Steady.exists_sortsTo
    (hsteady.sublist ((hpart _ _ h.back.other).append (hpart _ _ h.back.row))) hplaces
  have hfront := sortsTo_front h.front hrest
  have hback := sortsTo_back h.back hrest'
  have hlength := hback.perm.length_eq
  rw [List.length_append, List.length_append, h.length_back] at hlength
  have hlt : e.front.reverse.length ≤ rest'.length := by
    rw [List.length_reverse, h.length_front]
    omega
  obtain ⟨middle, rfl, rfl⟩ : ∃ middle, rest' = e.front.reverse ++ middle ∧
      rest = middle ++ e.back := by
    have heq := hfront.eq_of_perm hback.ascends hback.perm
    obtain ⟨middle, rfl⟩ := List.prefix_of_prefix_length_le (List.prefix_append _ rest)
      (heq ▸ List.prefix_append rest' e.back) hlt
    rw [List.append_assoc] at heq
    exact ⟨middle, rfl, (List.append_cancel_left heq).symm⟩
  refine ⟨middle, ?_, hfront, hrest, ?_⟩
  · rw [List.length_append, List.length_reverse, h.length_front] at hlength
    omega
  · exact ((List.reverse_perm _).append (List.reverse_perm _)).symm.trans hrest'.perm.symm

omit hsteady hleft hright hplaces in
/-- The first item of an ascending row is its least one. -/
theorem Ascends.take_one {x : Fin n} {row rest : Row n} (h : row.Ascends place) (hx : x ∈ row)
    (hleast : ∀ y ∈ row, y ∈ x :: rest) (hrest : Ascends place (x :: rest)) :
    row.take 1 = [x] := by
  cases row with
  | nil => cases hx
  | cons y row =>
    rcases List.mem_cons.1 hx with rfl | hx
    · rfl
    · have hlt := (List.pairwise_cons.1 h).1 x hx
      rcases List.mem_cons.1 (hleast y List.mem_cons_self) with rfl | hy
      · rfl
      · exact absurd hlt ((List.pairwise_cons.1 hrest).1 y hy).asymm

omit hplaces hleft hright in
/-- What both directions have left of a half is the half, but for what is left between the ends. -/
theorem Ends.Reached.length_add (h : e.Reached place left right k) {middle : Row n}
    (hsorts : (left ++ right).SortsTo place (e.front.reverse ++ (middle ++ e.back)))
    (hlast : (e.left ++ e.right).SortsTo place (middle ++ e.back))
    (hfirst : (e.leftBack ++ e.rightBack).Perm (e.front.reverse ++ middle)) :
    e.left.length + e.leftBack.length = left.length + middle.countP (· ∈ left) := by
  have hdisjoint := List.disjoint_of_nodup_append hsteady.nodup
  -- the items of the left half among those that are left in either direction
  have hcount {row row' : Row n} (hrow : row ⊆ left) (hrow' : row' ⊆ right) :
      (row ++ row').countP (· ∈ left) = row.length := by
    have hall : row.countP (· ∈ left) = row.length :=
      List.countP_eq_length.2 fun x hx => decide_eq_true (hrow hx)
    have hnone : row'.countP (· ∈ left) = 0 :=
      List.countP_eq_zero.2 fun x hx hmem =>
        hdisjoint (of_decide_eq_true hmem) (hrow' hx)
    rw [List.countP_append, hall, hnone, Nat.add_zero]
  have hleft := hcount h.front.row.subset h.front.other.subset
  have hback := hcount (fun x hx => List.mem_reverse.1 (h.back.other.subset hx))
    (fun x hx => List.mem_reverse.1 (h.back.row.subset hx))
  have hwhole := hcount (List.Subset.refl left) (List.Subset.refl right)
  rw [← hlast.perm.countP_eq] at hleft
  rw [hfirst.countP_eq] at hback
  rw [← hsorts.perm.countP_eq] at hwhole
  simp only [List.countP_append] at hleft hback hwhole
  omega

omit hplaces in
/-- The item that is left between the ends is taken from the half to which it belongs, so that the
ends meet in both halves. -/
theorem Ends.Reached.takeMiddle (h : e.Reached place left right k) {x : Fin n}
    (hlast : (e.left ++ e.right).SortsTo place ([x] ++ e.back))
    (hlefts : e.left.length + e.leftBack.length = left.length + [x].countP (· ∈ left))
    (hboth : e.left.length + e.leftBack.length + (e.right.length + e.rightBack.length) =
      left.length + right.length + 1) :
    let e' := e.takeMiddle left.length
    e'.front = x :: e.front ∧ e'.back = e.back ∧
      e'.left.length + e'.leftBack.length = left.length ∧
      e'.right.length + e'.rightBack.length = right.length := by
  have hmem : x ∈ e.left ++ e.right := hlast.perm.mem_iff.1 List.mem_cons_self
  have htake {row : Row n} (hrow : row.Ascends place) (hx : x ∈ row)
      (hsubset : row ⊆ e.left ++ e.right) : row.take 1 = [x] :=
    hrow.take_one hx (fun y hy => hlast.perm.mem_iff.2 (hsubset hy)) hlast.ascends
  unfold Ends.takeMiddle
  by_cases hx : x ∈ left
  · have hcount : [x].countP (· ∈ left) = 1 := List.countP_eq_length.2 (by simpa using hx)
    have hxleft : x ∈ e.left := (List.mem_append.1 hmem).resolve_right fun hxright =>
      List.disjoint_of_nodup_append hsteady.nodup hx (h.front.other.subset hxright)
    have hpos := List.length_pos_of_mem hxleft
    rw [if_pos (by omega), htake (hleft.sublist h.front.row.sublist) hxleft
      (List.subset_append_left _ _)]
    dsimp only
    rw [List.length_drop]
    exact ⟨rfl, rfl, by omega, by omega⟩
  · have hcount : [x].countP (· ∈ left) = 0 := List.countP_eq_zero.2 (by simpa using hx)
    have hxright : x ∈ e.right := (List.mem_append.1 hmem).resolve_left fun hxleft =>
      hx (h.front.row.subset hxleft)
    have hpos := List.length_pos_of_mem hxright
    rw [if_neg (by omega), htake (hright.sublist h.front.other.sublist) hxright
      (List.subset_append_right _ _)]
    dsimp only
    rw [List.length_drop]
    exact ⟨rfl, rfl, by omega, by omega⟩

/-- Merging the sorted halves of a row from both ends sorts the row: the ends meet. -/
theorem ensures_mergeEnds (hle : left.length ≤ right.length)
    (hle' : right.length ≤ left.length + 1) :
    (mergeEnds left right).Ensures cmp ((left ++ right).SortsTo place) := by
  have hhalf : (left.length + right.length) / 2 = left.length := by omega
  have hstart : Ends.Reached place left right
      { left, right, leftBack := left.reverse, rightBack := right.reverse } 0 :=
    ⟨taken_nil _ left right, taken_nil _ right.reverse left.reverse, rfl, rfl⟩
  have htake := ensures_take hplaces hsteady hleft hright hstart (k := left.length)
    (by omega) (by omega)
  unfold mergeEnds
  dsimp only
  rw [ensures_bind, hhalf]
  refine htake.imp fun e he => ?_
  rw [Nat.zero_add] at he
  obtain ⟨middle, hmiddle, hsorts, hlast, hfirst⟩ :=
    he.exists_middle hplaces hsteady (by omega)
  have hlefts := he.length_add hsteady hsorts hlast hfirst
  have hfront := he.front.length_eq
  have hback := he.back.length_eq
  rw [he.length_front] at hfront
  rw [he.length_back, List.length_reverse, List.length_reverse] at hback
  by_cases heven : (left.length + right.length) % 2 = 0
  · obtain rfl : middle = [] := List.eq_nil_of_length_eq_zero (by omega)
    rw [List.countP_nil] at hlefts
    rw [if_pos heven, if_pos ⟨by omega, by omega⟩]
    exact hsorts
  · obtain ⟨x, rfl⟩ := List.length_eq_one_iff.1 (show middle.length = 1 by omega)
    obtain ⟨hfront', hback', hmeet, hmeet'⟩ :=
      he.takeMiddle hsteady hleft hright hlast hlefts (by omega)
    rw [if_neg heven, if_pos ⟨hmeet, hmeet'⟩, hfront', hback', List.reverse_cons,
      List.append_assoc]
    exact hsorts

end Ends

/-! ## Four items -/

section Four

variable {a b c d w x y z : Fin n}

theorem sortsTo_four (hperm : [w, x, y, z].Perm row) (hwx : place w < place x)
    (hxy : place x < place y) (hyz : place y < place z) : SortsTo place row [w, x, y, z] := by
  refine ⟨hperm, ?_⟩
  simp only [Ascends, List.pairwise_cons, List.forall_mem_cons]
  grind

variable [Std.TransCmp cmp] (hplaces : Places cmp place)
include hplaces

theorem ensures_mergePairs (hab : place a < place b) (hcd : place c < place d)
    (hac : Before cmp a c) (had : Before cmp a d) (hbc : Before cmp b c) (hbd : Before cmp b d) :
    (mergePairs a b c d).Ensures cmp (SortsTo place [a, b, c, d]) := by
  unfold mergePairs
  rw [ensures_bind]
  refine ensures_less hplaces hac (fun hca => ?_) fun hac => ?_ <;>
    rw [ensures_bind] <;>
    refine ensures_less hplaces hbd (fun hdb => ?_) fun hbd => ?_ <;>
    simp only [if_true, Bool.false_eq_true, if_false] <;>
    rw [ensures_bind]
  -- the two items of which neither is the least or the greatest one
  · refine ensures_less hplaces had (fun hda => ?_) fun had => ?_
    · exact sortsTo_four (by grind) hcd hda hab
    · exact sortsTo_four (by grind) hca had hdb
  · refine ensures_less hplaces (before_of_lt hplaces hab) (fun hba => absurd hab hba.asymm) ?_
    exact fun hab => sortsTo_four (by grind) hca hab hbd
  · refine ensures_less hplaces (before_of_lt hplaces hcd) (fun hdc => absurd hcd hdc.asymm) ?_
    exact fun hcd => sortsTo_four (by grind) hac hcd hdb
  · refine ensures_less hplaces hbc (fun hcb => ?_) fun hbc => ?_
    · exact sortsTo_four (by grind) hac hcb hbd
    · exact sortsTo_four (by grind) hab hbc hcd

theorem ensures_sortFour (hsteady : Steady cmp [w, x, y, z]) :
    (sortFour w x y z).Ensures cmp (SortsTo place [w, x, y, z]) := by
  simp only [Steady, List.pairwise_cons, List.forall_mem_cons] at hsteady
  obtain ⟨⟨hwx, hwy, hwz, -⟩, ⟨hxy, hxz, -⟩, ⟨hyz, -⟩, -⟩ := hsteady
  unfold sortFour
  rw [ensures_bind]
  refine ensures_less hplaces hwx (fun hlt => ?_) fun hlt => ?_ <;>
    rw [ensures_bind] <;>
    refine ensures_less hplaces hyz (fun hlt' => ?_) fun hlt' => ?_ <;>
    simp only [if_true, Bool.false_eq_true, if_false]
  · refine (ensures_mergePairs hplaces hlt hlt' hxz hxy hwz hwy).imp fun s hs => hs.trans ?_
    grind
  · refine (ensures_mergePairs hplaces hlt hlt' hxy hxz hwy hwz).imp fun s hs => hs.trans ?_
    grind
  · refine (ensures_mergePairs hplaces hlt hlt' hwz hwy hxz hxy).imp fun s hs => hs.trans ?_
    grind
  · exact ensures_mergePairs hplaces hlt hlt' hwy hwz hxy hxz

end Four

/-! ## Short rows -/

/-- Some items of a row are sorted, greatest first, and the others stand behind them. -/
structure Started (cmp : Fin n → Fin n → Ordering) (place : Fin n → Nat) (row : Row n)
    (t : Row n × Row n) : Prop where
  sorted : t.1.Pairwise fun i j => place j < place i
  steady : t.2.Steady cmp
  before : ∀ j ∈ t.1, ∀ i ∈ t.2, Before cmp j i
  perm : (t.2 ++ t.1).Perm row

theorem started_nil (h : row.Steady cmp) : Started cmp place row ([], row) :=
  ⟨.nil, h, nofun, by rw [List.append_nil]⟩

section Short

variable [Std.TransCmp cmp] (hplaces : Places cmp place) (hrow : row.Steady cmp)
include hplaces hrow

theorem ensures_sortStart (four : Bool) :
    (sortStart four row).Ensures cmp (Started cmp place row) := by
  unfold sortStart
  split
  · next w x y z rest =>
    obtain ⟨hfour, hrest, hbefore⟩ := List.pairwise_append.1 (show
      ([w, x, y, z] ++ rest).Pairwise (Before cmp) from hrow)
    rw [ensures_bind]
    refine (ensures_sortFour hplaces hfour).imp fun s hs => ⟨?_, hrest, fun j hj => ?_, ?_⟩
    · exact List.pairwise_reverse.2 hs.ascends
    · exact hbefore j (hs.perm.mem_iff.1 (List.mem_reverse.1 hj))
    · exact (List.perm_append_comm.trans
        (((List.reverse_perm s).trans hs.perm).append_right rest))
  · exact started_nil hrow

omit hrow in
theorem Started.ensures_insertAll {t : Row n × Row n} (h : Started cmp place row t) :
    (insertAll t.2 t.1).Ensures cmp (row.SortsTo place) :=
  (Row.ensures_insertAll hplaces h.steady h.sorted h.before).imp fun _ hs => hs.trans h.perm

/-- Short rows are sorted, and so are others. -/
theorem ensures_sortSmall : (sortSmall row).Ensures cmp (row.SortsTo place) := by
  unfold sortSmall
  split
  · next hlt =>
    refine ⟨.refl row, ?_⟩
    match row, hlt with
    | [], _ => exact .nil
    | [x], _ => exact List.pairwise_singleton _ x
  · next hlength =>
    have hparts := List.take_append_drop (row.length / 2) row
    have hrow' : Steady cmp (row.take (row.length / 2) ++ row.drop (row.length / 2)) :=
      hparts.symm ▸ hrow
    obtain ⟨hleft, hright, -⟩ := List.pairwise_append.1 hrow'
    dsimp only
    rw [ensures_bind]
    refine (ensures_sortStart hplaces hleft _).imp fun start hstart => ?_
    rw [ensures_bind]
    refine (ensures_sortStart hplaces hright _).imp fun start' hstart' => ?_
    rw [ensures_bind]
    refine (hstart.ensures_insertAll hplaces).imp fun left hleft => ?_
    rw [ensures_bind]
    refine (hstart'.ensures_insertAll hplaces).imp fun right hright => ?_
    have hlength' := hleft.perm.length_eq
    have hlength'' := hright.perm.length_eq
    rw [List.length_take] at hlength'
    rw [List.length_drop] at hlength''
    have hsteady := Steady.rearrange hrow' (hleft.ascends.steady hplaces) hleft.perm
      (hright.ascends.steady hplaces) hright.perm
    refine (ensures_mergeEnds hplaces hsteady hleft.ascends hright.ascends (by omega)
      (by omega)).imp fun s hs => hs.trans ?_
    exact (hleft.perm.append hright.perm).trans (.of_eq hparts)

end Short

end TaskletMachine.Row
