import Mathlib.Data.List.FinRange
import Mathlib.Data.List.Pairwise
import Mathlib.Order.Antisymmetrization
import Mathlib.Order.Compare
import Mathlib.Order.Extension.Linear
import TaskletMachine.Library.Asking

/-!
# Comparison sorts

A sort that is correct for items that can all be compared finds out on its own whether they can. If
two items cannot be compared, either of them can be put first without contradicting any other
comparison; a sort that never asks about the two cannot tell which, and so puts them in the same
order both times. Once a comparison has failed, the answers need not be those of an order, so that a
correct sort may break off instead of reporting the failure.

## Main definitions

* `Asking.Asks`: the comparisons that a computation can ask for.
* `Asking.Ensures`: what a computation comes to if all comparisons succeed.
* `Sorter.IsStable`, `Sorter.Correct`: stable orders, and sorts that find them.
* `Sorter.Consistent`: comparisons that can fail, but are those of an order.
-/
namespace TaskletMachine

/-! ## What computations find -/

namespace Asking

variable {n : Nat} {α β ε : Type}

/-- Whether a computation can ask how two items compare. -/
inductive Asks (i j : Fin n) : Asking n α → Prop
  | now (next : Ordering → Asking n α) : Asks i j (ask i j next)
  | later {k l : Fin n} {next : Ordering → Asking n α} (o : Ordering) (h : Asks i j (next o)) :
    Asks i j (ask k l next)

/-- If all comparisons succeed, the computation has a result, which is as it should be. -/
def Ensures (cmp : Fin n → Fin n → Ordering) (post : α → Prop) : Asking n α → Prop
  | done a => post a
  | ask i j next => (next (cmp i j)).Ensures cmp post
  | breakOff => False

/-- The computation has a result, whatever the answers are. -/
def Completes : Asking n α → Prop
  | done _ => True
  | ask _ _ next => ∀ o, (next o).Completes
  | breakOff => False

section Ensures

variable {cmp : Fin n → Fin n → Ordering} {post post' : α → Prop} {x : Asking n α}

@[simp] theorem ensures_pure {a : α} : (pure a : Asking n α).Ensures cmp post ↔ post a :=
  Iff.rfl

@[simp] theorem ensures_less {i j : Fin n} {post : Bool → Prop} :
    (less i j).Ensures cmp post ↔ post (cmp i j == .lt) :=
  Iff.rfl

@[simp] theorem ensures_bind {f : α → Asking n β} {post : β → Prop} :
    (x >>= f).Ensures cmp post ↔ x.Ensures cmp fun a => (f a).Ensures cmp post := by
  induction x with
  | done a => exact Iff.rfl
  | ask i j next ih => exact ih (cmp i j)
  | breakOff => exact Iff.rfl

@[simp] theorem ensures_notLess {i j : Fin n} {post : Bool → Prop} :
    (notLess i j).Ensures cmp post ↔ post !(cmp i j == .lt) :=
  Iff.rfl

theorem Ensures.imp (h : x.Ensures cmp post) (hpost : ∀ a, post a → post' a) :
    x.Ensures cmp post' := by
  induction x with
  | done a => exact hpost a h
  | ask i j next ih => exact ih (cmp i j) h
  | breakOff => exact h

theorem Ensures.exists (h : x.Ensures cmp post) : ∃ a, post a := by
  induction x with
  | done a => exact ⟨a, h⟩
  | ask i j next ih => exact ih (cmp i j) h
  | breakOff => exact h.elim

end Ensures

section Run

variable {compare : Fin n → Fin n → Except ε Ordering} {x : Asking n α} {a : α} {e : ε}

theorem snd_run_some {r : α × Option ε} (h : x.run compare (some e) = some r) :
    r.2 = some e := by
  induction x with
  | done a =>
    cases h
    rfl
  | ask i j next ih => exact ih .eq h
  | breakOff => cases h

/-- The failure that is reported is that of a comparison that has been asked for. -/
theorem exists_error_of_run (h : x.run compare none = some (a, some e)) :
    ∃ i j, x.Asks i j ∧ compare i j = .error e := by
  induction x with
  | done a => cases h
  | ask i j next ih =>
    rw [run] at h
    cases hij : compare i j with
    | ok o =>
      rw [hij] at h
      obtain ⟨k, l, hasks, hkl⟩ := ih o h
      exact ⟨k, l, .later o hasks, hkl⟩
    | error e' =>
      rw [hij] at h
      cases snd_run_some h
      exact ⟨i, j, .now next, hij⟩
  | breakOff => cases h

theorem completes_less (i j : Fin n) : (less i j).Completes :=
  fun _ => trivial

theorem Completes.bind {f : α → Asking n β} (h : x.Completes) (hf : ∀ a, (f a).Completes) :
    (x >>= f).Completes := by
  induction x with
  | done a => exact hf a
  | ask i j next ih => exact fun o => ih o (h o)
  | breakOff => exact h

theorem Completes.run_ne_none (h : x.Completes) (failure : Option ε) :
    x.run compare failure ≠ none := by
  induction x generalizing failure with
  | done a => exact nofun
  | ask i j next ih =>
    cases failure with
    | some e => exact ih .eq (h .eq) (some e)
    | none =>
      rw [run]
      cases compare i j with
      | ok o => exact ih o (h o) none
      | error e => exact ih .eq (h .eq) (some e)
  | breakOff => exact h.elim

variable {cmp : Fin n → Fin n → Ordering} {post : α → Prop}
  (hcmp : ∀ i j o, compare i j = .ok o → cmp i j = o) (hensures : x.Ensures cmp post)
include hcmp hensures

/-- A computation in which no comparison has failed has found what it finds for all ways to compare
that agree with the comparisons that succeed. -/
theorem Ensures.of_run (h : x.run compare none = some (a, none)) : post a := by
  induction x with
  | done a =>
    cases h
    exact hensures
  | ask i j next ih =>
    rw [run] at h
    cases hij : compare i j with
    | ok o =>
      rw [hij] at h
      rw [Ensures, hcmp i j o hij] at hensures
      exact ih o hensures h
    | error e =>
      rw [hij] at h
      cases snd_run_some h
  | breakOff => cases h

/-- If all comparisons succeed that are asked for, the computation does not break off. -/
theorem Ensures.exists_run (h : ∀ i j, x.Asks i j → ∃ o, compare i j = .ok o) :
    ∃ a, x.run compare none = some (a, none) ∧ post a := by
  induction x with
  | done a => exact ⟨a, rfl, hensures⟩
  | ask i j next ih =>
    obtain ⟨o, ho⟩ := h i j (.now next)
    rw [Ensures, hcmp i j o ho] at hensures
    obtain ⟨a, hrun, hpost⟩ := ih o hensures fun k l hasks => h k l (.later o hasks)
    refine ⟨a, ?_, hpost⟩
    rw [run, ho]
    exact hrun
  | breakOff => exact hensures.elim

end Run

end Asking

namespace Sorter

variable {n : Nat} {ε : Type}

/-- An item comes before another one: it is less, or was so before and is equal. -/
def Precedes (compares : Fin n → Fin n → Ordering → Prop) (i j : Fin n) : Prop :=
  compares i j .lt ∨ compares i j .eq ∧ i < j

/-- All items are in ascending order, and equal ones in their old order. -/
structure IsStable (compares : Fin n → Fin n → Ordering → Prop) (order : Row n) : Prop where
  perm : order.Perm (List.finRange n)
  ascending : order.Pairwise (Precedes compares)

/-- A sort that finds a stable order if items can be compared and their comparisons are consistent.
It asks nothing if there are no two items. -/
structure Correct (s : Sorter n) : Prop where
  several : ∀ i j, s.Asks i j → 1 < n
  isStable : ∀ cmp, Std.TransCmp cmp → s.Ensures cmp (IsStable fun i j o => cmp i j = o)

/-- Comparisons that can fail, but are those of a preorder where they succeed. -/
structure Consistent (compare : Fin n → Fin n → Except ε Ordering) : Prop where
  refl : ∀ {i j o}, compare i j = .ok o → compare i i = .ok .eq
  swap : ∀ {i j o}, compare i j = .ok o → compare j i = .ok o.swap
  trans : ∀ {i j k o o'}, compare i j = .ok o → o.isLE → compare j k = .ok o' → o'.isLE →
    ∃ o, compare i k = .ok o ∧ o.isLE

/-! ## Extending comparisons -/

section Extension

variable {α : Type}

/-- Elements can be compared consistently, in agreement with a preorder that need not relate all of
them. -/
theorem exists_transCmp (r : α → α → Prop) [IsPreorder α r] :
    ∃ cmp : α → α → Ordering, Std.TransCmp cmp ∧
      (∀ a b, r a b → ¬ r b a → cmp a b = .lt) ∧ ∀ a b, r a b → r b a → cmp a b = .eq := by
  let _ : Preorder α := { le := r, le_refl := refl_of r, le_trans := fun _ _ _ => trans_of r }
  -- equivalent elements get the same rank, and ranks are ordered linearly
  let rank (a : α) : LinearExtension (Antisymmetrization α (· ≤ ·)) :=
    toLinearExtension (toAntisymmetrization (· ≤ ·) a)
  refine ⟨fun a b => compare (rank a) (rank b), ?_, fun a b hab hba => ?_, fun a b hab hba => ?_⟩
  · exact inferInstanceAs (Std.TransCmp (compareOn rank))
  · have hlt : toAntisymmetrization (· ≤ ·) a < toAntisymmetrization (· ≤ ·) b :=
      toAntisymmetrization_lt_toAntisymmetrization_iff.2 ⟨hab, hba⟩
    rw [compare_lt_iff_lt]
    exact lt_of_le_of_ne (toLinearExtension.monotone hlt.le) hlt.ne
  · rw [compare_eq_iff_eq]
    exact congrArg toLinearExtension (Quotient.sound ⟨hab, hba⟩)

/-- A preorder in which, in addition, one element is not after another one. -/
def Adjoined (r : α → α → Prop) (a b x y : α) : Prop :=
  r x y ∨ r x a ∧ r b y

instance (r : α → α → Prop) [IsPreorder α r] (a b : α) : IsPreorder α (Adjoined r a b) where
  refl x := .inl (refl_of r x)
  trans x y z := by
    rintro (hxy | ⟨hxa, hby⟩) (hyz | ⟨hya, hbz⟩)
    · exact .inl (trans_of r hxy hyz)
    · exact .inr ⟨trans_of r hxy hya, hbz⟩
    · exact .inr ⟨hxa, trans_of r hby hyz⟩
    · exact .inr ⟨hxa, hbz⟩

/-- What a preorder does not put before an element can be put after it. -/
theorem exists_transCmp_lt {r : α → α → Prop} [IsPreorder α r] {a b : α} (hba : ¬ r b a) :
    ∃ cmp : α → α → Ordering, Std.TransCmp cmp ∧ cmp a b = .lt ∧
      (∀ x y, r x y → ¬ r y x → cmp x y = .lt) ∧ ∀ x y, r x y → r y x → cmp x y = .eq := by
  obtain ⟨cmp, htrans, hlt, heq⟩ := exists_transCmp (Adjoined r a b)
  refine ⟨cmp, htrans, hlt a b ?_ ?_, fun x y hxy hyx => hlt x y (.inl hxy) ?_,
    fun x y hxy hyx => heq x y (.inl hxy) (.inl hyx)⟩
  · exact .inr ⟨refl_of r a, refl_of r b⟩
  · rintro (hba' | ⟨hba', -⟩) <;> exact hba hba'
  · rintro (hyx' | ⟨hya, hbx⟩)
    · exact hyx hyx'
    · exact hba (trans_of r hbx (trans_of r hxy hya))

end Extension

/-! ## No pair goes unnoticed -/

section Consistent

variable {compare : Fin n → Fin n → Except ε Ordering}

/-- An item is known not to come after another one. -/
def NotAfter (compare : Fin n → Fin n → Except ε Ordering) (i j : Fin n) : Prop :=
  i = j ∨ ∃ o, compare i j = .ok o ∧ o.isLE

namespace Consistent

theorem isPreorder (hc : Consistent compare) : IsPreorder (Fin n) (NotAfter compare) where
  refl i := .inl rfl
  trans i j k := by
    rintro (rfl | ⟨o, hij, hle⟩) (rfl | ⟨o', hjk, hle'⟩)
    · exact .inl rfl
    · exact .inr ⟨o', hjk, hle'⟩
    · exact .inr ⟨o, hij, hle⟩
    · exact .inr (hc.trans hij hle hjk hle')

/-- A way to compare that agrees with the preorder of some comparisons agrees with those of them
that succeed. -/
theorem agrees (hc : Consistent compare) {cmp : Fin n → Fin n → Ordering} [Std.OrientedCmp cmp]
    (hlt : ∀ i j, NotAfter compare i j → ¬ NotAfter compare j i → cmp i j = .lt)
    (heq : ∀ i j, NotAfter compare i j → NotAfter compare j i → cmp i j = .eq) {i j : Fin n}
    {o : Ordering} (hij : compare i j = .ok o) : cmp i j = o := by
  have hless {i j : Fin n} (hij : compare i j = .ok .lt) : cmp i j = .lt := by
    refine hlt i j (.inr ⟨_, hij, rfl⟩) ?_
    have hji := hc.swap hij
    rintro (rfl | ⟨o, hji', hle⟩)
    · cases hij.symm.trans hji
    · cases hji'.symm.trans hji
      cases hle
  cases o with
  | lt => exact hless hij
  | eq => exact heq i j (.inr ⟨_, hij, rfl⟩) (.inr ⟨_, hc.swap hij, rfl⟩)
  | gt => exact Std.OrientedCmp.gt_of_lt (hless (hc.swap hij))

/-- Items that cannot be compared are not known not to come after each other. -/
theorem not_notAfter (hc : Consistent compare) {i j : Fin n} (hne : i ≠ j)
    (hij : ¬ ∃ o, compare i j = .ok o) : ¬ NotAfter compare j i := by
  rintro (rfl | ⟨o, hji, -⟩)
  · exact hne rfl
  · exact hij ⟨_, hc.swap hji⟩

end Consistent

namespace Correct

variable {s : Sorter n} {order : Row n} (hs : s.Correct) (hc : Consistent compare)
include hs hc

/-- Of two items that cannot be compared, a correct sort that does not fail puts the first one
first, whichever that is. -/
theorem run_puts_first (h : s.run compare none = some (order, none)) {i j : Fin n}
    (hji : ¬ NotAfter compare j i) :
    order.Perm (List.finRange n) ∧ order.Pairwise fun k l => ¬ (k = j ∧ l = i) := by
  have := hc.isPreorder
  obtain ⟨cmp, htrans, hij, hlt, heq⟩ := exists_transCmp_lt hji
  obtain ⟨hperm, hpairwise⟩ := (hs.isStable cmp htrans).of_run (fun i j o => hc.agrees hlt heq) h
  refine ⟨hperm, hpairwise.imp ?_⟩
  rintro _ _ hprecedes ⟨rfl, rfl⟩
  have hgt := Std.OrientedCmp.gt_of_lt hij
  rcases hprecedes with hlt | ⟨heq, -⟩
  · cases hgt.symm.trans hlt
  · cases hgt.symm.trans heq

/-- A correct sort notices two items that cannot be compared. -/
theorem exists_ok_of_run (h : s.run compare none = some (order, none)) {i j : Fin n}
    (hne : i ≠ j) : ∃ o, compare i j = .ok o := by
  -- what the sort has asked for does not tell the two orders apart, so each stands in both
  by_contra hij
  have hji : ¬ ∃ o, compare j i = .ok o := fun ⟨o, ho⟩ => hij ⟨_, hc.swap ho⟩
  obtain ⟨hperm, hnot⟩ := hs.run_puts_first hc h (hc.not_notAfter hne hij)
  obtain ⟨-, hnot'⟩ := hs.run_puts_first hc h (hc.not_notAfter hne.symm hji)
  have hsymm : Std.Symm fun k l => ¬ (k = j ∧ l = i) ∧ ¬ (k = i ∧ l = j) :=
    ⟨fun k l ⟨hkl, hlk⟩ => ⟨fun ⟨hl, hk⟩ => hlk ⟨hk, hl⟩, fun ⟨hl, hk⟩ => hkl ⟨hk, hl⟩⟩⟩
  have hmem (k : Fin n) : k ∈ order := hperm.mem_iff.2 (List.mem_finRange k)
  exact ((hnot.and hnot').forall (hmem i) (hmem j) hne).2 ⟨rfl, rfl⟩

/-- A correct sort that does not fail has found a stable order. -/
theorem isStable_run (h : s.run compare none = some (order, none)) :
    IsStable (fun i j o => compare i j = .ok o) order := by
  have hpreorder := hc.isPreorder
  obtain ⟨cmp, htrans, hlt, heq⟩ := exists_transCmp (NotAfter compare)
  have hagrees {i j : Fin n} (hne : i ≠ j) : compare i j = .ok (cmp i j) := by
    obtain ⟨o, ho⟩ := hs.exists_ok_of_run hc h hne
    rw [ho, hc.agrees hlt heq ho]
  obtain ⟨hperm, hascending⟩ := (hs.isStable cmp htrans).of_run (fun i j o => hc.agrees hlt heq) h
  refine ⟨hperm, hascending.imp ?_⟩
  rintro i j (hij | ⟨hij, hpos⟩)
  · have hne : i ≠ j := by
      rintro rfl
      cases hij.symm.trans Std.ReflCmp.compare_self
    exact .inl ((hagrees hne).trans (congrArg _ hij))
  · exact .inr ⟨(hagrees hpos.ne).trans (congrArg _ hij), hpos⟩

/-- **A correct sort finds an order if, and only if, all items can be compared.** -/
theorem exists_run_iff : (∃ order, s.run compare none = some (order, none)) ↔
    ∀ i j, i ≠ j → ∃ o, compare i j = .ok o := by
  refine ⟨fun ⟨order, h⟩ i j => hs.exists_ok_of_run hc h, fun h => ?_⟩
  have hok (i j : Fin n) (hasks : s.Asks i j) : ∃ o, compare i j = .ok o := by
    by_cases hne : i = j
    · -- an item can be compared with itself if it can be compared with another one
      have := Fin.nontrivial_iff_two_le.2 (hs.several i j hasks)
      obtain ⟨k, hk⟩ := exists_ne i
      obtain ⟨o, ho⟩ := h i k hk.symm
      exact ⟨.eq, hne ▸ hc.refl ho⟩
    · exact h i j hne
  have hpreorder := hc.isPreorder
  obtain ⟨cmp, htrans, hlt, heq⟩ := exists_transCmp (NotAfter compare)
  have hstable := hs.isStable cmp htrans
  obtain ⟨order, hrun, -⟩ := hstable.exists_run (fun i j o => hc.agrees hlt heq) hok
  exact ⟨order, hrun⟩

end Correct

end Consistent

end Sorter

end TaskletMachine
