import Mathlib.Data.List.Forall2
import Mathlib.Data.List.ProdSigma
import Mathlib.Order.WellFounded
import TaskletMachine.Operator.Equality
import TaskletMachine.Proofs.Value.Identity
import TaskletMachine.Proofs.Value.Keys
import TaskletMachine.Proofs.Value.Tables

/-!
# Equality is bisimilarity

Containers may contain themselves, so equality by content is a coinductive notion: two values are
equal if some relation holds between them that, wherever it holds, also holds between what the two
values contain. The comparison that the operators make decides this. It ends, since every pair of
containers that it enters is a new one; its answer does not depend on any bound; and a pair that it
takes for equal because it is being compared is one of those that the relation is made of.

## Main definitions

* `Value.isFloatFree`, `Heap.FloatFree`: values and heaps without doubles.
* `Heap.Matched`, `Heap.IsBisimulation`, `Heap.Bisimilar`: equality as it should be.
* `Comparison`, `Heap.Calls`: the comparisons to which a comparison leads.
* `Heap.equalAmid`: equality while some pairs of containers are being compared, without a bound.
* `Heap.BisimilarUpTo`: bisimilarity that takes some pairs of containers for granted.
-/
/-- What relates two rows need only be improved upon between items that stand side by side. -/
theorem List.Forall₂.imp_of_mem_zip {α β : Type} {P Q : α → β → Prop} {xs : List α}
    {ys : List β} (h : List.Forall₂ P xs ys) (hPQ : ∀ x y, (x, y) ∈ xs.zip ys → P x y → Q x y) :
    List.Forall₂ Q xs ys := by
  obtain ⟨hlength, hP⟩ := List.forall₂_iff_zip.1 h
  exact List.forall₂_iff_zip.2 ⟨hlength, fun hmem => hPQ _ _ hmem (hP hmem)⟩

/-- Relations between rows compose. -/
theorem List.Forall₂.comp {α β γ : Type} {P : α → β → Prop} {Q : β → γ → Prop} {xs : List α}
    {ys : List β} {zs : List γ} (h : List.Forall₂ P xs ys) (h' : List.Forall₂ Q ys zs) :
    List.Forall₂ (fun x z => ∃ y, P x y ∧ Q y z) xs zs := by
  induction h generalizing zs with
  | nil => cases h'; exact .nil
  | cons hxy _ ih =>
    cases h' with
    | cons hyz hrest => exact .cons ⟨_, hxy, hyz⟩ (ih hrest)

namespace TaskletMachine

/-! ## Values without doubles -/

/-- Whether what is made this is equal to nothing but itself. -/
def Identity.isObject : Identity → Bool
  | none | bool _ | int _ | float _ | str _ | tuple _ | list _ | dict _ => false
  | _ => true

namespace Value

mutual

/-- Whether a value is no double, and no tuple with a double in it. -/
def isFloatFree : Value → Bool
  | float _ => false
  | tuple _ items => areFloatFree items
  | _ => true

/-- Whether several values are without doubles. -/
def areFloatFree : List Value → Bool
  | [] => true
  | v :: rest => isFloatFree v && areFloatFree rest

end

theorem areFloatFree_iff {vs : List Value} :
    areFloatFree vs = true ↔ ∀ v ∈ vs, v.isFloatFree = true := by
  induction vs with
  | nil => simp [areFloatFree]
  | cons v rest ih => simp [areFloatFree, ih]

theorem isFloatFree_tuple {token : Nat} {items : List Value} :
    (tuple token items).isFloatFree = true ↔ ∀ v ∈ items, v.isFloatFree = true := by
  rw [isFloatFree, areFloatFree_iff]

/-- The word that a truth value or an integer is. -/
def word? : Value → Option Int64
  | bool b => some (if b then 1 else 0)
  | int n => some n
  | _ => Option.none

/-- Whether a value is neither plain data nor a container, so that it is equal to nothing but
itself. -/
def isObject : Value → Bool
  | none | bool _ | int _ | float _ | str _ | tuple _ _ | list _ | dict _ => false
  | _ => true

theorem isObject_eq (h : Heap) (v : Value) : v.isObject = (h.identity v).isObject := by
  cases v <;> rfl

theorem isObject_of_word? {v : Value} {n : Int64} (hv : v.word? = some n) :
    v.isObject = false := by
  cases v with
  | bool _ | int _ => rfl
  | _ => cases hv

/-- Whether two values are both tuples, both lists or both dicts. -/
def areNested : Value → Value → Bool
  | tuple _ _, tuple _ _ | list _, list _ | dict _, dict _ => true
  | _, _ => false

theorem areNested_cases {a b : Value} (h : a.areNested b = true) :
    (∃ t xs u ys, a = tuple t xs ∧ b = tuple u ys) ∨ (∃ r s, a = list r ∧ b = list s) ∨
      ∃ r s, a = dict r ∧ b = dict s := by
  unfold areNested at h
  split at h
  · exact .inl ⟨_, _, _, _, rfl, rfl⟩
  · exact .inr (.inl ⟨_, _, rfl, rfl⟩)
  · exact .inr (.inr ⟨_, _, rfl, rfl⟩)
  · cases h

theorem numeric?_eq_word? {v : Value} (hv : v.isFloatFree = true) :
    v.numeric? = v.word?.map .int := by
  cases v with
  | float x => simp [isFloatFree] at hv
  | _ => rfl

theorem numeric?_of_word? {v : Value} {n : Int64} (hv : v.word? = some n) :
    v.numeric? = some (.int n) := by
  cases v with
  | bool b | int k => cases hv; rfl
  | _ => cases hv

end Value

/-- A container as a value. -/
def Container.value : Container → Value
  | .list r => .list r
  | .dict r => .dict r

/-- No list has a double among its items, and no dict among its values. -/
structure Heap.FloatFree (h : Heap) : Prop where
  list : ∀ r, ∀ v ∈ h.list r, v.isFloatFree = true
  dict : ∀ r, ∀ e ∈ h.dict r, e.2.isFloatFree = true

namespace Heap

variable {h : Heap}

/-! ## Bisimilarity -/

/-- Two values match, given what relates the values in them. Numbers match if they are the same
number, strings if they are the same string; tuples and lists match item by item, dicts at every
key; all other values match only themselves. -/
inductive Matched (h : Heap) (R : Value → Value → Prop) : Value → Value → Prop
  | none : Matched h R .none .none
  | number {a b : Value} {n : Int64} (ha : a.word? = some n) (hb : b.word? = some n) :
      Matched h R a b
  | str (s : String) : Matched h R (.str s) (.str s)
  | tuple {t u : Nat} {xs ys : List Value} (hitems : List.Forall₂ R xs ys) :
      Matched h R (.tuple t xs) (.tuple u ys)
  | list {r s : ListRef} (hitems : List.Forall₂ R (h.list r) (h.list s)) :
      Matched h R (.list r) (.list s)
  | dict {r s : DictRef} (hsize : (h.dict r).length = (h.dict s).length)
      (hvalues : ∀ key, Option.Rel R (h.dictGet? r key) (h.dictGet? s key)) :
      Matched h R (.dict r) (.dict s)
  | object {a b : Value} (ha : a.isObject = true) (hab : h.identical a b = true) : Matched h R a b

/-- A relation between values that match as far as the relation itself goes. -/
def IsBisimulation (h : Heap) (R : Value → Value → Prop) : Prop :=
  ∀ a b, R a b → h.Matched R a b

/-- Some bisimulation relates the two values. -/
def Bisimilar (h : Heap) (a b : Value) : Prop :=
  ∃ R, h.IsBisimulation R ∧ R a b

theorem Matched.mono {R S : Value → Value → Prop} (hRS : ∀ a b, R a b → S a b) {a b : Value}
    (hab : h.Matched R a b) : h.Matched S a b := by
  cases hab with
  | none => exact .none
  | number ha hb => exact .number ha hb
  | str s => exact .str s
  | tuple hitems => exact .tuple (hitems.imp hRS)
  | list hitems => exact .list (hitems.imp hRS)
  | @dict r s hsize hvalues =>
    refine .dict hsize fun key => ?_
    have hvalue := hvalues key
    cases hx : h.dictGet? r key <;> cases hy : h.dictGet? s key <;> rw [hx, hy] at hvalue
    · exact .none
    · cases hvalue
    · cases hvalue
    · cases hvalue with
      | some hxy => exact .some (hRS _ _ hxy)
  | object ha hab => exact .object ha hab

theorem Bisimilar.matched {a b : Value} (hab : h.Bisimilar a b) : h.Matched h.Bisimilar a b := by
  obtain ⟨R, hR, hab⟩ := hab
  exact (hR a b hab).mono fun v w hvw => ⟨R, hR, hvw⟩

/-! ## The recursion ends -/

/-- Pairs of containers of the same kind that are on the heap. -/
def pairs (h : Heap) : List (Container × Container) :=
  (List.range h.lists.size ×ˢ List.range h.lists.size).map
      (fun p => (.list ⟨p.1⟩, .list ⟨p.2⟩)) ++
    (List.range h.dicts.size ×ˢ List.range h.dicts.size).map
      (fun p => (.dict ⟨p.1⟩, .dict ⟨p.2⟩))

theorem list_mem_pairs {r s : ListRef} (hr : h.list r ≠ []) (hs : h.list s ≠ []) :
    (.list r, .list s) ∈ h.pairs := by
  refine List.mem_append_left _ (List.mem_map.2 ⟨(r.index, s.index), ?_, rfl⟩)
  exact List.mem_product.2
    ⟨List.mem_range.2 (lt_size_of_list hr), List.mem_range.2 (lt_size_of_list hs)⟩

theorem dict_mem_pairs {r s : DictRef} (hr : h.dict r ≠ []) (hs : h.dict s ≠ []) :
    (.dict r, .dict s) ∈ h.pairs := by
  refine List.mem_append_right _ (List.mem_map.2 ⟨(r.index, s.index), ?_, rfl⟩)
  exact List.mem_product.2
    ⟨List.mem_range.2 (lt_size_of_dict hr), List.mem_range.2 (lt_size_of_dict hs)⟩

/-- The number of pairs that are not being compared yet. -/
def unmet (h : Heap) (comparing : Comparing) : Nat :=
  (h.pairs.filter fun p => p ∉ comparing).length

theorem unmet_lt_pairBudget (comparing : Comparing) : h.unmet comparing < h.pairBudget := by
  have hle : h.unmet comparing ≤ h.pairs.length := List.length_filter_le _ _
  simp only [pairs, List.length_append, List.length_map, List.length_product,
    List.length_range] at hle
  simp only [pairBudget]
  omega

/-- Entering a pair of containers leaves fewer pairs. -/
theorem unmet_cons_lt {p : Container × Container} {comparing : Comparing} (hp : p ∈ h.pairs)
    (hnew : p ∉ comparing) : h.unmet (p :: comparing) < h.unmet comparing := by
  have hfilter : h.pairs.filter (fun q => q ∉ p :: comparing) =
      (h.pairs.filter fun q => q ∉ comparing).filter fun q => q ≠ p := by
    simp [List.filter_filter, List.mem_cons, not_or]
  rw [unmet, unmet, hfilter]
  refine List.length_filter_lt_length_iff_exists.2 ⟨p, ?_, by simp⟩
  exact List.mem_filter.2 ⟨hp, by simpa using hnew⟩

end Heap

/-- A comparison of two values while some pairs of containers are being compared. -/
structure Comparison where
  comparing : Comparing
  left : Value
  right : Value

/-- The first comparison is one of those to which the second leads. -/
inductive Heap.Calls (h : Heap) : Comparison → Comparison → Prop
  | tuple {comparing : Comparing} {t u : Nat} {xs ys : List Value} {x y : Value}
      (hitems : (x, y) ∈ xs.zip ys) :
      Calls h ⟨comparing, x, y⟩ ⟨comparing, .tuple t xs, .tuple u ys⟩
  | list {comparing : Comparing} {r s : ListRef} {x y : Value}
      (hnew : (.list r, .list s) ∉ comparing) (hitems : (x, y) ∈ (h.list r).zip (h.list s)) :
      Calls h ⟨(.list r, .list s) :: comparing, x, y⟩ ⟨comparing, .list r, .list s⟩
  | dict {comparing : Comparing} {r s : DictRef} {key x y : Value}
      (hnew : (.dict r, .dict s) ∉ comparing) (hx : (key, x) ∈ h.dict r)
      (hy : h.dictGet? s key = some y) :
      Calls h ⟨(.dict r, .dict s) :: comparing, x, y⟩ ⟨comparing, .dict r, .dict s⟩

namespace Heap

variable {h : Heap}

/-- No comparison leads to others without end. -/
theorem calls_wellFounded (h : Heap) : WellFounded h.Calls := by
  have hlex : WellFounded (Prod.Lex (· < · : Nat → Nat → Prop) (· < · : Nat → Nat → Prop)) :=
    (Prod.lex ⟨_, Nat.lt_wfRel.wf⟩ ⟨_, Nat.lt_wfRel.wf⟩).wf
  refine Subrelation.wf (fun {c d} hcall => ?_)
    (InvImage.wf (fun c : Comparison => (h.unmet c.comparing, sizeOf c.left)) hlex)
  cases hcall with
  | tuple hitems =>
    refine Prod.Lex.right _ ?_
    have := List.sizeOf_lt_of_mem (List.of_mem_zip hitems).1
    simp
    omega
  | list hnew hitems =>
    have hr := List.ne_nil_of_mem (List.of_mem_zip hitems).1
    have hs := List.ne_nil_of_mem (List.of_mem_zip hitems).2
    exact Prod.Lex.left _ _ (unmet_cons_lt (list_mem_pairs hr hs) hnew)
  | dict hnew hx hy =>
    have hr := List.ne_nil_of_mem hx
    obtain ⟨k, hk, -⟩ := Entries.exists_mem_of_get?_eq_some hy
    exact Prod.Lex.left _ _ (unmet_cons_lt (dict_mem_pairs hr (List.ne_nil_of_mem hk)) hnew)

/-! ## Equality without a bound -/

/-- Pairs that are not on the heap contain no pairs of values to compare. -/
theorem equalContents_of_notMem_pairs {c d : Container} (hcd : (c, d) ∉ h.pairs)
    (f g : Value → Value → Bool) : h.equalContents f c d = h.equalContents g c d := by
  cases c with
  | list r =>
    cases d with
    | dict s => rfl
    | list s =>
      simp only [equalContents]
      by_cases hr : h.list r = []
      · rw [hr, List.zip_nil_left, List.all_nil, List.all_nil]
      · by_cases hs : h.list s = []
        · rw [hs, List.zip_nil_right, List.all_nil, List.all_nil]
        · exact absurd (list_mem_pairs hr hs) hcd
  | dict r =>
    cases d with
    | list s => rfl
    | dict s =>
      simp only [equalContents]
      by_cases hr : h.dict r = []
      · rw [hr, List.all_nil, List.all_nil]
      · by_cases hs : h.dict s = []
        · rw [hs]
          simp only [Entries.get?]
        · exact absurd (dict_mem_pairs hr hs) hcd

/-- One level of equality depends only on how the pairs on the heap are compared that are met for
the first time. -/
theorem equalWith_congr {comparing : Comparing} {f g : Comparing → Value → Value → Bool}
    (hfg : ∀ p ∈ h.pairs, p ∉ comparing → f (p :: comparing) = g (p :: comparing)) :
    (h.equalWith fun c d =>
        comparing.contains (c, d) || h.equalContents (f ((c, d) :: comparing)) c d) =
      h.equalWith fun c d =>
        comparing.contains (c, d) || h.equalContents (g ((c, d) :: comparing)) c d := by
  congr 1
  funext c d
  by_cases hmet : (c, d) ∈ comparing
  · simp [hmet]
  · by_cases hcd : (c, d) ∈ h.pairs
    · rw [hfg (c, d) hcd hmet]
    · rw [equalContents_of_notMem_pairs hcd]

/-- All bounds that exceed the number of pairs left give the same answer. -/
theorem equalWithin_eq_of_unmet_lt {m n : Nat} {comparing : Comparing}
    (hm : h.unmet comparing < m) (hn : h.unmet comparing < n) :
    h.equalWithin m comparing = h.equalWithin n comparing := by
  induction m generalizing n comparing with
  | zero => exact absurd hm (Nat.not_lt_zero _)
  | succ m ih =>
    obtain ⟨n, rfl⟩ := Nat.exists_eq_succ_of_ne_zero (Nat.ne_zero_of_lt hn)
    refine equalWith_congr (f := h.equalWithin m) (g := h.equalWithin n) fun p hp hnew => ?_
    have hlt := unmet_cons_lt hp hnew
    exact ih (by omega) (by omega)

/-- Equality while some pairs of containers are being compared. -/
def equalAmid (h : Heap) (comparing : Comparing) : Value → Value → Bool :=
  h.equalWithin (h.unmet comparing + 1) comparing

/-- Equality calls itself without a bound. -/
theorem equalAmid_eq (h : Heap) (comparing : Comparing) :
    h.equalAmid comparing = h.equalWith fun c d =>
      comparing.contains (c, d) || h.equalContents (h.equalAmid ((c, d) :: comparing)) c d := by
  refine equalWith_congr (f := h.equalWithin (h.unmet comparing)) fun p hp hnew => ?_
  exact equalWithin_eq_of_unmet_lt (unmet_cons_lt hp hnew) (Nat.lt_succ_self _)

theorem equal_eq_equalAmid (h : Heap) : h.equal = h.equalAmid [] :=
  equalWithin_eq_of_unmet_lt (unmet_lt_pairBudget []) (Nat.lt_succ_self _)

theorem equalItems_iff {nested : Container → Container → Bool} {xs ys : List Value} :
    h.equalItems nested xs ys = true ↔
      List.Forall₂ (fun x y => h.equalWith nested x y = true) xs ys := by
  induction xs generalizing ys with
  | nil => cases ys <;> simp [equalItems]
  | cons x xs ih => cases ys <;> simp [equalItems, ih]

theorem equalAmid_tuple {comparing : Comparing} {t u : Nat} {xs ys : List Value} :
    h.equalAmid comparing (.tuple t xs) (.tuple u ys) = true ↔
      List.Forall₂ (fun x y => h.equalAmid comparing x y = true) xs ys := by
  simp only [equalAmid_eq h comparing, equalWith, equalItems_iff]

theorem equalAmid_list {comparing : Comparing} {r s : ListRef} :
    h.equalAmid comparing (.list r) (.list s) = true ↔
      r = s ∨ (.list r, .list s) ∈ comparing ∨
        List.Forall₂ (fun x y => h.equalAmid ((.list r, .list s) :: comparing) x y = true)
          (h.list r) (h.list s) := by
  rw [equalAmid_eq]
  simp [equalWith, equalContents, List.forall₂_iff_zip]

theorem equalAmid_dict {comparing : Comparing} {r s : DictRef} :
    h.equalAmid comparing (.dict r) (.dict s) = true ↔
      r = s ∨ (.dict r, .dict s) ∈ comparing ∨
        (h.dict r).length = (h.dict s).length ∧ ∀ e ∈ h.dict r, ∃ y, h.dictGet? s e.1 = some y ∧
          h.equalAmid ((.dict r, .dict s) :: comparing) e.2 y = true := by
  rw [equalAmid_eq]
  simp only [equalWith, equalContents, Bool.or_eq_true, beq_iff_eq, List.contains_iff_mem,
    Bool.and_eq_true, List.all_eq_true, Prod.forall, dictGet?]
  refine or_congr_right (or_congr_right (and_congr_right fun _ => ?_))
  refine forall_congr' fun key => forall_congr' fun x => imp_congr_right fun _ => ?_
  cases Entries.get? (Value.sameKey key) (h.dict s) <;> simp

/-- Identical values match, unless they contain others. -/
theorem Matched.of_identical {R : Value → Value → Prop} {a b : Value}
    (hab : h.identical a b = true) (hnested : a.areNested b = false)
    (ha : a.isFloatFree = true) : h.Matched R a b := by
  have hid := (h.identical_iff a b).1 hab
  cases a with
  | none => cases b <;> cases hid; exact .none
  | bool _ | int _ => cases b <;> cases hid; exact .number rfl rfl
  | float _ => simp [Value.isFloatFree] at ha
  | str s => cases b <;> cases hid; exact .str s
  | tuple _ _ | list _ | dict _ => cases b <;> cases hid; cases hnested
  | _ => exact .object rfl hab

/-- Values that do not contain others are compared as numbers if both are some, and by identity
otherwise. -/
theorem equalAmid_eq_words {comparing : Comparing} {a b : Value}
    (hnested : a.areNested b = false) (ha : a.isFloatFree = true) (hb : b.isFloatFree = true) :
    h.equalAmid comparing a b =
      match a.word?, b.word? with
      | some m, some n => m == n
      | _, _ => h.identical a b := by
  rw [equalAmid_eq, equalWith]
  · rw [Value.numeric?_eq_word? ha, Value.numeric?_eq_word? hb]
    cases a.word? <;> cases b.word? <;> rfl
  · rintro _ _ _ _ rfl rfl
    cases hnested
  · rintro _ _ rfl rfl
    cases hnested
  · rintro _ _ rfl rfl
    cases hnested

/-- Values that do not contain others are equal if they match. -/
theorem equalAmid_iff_matched {comparing : Comparing} {a b : Value}
    (hnested : a.areNested b = false) (ha : a.isFloatFree = true) (hb : b.isFloatFree = true)
    {R : Value → Value → Prop} : h.equalAmid comparing a b = true ↔ h.Matched R a b := by
  rw [equalAmid_eq_words hnested ha hb]
  constructor
  · intro hab
    split at hab
    · next m n hm hn =>
      cases beq_iff_eq.1 hab
      exact .number hm hn
    · exact .of_identical hab hnested ha
  · intro hab
    cases hab with
    | none | str _ => exact h.identical_self _
    | number hm hn =>
      rw [hm, hn]
      exact beq_self_eq_true _
    | tuple _ | list _ | dict _ _ => cases hnested
    | object hobject hab =>
      cases a with
      | none | bool _ | int _ | float _ | str _ | tuple _ _ | list _ | dict _ => cases hobject
      | _ => exact hab

/-! ## Equal values are bisimilar -/

/-- Two values are one of the pairs of containers that are being compared. -/
def Assumed (comparing : Comparing) (a b : Value) : Prop :=
  ∃ p ∈ comparing, a = p.1.value ∧ b = p.2.value

/-- Bisimilar, if the pairs that are being compared are. -/
def BisimilarUpTo (h : Heap) (comparing : Comparing) (a b : Value) : Prop :=
  ∃ R : Value → Value → Prop,
    (∀ v w, R v w → h.Matched (fun x y => R x y ∨ Assumed comparing x y) v w) ∧ R a b

/-- What comparing two values while some pairs are being compared may rely on. -/
def Related (h : Heap) (comparing : Comparing) (a b : Value) : Prop :=
  h.BisimilarUpTo comparing a b ∨ Assumed comparing a b

theorem Bisimilar.of_related_nil {a b : Value} (hab : h.Related [] a b) : h.Bisimilar a b := by
  rcases hab with ⟨R, hR, hab⟩ | ⟨p, hp, -⟩
  · refine ⟨R, fun v w hvw => (hR v w hvw).mono ?_, hab⟩
    rintro x y (hxy | ⟨p, hp, -⟩)
    · exact hxy
    · cases hp
  · cases hp

/-- Values that match on the strength of some assumptions are bisimilar up to what remains of the
assumptions without the values themselves. -/
theorem BisimilarUpTo.of_matched {comparing assumed : Comparing} {a b : Value}
    (hab : h.Matched (h.Related assumed) a b)
    (hassumed : ∀ p ∈ assumed, p ∈ comparing ∨ p.1.value = a ∧ p.2.value = b) :
    h.BisimilarUpTo comparing a b := by
  -- the pair itself joins all pairs that are bisimilar up to the assumptions
  refine ⟨fun v w => h.BisimilarUpTo assumed v w ∨ v = a ∧ w = b, ?_, .inr ⟨rfl, rfl⟩⟩
  have hrelated : ∀ x y, h.Related assumed x y →
      (h.BisimilarUpTo assumed x y ∨ x = a ∧ y = b) ∨ Assumed comparing x y := by
    rintro x y (hxy | ⟨p, hp, rfl, rfl⟩)
    · exact .inl (.inl hxy)
    · rcases hassumed p hp with hp | ⟨ha, hb⟩
      · exact .inr ⟨p, hp, rfl, rfl⟩
      · exact .inl (.inr ⟨ha, hb⟩)
  rintro v w (⟨R, hR, hvw⟩ | ⟨rfl, rfl⟩)
  · refine (hR v w hvw).mono fun x y hxy => hrelated x y ?_
    exact hxy.imp_left fun hxy => ⟨R, hR, hxy⟩
  · exact hab.mono hrelated

/-- A pair of containers may be taken for granted while their contents are being compared. -/
theorem BisimilarUpTo.of_assuming {comparing : Comparing} {c d : Container}
    (hcd : h.Matched (h.Related ((c, d) :: comparing)) c.value d.value) :
    h.BisimilarUpTo comparing c.value d.value := by
  refine .of_matched hcd fun p hp => ?_
  rcases List.mem_cons.1 hp with rfl | hp
  · exact .inr ⟨rfl, rfl⟩
  · exact .inl hp

/-- A value that contains no doubles matches itself. -/
theorem Matched.self {R : Value → Value → Prop}
    (hR : ∀ v : Value, v.isFloatFree = true → R v v) (hh : h.FloatFree) {v : Value}
    (hv : v.isFloatFree = true) : h.Matched R v v := by
  cases v with
  | none => exact .none
  | bool _ | int _ => exact .number rfl rfl
  | float _ => simp [Value.isFloatFree] at hv
  | str s => exact .str s
  | tuple t items =>
    exact .tuple (List.forall₂_same.2 fun v hmem => hR v (Value.isFloatFree_tuple.1 hv v hmem))
  | list r => exact .list (List.forall₂_same.2 fun v hmem => hR v (hh.list r v hmem))
  | dict r =>
    refine .dict rfl fun key => ?_
    cases hx : h.dictGet? r key with
    | none => exact .none
    | some x =>
      obtain ⟨k, hk, -⟩ := Entries.exists_mem_of_get?_eq_some hx
      exact .some (hR x (hh.dict r (k, x) hk))
  | _ => exact .object rfl (h.identical_self _)

theorem BisimilarUpTo.refl (hh : h.FloatFree) (comparing : Comparing) {v : Value}
    (hv : v.isFloatFree = true) : h.BisimilarUpTo comparing v v := by
  refine ⟨fun v w => v = w ∧ v.isFloatFree = true, ?_, rfl, hv⟩
  rintro v _ ⟨rfl, hv⟩
  exact .self (fun x hx => .inl ⟨rfl, hx⟩) hh hv

/-- Whatever the comparison takes for equal is bisimilar up to the pairs that are being compared. -/
theorem related_of_equalAmid (hh : h.FloatFree) (hk : h.Keyed) {comparing : Comparing}
    {a b : Value} (ha : a.isFloatFree = true) (hb : b.isFloatFree = true)
    (hab : h.equalAmid comparing a b = true) : h.Related comparing a b := by
  generalize hc : (⟨comparing, a, b⟩ : Comparison) = c
  induction c using h.calls_wellFounded.induction generalizing comparing a b with
  | h c ih =>
    subst hc
    cases hnested : a.areNested b with
    | false =>
      exact .inl (.of_matched ((equalAmid_iff_matched hnested ha hb).1 hab) fun p hp => .inl hp)
    | true =>
      obtain ⟨t, xs, u, ys, rfl, rfl⟩ | ⟨r, s, rfl, rfl⟩ | ⟨r, s, rfl, rfl⟩ :=
        Value.areNested_cases hnested
      · have hitems := equalAmid_tuple.1 hab
        have hx := Value.isFloatFree_tuple.1 ha
        have hy := Value.isFloatFree_tuple.1 hb
        refine .inl (.of_matched (.tuple (hitems.imp_of_mem_zip ?_)) fun p hp => .inl hp)
        intro x y hmem hxy
        exact ih _ (.tuple hmem) (hx x (List.of_mem_zip hmem).1) (hy y (List.of_mem_zip hmem).2)
          hxy rfl
      · by_cases hmet : (.list r, .list s) ∈ comparing
        · exact .inr ⟨_, hmet, rfl, rfl⟩
        · rcases equalAmid_list.1 hab with rfl | hmem | hitems
          · exact .inl (.refl hh comparing rfl)
          · exact absurd hmem hmet
          · refine .inl (BisimilarUpTo.of_assuming (c := .list r) (d := .list s)
              (.list (hitems.imp_of_mem_zip fun x y hmem hxy => ?_)))
            exact ih _ (.list hmet hmem) (hh.list r x (List.of_mem_zip hmem).1)
              (hh.list s y (List.of_mem_zip hmem).2) hxy rfl
      · by_cases hmet : (.dict r, .dict s) ∈ comparing
        · exact .inr ⟨_, hmet, rfl, rfl⟩
        · rcases equalAmid_dict.1 hab with rfl | hmem | ⟨hsize, hvalues⟩
          · exact .inl (.refl hh comparing rfl)
          · exact absurd hmem hmet
          · refine .inl (BisimilarUpTo.of_assuming (c := .dict r) (d := .dict s)
              (.dict hsize (((hk r).forall_mem_iff hsize).1 fun e he => ?_)))
            obtain ⟨y, hy, hxy⟩ := hvalues e he
            obtain ⟨k, hk, -⟩ := Entries.exists_mem_of_get?_eq_some hy
            exact ⟨y, hy, ih _ (.dict hmet he hy) (hh.dict r e he) (hh.dict s (k, y) hk) hxy rfl⟩

/-! ## Bisimilar values are equal -/

/-- The comparison finds no difference between bisimilar values. -/
theorem equalAmid_of_bisimilar (hh : h.FloatFree) (hk : h.Keyed) (comparing : Comparing)
    {a b : Value} (ha : a.isFloatFree = true) (hb : b.isFloatFree = true)
    (hab : h.Bisimilar a b) : h.equalAmid comparing a b = true := by
  generalize hc : (⟨comparing, a, b⟩ : Comparison) = c
  induction c using h.calls_wellFounded.induction generalizing comparing a b with
  | h c ih =>
    subst hc
    cases hnested : a.areNested b with
    | false => exact (equalAmid_iff_matched hnested ha hb).2 hab.matched
    | true =>
      have hmatched := hab.matched
      obtain ⟨t, xs, u, ys, rfl, rfl⟩ | ⟨r, s, rfl, rfl⟩ | ⟨r, s, rfl, rfl⟩ :=
        Value.areNested_cases hnested
      · have hx := Value.isFloatFree_tuple.1 ha
        have hy := Value.isFloatFree_tuple.1 hb
        cases hmatched with
        | number hx _ | object hx _ => cases hx
        | tuple hitems =>
          refine equalAmid_tuple.2 (hitems.imp_of_mem_zip fun x y hmem hxy => ?_)
          exact ih _ (.tuple hmem) comparing (hx x (List.of_mem_zip hmem).1)
            (hy y (List.of_mem_zip hmem).2) hxy rfl
      · refine equalAmid_list.2 (.inr ?_)
        by_cases hmet : (.list r, .list s) ∈ comparing
        · exact .inl hmet
        · cases hmatched with
          | number hx _ | object hx _ => cases hx
          | list hitems =>
            refine .inr (hitems.imp_of_mem_zip fun x y hmem hxy => ?_)
            exact ih _ (.list hmet hmem) _ (hh.list r x (List.of_mem_zip hmem).1)
              (hh.list s y (List.of_mem_zip hmem).2) hxy rfl
      · refine equalAmid_dict.2 (.inr ?_)
        by_cases hmet : (.dict r, .dict s) ∈ comparing
        · exact .inl hmet
        · cases hmatched with
          | number hx _ | object hx _ => cases hx
          | dict hsize hvalues =>
            refine .inr ⟨hsize, fun e he => ?_⟩
            obtain ⟨y, hy, hxy⟩ := ((hk r).forall_mem_iff hsize).2 hvalues e he
            obtain ⟨k, hk, -⟩ := Entries.exists_mem_of_get?_eq_some hy
            exact ⟨y, hy, ih _ (.dict hmet he hy) _ (hh.dict r e he) (hh.dict s (k, y) hk) hxy rfl⟩

theorem equal_iff_bisimilar (hh : h.FloatFree) (hk : h.Keyed) {a b : Value}
    (ha : a.isFloatFree = true) (hb : b.isFloatFree = true) :
    h.equal a b = true ↔ h.Bisimilar a b := by
  rw [equal_eq_equalAmid]
  exact ⟨fun hab => .of_related_nil (related_of_equalAmid hh hk ha hb hab),
    equalAmid_of_bisimilar hh hk [] ha hb⟩

/-! ## An equivalence -/

theorem isObject_of_identical {a b : Value} (hab : h.identical a b = true)
    (ha : a.isObject = true) : b.isObject = true := by
  rw [Value.isObject_eq h, ← (h.identical_iff a b).1 hab, ← Value.isObject_eq h, ha]

theorem Matched.symm {R : Value → Value → Prop} {a b : Value} (hab : h.Matched R a b) :
    h.Matched (fun x y => R y x) b a := by
  cases hab with
  | none => exact .none
  | number ha hb => exact .number hb ha
  | str s => exact .str s
  | tuple hitems => exact .tuple hitems.flip
  | list hitems => exact .list hitems.flip
  | @dict r s hsize hvalues =>
    refine .dict hsize.symm fun key => ?_
    have hvalue := hvalues key
    cases hx : h.dictGet? r key <;> cases hy : h.dictGet? s key <;> rw [hx, hy] at hvalue <;>
      cases hvalue
    · exact .none
    · next hxy => exact .some hxy
  | object ha hab =>
    exact .object (isObject_of_identical hab ha) (identical_symm hab)

theorem Matched.trans {R S : Value → Value → Prop} {a b c : Value} (hab : h.Matched R a b)
    (hbc : h.Matched S b c) : h.Matched (fun x z => ∃ y, R x y ∧ S y z) a c := by
  cases hab with
  | none =>
    cases hbc with
    | none => exact .none
    | number hb _ | object hb _ => cases hb
  | number ha hb =>
    cases hbc with
    | number hb' hc =>
      cases hb.symm.trans hb'
      exact .number ha hc
    | object hobject _ => cases (Value.isObject_of_word? hb).symm.trans hobject
    | _ => cases hb
  | str s =>
    cases hbc with
    | str s => exact .str s
    | number hb _ | object hb _ => cases hb
  | tuple hitems =>
    cases hbc with
    | tuple hitems' => exact .tuple (hitems.comp hitems')
    | number hb _ | object hb _ => cases hb
  | list hitems =>
    cases hbc with
    | list hitems' => exact .list (hitems.comp hitems')
    | number hb _ | object hb _ => cases hb
  | @dict r s hsize hvalues =>
    cases hbc with
    | @dict _ t hsize' hvalues' =>
      refine .dict (hsize.trans hsize') fun key => ?_
      have hvalue := hvalues key
      have hvalue' := hvalues' key
      cases hx : h.dictGet? r key <;> cases hy : h.dictGet? s key <;>
        cases hz : h.dictGet? t key <;> rw [hx, hy] at hvalue <;> rw [hy, hz] at hvalue' <;>
        cases hvalue <;> cases hvalue'
      · exact .none
      · next hxy hyz => exact .some ⟨_, hxy, hyz⟩
    | number hb _ | object hb _ => cases hb
  | object ha hab =>
    have hb := isObject_of_identical hab ha
    cases hbc with
    | object _ hbc => exact .object ha (identical_trans hab hbc)
    | number hword _ => cases (Value.isObject_of_word? hword).symm.trans hb
    | _ => cases hb

theorem Bisimilar.refl (hh : h.FloatFree) {v : Value} (hv : v.isFloatFree = true) :
    h.Bisimilar v v :=
  .of_related_nil (.inl (.refl hh [] hv))

theorem Bisimilar.symm {a b : Value} (hab : h.Bisimilar a b) : h.Bisimilar b a := by
  obtain ⟨R, hR, hab⟩ := hab
  exact ⟨fun x y => R y x, fun x y hxy => (hR y x hxy).symm, hab⟩

theorem Bisimilar.trans {a b c : Value} (hab : h.Bisimilar a b) (hbc : h.Bisimilar b c) :
    h.Bisimilar a c := by
  obtain ⟨R, hR, hab⟩ := hab
  obtain ⟨S, hS, hbc⟩ := hbc
  refine ⟨fun x z => ∃ y, R x y ∧ S y z, ?_, b, hab, hbc⟩
  rintro x z ⟨y, hxy, hyz⟩
  exact (hR x y hxy).trans (hS y z hyz)

/-! ## The specification of equality -/

/-- Equality decides bisimilarity. On a heap of lists and dicts without doubles, shared and
self-containing as they may be, the recursion of equality ends: no comparison leads to others
without end, and equality is what calls itself like that, without a bound. It finds two values equal
exactly if they are bisimilar, and so is an equivalence. -/
theorem equality_is_bisimilarity (hh : h.FloatFree) (hk : h.Keyed) :
    WellFounded h.Calls ∧
    (h.equal = h.equalAmid [] ∧ ∀ comparing, h.equalAmid comparing = h.equalWith fun c d =>
      comparing.contains (c, d) || h.equalContents (h.equalAmid ((c, d) :: comparing)) c d) ∧
    (∀ a b : Value, a.isFloatFree = true → b.isFloatFree = true →
      (h.equal a b = true ↔ h.Bisimilar a b)) ∧
    Equivalence fun a b : { v : Value // v.isFloatFree = true } => h.equal a b = true := by
  refine ⟨h.calls_wellFounded, ⟨h.equal_eq_equalAmid, h.equalAmid_eq⟩,
    fun a b => equal_iff_bisimilar hh hk, ?_⟩
  constructor
  · rintro ⟨v, hv⟩
    exact (equal_iff_bisimilar hh hk hv hv).2 (.refl hh hv)
  · rintro ⟨a, ha⟩ ⟨b, hb⟩ hab
    exact (equal_iff_bisimilar hh hk hb ha).2 ((equal_iff_bisimilar hh hk ha hb).1 hab).symm
  · rintro ⟨a, ha⟩ ⟨b, hb⟩ ⟨c, hc⟩ hab hbc
    exact (equal_iff_bisimilar hh hk ha hc).2
      (((equal_iff_bisimilar hh hk ha hb).1 hab).trans ((equal_iff_bisimilar hh hk hb hc).1 hbc))

end Heap

/-- Two lists each of which contains the other one, and a dict that contains the first. -/
def TwoKnots.heap : Heap where
  lists := #[[.list ⟨1⟩], [.list ⟨0⟩]]
  dicts := #[[(.str "list", .list ⟨0⟩)]]

/-- The two lists are equal, and bisimilar. -/
theorem TwoKnots.bisimilar :
    heap.FloatFree ∧ heap.Keyed ∧ heap.equal (.list ⟨0⟩) (.list ⟨1⟩) = true ∧
      heap.Bisimilar (.list ⟨0⟩) (.list ⟨1⟩) := by
  have hlist : ∀ r : ListRef, heap.list r = [.list ⟨1⟩] ∨ heap.list r = [.list ⟨0⟩] ∨
      heap.list r = []
    | ⟨0⟩ => .inl rfl
    | ⟨1⟩ => .inr (.inl rfl)
    | ⟨_ + 2⟩ => .inr (.inr rfl)
  have hdict : ∀ r : DictRef, heap.dict r = [(.str "list", .list ⟨0⟩)] ∨ heap.dict r = []
    | ⟨0⟩ => .inl rfl
    | ⟨_ + 1⟩ => .inr rfl
  have hff : heap.FloatFree := by
    constructor
    · intro r
      rcases hlist r with heq | heq | heq <;> simp [heq, Value.isFloatFree]
    · intro r
      rcases hdict r with heq | heq <;> simp [heq, Value.isFloatFree]
  have hk : heap.Keyed := by
    intro r
    rcases hdict r with heq | heq <;> rw [heq]
    · exact Entries.Keyed.nil.insert rfl _
    · exact .nil
  exact ⟨hff, hk, rfl, ((Heap.equality_is_bisimilarity hff hk).2.2.1 _ _ rfl rfl).1 rfl⟩

end TaskletMachine
