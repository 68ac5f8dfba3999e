import TaskletMachine.Operator.Compare
import TaskletMachine.Proofs.Operator.Native

/-!
# The order of values

Values of finite depth unfold to finite trees, of numbers and texts in tuples and lists. What cannot
be ordered, dicts and objects among it, is a leaf that stands for all values that are equal to it.
On such values, equality is equality of the trees, and the order is an order of trees: that of the
first items that differ. Although not all trees can be compared, where the order answers, it is a
strict order that agrees with equality.

## Main definitions

* `Heap.Plain`: values without dicts and objects in them.
* `Datum`, `Heap.Unfolds`: finite trees, and the values that unfold to them.
* `Datum.compare?`: the order of trees.
* `Heap.Ranked`: the comparisons of two values are those of an order.
-/
namespace TaskletMachine

/-- Values that are built from `None`, truth values, integers, strings, tuples and lists in finitely
many steps, so that none contains itself. -/
inductive Heap.Plain (h : Heap) : Value → Prop
  | none : Plain h .none
  | bool (b : Bool) : Plain h (.bool b)
  | int (n : Int64) : Plain h (.int n)
  | str (s : String) : Plain h (.str s)
  | tuple {token : Nat} {items : List Value} (hitems : ∀ v ∈ items, Plain h v) :
    Plain h (.tuple token items)
  | list {r : ListRef} (hitems : ∀ v ∈ h.list r, Plain h v) : Plain h (.list r)

/-! ## Trees -/

/-- What a value is made of, without identities. What cannot be ordered is known by the values that
are equal to it. -/
inductive Datum where
  | number (n : Int64)
  | text (s : String)
  | tuple (items : List Datum)
  | list (items : List Datum)
  | other (peers : Set Value)

namespace Datum

/-- Induction over trees, with the hypothesis for all items. -/
@[elab_as_elim, induction_eliminator]
theorem induction {motive : Datum → Prop} (number : ∀ n, motive (.number n))
    (text : ∀ s, motive (.text s)) (tuple : ∀ ts, (∀ t ∈ ts, motive t) → motive (.tuple ts))
    (list : ∀ ts, (∀ t ∈ ts, motive t) → motive (.list ts))
    (other : ∀ peers, motive (.other peers)) : ∀ t, motive t
  | .number n => number n
  | .text s => text s
  | .tuple ts => tuple ts fun t _ => induction number text tuple list other t
  | .list ts => list ts fun t _ => induction number text tuple list other t
  | .other peers => other peers

/-! ## The order of trees -/

open Classical in
mutual

/-- Which of two trees comes first. Only numbers, texts, tuples and lists can be compared, each with
its like. -/
noncomputable def compare? : Datum → Datum → Option Ordering
  | number m, number n => some (compare m.toInt n.toInt)
  | text s, text t => some (compare s t)
  | tuple ts, tuple us => compareItems? ts us
  | list ts, list us => compareItems? ts us
  | _, _ => none

/-- Which of two rows comes first: that with the first of the first items that differ. If none do,
it is the shorter one. -/
noncomputable def compareItems? : List Datum → List Datum → Option Ordering
  | [], [] => some .eq
  | [], _ :: _ => some .lt
  | _ :: _, [] => some .gt
  | t :: ts, u :: us => if t = u then compareItems? ts us else compare? t u

end

variable {t u v : Datum} {ts us vs : List Datum}

theorem compareItems?_cons_self (t : Datum) (ts us : List Datum) :
    compareItems? (t :: ts) (t :: us) = compareItems? ts us := by
  rw [compareItems?, if_pos rfl]

theorem compareItems?_cons_of_ne (h : t ≠ u) (ts us : List Datum) :
    compareItems? (t :: ts) (u :: us) = compare? t u := by
  rw [compareItems?, if_neg h]

theorem compareItems?_swap (h : ∀ t ∈ ts, ∀ u, compare? u t = (compare? t u).map Ordering.swap) :
    compareItems? us ts = (compareItems? ts us).map Ordering.swap := by
  induction ts generalizing us with
  | nil => cases us <;> rfl
  | cons t ts ih =>
    cases us with
    | nil => rfl
    | cons u us =>
      by_cases htu : t = u
      · subst htu
        rw [compareItems?_cons_self, compareItems?_cons_self]
        exact ih fun t ht => h t (List.mem_cons_of_mem _ ht)
      · rw [compareItems?_cons_of_ne htu, compareItems?_cons_of_ne (Ne.symm htu)]
        exact h t List.mem_cons_self u

/-- In the other order, the order is the other way around. -/
theorem compare?_swap (t u : Datum) : compare? u t = (compare? t u).map Ordering.swap := by
  induction t generalizing u with
  | other peers => cases u <;> rfl
  | number n =>
    cases u with
    | number m => exact congrArg some Std.OrientedOrd.eq_swap
    | _ => rfl
  | text s =>
    cases u with
    | text s' => exact congrArg some Std.OrientedOrd.eq_swap
    | _ => rfl
  | tuple ts ih =>
    cases u with
    | tuple us => exact compareItems?_swap ih
    | _ => rfl
  | list ts ih =>
    cases u with
    | list us => exact compareItems?_swap ih
    | _ => rfl

theorem compareItems?_self (ts : List Datum) : compareItems? ts ts = some .eq := by
  induction ts with
  | nil => rfl
  | cons t ts ih => rw [compareItems?_cons_self, ih]

theorem eq_of_compareItems? (h : ∀ t ∈ ts, ∀ u, compare? t u = some .eq → t = u)
    (heq : compareItems? ts us = some .eq) : ts = us := by
  induction ts generalizing us with
  | nil =>
    cases us with
    | nil => rfl
    | cons u us => cases heq
  | cons t ts ih =>
    cases us with
    | nil => cases heq
    | cons u us =>
      by_cases htu : t = u
      · subst htu
        rw [compareItems?_cons_self] at heq
        rw [ih (fun t ht => h t (List.mem_cons_of_mem _ ht)) heq]
      · rw [compareItems?_cons_of_ne htu] at heq
        exact absurd (h t List.mem_cons_self u heq) htu

/-- Trees of which none comes first are the same. -/
theorem eq_of_compare? (h : compare? t u = some .eq) : t = u := by
  induction t generalizing u with
  | other peers => cases h
  | number n =>
    cases u with
    | number m => rw [Int64.toInt_inj.1 (Std.LawfulEqOrd.eq_of_compare (Option.some_inj.1 h))]
    | _ => cases h
  | text s =>
    cases u with
    | text s' => rw [Std.LawfulEqOrd.eq_of_compare (Option.some_inj.1 h)]
    | _ => cases h
  | tuple ts ih =>
    cases u with
    | tuple us => rw [eq_of_compareItems? (fun t ht u => ih t ht) h]
    | _ => cases h
  | list ts ih =>
    cases u with
    | list us => rw [eq_of_compareItems? (fun t ht u => ih t ht) h]
    | _ => cases h

/-- If a tree can be compared with another one, it can be compared with itself. -/
theorem compare?_self (h : (compare? t u).isSome) : compare? t t = some .eq := by
  cases t with
  | other peers => cases h
  | number n => simp [compare?]
  | text s => simp [compare?]
  | tuple ts => exact compareItems?_self ts
  | list ts => exact compareItems?_self ts

theorem compareItems?_trans
    (h : ∀ t ∈ ts, ∀ u v, compare? t u = some .lt → compare? u v = some .lt →
      compare? t v = some .lt)
    (htu : compareItems? ts us = some .lt) (huv : compareItems? us vs = some .lt) :
    compareItems? ts vs = some .lt := by
  induction ts generalizing us vs with
  | nil =>
    cases vs with
    | nil => cases us <;> cases huv
    | cons => rfl
  | cons t ts ih =>
    cases us with
    | nil => cases htu
    | cons u us =>
      cases vs with
      | nil => cases huv
      | cons v vs =>
        by_cases heq : t = u
        · subst heq
          by_cases heq' : t = v
          · subst heq'
            rw [compareItems?_cons_self] at htu huv ⊢
            exact ih (fun t ht => h t (List.mem_cons_of_mem _ ht)) htu huv
          · rwa [compareItems?_cons_of_ne heq'] at huv ⊢
        · rw [compareItems?_cons_of_ne heq] at htu
          by_cases heq' : u = v
          · subst heq'
            rwa [compareItems?_cons_of_ne heq]
          · rw [compareItems?_cons_of_ne heq'] at huv
            have htv := h t List.mem_cons_self u v htu huv
            have hne : t ≠ v := by
              rintro rfl
              rw [compare?_self (u := t) (by simp [htv])] at htv
              cases htv
            rwa [compareItems?_cons_of_ne hne]

/-- What comes before what comes before a tree comes before the tree. -/
theorem compare?_trans (htu : compare? t u = some .lt) (huv : compare? u v = some .lt) :
    compare? t v = some .lt := by
  induction t generalizing u v with
  | other peers => cases htu
  | number n =>
    cases u with
    | number m =>
      cases v with
      | number k =>
        exact congrArg some (Std.TransCmp.lt_trans (Option.some_inj.1 htu) (Option.some_inj.1 huv))
      | _ => cases huv
    | _ => cases htu
  | text s =>
    cases u with
    | text s' =>
      cases v with
      | text s'' =>
        exact congrArg some (Std.TransCmp.lt_trans (Option.some_inj.1 htu) (Option.some_inj.1 huv))
      | _ => cases huv
    | _ => cases htu
  | tuple ts ih =>
    cases u with
    | tuple us =>
      cases v with
      | tuple vs => exact compareItems?_trans (fun t ht u v => ih t ht) htu huv
      | _ => cases huv
    | _ => cases htu
  | list ts ih =>
    cases u with
    | list us =>
      cases v with
      | list vs => exact compareItems?_trans (fun t ht u v => ih t ht) htu huv
      | _ => cases huv
    | _ => cases htu

/-- What does not come after what does not come after a tree does not come after the tree. -/
theorem exists_compare?_isLE {o o' : Ordering} (htu : compare? t u = some o) (ho : o.isLE)
    (huv : compare? u v = some o') (ho' : o'.isLE) : ∃ o, compare? t v = some o ∧ o.isLE := by
  cases o with
  | gt => cases ho
  | eq =>
    obtain rfl := eq_of_compare? htu
    exact ⟨o', huv, ho'⟩
  | lt =>
    cases o' with
    | gt => cases ho'
    | eq =>
      obtain rfl := eq_of_compare? huv
      exact ⟨_, htu, rfl⟩
    | lt => exact ⟨_, compare?_trans htu huv, rfl⟩

end Datum

/-! ## Values that unfold to trees -/

/-- Whether a value can be neither a number nor a text, nor be ordered by what it contains. -/
def Value.isOther : Value → Bool
  | bool _ | int _ | float _ | str _ | tuple _ _ | list _ => false
  | _ => true

theorem Value.word?_of_isOther {v : Value} (hv : v.isOther = true) : v.word? = Option.none := by
  cases v with
  | bool | int => cases hv
  | _ => rfl

/-- Whether a value unfolds to a tree. -/
inductive Heap.Unfolds (h : Heap) : Value → Datum → Prop
  | number {v : Value} {n : Int64} (hv : v.word? = some n) : Unfolds h v (.number n)
  | text (s : String) : Unfolds h (.str s) (.text s)
  | tuple {token : Nat} {items : List Value} {ts : List Datum}
    (hitems : List.Forall₂ (Unfolds h) items ts) : Unfolds h (.tuple token items) (.tuple ts)
  | list {r : ListRef} {ts : List Datum} (hitems : List.Forall₂ (Unfolds h) (h.list r) ts) :
    Unfolds h (.list r) (.list ts)
  | other {v : Value} (hv : h.Native v) (hother : v.isOther = true) :
    Unfolds h v (.other {w | h.Bisimilar v w})

namespace Heap

variable {h : Heap}

theorem exists_forall₂ {α β : Type} {R : α → β → Prop} {l : List α} (h : ∀ a ∈ l, ∃ b, R a b) :
    ∃ bs, List.Forall₂ R l bs := by
  induction l with
  | nil => exact ⟨[], .nil⟩
  | cons a l ih =>
    obtain ⟨b, hb⟩ := h a List.mem_cons_self
    obtain ⟨bs, hbs⟩ := ih fun a ha => h a (List.mem_cons_of_mem _ ha)
    exact ⟨b :: bs, .cons hb hbs⟩

theorem Native.exists_unfolds {v : Value} (hv : h.Native v) : ∃ t, h.Unfolds v t := by
  induction hv using Native.induction with
  | step v hv ih =>
    cases hv with
    | @atom v hatom =>
      cases v with
      | bool | int => exact ⟨_, .number rfl⟩
      | str s => exact ⟨_, .text s⟩
      | float | tuple | list | dict => cases hatom
      | _ => exact ⟨_, .other (.atom hatom) rfl⟩
    | tuple =>
      obtain ⟨ts, hts⟩ := exists_forall₂ fun v hv => ih v (.tuple hv)
      exact ⟨_, .tuple hts⟩
    | list =>
      obtain ⟨ts, hts⟩ := exists_forall₂ fun v hv => ih v (.list hv)
      exact ⟨_, .list hts⟩
    | dict hkeyed hvalues => exact ⟨_, .other (.dict hkeyed hvalues) rfl⟩

theorem Plain.native {v : Value} (hv : h.Plain v) : h.Native v := by
  induction hv with
  | none | bool | int | str => exact .atom rfl
  | tuple _ ih => exact .tuple ih
  | list _ ih => exact .list ih

theorem Plain.exists_unfolds {v : Value} (hv : h.Plain v) : ∃ t, h.Unfolds v t :=
  hv.native.exists_unfolds

theorem unfolds_number {v : Value} {n : Int64} {t : Datum} (hv : v.word? = some n) :
    h.Unfolds v t ↔ t = .number n := by
  constructor
  · intro ht
    cases ht with
    | number hv' => rw [Option.some_inj.1 (hv'.symm.trans hv)]
    | other _ hother => cases (Value.word?_of_isOther hother).symm.trans hv
    | _ => cases hv
  · rintro rfl
    exact .number hv

theorem unfolds_text {s : String} {t : Datum} : h.Unfolds (.str s) t ↔ t = .text s := by
  constructor
  · intro ht
    cases ht with
    | text => rfl
    | number hv => cases hv
    | other _ hother => cases hother
  · rintro rfl
    exact .text s

theorem unfolds_tuple {token : Nat} {items : List Value} {t : Datum} :
    h.Unfolds (.tuple token items) t ↔ ∃ ts, t = .tuple ts ∧ List.Forall₂ h.Unfolds items ts := by
  constructor
  · intro ht
    cases ht with
    | number hv => cases hv
    | other _ hother => cases hother
    | tuple hitems => exact ⟨_, rfl, hitems⟩
  · rintro ⟨ts, rfl, hitems⟩
    exact .tuple hitems

theorem unfolds_list {r : ListRef} {t : Datum} :
    h.Unfolds (.list r) t ↔ ∃ ts, t = .list ts ∧ List.Forall₂ h.Unfolds (h.list r) ts := by
  constructor
  · intro ht
    cases ht with
    | number hv => cases hv
    | other _ hother => cases hother
    | list hitems => exact ⟨_, rfl, hitems⟩
  · rintro ⟨ts, rfl, hitems⟩
    exact .list hitems

theorem unfolds_other {v : Value} {t : Datum} (hv : v.isOther = true) :
    h.Unfolds v t ↔ h.Native v ∧ t = .other {w | h.Bisimilar v w} := by
  constructor
  · intro ht
    cases ht with
    | number hword => cases (Value.word?_of_isOther hv).symm.trans hword
    | text | tuple | list => cases hv
    | other hnative _ => exact ⟨hnative, rfl⟩
  · rintro ⟨hnative, rfl⟩
    exact .other hnative hv

/-- Rows that are related to the same row are equal, if this is so for their items. -/
theorem forall₂_unique {α β : Type} {R : α → β → Prop} {l : List α} {bs cs : List β}
    (h : ∀ b ∈ bs, ∀ a c, R a b → R a c → b = c) (hbs : List.Forall₂ R l bs)
    (hcs : List.Forall₂ R l cs) : bs = cs := by
  induction hbs generalizing cs with
  | nil =>
    cases hcs
    rfl
  | cons hab _ ih =>
    cases hcs with
    | cons hac hrest =>
      rw [h _ List.mem_cons_self _ _ hab hac,
        ih (fun b hb => h b (List.mem_cons_of_mem _ hb)) hrest]

/-- A value unfolds to one tree only. -/
theorem Unfolds.unique {v : Value} {t u : Datum} (ht : h.Unfolds v t) (hu : h.Unfolds v u) :
    t = u := by
  induction t generalizing v u with
  | number n =>
    cases ht with
    | number hv => exact ((unfolds_number hv).1 hu).symm
  | text s =>
    cases ht
    exact (unfolds_text.1 hu).symm
  | tuple ts ih =>
    cases ht with
    | tuple hitems =>
      obtain ⟨us, rfl, hitems'⟩ := unfolds_tuple.1 hu
      rw [forall₂_unique (R := h.Unfolds) (fun t ht v u => ih t ht) hitems hitems']
  | list ts ih =>
    cases ht with
    | list hitems =>
      obtain ⟨us, rfl, hitems'⟩ := unfolds_list.1 hu
      rw [forall₂_unique (R := h.Unfolds) (fun t ht v u => ih t ht) hitems hitems']
  | other peers =>
    cases ht with
    | other _ hother => exact ((unfolds_other hother).1 hu).2.symm

theorem forall_mem_native {items : List Value} {ts : List Datum}
    (h' : ∀ t ∈ ts, ∀ v, h.Unfolds v t → h.Native v)
    (hitems : List.Forall₂ h.Unfolds items ts) : ∀ v ∈ items, h.Native v := by
  induction hitems with
  | nil => exact fun v hv => by cases hv
  | cons hv _ ih =>
    rw [List.forall_mem_cons] at h' ⊢
    exact ⟨h'.1 _ hv, ih h'.2⟩

/-- Only values of finite depth unfold to trees. -/
theorem Unfolds.native {v : Value} {t : Datum} (ht : h.Unfolds v t) : h.Native v := by
  induction t generalizing v with
  | number n =>
    cases ht with
    | number hv =>
      cases v with
      | bool | int => exact .atom rfl
      | _ => cases hv
  | text s =>
    cases ht
    exact .atom rfl
  | tuple ts ih =>
    cases ht with
    | tuple hitems => exact .tuple (forall_mem_native (fun t ht v => ih t ht) hitems)
  | list ts ih =>
    cases ht with
    | list hitems => exact .list (forall_mem_native (fun t ht v => ih t ht) hitems)
  | other peers =>
    cases ht with
    | other hnative _ => exact hnative

/-! ## Equality of values -/

/-- Values that match can be ordered, or cannot, alike. -/
theorem Matched.isOther_eq {R : Value → Value → Prop} {a b : Value} (hab : h.Matched R a b) :
    a.isOther = b.isOther := by
  have hword {v : Value} {n : Int64} (hv : v.word? = some n) : v.isOther = false := by
    cases v with
    | bool | int => rfl
    | _ => cases hv
  have hobject {v : Value} (hv : v.isObject = true) : v.isOther = true := by
    cases v with
    | none | bool | int | float | str | tuple | list | dict => cases hv
    | _ => rfl
  cases hab with
  | number hm hn => rw [hword hm, hword hn]
  | object ha hab => rw [hobject ha, hobject (isObject_of_identical hab ha)]
  | _ => rfl

/-- Rows are related item by item if they unfold to the same trees, if this is so for the items. -/
theorem forall₂_iff_eq {E : Value → Value → Prop} {xs ys : List Value} {ts us : List Datum}
    (h' : ∀ t ∈ ts, ∀ u x y, h.Unfolds x t → h.Unfolds y u → (E x y ↔ t = u))
    (hxs : List.Forall₂ h.Unfolds xs ts) (hys : List.Forall₂ h.Unfolds ys us) :
    List.Forall₂ E xs ys ↔ ts = us := by
  induction hxs generalizing ys us with
  | nil => cases hys <;> simp
  | cons hx _ ih =>
    cases hys with
    | nil => simp
    | cons hy hrest =>
      rw [List.forall_mem_cons] at h'
      rw [List.forall₂_cons, h'.1 _ _ _ hx hy, ih h'.2 hrest, List.cons.injEq]

/-- Values are bisimilar if they unfold to the same tree. -/
theorem Unfolds.bisimilar_iff {a b : Value} {t u : Datum} (ha : h.Unfolds a t)
    (hb : h.Unfolds b u) : h.Bisimilar a b ↔ t = u := by
  induction t generalizing a b u with
  | number m =>
    cases ha with
    | number hm =>
      constructor
      · intro hab
        cases hab.matched with
        | number hm' hn => exact ((unfolds_number (hm'.symm.trans hm ▸ hn)).1 hb).symm
        | object hobject _ => cases (Value.isObject_of_word? hm).symm.trans hobject
        | _ => cases hm
      · rintro rfl
        cases hb with
        | number hn => exact .of_matched (.number hm hn)
  | text s =>
    cases ha
    constructor
    · intro hab
      cases hab.matched with
      | str s => exact (unfolds_text.1 hb).symm
      | number hword _ => cases hword
      | object hobject _ => cases hobject
    · rintro rfl
      cases hb
      exact .of_matched (.str s)
  | tuple ts ih =>
    cases ha with
    | tuple hxs =>
      constructor
      · intro hab
        cases hab.matched with
        | tuple hitems =>
          obtain ⟨us, rfl, hys⟩ := unfolds_tuple.1 hb
          rw [(forall₂_iff_eq (fun t ht u x y => ih t ht) hxs hys).1 hitems]
        | number hword _ => cases hword
        | object hobject _ => cases hobject
      · rintro rfl
        cases hb with
        | tuple hys =>
          exact bisimilar_tuple.2 ((forall₂_iff_eq (fun t ht u x y => ih t ht) hxs hys).2 rfl)
  | list ts ih =>
    cases ha with
    | list hxs =>
      constructor
      · intro hab
        cases hab.matched with
        | list hitems =>
          obtain ⟨us, rfl, hys⟩ := unfolds_list.1 hb
          rw [(forall₂_iff_eq (fun t ht u x y => ih t ht) hxs hys).1 hitems]
        | number hword _ => cases hword
        | object hobject _ => cases hobject
      · rintro rfl
        cases hb with
        | list hys =>
          exact bisimilar_list.2 ((forall₂_iff_eq (fun t ht u x y => ih t ht) hxs hys).2 rfl)
  | other peers =>
    cases ha with
    | other hnative hother =>
      constructor
      · intro hab
        obtain ⟨-, rfl⟩ := (unfolds_other (hab.matched.isOther_eq ▸ hother)).1 hb
        refine congrArg Datum.other (Set.ext fun w => ?_)
        exact ⟨fun haw => hab.symm.trans haw, fun hbw => hab.trans hbw⟩
      · intro heq
        rw [← heq] at hb
        generalize hpeers : {w | h.Bisimilar a w} = peers at hb
        cases hb with
        | other hb _ =>
          have hmem : b ∈ {w | h.Bisimilar a w} := hpeers ▸ hb.bisimilar_self
          exact hmem

/-- While nothing that occurs in a value is being compared, it is equal to what unfolds to the same
tree. -/
theorem Unfolds.equalAmid_iff {comparing : Comparing} {a b : Value} {t u : Datum}
    (ha : h.Unfolds a t) (hb : h.Unfolds b u) (hclear : h.Clear comparing a) :
    h.equalAmid comparing a b = true ↔ t = u :=
  (ha.native.equalAmid_iff hb.native hclear).trans (ha.bisimilar_iff hb)

/-! ## The order of values -/

/-- What the order of trees says about values. -/
def verdict : Option Ordering → Verdict
  | some o => .ordered o
  | none => .incomparable

theorem orderAtoms_of_words {a b : Value} {m n : Int64} (hm : a.word? = some m)
    (hn : b.word? = some n) : orderAtoms a b = .ordered (Ord.compare m.toInt n.toInt) := by
  unfold orderAtoms
  rw [Value.numeric?_of_word? hm, Value.numeric?_of_word? hn]
  rfl

theorem orderAtoms_of_others {a b : Value} (ha : a.isFloatFree = true) (hb : b.isFloatFree = true)
    (hwords : a.word? = none ∨ b.word? = none) (hstrs : ∀ s t, a = .str s → b ≠ .str t) :
    orderAtoms a b = .incomparable := by
  unfold orderAtoms
  rw [Value.numeric?_eq_word? ha, Value.numeric?_eq_word? hb]
  split
  · next m n hm hn => rcases hwords with hnone | hnone <;> simp [hnone] at hm hn
  · split
    · exact absurd rfl (hstrs _ _ rfl)
    · rfl

theorem Unfolds.orderAtoms_eq {a b : Value} {t u : Datum} (ha : h.Unfolds a t)
    (hb : h.Unfolds b u) (hnested : a.areNested b = false ∨ a.isOther = true) :
    orderAtoms a b = verdict (t.compare? u) := by
  have hothers := orderAtoms_of_others ha.native.isFloatFree hb.native.isFloatFree
  cases ha with
  | number hm =>
    cases hb with
    | number hn => exact orderAtoms_of_words hm hn
    | text s =>
      refine hothers (.inr rfl) ?_
      rintro s t rfl
      cases hm
    | other _ hother =>
      refine hothers (.inr (Value.word?_of_isOther hother)) ?_
      rintro s t rfl
      cases hm
    | _ => exact hothers (.inr rfl) (by simp)
  | text s =>
    cases hb with
    | text => rfl
    | number hn =>
      refine hothers (.inl rfl) ?_
      rintro s t - rfl
      cases hn
    | other _ hother =>
      refine hothers (.inl rfl) ?_
      rintro s t - rfl
      cases hother
    | _ => exact hothers (.inl rfl) (by simp)
  | tuple =>
    cases hb with
    | tuple => rcases hnested with hnested | hother <;> contradiction
    | _ => exact hothers (.inl rfl) (by simp)
  | list =>
    cases hb with
    | list => rcases hnested with hnested | hother <;> contradiction
    | _ => exact hothers (.inl rfl) (by simp)
  | other _ hother =>
    rw [hothers (.inl (Value.word?_of_isOther hother))]
    · cases hb <;> rfl
    · rintro s t rfl
      cases hother

section Order

open Relation

variable {equal : Value → Value → Bool} {nested : ListRef → ListRef → Verdict}

/-- Rows are ordered as their trees, if this is so for the items. -/
theorem orderItems_eq {xs ys : List Value} {ts us : List Datum}
    (hequal : ∀ x ∈ xs, ∀ y t u, h.Unfolds x t → h.Unfolds y u → (equal x y = true ↔ t = u))
    (horder : ∀ x ∈ xs, ∀ y t u, h.Unfolds x t → h.Unfolds y u →
      orderWith equal nested x y = verdict (t.compare? u))
    (hxs : List.Forall₂ h.Unfolds xs ts) (hys : List.Forall₂ h.Unfolds ys us) :
    orderItems equal nested xs ys = verdict (Datum.compareItems? ts us) := by
  induction hxs generalizing ys us with
  | nil => cases hys <;> rfl
  | @cons x t xs ts hx _ ih =>
    cases hys with
    | nil => rfl
    | @cons y u ys us hy hys =>
      rw [List.forall_mem_cons] at hequal horder
      rw [orderItems]
      by_cases htu : t = u
      · rw [if_pos ((hequal.1 y t u hx hy).2 htu), ih hequal.2 horder.2 hys, htu,
          Datum.compareItems?_cons_self]
      · rw [if_neg (fun h => htu ((hequal.1 y t u hx hy).1 h)), horder.1 y t u hx hy,
          Datum.compareItems?_cons_of_ne htu]

theorem orderItems_of_empty {xs ys : List Value} {ts us : List Datum} (hempty : xs = [] ∨ ys = [])
    (hxs : List.Forall₂ h.Unfolds xs ts) (hys : List.Forall₂ h.Unfolds ys us) :
    orderItems equal nested xs ys = verdict (Datum.compareItems? ts us) := by
  rcases hempty with rfl | rfl
  · cases hxs
    cases hys <;> rfl
  · cases hys
    cases hxs <;> rfl

/-- Values are ordered as their trees, if this is so for the lists in them. -/
theorem Unfolds.orderWith_eq {a b : Value} {t u : Datum} (ha : h.Unfolds a t)
    (hb : h.Unfolds b u)
    (hequal : ∀ x y t' u', TransGen h.Holds a x → h.Unfolds x t' → h.Unfolds y u' →
      (equal x y = true ↔ t' = u'))
    (hnested : ∀ r s ts us, ReflTransGen h.Holds a (.list r) → h.Unfolds (.list r) (.list ts) →
      h.Unfolds (.list s) (.list us) → nested r s = verdict (Datum.compareItems? ts us)) :
    orderWith equal nested a b = verdict (t.compare? u) := by
  have hnative := ha.native
  induction hnative using Native.induction generalizing b t u with
  | step a _ ih =>
    cases hab : a.areNested b with
    | false =>
      rw [orderWith, ha.orderAtoms_eq hb (.inl hab)]
      · rintro _ _ _ _ rfl rfl
        cases hab
      · rintro _ _ rfl rfl
        cases hab
    | true =>
      obtain ⟨_, xs, _, ys, rfl, rfl⟩ | ⟨r, s, rfl, rfl⟩ | ⟨r, s, rfl, rfl⟩ :=
        Value.areNested_cases hab
      · obtain ⟨ts, rfl, hxs⟩ := unfolds_tuple.1 ha
        obtain ⟨us, rfl, hys⟩ := unfolds_tuple.1 hb
        refine orderItems_eq (fun x hx y t' u' => hequal x y t' u' (.single (.tuple hx)))
          (fun x hx y t' u' ht' hu' => ?_) hxs hys
        refine ih x (.tuple hx) ht' hu' (fun x' y' t u hreach => ?_) fun r s ts us hreach => ?_
        · exact hequal x' y' t u (.head (.tuple hx) hreach)
        · exact hnested r s ts us (.head (.tuple hx) hreach)
      · obtain ⟨ts, rfl, _⟩ := unfolds_list.1 ha
        obtain ⟨us, rfl, _⟩ := unfolds_list.1 hb
        exact hnested r s ts us .refl ha hb
      · exact ha.orderAtoms_eq hb (.inr rfl)

/-- A comparison enters only pairs of lists that it has not met, and so orders values as their
trees. -/
theorem Unfolds.orderWithin_eq {budget : Nat} {comparing : Comparing} {a b : Value} {t u : Datum}
    (ha : h.Unfolds a t) (hb : h.Unfolds b u) (hclear : h.Clear comparing a)
    (hbudget : h.unmet comparing < budget) :
    h.orderWithin budget comparing a b = verdict (t.compare? u) := by
  have hequal {budget : Nat} {comparing : Comparing} {x y : Value} {t u : Datum}
      (hx : h.Unfolds x t) (hy : h.Unfolds y u) (hclear : h.Clear comparing x)
      (hbudget : h.unmet comparing < budget) :
      h.equalWithin budget comparing x y = true ↔ t = u := by
    rw [equalWithin_eq_of_unmet_lt hbudget (Nat.lt_succ_self _)]
    exact hx.equalAmid_iff hy hclear
  induction budget generalizing comparing a b t u with
  | zero => exact absurd hbudget (Nat.not_lt_zero _)
  | succ budget ih =>
    rw [orderWithin]
    refine ha.orderWith_eq hb (fun x y t' u' hax hx hy => ?_) fun r s ts us har hr hs => ?_
    · exact hequal hx hy (hclear.of_reaches hax.to_reflTransGen) hbudget
    · have hlist := hclear.of_reaches har
      have hnew : (.list r, .list s) ∉ comparing := Clear.notMem (c := .list r) hlist _
      have hbelow {x : Value} (hx : TransGen h.Holds (.list r) x) :
          h.Clear ((.list r, .list s) :: comparing) x :=
        Clear.cons (c := .list r) hr.native hlist hx _
      rw [if_neg (by simpa using hnew)]
      obtain ⟨_, heq, hxs⟩ := unfolds_list.1 hr
      obtain rfl := Datum.list.inj heq
      obtain ⟨_, heq, hys⟩ := unfolds_list.1 hs
      obtain rfl := Datum.list.inj heq
      -- if one of the lists is empty, no items are compared
      by_cases hempty : h.list r = [] ∨ h.list s = []
      · exact orderItems_of_empty hempty hxs hys
      · obtain ⟨hr', hs'⟩ := not_or.1 hempty
        have hlt := unmet_cons_lt (list_mem_pairs hr' hs') hnew
        refine orderItems_eq (fun x hx y t u ht hu => ?_) (fun x hx y t u ht hu => ?_) hxs hys
        · exact hequal ht hu (hbelow (.single (.list hx))) (by omega)
        · refine ht.orderWith_eq hu (fun x' y' t' u' hreach ht' hu' => ?_)
            fun r s ts' us' hreach hr hs => ?_
          · exact hequal ht' hu' (hbelow (.head (.list hx) hreach)) (by omega)
          · exact ih hr hs (hbelow (.head' (.list hx) hreach)) (by omega)

end Order

/-- Values are ordered as their trees, and equal if they unfold to the same one. -/
theorem Unfolds.order_eq {a b : Value} {t u : Datum} (ha : h.Unfolds a t) (hb : h.Unfolds b u) :
    h.order a b = verdict (t.compare? u) ∧ (h.equal a b = true ↔ t = u) := by
  refine ⟨ha.orderWithin_eq hb (.nil h a) (unmet_lt_pairBudget []), ?_⟩
  rw [equal_eq_equalAmid]
  exact ha.equalAmid_iff hb (.nil h a)

/-! ## The laws -/

/-- The comparisons that ask which of two values comes first. -/
def orderings : List CompareOp :=
  [.less, .greater, .lessOrEqual, .greaterOrEqual]

/-- The comparisons of two values, in either order, are what an order of the two demands. -/
structure Ranked (h : Heap) (a b : Value) (o : Ordering) : Prop where
  equal : h.equal a b = (o == .eq)
  forth : ∀ op ∈ orderings, h.compare op a b = .ok (holds op o)
  back : ∀ op ∈ orderings, h.compare op b a = .ok (holds op o.swap)

theorem compare_of_order {op : CompareOp} (hop : op ∈ orderings) {a b : Value} {o : Ordering}
    (ho : h.order a b = .ordered o) : h.compare op a b = .ok (holds op o) := by
  simp only [orderings, List.mem_cons, List.not_mem_nil, or_false] at hop
  rcases hop with rfl | rfl | rfl | rfl <;> rw [compare, ho]

/-- Values whose trees can be compared are ranked. -/
theorem Unfolds.ranked {a b : Value} {t u : Datum} (ha : h.Unfolds a t) (hb : h.Unfolds b u)
    {o : Ordering} (ho : t.compare? u = some o) : h.Ranked a b o := by
  obtain ⟨horder, hequal⟩ := ha.order_eq hb
  obtain ⟨hback, _⟩ := hb.order_eq ha
  rw [Datum.compare?_swap t u, ho] at hback
  rw [ho] at horder
  refine ⟨?_, fun op hop => compare_of_order hop horder, fun op hop => compare_of_order hop hback⟩
  rw [Bool.eq_iff_iff, hequal, beq_iff_eq]
  constructor
  · rintro rfl
    exact Option.some_inj.1 (ho.symm.trans (Datum.compare?_self (by rw [ho]; rfl)))
  · rintro rfl
    exact Datum.eq_of_compare? ho

/-- One comes before the other exactly if its tree does. -/
theorem Unfolds.less_iff {a b : Value} {t u : Datum} (ha : h.Unfolds a t) (hb : h.Unfolds b u) :
    h.compare .less a b = .ok true ↔ t.compare? u = some .lt := by
  rw [compare, (ha.order_eq hb).1]
  cases t.compare? u with
  | none => exact ⟨(fun h => by cases h), (fun h => by cases h)⟩
  | some o => cases o <;> exact ⟨(fun h => by cases h <;> rfl), (fun h => by cases h <;> rfl)⟩

/-- Values can be compared exactly if their trees can. -/
theorem Unfolds.exists_less_iff {a b : Value} {t u : Datum} (ha : h.Unfolds a t)
    (hb : h.Unfolds b u) : (∃ r, h.compare .less a b = .ok r) ↔ ∃ o, t.compare? u = some o := by
  rw [compare, (ha.order_eq hb).1]
  cases t.compare? u with
  | none => exact ⟨(fun ⟨_, h⟩ => by cases h), (fun ⟨_, h⟩ => by cases h)⟩
  | some o => exact ⟨fun _ => ⟨o, rfl⟩, fun _ => ⟨_, rfl⟩⟩

/-- **A strict order that agrees with equality.** If one of two plain values can be asked to be less
than the other, all comparisons succeed, in either order; exactly one of less, equal and greater
holds; and the comparisons are related as they should be. What is less than, or equal to and
comparable with, a value that is less than a third one is less than the third one. -/
theorem order_is_strict {a b c : Value} (ha : h.Plain a) (hb : h.Plain b) (hc : h.Plain c) :
    ((∃ r, h.compare .less a b = .ok r) →
      (∀ op ∈ orderings, (∃ r, h.compare op a b = .ok r) ∧ ∃ r, h.compare op b a = .ok r) ∧
      (h.compare .less a b = .ok true ∧ h.equal a b = false ∧ h.compare .greater a b = .ok false ∨
        h.compare .less a b = .ok false ∧ h.equal a b = true ∧
          h.compare .greater a b = .ok false ∨
        h.compare .less a b = .ok false ∧ h.equal a b = false ∧
          h.compare .greater a b = .ok true) ∧
      (h.compare .less a b = .ok true ↔ h.compare .greater b a = .ok true) ∧
      (h.compare .lessOrEqual a b = .ok true ↔ ¬ h.compare .greater a b = .ok true)) ∧
    (h.compare .less a b = .ok true ∨
        h.equal a b = true ∧ (∃ r, h.compare .less a b = .ok r) →
      h.compare .less b c = .ok true → h.compare .less a c = .ok true) := by
  obtain ⟨t, ht⟩ := ha.exists_unfolds
  obtain ⟨u, hu⟩ := hb.exists_unfolds
  obtain ⟨v, hv⟩ := hc.exists_unfolds
  constructor
  · rw [ht.exists_less_iff hu]
    rintro ⟨o, ho⟩
    obtain ⟨hequal, hforth, hback⟩ := ht.ranked hu ho
    refine ⟨fun op hop => ⟨⟨_, hforth op hop⟩, _, hback op hop⟩, ?_⟩
    rw [hequal, hforth .less (by decide), hforth .greater (by decide),
      hforth .lessOrEqual (by decide), hback .greater (by decide)]
    cases o <;> simp [holds]
  · rw [ht.less_iff hu, hu.less_iff hv, ht.less_iff hv, (ht.order_eq hu).2]
    rintro (htu | ⟨rfl, _⟩) huv
    · exact Datum.compare?_trans htu huv
    · exact huv

end Heap

/-- Three lists with the same first item, no number and then numbers or truth values. -/
def NestedRows.heap : Heap where
  lists := #[[.none, .bool true], [.none, .int 1, .str "x"], [.none, .int 2]]

/-- Tuples of the lists are ordered as the lists are. -/
theorem NestedRows.less_trans :
    (heap.Plain (.tuple 0 [.list ⟨0⟩]) ∧ heap.Plain (.tuple 1 [.list ⟨1⟩]) ∧
      heap.Plain (.tuple 2 [.list ⟨2⟩])) ∧
    heap.compare .less (.tuple 0 [.list ⟨0⟩]) (.tuple 1 [.list ⟨1⟩]) = .ok true ∧
    heap.compare .less (.tuple 1 [.list ⟨1⟩]) (.tuple 2 [.list ⟨2⟩]) = .ok true ∧
    heap.compare .less (.tuple 0 [.list ⟨0⟩]) (.tuple 2 [.list ⟨2⟩]) = .ok true := by
  have hfirst : ∀ v ∈ heap.list ⟨0⟩, heap.Plain v := List.forall_mem_cons.2
    ⟨.none, List.forall_mem_cons.2 ⟨.bool true, List.forall_mem_nil _⟩⟩
  have hsecond : ∀ v ∈ heap.list ⟨1⟩, heap.Plain v := List.forall_mem_cons.2
    ⟨.none, List.forall_mem_cons.2
      ⟨.int 1, List.forall_mem_cons.2 ⟨.str "x", List.forall_mem_nil _⟩⟩⟩
  have hthird : ∀ v ∈ heap.list ⟨2⟩, heap.Plain v := List.forall_mem_cons.2
    ⟨.none, List.forall_mem_cons.2 ⟨.int 2, List.forall_mem_nil _⟩⟩
  have hplain {token : Nat} {r : ListRef} (hr : ∀ v ∈ heap.list r, heap.Plain v) :
      heap.Plain (.tuple token [.list r]) :=
    .tuple (List.forall_mem_singleton.2 (.list hr))
  have hless : heap.compare .less (.tuple 0 [.list ⟨0⟩]) (.tuple 1 [.list ⟨1⟩]) = .ok true :=
    Heap.compare_of_order (o := .lt) (by decide) (by decide +kernel)
  have hless' : heap.compare .less (.tuple 1 [.list ⟨1⟩]) (.tuple 2 [.list ⟨2⟩]) = .ok true :=
    Heap.compare_of_order (o := .lt) (by decide) (by decide +kernel)
  exact ⟨⟨hplain hfirst, hplain hsecond, hplain hthird⟩, hless, hless',
    (Heap.order_is_strict (hplain hfirst) (hplain hsecond) (hplain hthird)).2 (.inl hless) hless'⟩

end TaskletMachine
