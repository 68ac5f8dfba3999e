import Mathlib.Logic.Relation
import TaskletMachine.Proofs.Operator.Bisimilarity

/-!
# Values of finite depth

Values that are made of anything but doubles, and do not contain themselves. When such a value is
compared with another one, no container in it is met while it is being compared, so that equality
needs to take nothing for granted.

## Main definitions

* `Heap.Native`: the values of finite depth.
* `Heap.Holds`: whether a value contains another one.
* `Heap.Clear`: what is being compared does not occur in what remains.
-/
namespace TaskletMachine

/-- Whether a value neither is a double nor contains other values. -/
def Value.isAtom : Value → Bool
  | float _ | tuple _ _ | list _ | dict _ => false
  | _ => true

/-- Values that are made of anything but doubles in finitely many steps, so that none contains
itself. -/
inductive Heap.Native (h : Heap) : Value → Prop
  | atom {v : Value} (hv : v.isAtom = true) : Native h v
  | tuple {token : Nat} {items : List Value} (hitems : ∀ v ∈ items, Native h v) :
    Native h (.tuple token items)
  | list {r : ListRef} (hitems : ∀ v ∈ h.list r, Native h v) : Native h (.list r)
  | dict {r : DictRef} (hkeyed : (h.dict r).Keyed) (hvalues : ∀ e ∈ h.dict r, Native h e.2) :
    Native h (.dict r)

/-- The first value contains the second, as an item or under a key. -/
inductive Heap.Holds (h : Heap) : Value → Value → Prop
  | tuple {token : Nat} {items : List Value} {v : Value} (hv : v ∈ items) :
    Holds h (.tuple token items) v
  | list {r : ListRef} {v : Value} (hv : v ∈ h.list r) : Holds h (.list r) v
  | dict {r : DictRef} {e : Value × Value} (he : e ∈ h.dict r) : Holds h (.dict r) e.2

namespace Heap

open Relation

variable {h : Heap}

/-! ## Finite depth -/

namespace Native

theorem of_holds {v w : Value} (hv : h.Native v) (hvw : h.Holds v w) : h.Native w := by
  cases hvw with
  | tuple hw =>
    cases hv with
    | atom hatom => cases hatom
    | tuple hitems => exact hitems _ hw
  | list hw =>
    cases hv with
    | atom hatom => cases hatom
    | list hitems => exact hitems _ hw
  | dict he =>
    cases hv with
    | atom hatom => cases hatom
    | dict _ hvalues => exact hvalues _ he

theorem keyed {r : DictRef} (hr : h.Native (.dict r)) : (h.dict r).Keyed := by
  cases hr with
  | atom hatom => cases hatom
  | dict hkeyed _ => exact hkeyed

/-- Induction over values, with the hypothesis for all that a value contains. -/
@[elab_as_elim]
theorem induction {motive : ∀ v, h.Native v → Prop}
    (step : ∀ v hv, (∀ w hvw, motive w (of_holds hv hvw)) → motive v hv) {v : Value}
    (hv : h.Native v) : motive v hv := by
  induction hv with
  | @atom v hv =>
    refine step v (.atom hv) fun w hw => ?_
    cases hw <;> cases hv
  | tuple hitems ih =>
    refine step _ (.tuple hitems) fun w hw => ?_
    cases hw with
    | tuple hw => exact ih w hw
  | list hitems ih =>
    refine step _ (.list hitems) fun w hw => ?_
    cases hw with
    | list hw => exact ih w hw
  | dict hkeyed hvalues ih =>
    refine step _ (.dict hkeyed hvalues) fun w hw => ?_
    cases hw with
    | dict he => exact ih _ he

/-- No value of finite depth contains itself. -/
theorem acyclic {v : Value} (hv : h.Native v) : ¬ TransGen h.Holds v v := by
  induction hv using Native.induction with
  | step v hv ih =>
    intro hcycle
    obtain ⟨w, hvw, hwv⟩ := TransGen.head'_iff.1 hcycle
    exact ih w hvw (.tail' hwv hvw)

theorem isFloatFree {v : Value} (hv : h.Native v) : v.isFloatFree = true := by
  induction hv using Native.induction with
  | step v hv ih =>
    cases hv with
    | @atom v hatom =>
      cases v with
      | float _ | tuple _ _ => cases hatom
      | _ => rfl
    | tuple => exact Value.isFloatFree_tuple.2 fun v hv => ih v (.tuple hv)
    | list | dict => rfl

end Native

/-! ## What is being compared -/

/-- No container on the left of what is being compared occurs in a value. -/
def Clear (h : Heap) (comparing : Comparing) (v : Value) : Prop :=
  ∀ p ∈ comparing, ¬ ReflTransGen h.Holds v p.1.value

namespace Clear

variable {comparing : Comparing} {v w : Value}

theorem nil (h : Heap) (v : Value) : h.Clear [] v :=
  fun p hp => by cases hp

theorem of_reaches (hv : h.Clear comparing v) (hvw : ReflTransGen h.Holds v w) :
    h.Clear comparing w :=
  fun p hp hwp => hv p hp (hvw.trans hwp)

/-- Entering a container leaves it behind. -/
theorem cons {c : Container} (hnative : h.Native c.value) (hc : h.Clear comparing c.value)
    (hcw : TransGen h.Holds c.value w) (d : Container) : h.Clear ((c, d) :: comparing) w := by
  intro p hp hwp
  rcases List.mem_cons.1 hp with rfl | hp
  · exact hnative.acyclic (hcw.trans_left hwp)
  · exact hc.of_reaches hcw.to_reflTransGen p hp hwp

theorem notMem {c : Container} (hc : h.Clear comparing c.value) (d : Container) :
    (c, d) ∉ comparing :=
  fun hp => hc _ hp .refl

end Clear

/-! ## Equality -/

theorem Bisimilar.of_matched {a b : Value} (hab : h.Matched h.Bisimilar a b) :
    h.Bisimilar a b := by
  refine ⟨fun v w => h.Bisimilar v w ∨ v = a ∧ w = b, ?_, .inr ⟨rfl, rfl⟩⟩
  rintro v w (hvw | ⟨rfl, rfl⟩)
  · exact hvw.matched.mono fun _ _ => .inl
  · exact hab.mono fun _ _ => .inl

theorem bisimilar_tuple {t u : Nat} {xs ys : List Value} :
    h.Bisimilar (.tuple t xs) (.tuple u ys) ↔ List.Forall₂ h.Bisimilar xs ys := by
  refine ⟨fun hab => ?_, fun hitems => .of_matched (.tuple hitems)⟩
  cases hab.matched with
  | number hword _ => cases hword
  | object hobject _ => cases hobject
  | tuple hitems => exact hitems

theorem bisimilar_list {r s : ListRef} :
    h.Bisimilar (.list r) (.list s) ↔ List.Forall₂ h.Bisimilar (h.list r) (h.list s) := by
  refine ⟨fun hab => ?_, fun hitems => .of_matched (.list hitems)⟩
  cases hab.matched with
  | number hword _ => cases hword
  | object hobject _ => cases hobject
  | list hitems => exact hitems

theorem bisimilar_dict {r s : DictRef} :
    h.Bisimilar (.dict r) (.dict s) ↔ (h.dict r).length = (h.dict s).length ∧
      ∀ key, Option.Rel h.Bisimilar (h.dictGet? r key) (h.dictGet? s key) := by
  refine ⟨fun hab => ?_, fun ⟨hsize, hvalues⟩ => .of_matched (.dict hsize hvalues)⟩
  cases hab.matched with
  | number hword _ => cases hword
  | object hobject _ => cases hobject
  | dict hsize hvalues => exact ⟨hsize, hvalues⟩

/-- Rows are related by one relation item by item if they are by another one that agrees with it on
their items. -/
theorem forall₂_congr {P Q : Value → Value → Prop} {xs ys : List Value}
    (hPQ : ∀ x ∈ xs, ∀ y ∈ ys, P x y ↔ Q x y) : List.Forall₂ P xs ys ↔ List.Forall₂ Q xs ys := by
  constructor
  · exact fun hP => hP.imp_of_mem_zip fun x y hxy =>
      (hPQ x (List.of_mem_zip hxy).1 y (List.of_mem_zip hxy).2).1
  · exact fun hQ => hQ.imp_of_mem_zip fun x y hxy =>
      (hPQ x (List.of_mem_zip hxy).1 y (List.of_mem_zip hxy).2).2

namespace Native

theorem bisimilar_self {v : Value} (hv : h.Native v) : h.Bisimilar v v := by
  induction hv using Native.induction with
  | step v hv ih =>
    cases hv with
    | @atom v hatom =>
      refine .of_matched ?_
      cases v with
      | none => exact .none
      | bool | int => exact .number rfl rfl
      | str s => exact .str s
      | float | tuple | list | dict => cases hatom
      | _ => exact .object rfl (h.identical_self _)
    | tuple => exact bisimilar_tuple.2 (List.forall₂_same.2 fun v hv => ih v (.tuple hv))
    | list => exact bisimilar_list.2 (List.forall₂_same.2 fun v hv => ih v (.list hv))
    | @dict r =>
      refine bisimilar_dict.2 ⟨rfl, fun key => ?_⟩
      cases hx : h.dictGet? r key with
      | none => exact .none
      | some x =>
        obtain ⟨k, hk, -⟩ := Entries.exists_mem_of_get?_eq_some hx
        exact .some (ih x (.dict hk))

/-- On values of finite depth, equality decides bisimilarity without taking anything for granted
that does not occur in them. -/
theorem equalAmid_iff {comparing : Comparing} {a b : Value} (ha : h.Native a) (hb : h.Native b)
    (hclear : h.Clear comparing a) : h.equalAmid comparing a b = true ↔ h.Bisimilar a b := by
  induction ha using Native.induction generalizing comparing b with
  | step a ha ih =>
    cases hnested : a.areNested b with
    | false =>
      rw [equalAmid_iff_matched hnested ha.isFloatFree hb.isFloatFree]
      exact ⟨.of_matched, Bisimilar.matched⟩
    | true =>
      obtain ⟨t, xs, u, ys, rfl, rfl⟩ | ⟨r, s, rfl, rfl⟩ | ⟨r, s, rfl, rfl⟩ :=
        Value.areNested_cases hnested
      · rw [equalAmid_tuple, bisimilar_tuple]
        exact forall₂_congr fun x hx y hy =>
          ih x (.tuple hx) (hb.of_holds (.tuple hy)) (hclear.of_reaches (.single (.tuple hx)))
      · have hitems : List.Forall₂
            (fun x y => h.equalAmid ((.list r, .list s) :: comparing) x y = true)
            (h.list r) (h.list s) ↔ List.Forall₂ h.Bisimilar (h.list r) (h.list s) :=
          forall₂_congr fun x hx y hy => ih x (.list hx) (hb.of_holds (.list hy))
            (Clear.cons (c := .list r) ha hclear (.single (.list hx)) _)
        rw [equalAmid_list, bisimilar_list, hitems]
        constructor
        · rintro (rfl | hmet | hitems)
          · exact bisimilar_list.1 ha.bisimilar_self
          · exact absurd hmet (Clear.notMem (c := .list r) hclear _)
          · exact hitems
        · exact fun hitems => .inr (.inr hitems)
      · have hkeyed : (h.dict r).Keyed := ha.keyed
        have hentries : (∀ e ∈ h.dict r, ∃ y, h.dictGet? s e.1 = some y ∧
            h.equalAmid ((.dict r, .dict s) :: comparing) e.2 y = true) ↔
            ∀ e ∈ h.dict r, ∃ y, h.dictGet? s e.1 = some y ∧ h.Bisimilar e.2 y := by
          refine forall_congr' fun e => forall_congr' fun he => exists_congr fun y =>
            and_congr_right fun hy => ?_
          obtain ⟨k, hk, -⟩ := Entries.exists_mem_of_get?_eq_some hy
          exact ih e.2 (.dict he) (hb.of_holds (.dict hk))
            (Clear.cons (c := .dict r) ha hclear (.single (.dict he)) _)
        rw [equalAmid_dict, bisimilar_dict, hentries]
        constructor
        · rintro (rfl | hmet | ⟨hsize, hentries⟩)
          · exact bisimilar_dict.1 ha.bisimilar_self
          · exact absurd hmet (Clear.notMem (c := .dict r) hclear _)
          · exact ⟨hsize, (hkeyed.forall_mem_iff hsize).1 hentries⟩
        · rintro ⟨hsize, hvalues⟩
          exact .inr (.inr ⟨hsize, (hkeyed.forall_mem_iff hsize).2 hvalues⟩)

end Native

end Heap

end TaskletMachine
