import Mathlib.Data.List.Count
import Mathlib.Logic.Relation
import TaskletMachine.Proofs.Value.Keys
import TaskletMachine.Value.Class

/-!
# The parts of a value

Tuples and methods hold other values, and everything else that a value leads to is read from a table
of the heap. Where values are followed along a relation there are therefore finitely many of them,
and along a relation without circles fewer and fewer are ahead.

## Main definitions

* `Value.parts`: a value with all values in it that are not on the heap.
* `Value.ahead`: the number of values of a list to which a relation leads.
* `Heap.ownAttributes`: the values of all attributes of instances.
-/
/-- Fewer members of a list have the stronger of two properties, if one that has the weaker does not
have the stronger. -/
theorem List.countP_lt_countP {α : Type} {p q : α → Bool} {l : List α}
    (hpq : ∀ x ∈ l, p x = true → q x = true) {a : α} (ha : a ∈ l) (hq : q a = true)
    (hp : p a = false) : l.countP p < l.countP q := by
  induction l with
  | nil => cases ha
  | cons b l ih =>
    obtain ⟨hb, hl⟩ := List.forall_mem_cons.1 hpq
    have hle := List.countP_mono_left hl
    rcases List.mem_cons.1 ha with rfl | ha
    · rw [List.countP_cons_of_neg (by simp [hp]), List.countP_cons_of_pos hq]
      omega
    · have hlt := ih hl ha
      rw [List.countP_cons, List.countP_cons]
      by_cases hpb : p b = true
      · rw [if_pos hpb, if_pos (hb hpb)]
        omega
      · rw [if_neg hpb]
        omega

/-- What is read from a table is in it, or is what is read past its end. -/
theorem Array.getD_mem_or_eq {α : Type} (xs : Array α) (i : Nat) (d : α) :
    xs.getD i d ∈ xs.toList ∨ xs.getD i d = d := by
  rw [Array.getD_eq_getD_getElem?]
  cases hx : xs[i]? with
  | none => exact .inr rfl
  | some x => exact .inl (Array.mem_toList_iff.2 (Array.mem_of_getElem? hx))

namespace TaskletMachine

namespace Value

mutual

/-- A value with all values in it that are not on the heap. -/
def parts : Value → List Value
  | tuple token items => tuple token items :: partsOfAll items
  | method receiver callee => method receiver callee :: (parts receiver ++ parts callee)
  | v => [v]

/-- The parts of several values. -/
def partsOfAll : List Value → List Value
  | [] => []
  | v :: rest => parts v ++ partsOfAll rest

end

theorem partsOfAll_eq (vs : List Value) : partsOfAll vs = vs.flatMap parts := by
  induction vs with
  | nil => rfl
  | cons v rest ih => rw [partsOfAll, ih, List.flatMap_cons]

theorem mem_parts_self (v : Value) : v ∈ v.parts := by
  cases v <;> simp [parts]

mutual

theorem mem_parts_trans {x y : Value} (hy : y ∈ parts x) {z : Value} (hz : z ∈ parts y) :
    z ∈ parts x := by
  match x with
  | tuple token items =>
    rw [parts] at hy ⊢
    rcases List.mem_cons.1 hy with rfl | hy
    · rwa [parts] at hz
    · exact List.mem_cons_of_mem _ (mem_partsOfAll_trans hy hz)
  | method receiver callee =>
    rw [parts] at hy ⊢
    rcases List.mem_cons.1 hy with rfl | hy
    · rwa [parts] at hz
    · refine List.mem_cons_of_mem _ (List.mem_append.2 ?_)
      exact (List.mem_append.1 hy).imp (fun hy => mem_parts_trans hy hz)
        fun hy => mem_parts_trans hy hz
  | none | bool _ | int _ | float _ | str _ | list _ | dict _ | function _ | native _ | classObj _
  | instanceObj _ | hostObj _ | foreignType _ _ | moduleObj _ | iterator _ | code _ =>
    cases List.mem_singleton.1 hy
    exact hz

theorem mem_partsOfAll_trans {xs : List Value} {y : Value} (hy : y ∈ partsOfAll xs) {z : Value}
    (hz : z ∈ parts y) : z ∈ partsOfAll xs := by
  match xs with
  | [] => cases hy
  | x :: rest =>
    rw [partsOfAll] at hy ⊢
    refine List.mem_append.2 ?_
    exact (List.mem_append.1 hy).imp (fun hy => mem_parts_trans hy hz)
      fun hy => mem_partsOfAll_trans hy hz

end

/-! ## Values ahead -/

open Classical in
/-- The number of values of a list to which a relation leads from a value. -/
noncomputable def ahead (values : List Value) (R : Value → Value → Prop) (v : Value) : Nat :=
  values.countP fun x => decide (R v x)

variable {values : List Value} {R : Value → Value → Prop} {v w x : Value}

theorem ahead_le_length : ahead values R v ≤ values.length :=
  List.countP_le_length

theorem ahead_le (hR : ∀ y, R w y → R v y) : ahead values R w ≤ ahead values R v := by
  classical
  exact List.countP_mono_left fun y _ hy => decide_eq_true (hR y (of_decide_eq_true hy))

theorem ahead_lt (hR : ∀ y, R w y → R v y) (hx : x ∈ values) (hv : R v x) (hw : ¬ R w x) :
    ahead values R w < ahead values R v := by
  classical
  exact List.countP_lt_countP (fun y _ hy => decide_eq_true (hR y (of_decide_eq_true hy))) hx
    (decide_eq_true hv) (decide_eq_false hw)

theorem ahead_lt_length (hx : x ∈ values) (hv : ¬ R v x) : ahead values R v < values.length := by
  classical
  exact List.countP_lt_length_iff.2 ⟨x, hx, decide_eq_false hv⟩

/-- A step along a relation leaves fewer values ahead, unless it leads into a circle. -/
theorem ahead_transGen_lt (hw : w ∈ values) (hvw : R v w) (hacyclic : ¬ Relation.TransGen R w w) :
    ahead values (Relation.TransGen R) w < ahead values (Relation.TransGen R) v :=
  ahead_lt (fun _ hy => .head hvw hy) hw (.single hvw) hacyclic

end Value

namespace Heap

variable {h : Heap}

/-! ## Attributes of instances -/

/-- The values of all attributes that were set on instances. -/
def ownAttributes (h : Heap) : List Value :=
  h.instances.toList.flatMap fun i => i.attrs.map Prod.snd

theorem ownAttr?_mem_ownAttributes {r : InstanceRef} {name : String} {v : Value}
    (hv : h.ownAttr? r name = some v) : v ∈ h.ownAttributes := by
  obtain ⟨_, hv, -⟩ := Entries.exists_mem_of_get?_eq_some hv
  rcases h.instances.getD_mem_or_eq r.index default with hmem | hdefault
  · exact List.mem_flatMap.2 ⟨_, hmem, List.mem_map_of_mem (f := Prod.snd) hv⟩
  · rw [instanceObj, hdefault] at hv
    cases hv

end Heap

end TaskletMachine
