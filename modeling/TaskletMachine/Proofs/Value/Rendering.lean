import Mathlib.Tactic.Linarith
import TaskletMachine.Machine.Run
import TaskletMachine.Proofs.Value.Parts
import TaskletMachine.Proofs.Value.Tables

/-!
# When a value has a text

Containers that are being written are abbreviated, so lists and dicts may contain themselves. The
watch over them has two gaps: a method starts the text of its receiver with no container being
written, and nothing watches over tuples and over the arguments of exceptions. A value has a text
exactly if neither a method is met again below itself, nor a tuple or an exception with nothing but
tuples and exceptions in between; and then the depths to which rendering is bounded suffice.

## Main definitions

* `Heap.written`: the values whose texts are parts of the text of a value.
* `Heap.IsEndless`, `Heap.Unwritable`: values whose texts are parts of themselves, and values that
  lead to such.
* `Heap.showWithin`: the display form up to a depth, or nothing if the depth does not suffice.
* `Heap.rank`: a bound on the depth that a value needs.

## Main results

* `Heap.Unwritable.render_eq_none`, `Heap.render_renderDepth`: which values have an inspection form.
* `Heap.texts_end_iff`: which values have texts.
-/
/-- All members have results if the results of all are asked for. -/
theorem List.mapM_isSome_iff {α β : Type} {f : α → Option β} {xs : List α} :
    (xs.mapM f).isSome = true ↔ ∀ x ∈ xs, (f x).isSome = true := by
  induction xs with
  | nil => simp
  | cons x xs ih =>
    rw [List.mapM_cons, List.forall_mem_cons, ← ih]
    cases f x <;> cases xs.mapM f <;> simp

namespace TaskletMachine

/-- Whether a value is a method, whose receiver is written as if nothing were being written. -/
def Value.isMethod : Value → Bool
  | method _ _ => true
  | _ => false

/-- Whether a value is a tuple or an instance, which nothing watches while it is being written. -/
def Value.isOpen : Value → Bool
  | tuple _ _ | instanceObj _ => true
  | _ => false

namespace Heap

variable {h : Heap}

/-! ## The parts of a text -/

/-- The values whose texts are parts of the text of a value. -/
def written (h : Heap) : Value → List Value
  | .tuple _ items => items
  | .list r => h.list r
  | .dict r => (h.dict r).flatMap fun (key, value) => [key, value]
  | .method receiver _ => [receiver]
  | .instanceObj r =>
    match h.ownAttr? r "args" with
    | some (.tuple _ args) => args
    | _ => []
  | _ => []

/-- The containers that are being written while the parts of a text are. -/
def visitingIn (visiting : List Container) : Value → List Container
  | .list r => .list r :: visiting
  | .dict r => .dict r :: visiting
  | .method _ _ => []
  | _ => visiting

/-- Whether a value is written in short. -/
def isAbbreviated (visiting : List Container) : Value → Bool
  | .list r => visiting.contains (.list r)
  | .dict r => visiting.contains (.dict r)
  | _ => false

theorem isSome_return {α β : Type} {x : Option α} {f : α → β} :
    (do let a ← x; return f a).isSome = x.isSome := by
  cases x <;> rfl

theorem render_entry_isSome_iff {depth : Nat} {visiting : List Container} {key value : Value} :
    (do
      let k ← h.render depth visiting key
      let v ← h.render depth visiting value
      return k ++ ": " ++ v).isSome = true ↔
      ∀ w ∈ [key, value], (h.render depth visiting w).isSome = true := by
  rw [List.forall_mem_cons, List.forall_mem_singleton]
  cases h.render depth visiting key <;> cases h.render depth visiting value <;> simp

/-- A value has a text if it is abbreviated, or else if its parts have texts. -/
theorem render_succ_isSome_iff {depth : Nat} {visiting : List Container} {v : Value} :
    (h.render (depth + 1) visiting v).isSome = true ↔
      isAbbreviated visiting v = true ∨
        ∀ w ∈ h.written v, (h.render depth (visitingIn visiting v) w).isSome = true := by
  cases v with
  | tuple _ items =>
    simp only [render, written, visitingIn, isAbbreviated, isSome_return, List.mapM_isSome_iff,
      Bool.false_eq_true, false_or]
  | list r =>
    simp only [render, written, visitingIn, isAbbreviated]
    by_cases hmet : visiting.contains (.list r) = true
    · simp only [hmet, if_true, Option.isSome_some, true_or]
    · simp only [hmet, Bool.false_eq_true, if_false, isSome_return, List.mapM_isSome_iff, false_or]
  | dict r =>
    simp only [render, written, visitingIn, isAbbreviated]
    by_cases hmet : visiting.contains (.dict r) = true
    · simp only [hmet, if_true, Option.isSome_some, true_or]
    · simp only [hmet, Bool.false_eq_true, if_false, isSome_return, List.mapM_isSome_iff, false_or,
        List.mem_flatMap]
      constructor
      · rintro hall w ⟨e, he, hw⟩
        exact render_entry_isSome_iff.1 (hall e he) w hw
      · intro hall e he
        exact render_entry_isSome_iff.2 fun w hw => hall w ⟨e, he, hw⟩
  | method receiver callee =>
    simp only [render, written, visitingIn, isAbbreviated, isSome_return, Bool.false_eq_true,
      false_or, List.forall_mem_singleton]
  | instanceObj r =>
    simp only [render, written, visitingIn, isAbbreviated, Bool.false_eq_true, false_or]
    cases h.ownAttr? r "args" with
    | none => simp
    | some args =>
      cases args with
      | tuple _ items => simp only [isSome_return, List.mapM_isSome_iff]
      | _ => simp
  | _ => simp [render, written]

/-! ## Values below themselves -/

/-- The text of the second value is a part of the text of the first. -/
def Writes (h : Heap) (v w : Value) : Prop :=
  w ∈ h.written v

/-- The text of the second value is a part of the text of the first, which is not watched. -/
def WritesOpenly (h : Heap) (v w : Value) : Prop :=
  v.isOpen = true ∧ h.Writes v w

/-- The text of a value would be a part of itself, and nothing keeps it from being written there. -/
def IsEndless (h : Heap) (v : Value) : Prop :=
  v.isMethod = true ∧ Relation.TransGen h.Writes v v ∨ Relation.TransGen h.WritesOpenly v v

/-- The text of a value has a text without end as a part. -/
def Unwritable (h : Heap) (v : Value) : Prop :=
  ∃ w, Relation.ReflTransGen h.Writes v w ∧ h.IsEndless w

theorem WritesOpenly.writes {v w : Value} (hw : h.WritesOpenly v w) : h.Writes v w :=
  hw.2

/-- The first part of an endless text that leads back to it. -/
theorem IsEndless.exists_writes {v : Value} (hv : h.IsEndless v) :
    ∃ w, h.Writes v w ∧ Relation.ReflTransGen h.Writes w v := by
  rcases hv with ⟨-, hcycle⟩ | hcycle
  · exact Relation.TransGen.head'_iff.1 hcycle
  · obtain ⟨w, hw, hback⟩ := Relation.TransGen.head'_iff.1 hcycle
    exact ⟨w, hw.writes, Relation.ReflTransGen.mono (fun _ _ h => h.writes) _ _ hback⟩

/-- A value whose text does not end has a part whose text does not end. -/
theorem unwritable_iff {v : Value} :
    h.Unwritable v ↔ ∃ w ∈ h.written v, h.Unwritable w := by
  constructor
  · rintro ⟨e, hve, he⟩
    rcases Relation.ReflTransGen.cases_head hve with rfl | ⟨w, hvw, hwe⟩
    · obtain ⟨w, hvw, hback⟩ := he.exists_writes
      exact ⟨w, hvw, v, hback, he⟩
    · exact ⟨w, hvw, e, hwe, he⟩
  · rintro ⟨w, hvw, e, hwe, he⟩
    exact ⟨e, .head hvw hwe, he⟩

/-! ## Texts without end -/

/-- Some value whose text is a part of itself is so many parts away. -/
def Away (h : Heap) : Nat → Value → Prop
  | 0, v => h.IsEndless v
  | n + 1, v => ∃ w, h.Writes v w ∧ Away h n w

theorem unwritable_iff_exists_away {v : Value} : h.Unwritable v ↔ ∃ n, h.Away n v := by
  constructor
  · rintro ⟨e, hve, he⟩
    induction hve using Relation.ReflTransGen.head_induction_on with
    | refl => exact ⟨0, he⟩
    | head hvw _ ih =>
      obtain ⟨n, hn⟩ := ih
      exact ⟨n + 1, _, hvw, hn⟩
  · rintro ⟨n, hn⟩
    induction n generalizing v with
    | zero => exact ⟨v, .refl, hn⟩
    | succ n ih =>
      obtain ⟨w, hvw, hw⟩ := hn
      exact unwritable_iff.2 ⟨w, hvw, ih hw⟩

/-- A container that is written in short below a value was so before, or is the value. -/
theorem isAbbreviated_visitingIn {visiting : List Container} {v w : Value}
    (hw : isAbbreviated (visitingIn visiting v) w = true) :
    isAbbreviated visiting w = true ∨ w = v := by
  cases v with
  | list r | dict r =>
    cases w <;> simp only [isAbbreviated, visitingIn, List.contains_cons, Bool.or_eq_true] at hw ⊢
    all_goals grind
  | method receiver callee => cases w <;> simp [isAbbreviated, visitingIn] at hw
  | _ => exact .inl hw

theorem isAbbreviated_nil (v : Value) : isAbbreviated [] v = false := by
  cases v <;> rfl

/-- A value on the shortest way to a text without end, where all that is written in short is farther
away from it than the value is. -/
def Doomed (h : Heap) (visiting : List Container) (v : Value) : Prop :=
  ∃ n, h.Away n v ∧ (∀ m < n, ¬ h.Away m v) ∧
    ∀ w, isAbbreviated visiting w = true → ∀ m ≤ n, ¬ h.Away m w

theorem Unwritable.doomed {v : Value} (hv : h.Unwritable v) : h.Doomed [] v := by
  classical
  have haway := unwritable_iff_exists_away.1 hv
  refine ⟨Nat.find haway, Nat.find_spec haway, fun m hm => Nat.find_min haway hm, fun w hw => ?_⟩
  rw [isAbbreviated_nil] at hw
  cases hw

theorem Doomed.not_isAbbreviated {visiting : List Container} {v : Value}
    (hv : h.Doomed visiting v) : ¬ isAbbreviated visiting v = true := by
  obtain ⟨n, hn, -, hfar⟩ := hv
  exact fun hmet => hfar v hmet n le_rfl hn

/-- The way to a text without end goes on below a value: one part nearer to it, or, where it has
been reached, once more around. -/
theorem Doomed.exists_writes {visiting : List Container} {v : Value}
    (hv : h.Doomed visiting v) : ∃ w ∈ h.written v, h.Doomed (visitingIn visiting v) w := by
  obtain ⟨n, hn, hshortest, hfar⟩ := hv
  cases n with
  | succ n =>
    obtain ⟨w, hvw, hw⟩ := hn
    refine ⟨w, hvw, n, hw, fun m hm hm' => hshortest (m + 1) (by omega) ⟨w, hvw, hm'⟩, ?_⟩
    intro u hu m hm
    rcases isAbbreviated_visitingIn hu with hu | rfl
    · exact hfar u hu m (by omega)
    · exact hshortest m (by omega)
  | zero =>
    rcases hn with ⟨hmethod, hcycle⟩ | hcycle
    · obtain ⟨w, hvw, hback⟩ := Relation.TransGen.head'_iff.1 hcycle
      have hvisiting : visitingIn visiting v = [] := by
        cases v with
        | method receiver callee => rfl
        | _ => cases hmethod
      rw [hvisiting]
      exact ⟨w, hvw, Unwritable.doomed ⟨v, hback, .inl ⟨hmethod, hcycle⟩⟩⟩
    · obtain ⟨w, ⟨hopen, hvw⟩, hback⟩ := Relation.TransGen.head'_iff.1 hcycle
      have hvisiting : visitingIn visiting v = visiting := by
        cases v with
        | tuple _ _ | instanceObj _ => rfl
        | _ => cases hopen
      rw [hvisiting]
      exact ⟨w, hvw, 0, .inr (.tail' hback ⟨hopen, hvw⟩), fun m hm => absurd hm m.not_lt_zero, hfar⟩

theorem Doomed.render_eq_none {depth : Nat} {visiting : List Container} {v : Value}
    (hv : h.Doomed visiting v) : h.render depth visiting v = none := by
  rw [← Option.not_isSome_iff_eq_none]
  induction depth generalizing visiting v with
  | zero => exact Bool.false_ne_true
  | succ depth ih =>
    obtain ⟨w, hvw, hw⟩ := hv.exists_writes
    rw [render_succ_isSome_iff]
    rintro (hmet | hall)
    · exact hv.not_isAbbreviated hmet
    · exact ih hw (hall w hvw)

/-- A value whose text does not end has no text of any depth. -/
theorem Unwritable.render_eq_none {v : Value} (hv : h.Unwritable v) (depth : Nat) :
    h.render depth [] v = none :=
  hv.doomed.render_eq_none

end Heap

/-! ## The values that a text can be made of -/

namespace Value

mutual

theorem length_parts (v : Value) : v.parts.length = Heap.weight v := by
  match v with
  | tuple token items => rw [parts, List.length_cons, length_partsOfAll, Heap.weight, Nat.add_comm]
  | method receiver callee =>
    rw [parts, List.length_cons, List.length_append, length_parts receiver, length_parts callee,
      Heap.weight]
    omega
  | none | bool _ | int _ | float _ | str _ | list _ | dict _ | function _ | native _ | classObj _
  | instanceObj _ | hostObj _ | foreignType _ _ | moduleObj _ | iterator _ | code _ => rfl

theorem length_partsOfAll (vs : List Value) : (partsOfAll vs).length = Heap.weights vs := by
  match vs with
  | [] => rfl
  | v :: rest =>
    rw [partsOfAll, List.length_append, length_parts v, length_partsOfAll rest, Heap.weights]

end

end Value

namespace Heap

variable {h : Heap}

/-- The values in lists, dicts and instances. -/
def stored (h : Heap) : List Value :=
  h.lists.toList.flatMap id ++
    h.dicts.toList.flatMap (fun es => es.flatMap fun e => [e.1, e.2]) ++ h.ownAttributes

/-- All values that can come up when the text of a value is written. -/
def around (h : Heap) (v : Value) : List Value :=
  Value.partsOfAll (v :: h.stored)

theorem mem_around_self (v : Value) : v ∈ h.around v := by
  rw [around, Value.partsOfAll]
  exact List.mem_append_left _ v.mem_parts_self

theorem mem_around_of_stored {v w : Value} (hw : w ∈ h.stored) : w ∈ h.around v := by
  rw [around, Value.partsOfAll_eq]
  exact List.mem_flatMap.2 ⟨w, List.mem_cons_of_mem v hw, w.mem_parts_self⟩

theorem list_mem_stored {r : ListRef} {w : Value} (hw : w ∈ h.list r) : w ∈ h.stored := by
  rcases h.lists.getD_mem_or_eq r.index default with hmem | hdefault
  · exact List.mem_append_left _ (List.mem_append_left _ (List.mem_flatMap.2 ⟨_, hmem, hw⟩))
  · rw [list, hdefault] at hw
    cases hw

theorem dict_mem_stored {r : DictRef} {e : Value × Value} (he : e ∈ h.dict r) {w : Value}
    (hw : w ∈ [e.1, e.2]) : w ∈ h.stored := by
  rcases h.dicts.getD_mem_or_eq r.index default with hmem | hdefault
  · refine List.mem_append_left _ (List.mem_append_right _ ?_)
    exact List.mem_flatMap.2 ⟨_, hmem, List.mem_flatMap.2 ⟨e, he, hw⟩⟩
  · rw [dict, hdefault] at he
    cases he

theorem ownAttr?_mem_stored {r : InstanceRef} {name : String} {w : Value}
    (hw : h.ownAttr? r name = some w) : w ∈ h.stored :=
  List.mem_append_right _ (ownAttr?_mem_ownAttributes hw)

theorem mem_around_of_mem_parts {v x w : Value} (hx : x ∈ h.around v) (hw : w ∈ x.parts) :
    w ∈ h.around v :=
  Value.mem_partsOfAll_trans hx hw

/-- Whatever is written below a value is around it. -/
theorem mem_around_of_writes {v x w : Value} (hx : x ∈ h.around v) (hw : h.Writes x w) :
    w ∈ h.around v := by
  have hitem {items : List Value} (hw : w ∈ items) : w ∈ Value.partsOfAll items := by
    rw [Value.partsOfAll_eq]
    exact List.mem_flatMap.2 ⟨w, hw, w.mem_parts_self⟩
  unfold Writes written at hw
  split at hw
  · refine mem_around_of_mem_parts hx ?_
    rw [Value.parts]
    exact List.mem_cons_of_mem _ (hitem hw)
  · exact mem_around_of_stored (list_mem_stored hw)
  · obtain ⟨e, he, hw⟩ := List.mem_flatMap.1 hw
    exact mem_around_of_stored (dict_mem_stored he hw)
  · cases List.mem_singleton.1 hw
    refine mem_around_of_mem_parts hx ?_
    rw [Value.parts]
    exact List.mem_cons_of_mem _ (List.mem_append_left _ (Value.mem_parts_self _))
  · split at hw
    · next hargs =>
      refine mem_around_of_mem_parts (mem_around_of_stored (ownAttr?_mem_stored hargs)) ?_
      rw [Value.parts]
      exact List.mem_cons_of_mem _ (hitem hw)
    · cases hw
  · cases hw

theorem weights_append (vs ws : List Value) : weights (vs ++ ws) = weights vs + weights ws := by
  induction vs with
  | nil => exact (Nat.zero_add _).symm
  | cons v rest ih => rw [List.cons_append, weights, weights, ih, Nat.add_assoc]

/-- Counting a table row by row is counting all that is in its rows. -/
theorem foldl_eq_weights {α : Type} {count : Nat → α → Nat} {row : α → List Value}
    (hcount : ∀ n x, count n x = n + weights (row x)) (xs : Array α) :
    xs.foldl count 0 = weights (xs.toList.flatMap row) := by
  have hlist (n : Nat) (xs : List α) : xs.foldl count n = n + weights (xs.flatMap row) := by
    induction xs generalizing n with
    | nil => rfl
    | cons x xs ih =>
      rw [List.foldl_cons, ih, hcount, List.flatMap_cons, weights_append, Nat.add_assoc]
  rw [← Array.foldl_toList, hlist, Nat.zero_add]

theorem foldl_entries (n : Nat) (es : Entries Value Value) :
    es.foldl (fun n (k, v) => n + weight k + weight v) n =
      n + weights (es.flatMap fun e => [e.1, e.2]) := by
  induction es generalizing n with
  | nil => rfl
  | cons e es ih =>
    rw [List.foldl_cons, ih, List.flatMap_cons, weights_append]
    simp only [weights]
    omega

theorem foldl_attributes (n : Nat) (attrs : Namespace) :
    attrs.foldl (fun n (_, v) => n + weight v) n = n + weights (attrs.map Prod.snd) := by
  induction attrs generalizing n with
  | nil => rfl
  | cons e attrs ih => rw [List.foldl_cons, ih, List.map_cons, weights, Nat.add_assoc]

/-- There are as many values around a value as the depth of rendering is reckoned with. -/
theorem length_around (v : Value) : (h.around v).length = h.volume + weight v := by
  have hlists : h.lists.foldl (fun n items => n + weights items) 0 =
      weights (h.lists.toList.flatMap id) := foldl_eq_weights (fun _ _ => rfl) h.lists
  rw [around, Value.length_partsOfAll, weights, stored, weights_append, weights_append, volume,
    ownAttributes, hlists, foldl_eq_weights fun n es => foldl_entries n es,
    foldl_eq_weights fun n i => foldl_attributes n i.attrs, Nat.add_comm]

/-! ## Texts that end -/

/-- The containers on the heap. -/
def containers (h : Heap) : List Container :=
  (List.range h.lists.size).map (fun i => .list ⟨i⟩) ++
    (List.range h.dicts.size).map fun i => .dict ⟨i⟩

/-- The number of containers that are not being written. -/
def unwatched (h : Heap) (visiting : List Container) : Nat :=
  h.containers.countP fun c => !visiting.contains c

/-- One value leads to another, which is a method, by parts of texts. -/
def LeadsToMethod (h : Heap) (v w : Value) : Prop :=
  Relation.ReflTransGen h.Writes v w ∧ w.isMethod = true

/-- The number of methods below a value, among the values around another one. -/
noncomputable def methodsBelow (h : Heap) (v w : Value) : Nat :=
  Value.ahead (h.around v) h.LeadsToMethod w

/-- The number of values below a value where nothing is watched, among those around another one. -/
noncomputable def openBelow (h : Heap) (v w : Value) : Nat :=
  Value.ahead (h.around v) (Relation.TransGen h.WritesOpenly) w

/-- Fewer values are below a part than below the whole, where nothing is watched. -/
theorem openBelow_lt {v w x : Value} (hx : x ∈ h.around v) (hwx : h.WritesOpenly w x)
    (hends : ¬ h.Unwritable x) : h.openBelow v x < h.openBelow v w :=
  Value.ahead_transGen_lt hx hwx fun hcycle => hends ⟨x, .refl, .inr hcycle⟩

theorem unwatched_le (visiting : List Container) :
    h.unwatched visiting ≤ h.lists.size + h.dicts.size := by
  have hle : h.unwatched visiting ≤ h.containers.length := List.countP_le_length
  simpa only [containers, List.length_append, List.length_map, List.length_range] using hle

theorem unwatched_cons_lt {visiting : List Container} {c : Container} (hc : c ∈ h.containers)
    (hnew : visiting.contains c = false) : h.unwatched (c :: visiting) < h.unwatched visiting := by
  refine List.countP_lt_countP (fun d _ hd => ?_) hc (by simpa using hnew) (by simp)
  simp only [List.contains_cons, Bool.not_or, Bool.and_eq_true] at hd
  exact hd.2

theorem list_mem_containers {r : ListRef} {w : Value} (hw : w ∈ h.list r) :
    Container.list r ∈ h.containers := by
  have hr := lt_size_of_list (List.ne_nil_of_mem hw)
  exact List.mem_append_left _ (List.mem_map.2 ⟨r.index, List.mem_range.2 hr, rfl⟩)

theorem dict_mem_containers {r : DictRef} {e : Value × Value} (he : e ∈ h.dict r) :
    Container.dict r ∈ h.containers := by
  have hr := lt_size_of_dict (List.ne_nil_of_mem he)
  exact List.mem_append_right _ (List.mem_map.2 ⟨r.index, List.mem_range.2 hr, rfl⟩)

/-- A bound on the depth that a part of the text of a value needs: methods count most, since they
start with no container being written, containers come next, and all other values last. -/
noncomputable def rank (h : Heap) (v : Value) (visiting : List Container) (w : Value) : Nat :=
  (h.methodsBelow v w * (h.lists.size + h.dicts.size + 1) + h.unwatched visiting) *
      ((h.around v).length + 1) + h.openBelow v w

/-- A digit that is smaller makes a number smaller, whatever the next digit is. -/
theorem digits_lt {a a' b b' bound : Nat} (ha : a' < a) (hb : b' ≤ bound) :
    a' * (bound + 1) + b' < a * (bound + 1) + b := by
  have hle : (a' + 1) * (bound + 1) ≤ a * (bound + 1) := Nat.mul_le_mul_right _ ha
  rw [Nat.add_one_mul] at hle
  omega

/-- The parts of a text need less than the text. -/
theorem rank_lt {v w x : Value} {visiting : List Container} (hw : w ∈ h.around v)
    (hnew : isAbbreviated visiting w = false) (hends : ¬ h.Unwritable w) (hwx : h.Writes w x) :
    h.rank v (visitingIn visiting w) x < h.rank v visiting w := by
  have hx : x ∈ h.around v := mem_around_of_writes hw hwx
  have hmethods (y : Value) (hy : h.LeadsToMethod x y) : h.LeadsToMethod w y :=
    ⟨.head hwx hy.1, hy.2⟩
  have hcount : h.methodsBelow v x ≤ h.methodsBelow v w := Value.ahead_le hmethods
  have hbound : h.openBelow v x ≤ (h.around v).length := Value.ahead_le_length
  have hcontainer {c : Container} (hc : c ∈ h.containers) (hmet : visiting.contains c = false)
      (hc' : visitingIn visiting w = c :: visiting) :
      h.rank v (visitingIn visiting w) x < h.rank v visiting w := by
    rw [hc']
    refine digits_lt (Nat.add_lt_add_of_le_of_lt ?_ (unwatched_cons_lt hc hmet)) hbound
    exact Nat.mul_le_mul_right _ hcount
  have hopen (hw' : w.isOpen = true) (hv' : visitingIn visiting w = visiting) :
      h.rank v (visitingIn visiting w) x < h.rank v visiting w := by
    have hlt := openBelow_lt hx ⟨hw', hwx⟩ fun h' => hends (unwritable_iff.2 ⟨x, hwx, h'⟩)
    rw [hv']
    refine Nat.add_lt_add_of_le_of_lt (Nat.mul_le_mul_right _ ?_) hlt
    exact Nat.add_le_add_right (Nat.mul_le_mul_right _ hcount) _
  cases w with
  | list r => exact hcontainer (list_mem_containers hwx) hnew rfl
  | dict r =>
    obtain ⟨e, he, -⟩ := List.mem_flatMap.1 hwx
    exact hcontainer (dict_mem_containers he) hnew rfl
  | tuple _ _ | instanceObj _ => exact hopen rfl rfl
  | method receiver callee =>
    have hacyclic : ¬ h.LeadsToMethod x (.method receiver callee) := fun hback =>
      hends ⟨_, .refl, .inl ⟨rfl, .head' hwx hback.1⟩⟩
    have hlt : h.methodsBelow v x < h.methodsBelow v (.method receiver callee) :=
      Value.ahead_lt hmethods hw ⟨.refl, rfl⟩ hacyclic
    exact digits_lt (digits_lt hlt (unwatched_le _)) hbound
  | _ => cases hwx

/-- A depth that exceeds what a text needs suffices for it. -/
theorem render_isSome_of_rank_lt {v w : Value} {visiting : List Container} {depth : Nat}
    (hw : w ∈ h.around v) (hends : ¬ h.Unwritable w) (hdepth : h.rank v visiting w < depth) :
    (h.render depth visiting w).isSome = true := by
  induction depth generalizing visiting w with
  | zero => exact absurd hdepth (Nat.not_lt_zero _)
  | succ depth ih =>
    rw [render_succ_isSome_iff]
    cases hmet : isAbbreviated visiting w with
    | true => exact .inl rfl
    | false =>
      refine .inr fun x hwx => ih (mem_around_of_writes hw hwx) ?_ ?_
      · exact fun hx => hends (unwritable_iff.2 ⟨x, hwx, hx⟩)
      · have hlt := rank_lt hw hmet hends hwx
        omega

/-- The depth to which rendering is bounded exceeds what any text needs. -/
theorem rank_lt_renderDepth (v : Value) : h.rank v [] v < h.renderDepth v := by
  have hmethods : h.methodsBelow v v ≤ (h.around v).length := Value.ahead_le_length
  have hopen : h.openBelow v v ≤ (h.around v).length := Value.ahead_le_length
  have hwatched : h.unwatched [] ≤ h.lists.size + h.dicts.size := unwatched_le []
  rw [length_around] at hmethods hopen
  rw [rank, renderDepth, length_around]
  have hlt := digits_lt (b := 0) (digits_lt (b := 0) (Nat.lt_succ_of_le hmethods) hwatched) hopen
  refine hlt.trans_eq ?_
  rw [Nat.add_zero, Nat.add_zero, Nat.mul_right_comm]

/-- A value whose text ends has its text as inspection form. -/
theorem render_renderDepth {v : Value} (hv : ¬ h.Unwritable v) :
    h.render (h.renderDepth v) [] v = some (h.repr v) := by
  have hsome := render_isSome_of_rank_lt (mem_around_self v) hv (rank_lt_renderDepth v)
  obtain ⟨text, htext⟩ := Option.isSome_iff_exists.1 hsome
  rw [repr, htext, Option.getD_some]

/-- A text ends exactly if no text without end is a part of it, and then rendering finds it. -/
theorem exists_render_iff {v : Value} :
    (∃ depth, (h.render depth [] v).isSome = true) ↔ ¬ h.Unwritable v := by
  constructor
  · rintro ⟨depth, hdepth⟩ hv
    rw [hv.render_eq_none] at hdepth
    cases hdepth
  · intro hv
    exact ⟨h.renderDepth v, by rw [render_renderDepth hv]; rfl⟩

/-! ## The display form -/

/-- The display form of a value, if it is at most `depth` exceptions deep and if the inspection form
in which it ends is at most `depth` deep. -/
def showWithin (h : Heap) : (depth : Nat) → Value → Option String
  | 0, _ => none
  | depth + 1, v =>
    match v with
    | .str s => some s
    | .instanceObj r =>
      match h.ownAttr? r "args" with
      | some (.tuple _ []) => some ""
      | some (.tuple _ [arg]) => h.showWithin depth arg
      | some args@(.tuple _ _) => h.render depth [] args
      | _ => h.render depth [] v
    | _ => h.render depth [] v

/-- The arguments of an exception are written below it. -/
theorem written_instanceObj {r : InstanceRef} {token : Nat} {args : List Value}
    (hargs : h.ownAttr? r "args" = some (.tuple token args)) :
    h.written (.instanceObj r) = args := by
  simp only [written, hargs]

theorem unwritable_args_iff {r : InstanceRef} {token : Nat} {args : List Value}
    (hargs : h.ownAttr? r "args" = some (.tuple token args)) :
    h.Unwritable (.tuple token args) ↔ h.Unwritable (.instanceObj r) := by
  rw [unwritable_iff, unwritable_iff, written_instanceObj hargs, written]

/-- What the display form of a value is: a text, the display form of the only argument of an
exception, or the inspection form of a value with the same parts. -/
inductive Displays (h : Heap) (v : Value) : Prop
  | text (s : String) (hwritten : h.written v = [])
      (heq : ∀ n, h.showWithin (n + 1) v = some s ∧ h.displayWithin (n + 1) v = s)
  | argument (r : InstanceRef) (arg : Value) (hv : v = .instanceObj r)
      (hwritten : h.written v = [arg])
      (heq : ∀ n, h.showWithin (n + 1) v = h.showWithin n arg ∧
        h.displayWithin (n + 1) v = h.displayWithin n arg)
  | inspection (w : Value) (hparts : h.Unwritable w ↔ h.Unwritable v)
      (heq : ∀ n, h.showWithin (n + 1) v = h.render n [] w ∧ h.displayWithin (n + 1) v = h.repr w)

theorem displays (h : Heap) (v : Value) : h.Displays v := by
  cases v with
  | str s => exact .text s rfl fun _ => ⟨rfl, rfl⟩
  | instanceObj r =>
    match hargs : h.ownAttr? r "args" with
    | some (.tuple token []) =>
      exact .text "" (written_instanceObj hargs) fun _ => by
        simp only [showWithin, displayWithin, hargs, and_self]
    | some (.tuple token [arg]) =>
      exact .argument r arg rfl (written_instanceObj hargs) fun _ => by
        simp only [showWithin, displayWithin, hargs, and_self]
    | some (.tuple token (a :: b :: rest)) =>
      exact .inspection (.tuple token (a :: b :: rest)) (unwritable_args_iff hargs) fun _ => by
        simp only [showWithin, displayWithin, hargs, and_self]
    | none | some (.none) | some (.bool _) | some (.int _) | some (.float _) | some (.str _)
    | some (.list _) | some (.dict _) | some (.function _) | some (.native _)
    | some (.method _ _) | some (.classObj _) | some (.instanceObj _) | some (.hostObj _)
    | some (.foreignType _ _) | some (.moduleObj _) | some (.iterator _) | some (.code _) =>
      exact .inspection (.instanceObj r) Iff.rfl fun _ => by
        simp only [showWithin, displayWithin, hargs, and_self]
  | _ => exact .inspection _ Iff.rfl fun _ => ⟨rfl, rfl⟩

/-- A value whose text does not end has no display form of any depth. -/
theorem Unwritable.showWithin_eq_none {v : Value} (hv : h.Unwritable v) (depth : Nat) :
    h.showWithin depth v = none := by
  induction depth generalizing v with
  | zero => rfl
  | succ depth ih =>
    obtain ⟨w, hvw, hw⟩ := unwritable_iff.1 hv
    cases h.displays v with
    | text s hwritten heq =>
      rw [hwritten] at hvw
      cases hvw
    | argument _ arg _ hwritten heq =>
      rw [hwritten] at hvw
      cases List.mem_singleton.1 hvw
      rw [(heq depth).1, ih hw]
    | inspection w hparts heq => rw [(heq depth).1, (hparts.2 hv).render_eq_none]

/-- The bound on the exceptions that the display form goes through is beyond reach: each has fewer
exceptions and tuples below it than the one before. -/
theorem exists_showWithin_eq {v w : Value} {depth : Nat} (hw : w ∈ h.around v)
    (hends : ¬ h.Unwritable w) (hpos : 0 < depth)
    (hdepth : ∀ r, w = .instanceObj r → h.openBelow v w < depth) :
    ∃ n, h.showWithin n w = some (h.displayWithin depth w) := by
  induction depth generalizing w with
  | zero => exact absurd hpos (Nat.not_lt_zero _)
  | succ depth ih =>
    cases h.displays w with
    | text s _ heq => exact ⟨1, by rw [(heq 0).1, (heq depth).2]⟩
    | argument r arg hr hwritten heq =>
      have hwrites : h.WritesOpenly w arg := by
        rw [WritesOpenly, Writes, hwritten, hr]
        exact ⟨rfl, List.mem_singleton_self arg⟩
      have hmem := mem_around_of_writes hw hwrites.writes
      have harg : ¬ h.Unwritable arg := fun h' => hends (unwritable_iff.2 ⟨arg, hwrites.2, h'⟩)
      have hlt := openBelow_lt hmem hwrites harg
      have hdepth := hdepth r hr
      obtain ⟨n, hn⟩ := ih hmem harg (by omega) fun _ _ => by omega
      exact ⟨n + 1, by rw [(heq n).1, (heq depth).2, hn]⟩
    | inspection x hparts heq =>
      refine ⟨h.renderDepth x + 1, ?_⟩
      rw [(heq _).1, (heq depth).2, render_renderDepth fun hx => hends (hparts.1 hx)]

/-- A value whose text ends has a display form. -/
theorem exists_showWithin_eq_display {v : Value} (hv : ¬ h.Unwritable v) :
    ∃ n, h.showWithin n v = some (h.display v) := by
  refine exists_showWithin_eq (mem_around_self v) hv (Nat.succ_pos _) ?_
  rintro r rfl
  have hlt : h.openBelow (.instanceObj r) (.instanceObj r) < (h.around (.instanceObj r)).length :=
    Value.ahead_lt_length (mem_around_self _) fun hcycle => hv ⟨_, .refl, .inr hcycle⟩
  rwa [length_around] at hlt

/-- The texts of a value end exactly if none of the texts that they are made of is a part of itself
where no container is watched: if below the value there is no method whose receiver leads back to
it, and no tuple and no exception that leads back to itself by tuples and exceptions alone. Both
forms are then what the bounded renderings give. -/
theorem texts_end_iff (h : Heap) (v : Value) :
    ((∃ depth, (h.render depth [] v).isSome = true) ↔ ¬ h.Unwritable v) ∧
      ((∃ depth, (h.showWithin depth v).isSome = true) ↔ ¬ h.Unwritable v) ∧
      (¬ h.Unwritable v →
        h.render (h.renderDepth v) [] v = some (h.repr v) ∧
          ∃ depth, h.showWithin depth v = some (h.display v)) := by
  refine ⟨exists_render_iff, ⟨?_, fun hv => ?_⟩, fun hv =>
    ⟨render_renderDepth hv, exists_showWithin_eq_display hv⟩⟩
  · rintro ⟨depth, hdepth⟩ hv
    rw [hv.showWithin_eq_none] at hdepth
    cases hdepth
  · obtain ⟨depth, hdepth⟩ := exists_showWithin_eq_display hv
    exact ⟨depth, by rw [hdepth]; rfl⟩

end Heap

namespace SelfMethod

/-- A module that appends to a list the method that appends to it. -/
def unit : CodeUnit :=
  { bytes := #[0x67, 0, 0, 0x5A, 0, 0, 0x65, 0, 0, 0x69, 1, 0, 0x65, 0, 0, 0x69, 1, 0, 0x83, 1, 0]
    names := #["l", "append"] }

/-- A machine whose lists have one method. -/
def vm : Vm :=
  { library := { list := [("append", .native ⟨0⟩)] } }

/-- The machine before the module is executed. -/
def machine : Machine :=
  { context := Context.start unit [] []
    world := { heap := { natives := #[{ name := "append", behaviour := .listMethod .append }] } } }

/-- Whether a run has ended with a list that holds a method of its own. -/
def isBuilt : Option (RunOutcome × Machine) → Bool
  | some (.finished, m) =>
    match m.world.heap.list ⟨0⟩ with
    | [.method (.list r) _] => r == ⟨0⟩
    | _ => false
  | _ => false

/-- The module is executed to its end, and then its list has no text. -/
theorem never_written : ∃ m, vm.resume 20 .start machine = some (.finished, m) ∧
    ∀ depth, m.world.heap.render depth [] (.list ⟨0⟩) = none ∧
      m.world.heap.showWithin depth (.list ⟨0⟩) = none := by
  have hbuilt : isBuilt (vm.resume 20 .start machine) = true := by decide +kernel
  unfold isBuilt at hbuilt
  split at hbuilt
  · next m hrun =>
    split at hbuilt
    · next r f hlist =>
      cases beq_iff_eq.1 hbuilt
      have hback : m.world.heap.Writes (.method (.list ⟨0⟩) f) (.list ⟨0⟩) :=
        List.mem_singleton_self _
      have hforth : m.world.heap.Writes (.list ⟨0⟩) (.method (.list ⟨0⟩) f) := by
        rw [Heap.Writes, Heap.written, hlist]
        exact List.mem_singleton_self _
      have hendless : m.world.heap.Unwritable (.list ⟨0⟩) :=
        ⟨_, .single hforth, .inl ⟨rfl, .tail (.single hback) hforth⟩⟩
      exact ⟨m, hrun, fun depth =>
        ⟨hendless.render_eq_none depth, hendless.showWithin_eq_none depth⟩⟩
    · cases hbuilt
  · cases hbuilt

end SelfMethod

end TaskletMachine
