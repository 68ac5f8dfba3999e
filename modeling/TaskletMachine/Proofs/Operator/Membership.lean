import TaskletMachine.Proofs.Effect.Keeping
import TaskletMachine.Proofs.Operator.Bisimilarity
import TaskletMachine.Proofs.Value.Hashing

/-!
# Keys agree with equality

Keys, their hashes and equality descend into tuples in three different ways, and each has its own
way of identifying truth values with integers. For keys without doubles they agree: two such keys
are the same exactly if they are equal, so that a dict contains what the list of its keys contains,
and no key of a dict is equal to another one, whatever is done to the dict.

## Main definitions

* `Value.IsPlainKey`: the keys without doubles.
* `DictOperation`: the operations that set or remove entries of a dict.

## Main results

* `Value.sameKey_iff_equal`: keys without doubles are the same if they are equal.
* `Heap.compare_isIn_dict`: membership in a dict and in the list of its keys.
* `DictOperation.keyed_foldl_after`: dicts keep proper keys.
* `keys_agree_with_equality`: all of this.
-/
namespace TaskletMachine

/-- A value that can be a key and has no double in it. -/
structure Value.IsPlainKey (v : Value) : Prop where
  hashable : v.isHashable = true
  floatFree : v.isFloatFree = true

namespace Value

/-! ## Keys and equality -/

theorem areHashable_iff_forall {vs : List Value} :
    areHashable vs = true ↔ ∀ v ∈ vs, v.isHashable = true := by
  induction vs with
  | nil => simp [areHashable]
  | cons v rest ih => simp [areHashable, ih]

theorem IsPlainKey.of_mem {t : Nat} {items : List Value} (h : (tuple t items).IsPlainKey)
    {v : Value} (hv : v ∈ items) : v.IsPlainKey := by
  have hhashable := h.hashable
  rw [isHashable, areHashable_iff_forall] at hhashable
  exact ⟨hhashable v hv, isFloatFree_tuple.mp h.floatFree v hv⟩

theorem sameKeys_iff_forall₂ {xs ys : List Value} :
    sameKeys xs ys = true ↔ List.Forall₂ (fun x y => sameKey x y = true) xs ys := by
  induction xs generalizing ys with
  | nil => cases ys <;> simp [sameKeys]
  | cons x xs ih => cases ys <;> simp [sameKeys, ih]

theorem numberKey?_eq_word? {v : Value} (hv : v.isFloatFree = true) :
    v.numberKey? = v.word?.map .int := by
  cases v with
  | float x => simp [isFloatFree] at hv
  | _ => rfl

theorem exists_word?_of_numberKey? {v : Value} (hv : v.isFloatFree = true) {k : NumberKey}
    (hk : v.numberKey? = some k) : ∃ n, v.word? = some n ∧ k = .int n := by
  rw [numberKey?_eq_word? hv, Option.map_eq_some_iff] at hk
  obtain ⟨n, hn, rfl⟩ := hk
  exact ⟨n, hn, rfl⟩

theorem numberKey?_of_word? {v : Value} {n : Int64} (hv : v.word? = some n) :
    v.numberKey? = some (.int n) := by
  cases v with
  | bool _ | int _ => cases hv; rfl
  | _ => cases hv

/-- Keys that are no tuples match if they are the same key. -/
theorem matched_of_sameAtomKey (h : Heap) {R : Value → Value → Prop} {a b : Value}
    (ha : a.isFloatFree = true) (hb : b.isFloatFree = true) (hab : sameAtomKey a b = true) :
    h.Matched R a b := by
  unfold sameAtomKey at hab
  split at hab
  · next m n hm hn =>
    obtain ⟨i, hi, rfl⟩ := exists_word?_of_numberKey? ha hm
    obtain ⟨j, hj, rfl⟩ := exists_word?_of_numberKey? hb hn
    cases beq_iff_eq.mp hab
    exact .number hi hj
  · split at hab
    · exact .none
    · cases beq_iff_eq.mp hab
      exact .str _
    · cases beq_iff_eq.mp hab
      exact .object rfl (h.identical_self _)
    · cases beq_iff_eq.mp hab
      exact .object rfl (h.identical_self _)
    · cases hab

/-- Two keys without doubles that are not both tuples are the same if they match. -/
theorem sameKey_iff_matched (h : Heap) {R : Value → Value → Prop} {a b : Value}
    (ha : a.IsPlainKey) (hb : b.IsPlainKey)
    (htuples : ¬ ∃ t xs u ys, a = tuple t xs ∧ b = tuple u ys) :
    sameKey a b = true ↔ h.Matched R a b := by
  constructor
  · intro hab
    rw [sameKey] at hab
    · exact matched_of_sameAtomKey h ha.floatFree hb.floatFree hab
    · intro t xs u ys ha' hb'
      exact htuples ⟨t, xs, u, ys, ha', hb'⟩
  · intro hab
    have hhashable := ha.hashable
    cases hab with
    | none => exact sameKey_self rfl
    | str s => exact sameKey_self rfl
    | @tuple t u xs ys _ => exact absurd ⟨t, xs, u, ys, rfl, rfl⟩ htuples
    | list _ | dict _ _ => cases hhashable
    | number ha' hb' =>
      exact (sameKey_iff a b).mpr ⟨_, key?_of_numberKey? (numberKey?_of_word? ha'),
        key?_of_numberKey? (numberKey?_of_word? hb')⟩
    | object hobject hidentical =>
      have hid := (h.identical_iff a b).mp hidentical
      cases a with
      | classObj c | function f => cases b <;> cases hid; exact sameKey_self rfl
      | none | bool _ | int _ | float _ | str _ | tuple _ _ | list _ | dict _ => cases hobject
      | _ => cases hhashable

/-- Of the containers only tuples can be keys. -/
theorem areNested_eq_false {a b : Value} (ha : a.IsPlainKey)
    (hab : ¬ ∃ t xs u ys, a = tuple t xs ∧ b = tuple u ys) : a.areNested b = false := by
  have hhashable := ha.hashable
  refine Bool.eq_false_iff.mpr fun hnested => ?_
  obtain htuples | ⟨r, s, rfl, rfl⟩ | ⟨r, s, rfl, rfl⟩ := areNested_cases hnested
  · exact hab htuples
  · cases hhashable
  · cases hhashable

/-- Keys without doubles are the same key exactly if they are equal, whatever the heap is. -/
theorem sameKey_iff_equal (h : Heap) {a b : Value} (ha : a.IsPlainKey) (hb : b.IsPlainKey) :
    sameKey a b = true ↔ h.equal a b = true := by
  by_cases htuples : ∃ t xs u ys, a = tuple t xs ∧ b = tuple u ys
  · obtain ⟨t, xs, u, ys, rfl, rfl⟩ := htuples
    rw [sameKey, sameKeys_iff_forall₂, h.equal_eq_equalAmid, Heap.equalAmid_tuple,
      List.forall₂_iff_zip, List.forall₂_iff_zip, ← h.equal_eq_equalAmid]
    refine and_congr_right fun _ => forall₂_congr fun x y => imp_congr_right fun hxy => ?_
    have hx := (List.of_mem_zip hxy).1
    have hy := (List.of_mem_zip hxy).2
    have hsize := List.sizeOf_lt_of_mem hx
    exact sameKey_iff_equal h (ha.of_mem hx) (hb.of_mem hy)
  · rw [sameKey_iff_matched h ha hb htuples (R := Eq), h.equal_eq_equalAmid]
    have hnested := areNested_eq_false ha htuples
    exact (Heap.equalAmid_iff_matched hnested ha.floatFree hb.floatFree).symm
termination_by sizeOf a
decreasing_by
  subst_vars
  simp
  omega

end Value

/-! ## Membership -/

namespace Entries

variable {ν : Type} {es : Entries Value ν}

/-- A row of entries has a key if one of its keys is the same. -/
theorem isSome_get?_iff {same : Value → Bool} :
    (es.get? same).isSome = true ↔ ∃ k ∈ es.map Prod.fst, same k = true := by
  rw [← Option.ne_none_iff_isSome, Ne, get?_eq_none_iff]
  simp

end Entries

namespace Heap

variable {h : Heap} {r : DictRef} {l : ListRef} {x : Value}

/-- What is in a dict is in the list of its keys, and nothing else is. -/
theorem compare_isIn_dict (hr : ∀ k ∈ (h.dict r).map Prod.fst, k.IsPlainKey) (hx : x.IsPlainKey)
    (hl : h.list l = (h.dict r).map Prod.fst) :
    h.compare .isIn x (.dict r) = h.compare .isIn x (.list l) := by
  have hkey : h.key x = .ok x := if_pos hx.hashable
  simp only [compare, contains, hkey, Except.map, hl, dictGet?]
  congr 1
  rw [Bool.eq_iff_iff, Entries.isSome_get?_iff, List.any_eq_true]
  refine exists_congr fun k => and_congr_right fun hk => ?_
  rw [Value.sameKey_comm, Value.sameKey_iff_equal h (hr k hk) hx]

end Heap

/-! ## Operations on dicts -/

namespace Heap

variable {h h' : Heap}

theorem isHashable_of_key {v k : Value} (hk : h.key v = .ok k) : k.isHashable = true := by
  unfold key at hk
  split at hk
  · next hhashable =>
    cases hk
    exact hhashable
  · cases hk

namespace Keyed

theorem storeSubscript (hh : h.Keyed) {container index v : Value}
    (hstore : h.storeSubscript container index v = .ok h') : h'.Keyed := by
  cases container with
  | list r =>
    simp only [Heap.storeSubscript] at hstore
    cases hi : h.sequenceIndex (h.list r).length index "list" "assignment index out of range" with
    | error e => rw [hi] at hstore; cases hstore
    | ok i => rw [hi] at hstore; cases hstore; exact hh
  | dict r =>
    simp only [Heap.storeSubscript] at hstore
    cases hk : h.key index with
    | error e => rw [hk] at hstore; cases hstore
    | ok k =>
      rw [hk] at hstore
      cases hstore
      exact hh.dictInsert r (isHashable_of_key hk) v
  | _ => cases hstore

theorem deleteSubscript (hh : h.Keyed) {container index : Value}
    (hdelete : h.deleteSubscript container index = .ok h') : h'.Keyed := by
  cases container with
  | list r =>
    simp only [Heap.deleteSubscript] at hdelete
    cases hi : h.sequenceIndex (h.list r).length index "list" "assignment index out of range" with
    | error e => rw [hi] at hdelete; cases hdelete
    | ok i => rw [hi] at hdelete; cases hdelete; exact hh
  | dict r =>
    simp only [Heap.deleteSubscript] at hdelete
    cases hk : h.key index with
    | error e => rw [hk] at hdelete; cases hdelete
    | ok k =>
      cases hv : h.dictGet? r k with
      | none => simp only [hk, hv, bind, Except.bind] at hdelete; cases hdelete
      | some v =>
        simp only [hk, hv, bind, Except.bind] at hdelete
        cases hdelete
        exact hh.dictErase r k
  | _ => cases hdelete

theorem dictInserts (hh : h.Keyed) (r : DictRef) {es : Entries Value Value}
    (hes : ∀ e ∈ es, e.1.isHashable = true) :
    (es.foldl (fun h (k, v) => h.dictInsert r k v) h).Keyed := by
  induction es generalizing h with
  | nil => exact hh
  | cons e rest ih =>
    have hinsert : (h.dictInsert r e.1 e.2).Keyed := hh.dictInsert r (hes e List.mem_cons_self) e.2
    exact ih hinsert fun e' he' => hes e' (List.mem_cons_of_mem e he')

end Keyed

end Heap

/-- Dicts that have proper keys keep them from one world to another. -/
def World.KeepsKeys (w w' : World) : Prop :=
  w.heap.Keyed → w'.heap.Keyed

instance : IsPreorder World World.KeepsKeys where
  refl _ := id
  trans _ _ _ h h' := h' ∘ h

namespace Keeps

open World (KeepsKeys)

variable {α : Type}

/-- An effect goes on with a key only if it is one. -/
theorem ofKey {v : Value} {f : Value → Effect α}
    (hf : ∀ k, k.isHashable = true → Keeps KeepsKeys (f k)) :
    Keeps KeepsKeys (Effect.key v >>= f) := by
  intro w
  have hkey : KeepsAt KeepsKeys (MonadExcept.ofExcept (w.heap.key v) >>= f) w :=
    .ofExcept fun k hk => hf k (Heap.isHashable_of_key hk) w
  exact hkey

/-- The heap is replaced by one that has proper keys if it had proper keys before. -/
theorem setKeyed {h : Heap} {w : World} {f : PUnit → Effect α} (hh : w.heap.Keyed → h.Keyed)
    (hf : Keeps KeepsKeys (f ⟨⟩)) : KeepsAt KeepsKeys (Effect.setHeap h >>= f) w :=
  KeepsAt.bind hh fun _ w' _ => hf w'

theorem keys_lookupOrSet (r : DictRef) (k default : Value) :
    Keeps KeepsKeys (DictMethod.lookupOrSet r k default) := by
  refine ofKey fun k hk => ofHeap fun w => ?_
  split
  · exact KeepsAt.pure _
  · exact setKeyed (fun hw => hw.dictInsert r hk default) (reply default)

theorem keys_take (r : DictRef) (k : Value) (default? : Option Value) :
    Keeps KeepsKeys (DictMethod.take r k default?) := by
  refine ofKey fun k _ => ofHeap fun w => ?_
  split
  · exact setKeyed (fun hw => hw.dictErase r k) (reply _)
  · exact KeepsAt.pure _
  · exact KeepsAt.throw _

/-- Making something else than a dict leaves all dicts alone. -/
theorem onOther {make : Heap → α × Heap} (h : ∀ h : Heap, (make h).2.dicts = h.dicts) :
    Keeps KeepsKeys (Effect.onHeap make) := by
  intro w hw r
  have hr := hw r
  simp only [Heap.dict] at hr ⊢
  rwa [h]

theorem keys_newList (items : List Value) : Keeps KeepsKeys (Effect.newList items) :=
  bind (onOther fun _ => rfl) fun _ => pure _

theorem keys_entryTuples (es : Entries Value Value) :
    Keeps KeepsKeys (DictMethod.entryTuples es) := by
  induction es with
  | nil => exact pure []
  | cons e rest ih => exact bind (onOther fun _ => rfl) fun _ => bind ih fun _ => pure _

/-- No method of dicts takes away that all dicts have proper keys. -/
theorem keys_dictMethod (m : DictMethod) (args : List Value) : Keeps KeepsKeys (m.call args) := by
  refine ofHeap fun w => ?_
  split
  case h_1 r =>
    exact KeepsAt.bind (fun hw => hw.setDict r .nil) fun _ _ _ => KeepsAt.pure _
  case h_2 r =>
    exact KeepsAt.bind (fun hw => hw.newDict (hw r)) fun _ _ _ => KeepsAt.pure _
  case h_3 | h_4 => exact lookup _ _ _ w
  case h_6 =>
    exact bind (keys_entryTuples _) (fun _ => bind (keys_newList _) fun _ => reply _) w
  case h_7 | h_16 => exact bind (keys_newList _) (fun _ => reply _) w
  case h_8 | h_9 => exact keys_take _ _ _ w
  case h_11 | h_12 => exact keys_lookupOrSet _ _ _ w
  case h_14 r other =>
    exact setKeyed (fun hw => hw.dictInserts r (hw other).hashable) (pure _)
  all_goals exact unexpected _ _ w

end Keeps

/-- An operation by which guest code sets or removes entries of a dict: a subscript that is assigned
or deleted, or a method that is called with some arguments. -/
inductive DictOperation where
  | store (container index value : Value)
  | delete (container index : Value)
  | method (m : DictMethod) (args : List Value)

namespace DictOperation

/-- The world after an operation, whether it has ended in an exception or not. -/
def after (w : World) : DictOperation → World
  | store container index value =>
    match w.heap.storeSubscript container index value with
    | .ok h => { w with heap := h }
    | .error _ => w
  | delete container index =>
    match w.heap.deleteSubscript container index with
    | .ok h => { w with heap := h }
    | .error _ => w
  | method m args =>
    match m.call args w with
    | .ok _ w' | .error _ w' => w'

/-- An operation leaves dicts with proper keys. -/
theorem keyed_after {w : World} (hw : w.heap.Keyed) (op : DictOperation) :
    (after w op).heap.Keyed := by
  cases op with
  | store container index value =>
    simp only [after]
    split
    · next hstore => exact hw.storeSubscript hstore
    · exact hw
  | delete container index =>
    simp only [after]
    split
    · next hdelete => exact hw.deleteSubscript hdelete
    · exact hw
  | method m args =>
    have hkeeps := Keeps.keys_dictMethod m args w
    simp only [after]
    cases hcall : m.call args w with
    | ok reply w' => exact hkeeps.of_ok hcall hw
    | error e w' => exact hkeeps.of_error hcall hw

/-- So do several, one after the other. -/
theorem keyed_foldl_after {w : World} (hw : w.heap.Keyed) (ops : List DictOperation) :
    (ops.foldl after w).heap.Keyed := by
  induction ops generalizing w with
  | nil => exact hw
  | cons op rest ih => exact ih (keyed_after hw op)

end DictOperation

/-- Proper keys without doubles are not equal to each other. -/
theorem Heap.Keyed.pairwise_unequal {h : Heap} (hh : h.Keyed) (r : DictRef) :
    (h.dict r).Pairwise fun e e' =>
      e.1.isFloatFree = true → e'.1.isFloatFree = true → h.equal e.1 e'.1 = false := by
  refine (hh r).distinct.imp_of_mem fun {e e'} he he' hdistinct hfree hfree' => ?_
  have hsame := Value.sameKey_iff_equal h ⟨(hh r).hashable e he, hfree⟩
    ⟨(hh r).hashable e' he', hfree'⟩
  rw [← Bool.not_eq_true, ← hsame, hdistinct]
  exact Bool.false_ne_true

/-- Keys, hashes and equality agree on keys without doubles. Two of them are the same key if they
are equal, and the same keys hand the same data to the hasher, so that comparing hashes first
changes nothing. Hence such an item is in a dict if it is in the list of its keys, which is also
what the method for that list makes; and no operation ever leaves two equal keys in a dict. -/
theorem keys_agree_with_equality :
    (∀ (h : Heap) (a b : Value), a.IsPlainKey → b.IsPlainKey →
      (Value.sameKey a b = true ↔ h.equal a b = true)) ∧
    (∀ a b : Value, Value.sameKey a b = true → a.hashInput = b.hashInput) ∧
    (∀ hash : List HashItem → UInt64, Value.sameHashedKey hash = Value.sameKey) ∧
    (∀ (h : Heap) (r : DictRef) (l : ListRef) (x : Value),
      (∀ k ∈ (h.dict r).map Prod.fst, k.IsPlainKey) → x.IsPlainKey →
      h.list l = (h.dict r).map Prod.fst →
      ∃ found, h.compare .isIn x (.dict r) = .ok found ∧
        h.compare .isIn x (.list l) = .ok found) ∧
    (∀ (w : World) (r : DictRef), ∃ l w',
      DictMethod.keys.call [.dict r] w = .ok (.value (.list l)) w' ∧
      w'.heap.dict r = w.heap.dict r ∧ w'.heap.list l = (w.heap.dict r).map Prod.fst) ∧
    (∀ (w : World) (ops : List DictOperation), w.heap.Keyed →
      ∀ r, ((ops.foldl DictOperation.after w).heap.dict r).Pairwise fun e e' =>
        e.1.isFloatFree = true → e'.1.isFloatFree = true →
        (ops.foldl DictOperation.after w).heap.equal e.1 e'.1 = false) := by
  refine ⟨fun h a b ha hb => Value.sameKey_iff_equal h ha hb, fun a b => Value.hashInput_eq,
    Value.sameHashedKey_eq, fun h r l x hr hx hl => ?_, fun w r => ?_, fun w ops hw r => ?_⟩
  · exact ⟨_, Heap.compare_isIn_dict hr hx hl, rfl⟩
  · refine ⟨⟨w.heap.lists.size⟩, { w with heap := (w.heap.newList _).2 }, rfl, rfl, ?_⟩
    simp [Heap.list, Heap.newList]
  · exact (DictOperation.keyed_foldl_after hw ops).pairwise_unequal r

/-- The tuple of seven and the truth value `True`, the number zero, and the tuple of seven and
one. -/
def TruthInKey.keys : Value × Value × Value :=
  (.tuple 0 [.int 7, .bool true], .int 0, .tuple 1 [.int 7, .int 1])

/-- A dict that was given the first key, then the second, and at last a default for the third; next
to it there is the list of the first two. -/
def TruthInKey.world : World :=
  let (first, second, third) := keys
  [.store (.dict ⟨0⟩) first .none, .store (.dict ⟨0⟩) second .none,
    .method .setdefault [.dict ⟨0⟩, third, .none]].foldl DictOperation.after
      { heap := { lists := #[[first, second]], dicts := #[[]] } }

/-- The third key is the first one, since they are equal: it is found among the keys, has the same
data to hash and brought no entry of its own, so that no two keys of the dict are equal. -/
theorem TruthInKey.found_as_number :
    let (first, second, third) := keys
    Value.sameKey third first = true ∧ third.hashInput = first.hashInput ∧
      (world.heap.dict ⟨0⟩).map Prod.fst = [first, second] ∧
      world.heap.compare .isIn third (.dict ⟨0⟩) = world.heap.compare .isIn third (.list ⟨0⟩) ∧
      (world.heap.dict ⟨0⟩).Pairwise fun e e' =>
        e.1.isFloatFree = true → e'.1.isFloatFree = true → world.heap.equal e.1 e'.1 = false := by
  obtain ⟨hequal, hhash, -, hmember, -, hdistinct⟩ := keys_agree_with_equality
  have hsame : Value.sameKey keys.2.2 keys.1 = true :=
    (hequal {} _ _ ⟨rfl, rfl⟩ ⟨rfl, rfl⟩).mpr (by decide)
  have hplain : ∀ k ∈ (world.heap.dict ⟨0⟩).map Prod.fst, k.IsPlainKey := by
    have hkeys : (world.heap.dict ⟨0⟩).map Prod.fst = [keys.1, keys.2.1] := rfl
    rw [hkeys]
    intro k hk
    obtain rfl | rfl : k = keys.1 ∨ k = keys.2.1 := by simpa using hk
    · exact ⟨rfl, rfl⟩
    · exact ⟨rfl, rfl⟩
  obtain ⟨found, hdict, hlist⟩ := hmember world.heap ⟨0⟩ ⟨0⟩ keys.2.2 hplain ⟨rfl, rfl⟩ rfl
  refine ⟨hsame, hhash _ _ hsame, rfl, hdict.trans hlist.symm, hdistinct _ _ ?_ _⟩
  intro r
  rcases r with ⟨_ | n⟩
  · exact .nil
  · exact .nil

end TaskletMachine
