import Mathlib.Data.List.Basic
import TaskletMachine.Value.Key

/-!
# Keys as data

What identifies a key is plain data, and two values are the same key if they are identified by the
same. The entries of a dict have keys, pairwise different ones, and keep that when entries are added,
replaced or removed; such entries are looked up like a finite map.

## Main definitions

* `Key`, `Value.key?`: what identifies a key.
* `Entries.Keyed`: all keys are hashable and pairwise different.
-/
namespace TaskletMachine

/-- What identifies a key. -/
inductive Key where
  | none
  | number (k : NumberKey)
  | str (s : String)
  | classObj (ref : ClassRef)
  | function (ref : FunctionRef)
  | tuple (items : List Key)

namespace Value

mutual

/-- What identifies a value as a key, if it can be one. -/
def key? : Value → Option Key
  | tuple _ items => (keys? items).map .tuple
  | none => some .none
  | str s => some (.str s)
  | classObj r => some (.classObj r)
  | function r => some (.function r)
  | v => v.numberKey?.map .number

/-- What identifies several values as keys. -/
def keys? : List Value → Option (List Key)
  | [] => some []
  | v :: rest => (key? v).bind fun k => (keys? rest).map (k :: ·)

end

/-- What a value is that is identified by the given. -/
def OfKey (v : Value) : Key → Prop
  | .none => v = none
  | .number n => v.numberKey? = some n
  | .str s => v = str s
  | .classObj r => v = classObj r
  | .function r => v = function r
  | .tuple _ => ∃ t items, v = tuple t items

theorem ofKey_of_key? {v : Value} {k : Key} (h : v.key? = some k) : v.OfKey k := by
  cases v with
  | tuple t items =>
    obtain ⟨ks, -, rfl⟩ := Option.map_eq_some_iff.1 h
    exact ⟨t, items, rfl⟩
  | bool _ | int _ | float _ =>
    simp only [key?, Option.map_eq_some_iff] at h
    obtain ⟨n, hn, rfl⟩ := h
    exact hn
  | _ => cases h <;> rfl

theorem key?_of_numberKey? {v : Value} {n : NumberKey} (h : v.numberKey? = some n) :
    v.key? = some (.number n) := by
  cases v with
  | bool _ | int _ | float _ => exact Option.map_eq_some_iff.2 ⟨n, h, rfl⟩
  | _ => cases h

theorem keys?_nil : keys? [] = some [] := by
  rw [keys?]

theorem keys?_cons_eq_some_iff {v : Value} {rest : List Value} {ks : List Key} :
    keys? (v :: rest) = some ks ↔
      ∃ k ls, v.key? = some k ∧ keys? rest = some ls ∧ k :: ls = ks := by
  simp [keys?, Option.bind_eq_some_iff]

theorem sameAtomKey_iff {a b : Value} (h : ∀ t xs u ys, a = tuple t xs → b ≠ tuple u ys) :
    sameAtomKey a b = true ↔ ∃ k, a.key? = some k ∧ b.key? = some k := by
  constructor
  · intro hab
    unfold sameAtomKey at hab
    split at hab
    · next m n ha hb =>
      cases beq_iff_eq.1 hab
      exact ⟨.number m, key?_of_numberKey? ha, key?_of_numberKey? hb⟩
    · split at hab
      · exact ⟨.none, rfl, rfl⟩
      · cases beq_iff_eq.1 hab
        exact ⟨.str _, rfl, rfl⟩
      · cases beq_iff_eq.1 hab
        exact ⟨.classObj _, rfl, rfl⟩
      · cases beq_iff_eq.1 hab
        exact ⟨.function _, rfl, rfl⟩
      · cases hab
  · rintro ⟨k, ha, hb⟩
    replace ha := ofKey_of_key? ha
    replace hb := ofKey_of_key? hb
    cases k with
    | number n =>
      simp only [OfKey] at ha hb
      simp [sameAtomKey, ha, hb]
    | tuple ks =>
      obtain ⟨t, xs, rfl⟩ := ha
      obtain ⟨u, ys, rfl⟩ := hb
      exact absurd rfl (h t xs u ys rfl)
    | _ =>
      simp only [OfKey] at ha hb
      simp [sameAtomKey, ha, hb, numberKey?]

mutual

/-- Two values are the same key if they are identified by the same. -/
theorem sameKey_iff (a b : Value) :
    sameKey a b = true ↔ ∃ k, a.key? = some k ∧ b.key? = some k := by
  by_cases h : ∃ t xs u ys, a = tuple t xs ∧ b = tuple u ys
  · obtain ⟨t, xs, u, ys, rfl, rfl⟩ := h
    simp only [sameKey, sameKeys_iff xs ys, key?, Option.map_eq_some_iff]
    constructor
    · rintro ⟨ks, hxs, hys⟩
      exact ⟨.tuple ks, ⟨ks, hxs, rfl⟩, ⟨ks, hys, rfl⟩⟩
    · rintro ⟨_, ⟨ks, hxs, rfl⟩, ⟨ls, hys, hls⟩⟩
      cases hls
      exact ⟨ks, hxs, hys⟩
  · have hab : ∀ t xs u ys, a = tuple t xs → b ≠ tuple u ys :=
      fun t xs u ys ha hb => h ⟨t, xs, u, ys, ha, hb⟩
    rw [sameKey]
    · exact sameAtomKey_iff hab
    · exact hab
termination_by sizeOf a

theorem sameKeys_iff (as bs : List Value) :
    sameKeys as bs = true ↔ ∃ ks, keys? as = some ks ∧ keys? bs = some ks := by
  cases as with
  | nil => cases bs <;> simp [sameKeys, keys?_nil, keys?_cons_eq_some_iff]
  | cons a as =>
    cases bs with
    | nil => simp [sameKeys, keys?_nil, keys?_cons_eq_some_iff]
    | cons b bs =>
      simp only [sameKeys, Bool.and_eq_true, sameKey_iff a b, sameKeys_iff as bs,
        keys?_cons_eq_some_iff]
      constructor
      · rintro ⟨⟨k, ha, hb⟩, ks, has, hbs⟩
        exact ⟨k :: ks, ⟨k, ks, ha, has, rfl⟩, ⟨k, ks, hb, hbs, rfl⟩⟩
      · rintro ⟨_, ⟨k, ks, ha, has, rfl⟩, ⟨l, ls, hb, hbs, hls⟩⟩
        cases hls
        exact ⟨⟨k, ha, hb⟩, ks, has, hbs⟩
termination_by sizeOf as

end

mutual

/-- The values that can be keys are those that something identifies. -/
theorem isHashable_iff (v : Value) : v.isHashable = true ↔ ∃ k, v.key? = some k := by
  cases v with
  | tuple t items => simp [isHashable, key?, areHashable_iff items]
  | float x => cases h : floatInt? x <;> simp [isHashable, key?, numberKey?, h]
  | _ => simp [isHashable, key?, numberKey?]
termination_by sizeOf v

theorem areHashable_iff (vs : List Value) : areHashable vs = true ↔ ∃ ks, keys? vs = some ks := by
  cases vs with
  | nil => simp [areHashable, keys?_nil]
  | cons v rest =>
    simp only [areHashable, Bool.and_eq_true, isHashable_iff v, areHashable_iff rest,
      keys?_cons_eq_some_iff]
    constructor
    · rintro ⟨⟨k, hk⟩, ks, hks⟩
      exact ⟨k :: ks, k, ks, hk, hks, rfl⟩
    · rintro ⟨_, k, ks, hk, hks, rfl⟩
      exact ⟨⟨k, hk⟩, ks, hks⟩
termination_by sizeOf vs

end

theorem sameKey_self {v : Value} (h : v.isHashable = true) : sameKey v v = true := by
  obtain ⟨k, hk⟩ := (isHashable_iff v).1 h
  exact (sameKey_iff v v).2 ⟨k, hk, hk⟩

theorem sameKey_comm (a b : Value) : sameKey a b = sameKey b a := by
  rw [Bool.eq_iff_iff, sameKey_iff, sameKey_iff]
  exact exists_congr fun k => and_comm

/-- The same key tells the same keys from others. -/
theorem sameKey_congr {a b : Value} (h : sameKey a b = true) : sameKey a = sameKey b := by
  obtain ⟨k, ha, hb⟩ := (sameKey_iff a b).1 h
  funext c
  rw [Bool.eq_iff_iff, sameKey_iff, sameKey_iff, ha, hb]

end Value

/-! ## Entries under keys -/

namespace Entries

variable {ν : Type}

/-- All keys are hashable, and pairwise different. -/
structure Keyed (es : Entries Value ν) : Prop where
  hashable : ∀ e ∈ es, e.1.isHashable = true
  distinct : es.Pairwise fun e e' => Value.sameKey e.1 e'.1 = false

theorem exists_mem_of_get?_eq_some {κ : Type} {same : κ → Bool} {es : Entries κ ν} {v : ν}
    (h : es.get? same = some v) : ∃ k, (k, v) ∈ es ∧ same k = true := by
  induction es with
  | nil => cases h
  | cons e rest ih =>
    unfold get? at h
    split at h
    · next hsame =>
      cases h
      exact ⟨e.1, List.mem_cons_self, hsame⟩
    · obtain ⟨k, hk, hsame⟩ := ih h
      exact ⟨k, List.mem_cons_of_mem e hk, hsame⟩

theorem get?_eq_none_iff {same : Value → Bool} {es : Entries Value ν} :
    es.get? same = none ↔ ∀ e ∈ es, same e.1 = false := by
  induction es with
  | nil => simp [get?]
  | cons e rest ih => cases hsame : same e.1 <;> simp [get?, hsame, ih]

/-- Setting a value keeps the row of keys, or adds a new key at its end. -/
theorem insert_cases (same : Value → Bool) (k : Value) (v : ν) (es : Entries Value ν) :
    (es.insert same k v).map Prod.fst = es.map Prod.fst ∨
      (∀ e ∈ es, same e.1 = false) ∧ es.insert same k v = es ++ [(k, v)] := by
  induction es with
  | nil => exact .inr ⟨nofun, rfl⟩
  | cons e rest ih =>
    cases hsame : same e.1 with
    | true => exact .inl (by simp [insert, hsame])
    | false => simpa [insert, hsame] using ih

theorem erase_sublist (same : Value → Bool) (es : Entries Value ν) :
    (es.erase same).Sublist es := by
  induction es with
  | nil => exact .slnil
  | cons e rest ih =>
    cases hsame : same e.1 with
    | true => simp [erase, hsame]
    | false => simpa [erase, hsame] using ih

namespace Keyed

variable {es : Entries Value ν}

/-- Each value is found under its key. -/
theorem get?_of_mem (hes : es.Keyed) {k : Value} {v : ν} (h : (k, v) ∈ es) :
    es.get? (Value.sameKey k) = some v := by
  induction es with
  | nil => cases h
  | cons e rest ih =>
    obtain ⟨hdifferent, hrest⟩ := List.pairwise_cons.1 hes.distinct
    rcases List.mem_cons.1 h with rfl | h
    · simp [get?, Value.sameKey_self (hes.hashable _ List.mem_cons_self)]
    · have hother : Value.sameKey k e.1 = false := by
        rw [Value.sameKey_comm]
        exact hdifferent _ h
      simp only [get?, hother]
      exact ih ⟨fun e' he' => hes.hashable e' (List.mem_cons_of_mem e he'), hrest⟩ h

theorem nil : Keyed ([] : Entries Value ν) :=
  ⟨nofun, .nil⟩

/-- Keys depend only on the row of keys. -/
theorem of_map_fst_eq {fs : Entries Value ν} (hes : es.Keyed)
    (h : fs.map Prod.fst = es.map Prod.fst) : fs.Keyed := by
  constructor
  · intro f hf
    have hmem : f.1 ∈ es.map Prod.fst := h ▸ List.mem_map_of_mem hf
    obtain ⟨e, he, heq⟩ := List.mem_map.1 hmem
    exact heq ▸ hes.hashable e he
  · have hkeys : (es.map Prod.fst).Pairwise fun k k' => Value.sameKey k k' = false :=
      List.pairwise_map.2 hes.distinct
    rw [← h] at hkeys
    exact List.pairwise_map.1 hkeys

theorem insert (hes : es.Keyed) {k : Value} (hk : k.isHashable = true) (v : ν) :
    Keyed (Entries.insert (Value.sameKey k) k v es) := by
  rcases insert_cases (Value.sameKey k) k v es with heq | ⟨hnew, heq⟩
  · exact hes.of_map_fst_eq heq
  · rw [heq]
    constructor
    · exact List.forall_mem_append.2 ⟨hes.hashable, by simpa using hk⟩
    · refine List.pairwise_append.2 ⟨hes.distinct, List.pairwise_singleton _ _, ?_⟩
      intro e he e' he'
      rw [List.mem_singleton.1 he', Value.sameKey_comm]
      exact hnew e he

theorem erase (hes : es.Keyed) (same : Value → Bool) : Keyed (Entries.erase same es) := by
  have hsub := erase_sublist same es
  exact ⟨fun e he => hes.hashable e (hsub.mem he), hes.distinct.sublist hsub⟩

end Keyed

/-- A row of pairwise different keys each of which stands in another row of the same length leaves
no key of that row out. -/
theorem exists_sameKey {ks ls : List Value}
    (hks : ks.Pairwise fun k k' => Value.sameKey k k' = false) (hlength : ks.length = ls.length)
    (h : ∀ k ∈ ks, ∃ l ∈ ls, Value.sameKey k l = true) :
    ∀ l ∈ ls, ∃ k ∈ ks, Value.sameKey k l = true := by
  induction ks generalizing ls with
  | nil =>
    have hls : ls = [] := List.length_eq_zero_iff.1 hlength.symm
    simp [hls]
  | cons k rest ih =>
    obtain ⟨hother, hrest⟩ := List.pairwise_cons.1 hks
    obtain ⟨l, hl, hkl⟩ := h k List.mem_cons_self
    obtain ⟨before, after, rfl⟩ := List.append_of_mem hl
    -- the keys of the rest are other than `k`, so none of them is found at `l`
    have hfound : ∀ k' ∈ rest, ∃ l' ∈ before ++ after, Value.sameKey k' l' = true := by
      intro k' hk'
      obtain ⟨l', hl', hsame⟩ := h k' (List.mem_cons_of_mem k hk')
      have hne : l' ≠ l := by
        rintro rfl
        have hkk' : Value.sameKey k k' = true := by
          rw [Value.sameKey_congr hkl, Value.sameKey_comm]
          exact hsame
        rw [hother k' hk'] at hkk'
        cases hkk'
      refine ⟨l', ?_, hsame⟩
      simp only [List.mem_append, List.mem_cons] at hl' ⊢
      tauto
    have hlengths : rest.length = (before ++ after).length := by
      simp only [List.length_cons, List.length_append] at hlength ⊢
      omega
    have hcovered := ih hrest hlengths hfound
    intro l' hl'
    by_cases heq : l' = l
    · exact ⟨k, List.mem_cons_self, heq ▸ hkl⟩
    · have hmem : l' ∈ before ++ after := by
        simp only [List.mem_append, List.mem_cons] at hl' ⊢
        tauto
      obtain ⟨k', hk', hsame⟩ := hcovered l' hmem
      exact ⟨k', List.mem_cons_of_mem k hk', hsame⟩

/-- Running through the entries of one map and looking each key up in another one of the same size
amounts to comparing the two maps at every key. -/
theorem Keyed.forall_mem_iff {es fs : Entries Value ν} (hes : es.Keyed)
    (hlength : es.length = fs.length) {R : ν → ν → Prop} :
    (∀ e ∈ es, ∃ w, fs.get? (Value.sameKey e.1) = some w ∧ R e.2 w) ↔
      ∀ key, Option.Rel R (es.get? (Value.sameKey key)) (fs.get? (Value.sameKey key)) := by
  constructor
  · intro h key
    cases hv : es.get? (Value.sameKey key) with
    | some v =>
      obtain ⟨k, hk, hsame⟩ := exists_mem_of_get?_eq_some hv
      obtain ⟨w, hw, hR⟩ := h (k, v) hk
      rw [Value.sameKey_congr hsame, hw]
      exact .some hR
    | none =>
      have hfound : ∀ k ∈ es.map Prod.fst, ∃ l ∈ fs.map Prod.fst, Value.sameKey k l = true := by
        rintro _ hk
        obtain ⟨e, he, rfl⟩ := List.mem_map.1 hk
        obtain ⟨w, hw, -⟩ := h e he
        obtain ⟨l, hl, hsame⟩ := exists_mem_of_get?_eq_some hw
        exact ⟨l, List.mem_map_of_mem hl, hsame⟩
      have hcovered :=
        exists_sameKey (List.pairwise_map.2 hes.distinct) (by simpa using hlength) hfound
      have hnone : fs.get? (Value.sameKey key) = none := by
        refine get?_eq_none_iff.2 fun f hf => Bool.eq_false_iff.2 fun hsame => ?_
        obtain ⟨_, hk, hkf⟩ := hcovered f.1 (List.mem_map_of_mem hf)
        obtain ⟨e, he, rfl⟩ := List.mem_map.1 hk
        have hmissing := get?_eq_none_iff.1 hv e he
        rw [Value.sameKey_congr hsame, Value.sameKey_comm, hkf] at hmissing
        cases hmissing
      rw [hnone]
      exact .none
  · intro h e he
    have hv := hes.get?_of_mem he
    have hR := h e.1
    rw [hv] at hR
    cases hw : fs.get? (Value.sameKey e.1) with
    | none => rw [hw] at hR; cases hR
    | some w => rw [hw] at hR; cases hR with | some hR => exact ⟨w, rfl, hR⟩

end Entries

/-! ## Dicts -/

/-- All dicts have proper keys. -/
def Heap.Keyed (h : Heap) : Prop :=
  ∀ r : DictRef, (h.dict r).Keyed

namespace Heap.Keyed

variable {h : Heap}

theorem empty : Heap.Keyed {} :=
  fun _ => .nil

theorem setDict (hh : h.Keyed) (r : DictRef) {es : Entries Value Value} (hes : es.Keyed) :
    (h.setDict r es).Keyed := by
  intro s
  have hs := hh s
  simp only [Heap.dict, Heap.setDict, Array.getD_eq_getD_getElem?,
    Array.getElem?_setIfInBounds] at hs ⊢
  split
  · split
    · exact hes
    · exact .nil
  · exact hs

theorem newDict (hh : h.Keyed) {es : Entries Value Value} (hes : es.Keyed) :
    (h.newDict es).2.Keyed := by
  intro s
  have hs := hh s
  simp only [Heap.dict, Heap.newDict, Array.getD_eq_getD_getElem?, Array.getElem?_push] at hs ⊢
  split
  · exact hes
  · exact hs

theorem dictInsert (hh : h.Keyed) (r : DictRef) {k : Value} (hk : k.isHashable = true)
    (v : Value) : (h.dictInsert r k v).Keyed :=
  hh.setDict r ((hh r).insert hk v)

theorem dictErase (hh : h.Keyed) (r : DictRef) (k : Value) : (h.dictErase r k).Keyed :=
  hh.setDict r ((hh r).erase _)

end Heap.Keyed

end TaskletMachine
