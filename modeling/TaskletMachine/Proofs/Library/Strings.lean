import TaskletMachine.Proofs.Operator.Indexing
import TaskletMachine.Proofs.Text.Bytes

/-!
# Cutting, joining and finding strings

Cutting a string at a separator leaves pieces without it, and joining the pieces is the way back.
With another string between the pieces it is what replacing the separator gives. Finding a string
tells its least position, which is where its characters stand when they are read one by one.

## Main definitions

* `Heap.StandsAt`: the characters of a string stand in another one from a position on.

## Main results

* `StrMethod.split_join_replace`: how cutting, joining and replacing compare.
* `StrMethod.find_least_position`: what finding tells.
-/
namespace TaskletMachine

/-! ## Values of a list -/

/-- An iterator over a list runs through the items from its index on. -/
theorem Cursor.drainUpTo_overList (h : Heap) (r : ListRef) {count index : Nat} (read : List Value)
    (hcount : (h.list r).length - index < count) :
    (drainUpTo h count read (overList r index)).1 = read.reverse ++ (h.list r).drop index := by
  induction count generalizing index read with
  | zero => omega
  | succ count ih =>
    rw [drainUpTo, next]
    cases hitem : (h.list r)[index]? with
    | none =>
      rw [List.drop_eq_nil_of_le (List.getElem?_eq_none_iff.1 hitem)]
      simp
    | some v =>
      obtain ⟨hlt, rfl⟩ := List.getElem?_eq_some_iff.1 hitem
      rw [ih _ (by omega), List.drop_eq_getElem_cons hlt]
      simp

theorem Effect.collect_list (r : ListRef) (w : World) :
    collect (.list r) w = .ok (w.heap.list r) w := by
  have hdrain : ((Cursor.overList r 0).drain w.heap).1 = w.heap.list r :=
    Cursor.drainUpTo_overList w.heap r [] (by simp [Cursor.bound])
  have hcollect : collect (.list r) w = .ok ((Cursor.overList r 0).drain w.heap).1 w := rfl
  rw [hcollect, hdrain]

theorem Heap.compare_isIn_str (h : Heap) (needle s : String) :
    h.compare .isIn (.str needle) (.str s) = .ok (Text.occursIn needle.toList s.toList) := by
  simp [compare, contains]

namespace StrMethod

variable {s separator : String} {w : World}

/-- Strings are taken out of their values as long as there is nothing else. -/
theorem strings_map (texts : List String) (count : Nat) (w : World) :
    strings (texts.map Value.str) count w = .ok texts w := by
  induction texts generalizing count with
  | nil => rfl
  | cons text texts ih => exact Effect.bind_of_ok (ih (count + 1)) _

/-! ## Calls of the methods -/

section Calls

variable (host : Host) (keywords : Namespace)

theorem split_eq (hne : separator ≠ "") (s : String) (w : World) :
    callNative host (.strMethod .split) [.str s, .str separator] keywords w =
      let (l, h) := w.heap.newList
        (((Text.splitOn separator.toList s.toList).map String.ofList).map Value.str)
      .ok (.value (.list l)) { w with heap := h } := by
  have hcall : callNative host (.strMethod .split) [.str s, .str separator] keywords w =
      (do
        if separator.isEmpty then Effect.raise .valueError "empty separator"
        newStrings ((Text.splitOn separator.toList s.toList).map String.ofList) : Effect Reply) w :=
    rfl
  have hempty : ¬ separator.isEmpty := by simpa using hne
  rw [hcall, if_neg hempty]
  rfl

theorem join_eq (between : String) {r : ListRef} {texts : List String}
    (hlist : w.heap.list r = texts.map Value.str) :
    callNative host (.strMethod .join) [.str between, .list r] keywords w =
      .ok (.value (.str (String.ofList
        (Text.join between.toList (texts.map String.toList))))) w := by
  have hcall : callNative host (.strMethod .join) [.str between, .list r] keywords w =
      (do
        let pieces ← strings (← Effect.collect (.list r)) 0
        Effect.reply (.str (String.ofList (Text.join between.toList
          (pieces.map String.toList)))) : Effect Reply) w := rfl
  rw [hcall, Effect.bind_of_ok (Effect.collect_list r w), hlist,
    Effect.bind_of_ok (strings_map texts 0 w)]
  rfl

theorem replace_eq (s t u : String) (w : World) :
    callNative host (.strMethod .replace) [.str s, .str t, .str u] keywords w =
      .ok (.value (.str (String.ofList (Text.replaceAll t.toList u.toList s.toList)))) w :=
  rfl

theorem find_eq (s t : String) (w : World) :
    callNative host (.strMethod .find) [.str s, .str t] keywords w =
      .ok (.value (.int ((Text.indexOf? t.toList s.toList).elim (-1) Int64.ofNat))) w := by
  have hcall : callNative host (.strMethod .find) [.str s, .str t] keywords w =
      StrMethod.call .find [.str s, .str t] w := rfl
  rw [hcall, StrMethod.call]
  cases Text.indexOf? t.toList s.toList <;> rfl

end Calls

/-! ## Cutting, joining and replacing -/

/-- Cutting a string at a separator that is not empty gives the pieces between its leftmost
occurrences, none of which contains it. Joining them with the separator gives the string back, and
joining them with another string gives what replacing the separator by that string gives. -/
theorem split_join_replace (host : Host) (keywords : Namespace) (w : World) (s : String)
    (hne : separator ≠ "") :
    ∃ (pieces : List String) (l : ListRef) (w' : World),
      callNative host (.strMethod .split) [.str s, .str separator] keywords w =
        .ok (.value (.list l)) w' ∧
      w'.heap.list l = pieces.map Value.str ∧
      Text.Cut separator.toList s.toList (pieces.map String.toList) ∧
      (∀ piece ∈ pieces, w'.heap.compare .isIn (.str separator) (.str piece) = .ok false) ∧
      callNative host (.strMethod .join) [.str separator, .list l] keywords w' =
        .ok (.value (.str s)) w' ∧
      ∀ t, ∃ replaced,
        callNative host (.strMethod .replace) [.str s, .str separator, .str t] keywords w =
          .ok (.value (.str replaced)) w ∧
        callNative host (.strMethod .join) [.str t, .list l] keywords w' =
          .ok (.value (.str replaced)) w' := by
  have hne' : separator.toList ≠ [] := by simpa using hne
  have hcut := Text.cut_splitOn hne' s.toList
  have hpieces : ((Text.splitOn separator.toList s.toList).map String.ofList).map String.toList =
      Text.splitOn separator.toList s.toList := by
    simp [Function.comp_def]
  have hlist := w.heap.list_newList
    (((Text.splitOn separator.toList s.toList).map String.ofList).map Value.str)
  refine ⟨_, _, _, split_eq host keywords hne s w, hlist, hpieces.symm ▸ hcut, ?_, ?_, fun t => ?_⟩
  · rw [List.forall_mem_map]
    intro piece hpiece
    rw [Heap.compare_isIn_str, String.toList_ofList, Except.ok.injEq, Bool.eq_false_iff, Ne,
      Text.occursIn_iff]
    exact hcut.not_isInfix hne' piece hpiece
  · rw [join_eq host keywords _ hlist, hpieces, hcut.join_eq, String.ofList_toList]
  · refine ⟨_, replace_eq host keywords s separator t w, ?_⟩
    rw [join_eq host keywords _ hlist, hpieces, Text.join_splitOn_eq_replaceAll hne']

/-- Of two occurrences that overlap, the string is cut at the first one only. -/
theorem split_join_of_overlap : "aba" ≠ "" ∧ ∃ (l : ListRef) (w : World),
    callNative .empty (.strMethod .split) [.str "xababaaba", .str "aba"] [] {} =
      .ok (.value (.list l)) w ∧
    w.heap.list l = [.str "x", .str "ba", .str ""] ∧
    callNative .empty (.strMethod .join) [.str "aba", .list l] [] w =
      .ok (.value (.str "xababaaba")) w ∧
    callNative .empty (.strMethod .join) [.str "-", .list l] [] w =
      .ok (.value (.str "x-ba-")) w := by
  have hne : "aba" ≠ "" := by decide
  obtain ⟨pieces, l, w, hsplit, -, -, -, hjoin, hreplace⟩ :=
    split_join_replace .empty [] {} "xababaaba" hne
  obtain ⟨replaced, hreplaced, hjoined⟩ := hreplace "-"
  cases hsplit
  cases hreplaced
  exact ⟨hne, _, _, rfl, rfl, hjoin, hjoined⟩

end StrMethod

/-! ## Finding -/

namespace Heap

/-- The characters of a string stand in another one from a position on, as subscripts read them. -/
def StandsAt (h : Heap) (needle s : String) (i : Nat) : Prop :=
  ∀ j < needle.length, ∃ c, h.subscript (.str s) (.int (Int64.ofNat (i + j))) = .ok c ∧
    h.subscript (.str needle) (.int (Int64.ofNat j)) = .ok c

theorem subscript_str (h : Heap) (s : String) {k : Nat} (hk : k < 2 ^ 63) :
    h.subscript (.str s) (.int (Int64.ofNat k)) =
      match s.toList[k]? with
      | some c => .ok (.str (String.ofList [c]))
      | none => .error (.raise .indexError "string index out of range") := by
  have hindex : (Int64.ofNat k).toInt = k := Int64.toInt_ofNat_of_lt hk
  simp only [subscript, sequenceIndex, hindex]
  cases hc : s.toList[k]? with
  | some c =>
    obtain ⟨hlt, rfl⟩ := List.getElem?_eq_some_iff.1 hc
    rw [resolveIndex?_eq_some_iff.2 ⟨hlt, .inl rfl⟩]
    simp [bind, Except.bind, pure, Except.pure, hlt]
  | none =>
    have hle := List.getElem?_eq_none_iff.1 hc
    rw [resolveIndex?_eq_none_iff.2 (by omega)]
    rfl

variable {needle s : String} {i : Nat}

theorem standsAt_iff (h : Heap) (hi : i + needle.length ≤ 2 ^ 63) :
    h.StandsAt needle s i ↔ needle.toList <+: s.toList.drop i := by
  rw [← String.length_toList] at hi
  rw [StandsAt, ← String.length_toList, List.prefix_iff_getElem?]
  refine forall_congr' fun j => forall_congr' fun hj => ?_
  rw [h.subscript_str s (by omega), h.subscript_str needle (by omega), List.getElem?_drop,
    List.getElem?_eq_getElem hj]
  cases hc : s.toList[i + j]? with
  | none => simp
  | some c =>
    constructor
    · rintro ⟨v, hread, hread'⟩
      simpa using hread.trans hread'.symm
    · rintro ⟨⟩
      exact ⟨_, rfl, rfl⟩

end Heap

/-- Finding a string in one that fits into memory gives -1 exactly if membership says that it is not
there, and otherwise the least position from which on its characters stand in the other string. That
is the number of characters before the byte at which its bytes are found. -/
theorem StrMethod.find_least_position (host : Host) (keywords : Namespace) (w : World)
    {s : String} (hsize : s.length < 2 ^ 63) (needle : String) :
    ∃ n : Int64,
      callNative host (.strMethod .find) [.str s, .str needle] keywords w =
        .ok (.value (.int n)) w ∧
      (n = -1 ↔ w.heap.compare .isIn (.str needle) (.str s) = .ok false) ∧
      (n ≠ -1 → w.heap.compare .isIn (.str needle) (.str s) = .ok true ∧
        ∃ i : Nat, n.toInt = i ∧ IsLeast {i | w.heap.StandsAt needle s i} i) ∧
      match Text.indexOf? needle.toUTF8.data.toList s.toUTF8.data.toList with
      | some b => ∃ before after, s = before ++ after ∧ before.utf8ByteSize = b ∧
          n.toInt = before.length
      | none => n = -1 := by
  refine ⟨_, find_eq host keywords s needle w, ?_⟩
  rw [Heap.compare_isIn_str, Text.occursIn, ← Text.utf8_toList, ← Text.utf8_toList,
    Text.indexOf?_utf8]
  cases hfound : Text.indexOf? needle.toList s.toList with
  | none => simp
  | some i =>
    have hleast := Text.indexOf?_eq_some_iff.1 hfound
    have hend : i + needle.length ≤ s.length := Text.add_length_le_of_isLeast hleast
    have hword : (Int64.ofNat i).toInt = i := Int64.toInt_ofNat_of_lt (by omega)
    have hne : Int64.ofNat i ≠ -1 := by
      intro heq
      rw [heq] at hword
      exact absurd hword (by simp)
    refine ⟨by simp [hne], fun _ => ⟨rfl, i, hword, ?_, fun i' hi' => ?_⟩, ?_⟩
    · exact (w.heap.standsAt_iff (by omega)).2 hleast.1
    · by_contra hlt
      exact hlt (hleast.2 ((w.heap.standsAt_iff (by omega)).1 hi'))
    · obtain ⟨before, after, hs, hlength, hbytes⟩ :=
        Text.exists_append_at s (Nat.le_of_add_right_le hend)
      exact ⟨before, after, hs, hbytes, hlength ▸ hword⟩

/-- Characters of one to four bytes count alike. -/
theorem StrMethod.find_of_mixed_widths : "añ€😀añ😀c".length < 2 ^ 63 ∧
    callNative .empty (.strMethod .find) [.str "añ€😀añ😀c", .str "ñ😀"] [] {} =
      .ok (.value (.int 5)) {} ∧
    IsLeast {i | Heap.StandsAt {} "ñ😀" "añ€😀añ😀c" i} 5 := by
  have hsize : "añ€😀añ😀c".length < 2 ^ 63 := by decide
  obtain ⟨n, hfind, -, hleast, -⟩ := find_least_position .empty [] {} hsize "ñ😀"
  cases hfind
  obtain ⟨-, i, hi, hleast⟩ := hleast (by decide)
  have hfive : i = 5 := Int.ofNat_inj.1 hi.symm
  exact ⟨hsize, rfl, hfive ▸ hleast⟩

end TaskletMachine
