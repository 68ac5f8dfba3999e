import Mathlib.Order.Bounds.Basic
import TaskletMachine.Text.Search

/-!
# Leftmost search

A search gives the least index at which the needle starts. Cutting a text at a separator is repeated
leftmost search without overlap: a text in which the separator does not occur is one piece, and any
other text is cut at the leftmost occurrence, the search going on behind it. Joining the pieces with
the separator gives the text back, and joining them with another text is replacing the separator.

## Main definitions

* `Cut`: the pieces of a text between the occurrences of a separator.

## Main results

* `indexOf?_eq_some_iff`, `occursIn_iff`: what a search finds.
* `cut_splitOn`: cutting gives the pieces.
* `Cut.join_eq`, `join_splitOn_eq_replaceAll`: what joining the pieces gives.
-/
namespace TaskletMachine.Text

variable {α : Type} {needle separator text piece rest : List α} {pieces : List (List α)} {i : Nat}

/-- The pieces of a text between the leftmost occurrences of a separator that do not overlap. -/
inductive Cut (separator : List α) : List α → List (List α) → Prop
  /-- Where the separator does not occur, the text is the last piece. -/
  | last {text : List α} (hnone : ¬ separator <:+: text) : Cut separator text [text]
  /-- A piece ends where the separator starts first, and the search goes on behind it. -/
  | next {piece rest : List α} {pieces : List (List α)}
      (hfirst : IsLeast {i | separator <+: (piece ++ separator ++ rest).drop i} piece.length)
      (hrest : Cut separator rest pieces) :
      Cut separator (piece ++ separator ++ rest) (piece :: pieces)

/-! ## Occurrences -/

section Occurrences

theorem isInfix_iff_exists_drop : needle <:+: text ↔ ∃ i, needle <+: text.drop i := by
  constructor
  · rintro ⟨before, after, rfl⟩
    exact ⟨before.length, by simp⟩
  · rintro ⟨i, hi⟩
    exact hi.isInfix.trans (List.drop_suffix i text).isInfix

theorem isLeast_zero (h : needle <+: text) : IsLeast {i | needle <+: text.drop i} 0 :=
  ⟨h, fun _ _ => Nat.zero_le _⟩

/-- Past a character at which the needle does not start, the search is one in the rest. -/
theorem isLeast_succ_iff {c : α} (h : ¬ needle <+: c :: text) :
    IsLeast {i | needle <+: (c :: text).drop i} (i + 1) ↔
      IsLeast {i | needle <+: text.drop i} i := by
  constructor
  · rintro ⟨hstart, hleast⟩
    exact ⟨hstart, fun j hj => Nat.le_of_succ_le_succ (hleast (a := j + 1) hj)⟩
  · rintro ⟨hstart, hleast⟩
    refine ⟨hstart, fun j hj => ?_⟩
    cases j with
    | zero => exact absurd hj h
    | succ j => exact Nat.succ_le_succ (hleast hj)

/-- A text is cut in two at an occurrence. -/
theorem eq_append_of_isLeast (h : IsLeast {i | needle <+: text.drop i} i) :
    text = text.take i ++ needle ++ text.drop (i + needle.length) := by
  obtain ⟨after, hafter⟩ := h.1
  have hrest : text.drop (i + needle.length) = after := by
    rw [← List.drop_drop, ← hafter, List.drop_left]
  rw [hrest, List.append_assoc, hafter, List.take_append_drop]

/-- The first occurrence of a needle ends in the text. -/
theorem add_length_le_of_isLeast (h : IsLeast {i | needle <+: text.drop i} i) :
    i + needle.length ≤ text.length := by
  have hlength := h.1.length_le
  rw [List.length_drop] at hlength
  have hstart : i ≤ text.length := by
    by_contra hlt
    have hempty : needle = [] := List.eq_nil_of_length_eq_zero (by omega)
    exact hlt (h.2 (by simp [hempty]))
  omega

theorem lt_length_of_isLeast (hne : needle ≠ []) (h : IsLeast {i | needle <+: text.drop i} i) :
    i < text.length := by
  have hpos := List.length_pos_iff.2 hne
  have hlength := add_length_le_of_isLeast h
  omega

/-- A piece that ends where the separator starts first does not contain it. -/
theorem not_isInfix_of_isLeast (hne : separator ≠ [])
    (h : IsLeast {i | separator <+: (piece ++ rest).drop i} piece.length) :
    ¬ separator <:+: piece := by
  intro hinfix
  obtain ⟨j, hj⟩ := isInfix_iff_exists_drop.1 hinfix
  have hlt : j < piece.length := by simpa using hj.ne_nil hne
  have hstart : separator <+: (piece ++ rest).drop j := by
    rw [List.drop_append_of_le_length hlt.le]
    exact List.prefix_append_of_prefix hj
  exact absurd (h.2 hstart) (Nat.not_le.2 hlt)

end Occurrences

/-! ## Searching -/

section Searching

variable [BEq α] [LawfulBEq α]

theorem dropHead?_eq_some_iff : dropHead? needle text = some rest ↔ text = needle ++ rest := by
  fun_induction dropHead? needle text with
  | case1 text => simp
  | case2 n needle => simp
  | case3 n needle c text heq ih =>
    rw [ih, beq_iff_eq.1 heq]
    simp
  | case4 n needle c text hne =>
    have hne : c ≠ n := fun h => hne (beq_iff_eq.2 h.symm)
    simp [hne]

theorem isSome_dropHead?_iff : (dropHead? needle text).isSome ↔ needle <+: text := by
  simp [Option.isSome_iff_exists, dropHead?_eq_some_iff, List.prefix_iff_exists_eq_append]

/-- A search finds the least index at which the needle starts. -/
theorem indexOf?_eq_some_iff :
    indexOf? needle text = some i ↔ IsLeast {i | needle <+: text.drop i} i := by
  induction text generalizing i with
  | nil =>
    rw [indexOf?]
    by_cases hstart : needle <+: []
    · rw [if_pos (by simpa using hstart), Option.some_inj]
      exact ⟨fun h => h ▸ isLeast_zero hstart, fun h => (isLeast_zero hstart).unique h⟩
    · have hne : needle ≠ [] := by simpa using hstart
      rw [if_neg (by simpa using hne)]
      exact ⟨nofun, fun h => absurd (lt_length_of_isLeast hne h) (Nat.not_lt_zero i)⟩
  | cons c text ih =>
    rw [indexOf?]
    by_cases hstart : needle <+: c :: text
    · rw [if_pos (isSome_dropHead?_iff.2 hstart), Option.some_inj]
      exact ⟨fun h => h ▸ isLeast_zero hstart, fun h => (isLeast_zero hstart).unique h⟩
    · rw [if_neg fun h => hstart (isSome_dropHead?_iff.1 h)]
      cases i with
      | zero =>
        have hnot : ¬ IsLeast {i | needle <+: (c :: text).drop i} 0 := fun h => hstart h.1
        simp [hnot]
      | succ i =>
        rw [isLeast_succ_iff hstart, ← ih]
        simp

theorem indexOf?_eq_none_iff : indexOf? needle text = none ↔ ¬ needle <:+: text := by
  induction text with
  | nil => simp [indexOf?]
  | cons c text ih =>
    rw [List.infix_cons_iff, not_or, ← ih, indexOf?, ← isSome_dropHead?_iff]
    split <;> simp [*]

theorem occursIn_iff : occursIn needle text = true ↔ needle <:+: text := by
  rw [occursIn, ← not_iff_not, ← indexOf?_eq_none_iff]
  simp

end Searching

/-! ## Cutting -/

section Cutting

variable [BEq α]

theorem splitFrom_skip (separator piece : List α) (skip : Nat) (text : List α) :
    splitFrom separator skip piece text = splitFrom separator 0 piece (text.drop skip) := by
  induction skip generalizing text with
  | zero => simp
  | succ skip ih =>
    cases text with
    | nil => simp [splitFrom]
    | cons c text => rw [splitFrom, ih, List.drop_succ_cons]

theorem splitFrom_ne_nil (separator : List α) (skip : Nat) (piece text : List α) :
    splitFrom separator skip piece text ≠ [] := by
  fun_induction splitFrom separator skip piece text <;> simp_all

variable [LawfulBEq α]

/-- Where the separator does not occur, all characters go into the piece being read. -/
theorem splitFrom_of_not_isInfix (h : ¬ separator <:+: text) :
    splitFrom separator 0 piece text = [piece.reverse ++ text] := by
  induction text generalizing piece with
  | nil => simp [splitFrom]
  | cons c text ih =>
    rw [List.infix_cons_iff, not_or] at h
    rw [splitFrom, if_neg fun hstart => h.1 (isSome_dropHead?_iff.1 hstart), ih h.2]
    simp

/-- The piece being read ends where the separator starts first, and the next one starts behind
it. -/
theorem splitFrom_of_isLeast (hne : separator ≠ [])
    (h : IsLeast {i | separator <+: text.drop i} i) :
    splitFrom separator 0 piece text =
      (piece.reverse ++ text.take i) :: splitOn separator (text.drop (i + separator.length)) := by
  induction text generalizing piece i with
  | nil => exact absurd (lt_length_of_isLeast hne h) (Nat.not_lt_zero i)
  | cons c text ih =>
    rw [splitFrom]
    by_cases hstart : separator <+: c :: text
    · obtain rfl : i = 0 := h.unique (isLeast_zero hstart)
      obtain ⟨k, hk⟩ := Nat.exists_eq_succ_of_ne_zero (List.length_eq_zero_iff.not.2 hne)
      rw [if_pos (isSome_dropHead?_iff.2 hstart), splitFrom_skip, hk]
      simp [splitOn]
    · rw [if_neg fun hsome => hstart (isSome_dropHead?_iff.1 hsome)]
      cases i with
      | zero => exact absurd h.1 hstart
      | succ i =>
        rw [ih ((isLeast_succ_iff hstart).1 h), Nat.succ_add]
        simp

/-- Cutting a text gives its pieces. -/
theorem cut_splitOn (hne : separator ≠ []) (text : List α) :
    Cut separator text (splitOn separator text) := by
  -- Behind an occurrence there is less text, since the separator is not empty.
  induction hlength : text.length using Nat.strong_induction_on generalizing text with
  | h n ih =>
    cases hfound : indexOf? separator text with
    | none =>
      have hnone := indexOf?_eq_none_iff.1 hfound
      rw [splitOn, splitFrom_of_not_isInfix hnone]
      exact .last hnone
    | some i =>
      have hleast := indexOf?_eq_some_iff.1 hfound
      have hlt := lt_length_of_isLeast hne hleast
      have hpos := List.length_pos_iff.2 hne
      rw [splitOn, splitFrom_of_isLeast hne hleast]
      have hrest := ih _ (by simp; omega) (text.drop (i + separator.length)) rfl
      have hpiece : (text.take i).length = i := by simp [hlt.le]
      have hcut : Cut separator (text.take i ++ separator ++ text.drop (i + separator.length))
          (text.take i :: splitOn separator (text.drop (i + separator.length))) :=
        .next (by rwa [← eq_append_of_isLeast hleast, hpiece]) hrest
      rwa [← eq_append_of_isLeast hleast] at hcut

end Cutting

/-! ## Joining -/

theorem join_cons (between piece : List α) (h : pieces ≠ []) :
    join between (piece :: pieces) = piece ++ between ++ join between pieces := by
  cases pieces with
  | nil => exact absurd rfl h
  | cons _ _ => simp [join]

/-- Joining the pieces with a substitute is replacing the separator by it. -/
theorem join_splitFrom [BEq α] (substitute : List α) (skip : Nat) (piece text : List α) :
    join substitute (splitFrom separator skip piece text) =
      piece.reverse ++ replaceFrom separator substitute skip text := by
  fun_induction splitFrom separator skip piece text with
  | case1 skip piece => simp [join, replaceFrom]
  | case2 skip piece c text ih => rw [ih, replaceFrom]
  | case3 piece c text hstart ih =>
    rw [join_cons _ _ (splitFrom_ne_nil _ _ _ _), ih, replaceFrom, if_pos hstart]
    simp
  | case4 piece c text hstart ih =>
    rw [ih, replaceFrom, if_neg hstart]
    simp

theorem join_splitOn_eq_replaceAll [BEq α] (hne : separator ≠ []) (substitute text : List α) :
    join substitute (splitOn separator text) = replaceAll separator substitute text := by
  rw [splitOn, join_splitFrom, replaceAll, if_neg (by simpa using hne)]
  rfl

namespace Cut

theorem ne_nil (h : Cut separator text pieces) : pieces ≠ [] := by
  cases h <;> simp

/-- No piece contains the separator. -/
theorem not_isInfix (hne : separator ≠ []) (h : Cut separator text pieces) :
    ∀ piece ∈ pieces, ¬ separator <:+: piece := by
  induction h with
  | last hnone => simpa using hnone
  | next hfirst hrest ih =>
    rw [List.append_assoc] at hfirst
    exact List.forall_mem_cons.2 ⟨not_isInfix_of_isLeast hne hfirst, ih⟩

/-- Joining the pieces with the separator gives the text back. -/
theorem join_eq (h : Cut separator text pieces) : join separator pieces = text := by
  induction h with
  | last hnone => rw [join]
  | next hfirst hrest ih => rw [join_cons _ _ hrest.ne_nil, ih]

end Cut

end TaskletMachine.Text
