import TaskletMachine.Proofs.Text.Search

/-!
# Searching in bytes

In UTF-8 a byte that starts a character never stands inside one, and no character is the beginning
of another one. A search for the bytes of a needle therefore only stops at the start of a character,
and there exactly if the characters of the needle follow: it finds the needle after as many bytes as
the characters take up after which a search among characters finds it.

## Main definitions

* `utf8`: the bytes of a text.

## Main results

* `indexOf?_utf8`: searching in bytes and searching in characters agree.
-/
namespace TaskletMachine.Text

/-- The bytes of a text in UTF-8. -/
def utf8 (text : List Char) : List UInt8 :=
  text.flatMap String.utf8EncodeChar

variable {needle text : List Char} {c : Char}

@[simp] theorem utf8_nil : utf8 [] = [] :=
  rfl

@[simp] theorem utf8_cons (c : Char) (text : List Char) :
    utf8 (c :: text) = String.utf8EncodeChar c ++ utf8 text :=
  List.flatMap_cons

theorem utf8_append (before after : List Char) :
    utf8 (before ++ after) = utf8 before ++ utf8 after :=
  List.flatMap_append

/-- These are the bytes that a string consists of. -/
theorem utf8_toList (s : String) : utf8 s.toList = s.toUTF8.data.toList := by
  have hbytes : s.toUTF8 = s.toList.utf8Encode := String.utf8Encode_toList.symm
  rw [hbytes, List.utf8Encode, List.data_toByteArray]
  rfl

theorem length_utf8_toList (s : String) : (utf8 s.toList).length = s.utf8ByteSize := by
  rw [utf8_toList]
  rfl

/-- A string is cut in two at a position, and what is before it has as many bytes as its characters
have. -/
theorem exists_append_at (s : String) {i : Nat} (hi : i ≤ s.length) :
    ∃ before after, s = before ++ after ∧ before.length = i ∧
      before.utf8ByteSize = (utf8 (s.toList.take i)).length := by
  refine ⟨String.ofList (s.toList.take i), String.ofList (s.toList.drop i), ?_, ?_, ?_⟩
  · rw [← String.ofList_append, List.take_append_drop, String.ofList_toList]
  · rw [String.length_ofList, List.length_take, String.length_toList, Nat.min_eq_left hi]
  · rw [← length_utf8_toList, String.toList_ofList]

/-! ## Starts of characters -/

theorem isPrefix_utf8_iff : utf8 needle <+: utf8 text ↔ needle <+: text := by
  constructor
  · rintro ⟨after, hafter⟩
    apply List.isPrefix_of_utf8Encode_append_eq_utf8Encode after.toByteArray
    rw [List.utf8Encode, List.utf8Encode, ← List.toByteArray_append]
    exact congrArg List.toByteArray hafter
  · rintro ⟨after, rfl⟩
    rw [utf8_append]
    exact List.prefix_append _ _

/-- The bytes of a text start inside the bytes of a character only if that is at their start. -/
theorem eq_zero_of_isPrefix_drop {n : Char} {j : Nat} (hj : j < (String.utf8EncodeChar c).length)
    (h : utf8 (n :: needle) <+: (utf8 (c :: text)).drop j) : j = 0 := by
  rw [utf8_cons, utf8_cons] at h
  have hn : 0 < (String.utf8EncodeChar n).length := by simp [n.utf8Size_pos]
  have hlt : 0 < (String.utf8EncodeChar n ++ utf8 needle).length := by
    rw [List.length_append]
    omega
  have hsame := h.getElem hlt
  simp only [List.getElem_append_left hn, List.getElem_drop, Nat.add_zero,
    List.getElem_append_left hj] at hsame
  have hfirst : (String.utf8EncodeChar n)[0].IsUTF8FirstByte :=
    UInt8.isUTF8FirstByte_getElem_utf8EncodeChar.2 rfl
  rw [hsame] at hfirst
  exact UInt8.isUTF8FirstByte_getElem_utf8EncodeChar.1 hfirst

/-! ## Searching -/

theorem indexOf?_append {α : Type} [BEq α] [LawfulBEq α] {needle before text : List α}
    (h : ∀ j < before.length, ¬ needle <+: (before ++ text).drop j) :
    indexOf? needle (before ++ text) = (indexOf? needle text).map (· + before.length) := by
  induction before with
  | nil => simp
  | cons c before ih =>
    have hstart : ¬ needle <+: c :: (before ++ text) := h 0 (by simp)
    rw [List.cons_append, indexOf?, if_neg fun hsome => hstart (isSome_dropHead?_iff.1 hsome),
      ih fun j hj => h (j + 1) (by simpa using hj)]
    simp [Function.comp_def, Nat.add_assoc]

/-- The bytes of a needle are found after as many bytes as the characters take up after which the
needle is found. -/
theorem indexOf?_utf8 (needle text : List Char) :
    indexOf? (utf8 needle) (utf8 text) =
      (indexOf? needle text).map fun i => (utf8 (text.take i)).length := by
  induction text with
  | nil => cases needle <;> simp [indexOf?]
  | cons c text ih =>
    by_cases hstart : needle <+: c :: text
    · have hbytes : utf8 needle <+: utf8 (c :: text) := isPrefix_utf8_iff.2 hstart
      rw [indexOf?_eq_some_iff.2 (isLeast_zero hstart),
        indexOf?_eq_some_iff.2 (isLeast_zero hbytes)]
      rfl
    · -- The bytes of the needle start at no byte of the first character: not at its own first byte,
      -- since its characters do not start there, and at no other one.
      obtain ⟨n, needle, rfl⟩ : ∃ n rest, needle = n :: rest :=
        List.exists_cons_of_ne_nil fun hnil => hstart (hnil ▸ List.nil_prefix)
      have hnone : ∀ j < (String.utf8EncodeChar c).length,
          ¬ utf8 (n :: needle) <+: (utf8 (c :: text)).drop j := by
        intro j hj hbytes
        obtain rfl := eq_zero_of_isPrefix_drop hj hbytes
        exact hstart (isPrefix_utf8_iff.1 hbytes)
      have hafter : indexOf? (n :: needle) (c :: text) =
          (indexOf? (n :: needle) text).map (· + 1) := by
        rw [indexOf?, if_neg fun hsome => hstart (isSome_dropHead?_iff.1 hsome)]
      rw [utf8_cons c text] at hnone ⊢
      rw [hafter, indexOf?_append hnone, ih]
      simp [Function.comp_def, Nat.add_comm]

end TaskletMachine.Text
