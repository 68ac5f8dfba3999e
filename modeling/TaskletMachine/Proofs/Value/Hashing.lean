import TaskletMachine.Proofs.Value.Keys
import TaskletMachine.Value.Hash

/-!
# Hashes do not tell the same keys apart

Keys that are the same hand the same data to the hasher, although a truth value, an integer and a
double may be the same key. So no key is lost by looking only among the entries of the same hash.

## Main results

* `Value.hashInput_eq`: the same keys have the same data to hash.
* `Value.sameHashedKey_eq`: whichever hasher there is, comparing hashes first makes no difference.
-/
namespace TaskletMachine.Value

/-- All numbers hand over their key, and nothing else. -/
theorem hashInput_of_numberKey? {v : Value} {n : NumberKey} (h : v.numberKey? = some n) :
    v.hashInput = n.hashInput := by
  cases v with
  | bool _ | int _ | float _ => simp only [hashInput, atomHashInput, h]
  | _ => cases h

/-- Keys that are no tuples hand over the same data if they are the same key. -/
theorem hashInput_eq_of_sameAtomKey {a b : Value} (hab : sameAtomKey a b = true) :
    a.hashInput = b.hashInput := by
  unfold sameAtomKey at hab
  split at hab
  · next m n ha hb =>
    rw [hashInput_of_numberKey? ha, hashInput_of_numberKey? hb, beq_iff_eq.mp hab]
  · split at hab
    · rfl
    · rw [beq_iff_eq.mp hab]
    · rw [beq_iff_eq.mp hab]
    · rw [beq_iff_eq.mp hab]
    · cases hab

mutual

/-- The same keys hand the same data to the hasher. -/
theorem hashInput_eq {a b : Value} (hab : sameKey a b = true) : a.hashInput = b.hashInput := by
  by_cases h : ∃ t xs u ys, a = tuple t xs ∧ b = tuple u ys
  · obtain ⟨t, xs, u, ys, rfl, rfl⟩ := h
    rw [sameKey] at hab
    rw [hashInput, hashInput, hashInputs_eq hab]
    rfl
  · rw [sameKey] at hab
    · exact hashInput_eq_of_sameAtomKey hab
    · intro t xs u ys ha hb
      exact h ⟨t, xs, u, ys, ha, hb⟩
termination_by sizeOf a

theorem hashInputs_eq {as bs : List Value} (hab : sameKeys as bs = true) :
    hashInputs as = hashInputs bs := by
  match as, bs with
  | [], [] => rfl
  | [], _ :: _ | _ :: _, [] => simp [sameKeys] at hab
  | a :: as, b :: bs =>
    rw [sameKeys, Bool.and_eq_true] at hab
    rw [hashInputs, hashInputs, hashInput_eq hab.1, hashInputs_eq hab.2]
termination_by sizeOf as

end

/-- Comparing hashes first makes no difference, whatever hash the hasher makes of its input. -/
theorem sameHashedKey_eq (hash : List HashItem → UInt64) : sameHashedKey hash = sameKey := by
  funext a b
  rw [sameHashedKey, Bool.and_eq_right_iff_imp]
  intro hab
  rw [hashInput_eq hab, beq_self_eq_true]

end TaskletMachine.Value
