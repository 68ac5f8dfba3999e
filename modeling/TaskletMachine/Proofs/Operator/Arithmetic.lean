import TaskletMachine.Operator.Sequence
import TaskletMachine.Proofs.Number.Word
import TaskletMachine.Proofs.Operator.Bisimilarity

/-!
# Arithmetic of integers is exact

Integers, and truth values as 0 and 1, are added, multiplied, shifted and divided without loss: the
result is the number that mathematics gives, and where that number does not fit into 64 bits there
is an exception in its place. For remainders and powers there is an exception in two more cases.

## Main definitions

* `IsExact`: what the outcome of an operation is whose exact result is a given number.
* `IsRemainder`: what the remainder of a division rounded down is.

## Main results

* `integers_exact`: the operators on integers.
* `remainder_and_power`: remainders and powers, and the two cases in which a result that would fit
  is not given.
-/
namespace TaskletMachine

/-- The outcome of an operation whose exact result is the number `n`, and which leaves the heap as
it is: that number if it is in the range of 64 bits, and the exception for an overflow otherwise. -/
def IsExact (h : Heap) (n : Int) (outcome : Except Error (Value × Heap)) : Prop :=
  if -2 ^ 63 ≤ n ∧ n < 2 ^ 63 then
    ∃ k : Int64, k.toInt = n ∧ outcome = .ok (.int k, h)
  else outcome = .error (.raise .overflowError "integer overflow")

variable {h : Heap}

theorem isExact_wordResult (n : Int) :
    IsExact h n ((wordResult (Number.word? n)).map (·, h)) := by
  unfold IsExact
  split
  · next hn =>
    have hword : Number.word? n = some (Int64.ofInt n) := if_pos (Number.isWord_iff.mpr hn)
    exact ⟨Int64.ofInt n, Number.word?_eq_some_iff.mp hword, by rw [hword]; rfl⟩
  · next hn =>
    have hnone : Number.word? n = none := if_neg (mt Number.isWord_iff.mp hn)
    rw [hnone]
    rfl

/-- Arithmetic on integers is the arithmetic on words. -/
theorem binary_eq_intArithmetic {op : BinaryOp} {x y : Value} {a b : Int64}
    (hx : x.word? = some a) (hy : y.word? = some b) (hop : op.isBitwise = false) :
    binary h op x y = (intArithmetic op a b).map (·, h) := by
  simp only [binary, Value.numeric?_of_word? hx, Value.numeric?_of_word? hy, hop]
  rfl

/-- Shifts of integers are the shifts of words; truth values are no exception to that. -/
theorem binary_eq_intBitwise {op : BinaryOp} {x y : Value} {a b : Int64}
    (hx : x.word? = some a) (hy : y.word? = some b) (hop : op ∈ [.leftShift, .rightShift]) :
    binary h op x y = (intBitwise op a b).map (·, h) := by
  obtain rfl | rfl : op = .leftShift ∨ op = .rightShift := by simpa using hop
  all_goals
    simp only [binary, bitwise, Value.numeric?_of_word? hx, Value.numeric?_of_word? hy]
    rfl

theorem beq_zero_eq_false {b : Int64} (hb : b.toInt ≠ 0) : (b == 0) = false :=
  beq_eq_false_iff_ne.mpr fun h => hb (h ▸ Int64.toInt_zero)

theorem not_lt_zero {b : Int64} (hb : 0 ≤ b.toInt) : ¬ b < 0 := by
  rw [Int64.lt_iff_toInt_lt, Int64.toInt_zero]
  omega

theorem lt_zero {b : Int64} (hb : b.toInt < 0) : b < 0 := by
  rwa [Int64.lt_iff_toInt_lt, Int64.toInt_zero]

/-- The quotient of words is the floor of the rational quotient, checked. -/
theorem intArithmetic_floorDivide {a b : Int64} (hb : b.toInt ≠ 0) :
    intArithmetic .floorDivide a b =
      wordResult (Number.word? ⌊(a.toInt / b.toInt : ℚ)⌋) := by
  have hne : b ≠ 0 := fun h => hb (h ▸ Int64.toInt_zero)
  simp only [intArithmetic, beq_zero_eq_false hb, Bool.false_eq_true, if_false,
    Number.floorDiv?_eq hne, Number.fdiv_eq_floor]

theorem intBitwise_leftShift {a b : Int64} (hb : 0 ≤ b.toInt) :
    intBitwise .leftShift a b = wordResult (Number.word? (a.toInt * 2 ^ b.toInt.toNat)) := by
  simp only [intBitwise, if_neg (not_lt_zero hb), Number.shiftLeft?_eq]

theorem intBitwise_rightShift {a b : Int64} (hb : 0 ≤ b.toInt) :
    ∃ k : Int64, k.toInt = ⌊(a.toInt / 2 ^ b.toInt.toNat : ℚ)⌋ ∧
      intBitwise .rightShift a b = .ok (.int k) := by
  refine ⟨Number.shiftRight a b.toInt.toNat, ?_, if_neg (not_lt_zero hb)⟩
  rw [Number.shiftRight_toInt, Number.floor_div_two_pow]

/-- Integers, and truth values as integers, are computed with exactly: sums, differences, products,
negatives, shifted integers and floored quotients are the exact numbers, or the exception for an
overflow if these do not fit. Only a divisor that is zero and a count that is negative have
exceptions of their own. -/
theorem integers_exact {x y : Value} {a b : Int64} (hx : x.word? = some a)
    (hy : y.word? = some b) :
    IsExact h (a.toInt + b.toInt) (binary h .add x y) ∧
      IsExact h (a.toInt - b.toInt) (binary h .subtract x y) ∧
      IsExact h (a.toInt * b.toInt) (binary h .multiply x y) ∧
      IsExact h (-a.toInt) ((unary h .negative x).map (·, h)) ∧
      (b.toInt ≠ 0 → IsExact h ⌊(a.toInt / b.toInt : ℚ)⌋ (binary h .floorDivide x y)) ∧
      (0 ≤ b.toInt →
        IsExact h (a.toInt * 2 ^ b.toInt.toNat) (binary h .leftShift x y) ∧
        ∃ k : Int64, k.toInt = ⌊(a.toInt / 2 ^ b.toInt.toNat : ℚ)⌋ ∧
          binary h .rightShift x y = .ok (.int k, h)) ∧
      (b.toInt = 0 →
        (∀ op ∈ [.floorDivide, .modulo], binary h op x y =
          .error (.raise .zeroDivisionError "integer division or modulo by zero")) ∧
        binary h .trueDivide x y = .error (.raise .zeroDivisionError "division by zero")) ∧
      (b.toInt < 0 → ∀ op ∈ [.leftShift, .rightShift],
        binary h op x y = .error (.raise .valueError "negative shift count")) := by
  refine ⟨?_, ?_, ?_, ?_, fun hb => ?_, fun hb => ⟨?_, ?_⟩, fun hb => ⟨fun op hop => ?_, ?_⟩,
    fun hb op hop => ?_⟩
  · rw [binary_eq_intArithmetic hx hy rfl]
    exact isExact_wordResult _
  · rw [binary_eq_intArithmetic hx hy rfl]
    exact isExact_wordResult _
  · rw [binary_eq_intArithmetic hx hy rfl]
    exact isExact_wordResult _
  · simp only [unary, Value.numeric?_of_word? hx]
    exact isExact_wordResult _
  · rw [binary_eq_intArithmetic hx hy rfl, intArithmetic_floorDivide hb]
    exact isExact_wordResult _
  · rw [binary_eq_intBitwise hx hy (by decide), intBitwise_leftShift hb]
    exact isExact_wordResult _
  · obtain ⟨k, hk, hshift⟩ := intBitwise_rightShift (a := a) hb
    exact ⟨k, hk, by rw [binary_eq_intBitwise hx hy (by decide), hshift]; rfl⟩
  · obtain rfl : b = 0 := Int64.toInt_inj.mp hb
    obtain rfl | rfl : op = .floorDivide ∨ op = .modulo := by simpa using hop
    all_goals
      rw [binary_eq_intArithmetic hx hy rfl]
      rfl
  · obtain rfl : b = 0 := Int64.toInt_inj.mp hb
    rw [binary_eq_intArithmetic hx hy rfl]
    rfl
  · rw [binary_eq_intBitwise hx hy hop]
    obtain rfl | rfl : op = .leftShift ∨ op = .rightShift := by simpa using hop
    all_goals
      simp only [intBitwise, if_pos (lt_zero hb)]
      rfl

/-- The least integer has no predecessor and no quotient by minus one, but it has a half; it is not
divided by a truth value that counts as zero, nor shifted by a negative count. -/
theorem LeastInteger.outcomes :
    binary {} .subtract (.int Int64.minValue) (.bool true) =
        .error (.raise .overflowError "integer overflow") ∧
      binary {} .floorDivide (.int Int64.minValue) (.int (-1)) =
        .error (.raise .overflowError "integer overflow") ∧
      (∃ k : Int64, k.toInt = -2 ^ 62 ∧
        binary {} .rightShift (.int Int64.minValue) (.bool true) = .ok (.int k, {})) ∧
      binary {} .modulo (.int Int64.minValue) (.bool false) =
        .error (.raise .zeroDivisionError "integer division or modulo by zero") ∧
      binary {} .leftShift (.int Int64.minValue) (.int (-1)) =
        .error (.raise .valueError "negative shift count") := by
  obtain ⟨-, hsub, -, -, -, hshift, -, -⟩ :=
    integers_exact (h := {}) (x := .int Int64.minValue) (y := .bool true) (b := 1) rfl rfl
  obtain ⟨-, -, -, -, -, -, hzero, -⟩ :=
    integers_exact (h := {}) (x := .int Int64.minValue) (y := .bool false) (b := 0) rfl rfl
  obtain ⟨-, -, -, -, hdiv, -, -, hcount⟩ :=
    integers_exact (h := {}) (x := .int Int64.minValue) (y := .int (-1)) rfl rfl
  obtain ⟨-, k, hk, hhalf⟩ := hshift (by decide)
  have hquotient : ⌊(Int64.minValue.toInt / (-1 : Int64).toInt : ℚ)⌋ = 2 ^ 63 := by
    rw [← Number.fdiv_eq_floor]
    decide
  have hhalved : ⌊(Int64.minValue.toInt / 2 ^ (1 : Int64).toInt.toNat : ℚ)⌋ = -2 ^ 62 := by
    rw [Number.floor_div_two_pow]
    decide
  refine ⟨?_, ?_, ⟨k, hk.trans hhalved, hhalf⟩, (hzero rfl).1 .modulo (by decide),
    hcount (by decide) .leftShift (by decide)⟩
  · exact (if_neg (by decide)).mp hsub
  · have hover := hdiv (by decide)
    rw [hquotient] at hover
    exact (if_neg (by decide)).mp hover

/-! ## Remainders and powers -/

/-- What the remainder `r` of a division is whose quotient is rounded down: it makes up the
difference, is smaller than the divisor and does not differ from it in sign. -/
structure IsRemainder (a b r : Int) : Prop where
  division : a = ⌊(a / b : ℚ)⌋ * b + r
  bounded : r.natAbs < b.natAbs
  sign : r = 0 ∨ r.sign = b.sign

theorem isRemainder_fmod {a b : Int} (hb : b ≠ 0) : IsRemainder a b (Int.fmod a b) := by
  have hnonneg := Int.emod_nonneg a hb
  have hlt : a % b < b.natAbs := Int.emod_lt a hb
  have hdvd : b ∣ a ↔ a % b = 0 := Int.dvd_iff_emod_eq_zero
  have hfmod : Int.fmod a b = a % b + if 0 ≤ b ∨ b ∣ a then 0 else b := Int.fmod_eq_emod
  refine ⟨?_, ?_, ?_⟩
  · rw [← Number.fdiv_eq_floor, Int.mul_comm, Int.mul_fdiv_add_fmod]
  · split_ifs at hfmod <;> omega
  · obtain hneg | hpos := Int.lt_or_gt_of_ne hb
    · rw [Int.sign_eq_neg_one_of_neg hneg, Int.sign_eq_neg_one_iff_neg]
      split_ifs at hfmod <;> omega
    · rw [Int.sign_eq_one_of_pos hpos, Int.sign_eq_one_iff_pos]
      split_ifs at hfmod <;> omega

/-- The remainder of words is the one of the quotient rounded down. -/
theorem intArithmetic_modulo {a b : Int64} (hb : b.toInt ≠ 0)
    (hover : ¬ (a = Int64.minValue ∧ b = -1)) :
    ∃ k : Int64, IsRemainder a.toInt b.toInt k.toInt ∧
      intArithmetic .modulo a b = .ok (.int k) := by
  have hne : b ≠ 0 := fun hzero => hb (hzero ▸ Int64.toInt_zero)
  obtain ⟨k, hk, hsome⟩ := Number.floorMod?_eq hne hover
  refine ⟨k, hk ▸ isRemainder_fmod hb, ?_⟩
  simp only [intArithmetic, beq_zero_eq_false hb, Bool.false_eq_true, if_false, hsome, wordResult]

theorem intArithmetic_power {a b : Int64} (hb : 0 ≤ b.toInt) :
    intArithmetic .power a b = wordResult (Number.power? a b.toInt.toNat) :=
  if_neg (not_lt_zero hb)

/-- The power of words is checked exactly, unless the exponent exceeds 32 bits and nevertheless
leaves the power among the words. -/
theorem intArithmetic_power_eq_word? {a b : Int64} (hb : 0 ≤ b.toInt)
    (h : b.toInt < 2 ^ 32 ∨ 2 ≤ a.toInt.natAbs) :
    intArithmetic .power a b = wordResult (Number.word? (a.toInt ^ b.toInt.toNat)) := by
  rw [intArithmetic_power hb]
  by_cases hsmall : b.toInt < 2 ^ 32
  · rw [Number.power?_eq (by omega)]
  · have ha : 2 ≤ a.toInt.natAbs := h.resolve_left hsmall
    have hpow : ¬ Number.isWord (a.toInt ^ b.toInt.toNat) :=
      Number.not_isWord_pow ha (by omega)
    rw [Number.power?_eq_none (by omega), Number.word?, if_neg hpow]

/-- Remainders and powers of integers, and of truth values as integers, are exact as well, with two
exceptions in which an overflow is reported although the result would fit: the remainder of the
least integer by minus one, and powers of zero, one and minus one whose exponent exceeds 32 bits. -/
theorem remainder_and_power {x y : Value} {a b : Int64} (hx : x.word? = some a)
    (hy : y.word? = some b) :
    (b.toInt ≠ 0 →
      (¬ (a = Int64.minValue ∧ b = -1) → ∃ k : Int64, IsRemainder a.toInt b.toInt k.toInt ∧
        binary h .modulo x y = .ok (.int k, h)) ∧
      (a = Int64.minValue ∧ b = -1 → IsRemainder a.toInt b.toInt 0 ∧
        binary h .modulo x y = .error (.raise .overflowError "integer overflow"))) ∧
    (0 ≤ b.toInt →
      (b.toInt < 2 ^ 32 ∨ 2 ≤ a.toInt.natAbs →
        IsExact h (a.toInt ^ b.toInt.toNat) (binary h .power x y)) ∧
      (2 ^ 32 ≤ b.toInt ∧ a.toInt.natAbs ≤ 1 → (a.toInt ^ b.toInt.toNat).natAbs ≤ 1 ∧
        binary h .power x y = .error (.raise .overflowError "integer overflow"))) := by
  rw [binary_eq_intArithmetic hx hy rfl, binary_eq_intArithmetic hx hy rfl]
  refine ⟨fun hb => ⟨fun hover => ?_, ?_⟩, fun hb => ⟨fun hexact => ?_, ?_⟩⟩
  · obtain ⟨k, hk, hmod⟩ := intArithmetic_modulo hb hover
    exact ⟨k, hk, by rw [hmod]; rfl⟩
  · rintro ⟨rfl, rfl⟩
    exact ⟨isRemainder_fmod hb, rfl⟩
  · rw [intArithmetic_power_eq_word? hb hexact]
    exact isExact_wordResult _
  · rintro ⟨hlarge, hone⟩
    constructor
    · rw [Int.natAbs_pow]
      exact pow_le_one' hone _
    · rw [intArithmetic_power hb, Number.power?_eq_none (by omega)]
      rfl

/-- Seven below zero is two above a multiple of three, and its cube is negative; minus one has no
power whose exponent is out of range. -/
theorem SevenBelowZero.remainder_and_cube :
    (∃ k : Int64, k.toInt = 2 ∧ binary {} .modulo (.int (-7)) (.int 3) = .ok (.int k, {})) ∧
      (∃ k : Int64, k.toInt = -343 ∧ binary {} .power (.int (-7)) (.int 3) = .ok (.int k, {})) ∧
      binary {} .power (.int (-1)) (.int 4294967296) =
        .error (.raise .overflowError "integer overflow") := by
  obtain ⟨hmod, hpow⟩ :=
    remainder_and_power (h := {}) (x := .int (-7)) (y := .int 3) (a := -7) (b := 3) rfl rfl
  obtain ⟨-, hlarge⟩ :=
    remainder_and_power (h := {}) (x := .int (-1)) (y := .int 4294967296) rfl rfl
  obtain ⟨k, hk, hk'⟩ := (hmod (by decide)).1 (by decide)
  have hquotient : ⌊((-7 : Int64).toInt / (3 : Int64).toInt : ℚ)⌋ = -3 := by
    rw [← Number.fdiv_eq_floor]
    decide
  have hdivision := hk.division
  rw [hquotient] at hdivision
  have hseven : (-7 : Int64).toInt = -7 := by decide
  have hthree : (3 : Int64).toInt = 3 := by decide
  exact ⟨⟨k, by omega, hk'⟩, (if_pos (by decide)).mp ((hpow (by decide)).1 (.inl (by decide))),
    ((hlarge (by decide)).2 ⟨by decide, by decide⟩).2⟩

/-- The least integer is a multiple of minus one, and every power of one is one, but the remainder
that is zero and the power that is one are not given. -/
theorem FittingResult.is_missing :
    ¬ (∃ k : Int64, IsRemainder Int64.minValue.toInt (-1) k.toInt ∧
        binary {} .modulo (.int Int64.minValue) (.int (-1)) = .ok (.int k, {})) ∧
      ¬ IsExact {} (1 ^ 4294967296) (binary {} .power (.int 1) (.int 4294967296)) := by
  have hmod : binary {} .modulo (.int Int64.minValue) (.int (-1)) = .error .overflow := rfl
  have hpow : binary {} .power (.int 1) (.int 4294967296) = .error .overflow := by
    rw [binary_eq_intArithmetic rfl rfl rfl, intArithmetic_power (by decide),
      Number.power?_eq_none (by decide)]
    rfl
  rw [hmod, hpow, one_pow]
  constructor
  · rintro ⟨k, -, hk⟩
    cases hk
  · intro hexact
    obtain ⟨k, -, hk⟩ := (if_pos (by decide)).mp hexact
    cases hk

end TaskletMachine
