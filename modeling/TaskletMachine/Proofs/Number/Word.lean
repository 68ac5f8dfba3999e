import Mathlib.Data.Rat.Floor
import Mathlib.Tactic.Linarith
import TaskletMachine.Number.Word

/-!
# Exact operations on words

Shifting and dividing work on 64 bits, where products are cut off and quotients are rounded towards
zero, and powers are found by squaring, which may leave the words before the power does. What they
give is nevertheless the exact number whenever that number is a word, and nothing whenever it is
none. There are two exceptions: one division whose remainder is a word has no remainder, and there
are no exponents beyond 32 bits, whatever the base.

## Main results

* `Number.shiftLeft?_eq`: the product with a power of two, from shifting there and back.
* `Number.shiftRight_toInt`: the quotient by a power of two, rounded down.
* `Number.floorDiv?_eq`, `Number.fdiv_eq_floor`: the quotient rounded down, from the one rounded
  towards zero.
* `Number.floorMod?_eq`: the remainder of that quotient.
* `Number.timesPower?_eq`, `Number.power?_eq`: the power, by squaring.
-/
namespace TaskletMachine.Number

theorem isWord_iff {n : Int} : isWord n ↔ -2 ^ 63 ≤ n ∧ n < 2 ^ 63 := by
  rw [isWord, Int64.toInt_minValue, Int64.toInt_maxValue]
  omega

/-- The checked integer is a word exactly if it is the number of that word. -/
theorem word?_eq_some_iff {n : Int} {k : Int64} : word? n = some k ↔ k.toInt = n := by
  unfold word?
  constructor
  · intro h
    split at h
    · next hn =>
      cases h
      rw [isWord_iff] at hn
      exact Int64.toInt_ofInt_of_le hn.1 hn.2
    · cases h
  · rintro rfl
    rw [if_pos ⟨k.minValue_le_toInt, k.toInt_le⟩, Int64.ofInt_toInt]

@[simp] theorem word?_toInt (k : Int64) : word? k.toInt = some k :=
  word?_eq_some_iff.mpr rfl

theorem word?_eq_none {n : Int} (h : ∀ k : Int64, k.toInt ≠ n) : word? n = none := by
  match hw : word? n with
  | none => rfl
  | some k => exact absurd (word?_eq_some_iff.mp hw) (h k)

/-! ## Shifts -/

/-- Counts below the size of the words shift by themselves. -/
theorem toNat_shiftCount {n : Nat} (hn : n < 64) :
    ((Int64.ofNat n).toBitVec.smod 64).toNat = n := by
  have hcount : (Int64.ofNat n).toBitVec.toInt = n := by
    rw [Int64.toInt_toBitVec, Int64.toInt_ofNat_of_lt (by omega)]
  have hmod : ((Int64.ofNat n).toBitVec.smod 64).toInt = n := by
    rw [BitVec.toInt_smod, hcount]
    have : BitVec.toInt (64 : BitVec 64) = 64 := by decide
    rw [this, Int.fmod_eq_emod_of_nonneg _ (by decide)]
    omega
  rw [BitVec.toInt_eq_toNat_cond] at hmod
  split at hmod <;> omega

theorem toInt_shiftLeft (a : Int64) {n : Nat} (hn : n < 64) :
    (a <<< Int64.ofNat n).toInt = (a.toInt * 2 ^ n).bmod (2 ^ 64) := by
  have h : (a <<< Int64.ofNat n).toInt
      = (a.toBitVec <<< ((Int64.ofNat n).toBitVec.smod 64).toNat).toInt := rfl
  rw [h, toNat_shiftCount hn, BitVec.toInt_shiftLeft, Nat.shiftLeft_eq]
  rw [← Int64.toInt_toBitVec, BitVec.toInt_eq_toNat_bmod]
  simp

theorem toInt_shiftRight (a : Int64) {n : Nat} (hn : n < 64) :
    (a >>> Int64.ofNat n).toInt = a.toInt / 2 ^ n := by
  have h : (a >>> Int64.ofNat n).toInt
      = (BitVec.sshiftRight a.toBitVec ((Int64.ofNat n).toBitVec.smod 64).toNat).toInt := rfl
  rw [h, toNat_shiftCount hn, BitVec.toInt_sshiftRight, Int.shiftRight_eq_div_pow]
  simp

/-- The shifted word is the product modulo the size of the words, so that shifting it back gives the
word again only if nothing was cut off. -/
theorem shiftLeft_shiftRight_iff (a : Int64) {n : Nat} (hn : n < 64) :
    (a <<< Int64.ofNat n) >>> Int64.ofNat n = a ↔
      (a <<< Int64.ofNat n).toInt = a.toInt * 2 ^ n := by
  have hpos : (0 : Int) < 2 ^ n := Int.pow_pos (by decide)
  rw [← Int64.toInt_inj, toInt_shiftRight _ hn]
  constructor
  · intro h
    have hdvd : (2 ^ n : Int) ∣ (a <<< Int64.ofNat n).toInt := by
      have hcut : (2 ^ n : Int) ∣ a.toInt * 2 ^ n - (a.toInt * 2 ^ n).bmod (2 ^ 64) :=
        (pow_dvd_pow 2 (by omega : n ≤ 64)).trans Int.dvd_self_sub_bmod
      rw [toInt_shiftLeft a hn]
      exact (Int.dvd_iff_dvd_of_dvd_sub hcut).mp (Int.dvd_mul_left _ _)
    rw [← h, Int.ediv_mul_cancel hdvd]
  · intro h
    rw [h, Int.mul_ediv_cancel _ hpos.ne']

/-- A word times a power of two is checked exactly. -/
theorem shiftLeft?_eq (a : Int64) (n : Nat) : shiftLeft? a n = word? (a.toInt * 2 ^ n) := by
  unfold shiftLeft?
  by_cases ha : a = 0
  · subst ha
    rw [if_pos (by decide), Int64.toInt_zero, Int.zero_mul]
    exact (word?_eq_some_iff.mpr Int64.toInt_zero).symm
  have hne : a.toInt ≠ 0 := fun h => ha (Int64.toInt_inj.mp h)
  rw [if_neg (by simpa using ha)]
  by_cases hn : 64 ≤ n
  · rw [if_pos hn]
    refine (word?_eq_none fun k hk => ?_).symm
    have hlarge : (2 ^ 64 : Int) ≤ 2 ^ n := pow_le_pow_right₀ (by decide) hn
    have hle := k.toInt_lt
    have hge := k.le_toInt
    obtain hneg | hpos := Int.lt_or_gt_of_ne hne
    · nlinarith
    · nlinarith
  rw [if_neg hn]
  push Not at hn
  by_cases hback : (a <<< Int64.ofNat n) >>> Int64.ofNat n = a
  · rw [if_pos (by simpa using hback)]
    exact (word?_eq_some_iff.mpr ((shiftLeft_shiftRight_iff a hn).mp hback)).symm
  · rw [if_neg (by simpa using hback)]
    refine (word?_eq_none fun k hk => hback ((shiftLeft_shiftRight_iff a hn).mpr ?_)).symm
    rw [toInt_shiftLeft a hn, ← hk]
    exact Int64.toInt_bmod k

/-- A word shifted right is the quotient rounded down, whatever the count. -/
theorem shiftRight_toInt (a : Int64) (n : Nat) : (shiftRight a n).toInt = a.toInt / 2 ^ n := by
  rw [shiftRight, toInt_shiftRight a (by omega)]
  by_cases hn : n ≤ 63
  · rw [min_eq_left hn]
  · -- every word is between the negative and the positive power
    have hlarge : (2 ^ 63 : Int) ≤ 2 ^ n := pow_le_pow_right₀ (by decide) (by omega)
    have hlt := a.toInt_lt
    have hge := a.le_toInt
    rw [min_eq_right (by omega)]
    obtain hneg | hpos := lt_or_ge a.toInt 0
    · rw [Int.ediv_eq_neg_one_of_neg_of_le hneg (by omega),
        Int.ediv_eq_neg_one_of_neg_of_le hneg (by omega)]
    · rw [Int.ediv_eq_zero_of_lt hpos (by omega), Int.ediv_eq_zero_of_lt hpos (by omega)]

/-- Integer division by a power of two rounds down. -/
theorem floor_div_two_pow (a : Int) (n : Nat) : ⌊(a / 2 ^ n : ℚ)⌋ = a / 2 ^ n := by
  have hfloor := Rat.floor_intCast_div_natCast a (2 ^ n)
  push_cast at hfloor
  exact hfloor

/-! ## Division -/

/-- The quotient rounded down is the floor of the rational quotient. -/
theorem fdiv_eq_floor (a b : Int) : Int.fdiv a b = ⌊(a / b : ℚ)⌋ := by
  obtain ⟨n, rfl | rfl⟩ := b.eq_nat_or_neg
  · rw [Int.cast_natCast, Rat.floor_intCast_div_natCast, Int.fdiv_eq_ediv_of_nonneg _ n.cast_nonneg]
  · have hflip : (a / (-(n : Int) : Int) : ℚ) = ((-a : Int) / (n : Nat) : ℚ) := by
      push_cast
      rw [div_neg, neg_div]
    rw [hflip, Rat.floor_intCast_div_natCast, ← Int.fdiv_eq_ediv_of_nonneg _ n.cast_nonneg,
      ← Int.neg_fdiv_neg, Int.neg_neg]

/-- Only a divisor other than one and minus one leaves a remainder, so that the quotient is at most
half of the dividend. -/
theorem natAbs_tdiv_le_half {a b : Int} (hb : b ≠ 0) (hrem : ¬ b ∣ a) :
    2 * (a.tdiv b).natAbs ≤ a.natAbs := by
  have htwo : 2 ≤ b.natAbs := by
    by_contra hlt
    have hone : b.natAbs = 1 := by omega
    exact hrem (Int.natAbs_dvd_natAbs.mp (hone ▸ one_dvd _))
  rw [Int.natAbs_tdiv]
  have hhalf : a.natAbs.div b.natAbs ≤ a.natAbs / 2 := Nat.div_le_div_left htwo (by decide)
  omega

theorem mod_ne_zero_iff (a b : Int64) : a % b ≠ 0 ↔ ¬ b.toInt ∣ a.toInt := by
  rw [Ne, ← Int64.toInt_inj, Int64.toInt_mod, Int64.toInt_zero, Int.dvd_iff_tmod_eq_zero]

/-- There is one division of words whose quotient is no word. -/
theorem toInt_div {a b : Int64} (h : ¬ (a = Int64.minValue ∧ b = -1)) :
    (a / b).toInt = a.toInt.tdiv b.toInt := by
  by_cases ha : a = Int64.minValue
  · exact Int64.toInt_div_of_ne_right a b fun hb => h ⟨ha, hb⟩
  · exact Int64.toInt_div_of_ne_left a b ha

/-- The quotient rounded down, from the one rounded towards zero. -/
theorem fdiv_eq_corrected {a b : Int} (hb : b ≠ 0) :
    Int.fdiv a b = a.tdiv b - if ¬ b ∣ a ∧ ¬ (a < 0 ↔ b < 0) then 1 else 0 := by
  rw [Int.fdiv_eq_ediv, Int.tdiv_eq_ediv]
  obtain hneg | hpos := Int.lt_or_gt_of_ne hb
  · rw [Int.sign_eq_neg_one_of_neg hneg]
    split_ifs <;> omega
  · rw [Int.sign_eq_one_of_pos hpos]
    split_ifs <;> omega

/-- The quotient rounded down is checked exactly. -/
theorem floorDiv?_eq {a b : Int64} (hb : b ≠ 0) :
    floorDiv? a b = word? (Int.fdiv a.toInt b.toInt) := by
  have hbn : b.toInt ≠ 0 := fun h => hb (Int64.toInt_inj.mp h)
  unfold floorDiv?
  by_cases hover : a = Int64.minValue ∧ b = -1
  · obtain ⟨rfl, rfl⟩ := hover
    decide
  rw [if_neg (by simpa using hover)]
  refine (word?_eq_some_iff.mpr ?_).symm
  have hcond : (a % b != 0 && decide (a < 0) != decide (b < 0)) = true ↔
      ¬ b.toInt ∣ a.toInt ∧ ¬ (a.toInt < 0 ↔ b.toInt < 0) := by
    rw [← mod_ne_zero_iff, ← Int64.toInt_zero, ← Int64.lt_iff_toInt_lt, ← Int64.lt_iff_toInt_lt]
    simp
  simp only [hcond, fdiv_eq_corrected hbn]
  split
  · next h =>
    have hhalf := natAbs_tdiv_le_half hbn h.1
    have hlt := a.toInt_lt
    have hge := a.le_toInt
    rw [Int64.toInt_sub, toInt_div hover, Int64.toInt_one]
    exact Int.bmod_eq_of_le (by omega) (by omega)
  · rw [toInt_div hover, Int.sub_zero]

/-- The remainder of the quotient rounded down, from that of the quotient rounded towards zero. -/
theorem fmod_eq_corrected {a b : Int} (hb : b ≠ 0) :
    Int.fmod a b = a.tmod b + if ¬ b ∣ a ∧ ¬ (a < 0 ↔ b < 0) then b else 0 := by
  have hfloored := Int.mul_fdiv_add_fmod a b
  have htruncated := Int.mul_tdiv_add_tmod a b
  rw [fdiv_eq_corrected hb, Int.mul_sub] at hfloored
  split_ifs at hfloored ⊢ with h
  · rw [Int.mul_one] at hfloored
    omega
  · omega

/-- A remainder that is not zero has the sign of the dividend. -/
theorem mod_lt_zero_iff {a b : Int64} (hrem : a % b ≠ 0) : a % b < 0 ↔ a.toInt < 0 := by
  have hne : a.toInt.tmod b.toInt ≠ 0 := by
    rwa [Ne, ← Int64.toInt_inj, Int64.toInt_mod, Int64.toInt_zero] at hrem
  rw [Int64.lt_iff_toInt_lt, Int64.toInt_mod, Int64.toInt_zero]
  by_cases ha : a.toInt < 0
  · have hge := Int.tmod_nonneg b.toInt (neg_pos.mpr ha).le
    rw [Int.neg_tmod] at hge
    omega
  · have hge := Int.tmod_nonneg b.toInt (not_lt.mp ha)
    omega

/-- The remainder rounded down is a word and is found, but for the one division of words whose
quotient is no word. -/
theorem floorMod?_eq {a b : Int64} (hb : b ≠ 0) (h : ¬ (a = Int64.minValue ∧ b = -1)) :
    ∃ k : Int64, k.toInt = Int.fmod a.toInt b.toInt ∧ floorMod? a b = some k := by
  have hbn : b.toInt ≠ 0 := fun hzero => hb (Int64.toInt_inj.mp hzero)
  rw [floorMod?, if_neg (by simpa using h)]
  refine ⟨_, ?_, rfl⟩
  have hcond : (a % b != 0 && decide (a % b < 0) != decide (b < 0)) = true ↔
      ¬ b.toInt ∣ a.toInt ∧ ¬ (a.toInt < 0 ↔ b.toInt < 0) := by
    rw [Bool.and_eq_true, bne_iff_ne, ← mod_ne_zero_iff]
    refine and_congr_right fun hrem => ?_
    rw [bne_iff_ne, Ne, decide_eq_decide, mod_lt_zero_iff hrem, Int64.lt_iff_toInt_lt,
      Int64.toInt_zero]
  simp only [hcond, fmod_eq_corrected hbn]
  split
  · next hfix =>
    have hlt := b.toInt_lt
    have hge := b.le_toInt
    have hlt' := (a % b).toInt_lt
    have hge' := (a % b).le_toInt
    have hrem := (mod_ne_zero_iff a b).mpr hfix.1
    have hsign := mod_lt_zero_iff hrem
    rw [Int64.lt_iff_toInt_lt, Int64.toInt_zero] at hsign
    rw [Int64.toInt_add, ← Int64.toInt_mod]
    -- the summands have different signs
    exact Int.bmod_eq_of_le (by omega) (by omega)
  · rw [Int64.toInt_mod, Int.add_zero]

/-! ## Powers -/

theorem product?_eq_none {a b : Int64} (h : ¬ isWord (a.toInt * b.toInt)) : product? a b = none :=
  if_neg h

theorem product?_eq_some {a b : Int64} (h : isWord (a.toInt * b.toInt)) :
    ∃ k : Int64, k.toInt = a.toInt * b.toInt ∧ product? a b = some k :=
  ⟨_, word?_eq_some_iff.mp (if_pos h), if_pos h⟩

/-- A multiple of a number that is no word is no word. -/
theorem not_isWord_mul {n m : Int} (hn : ¬ isWord n) (hm : 0 < m) : ¬ isWord (n * m) := by
  rw [isWord_iff] at *
  intro ⟨hge, hlt⟩
  apply hn
  constructor
  · by_contra hlow
    nlinarith
  · by_contra hhigh
    nlinarith

/-- A square that is no word exceeds the words by more than one, as the first number after them is
no square. -/
theorem lt_sq_of_not_isWord {n : Int} (h : ¬ isWord (n * n)) : 2 ^ 63 < n * n := by
  have hpos : 0 ≤ n * n := mul_self_nonneg n
  have hge : 2 ^ 63 ≤ n * n := by
    rw [isWord_iff] at h
    omega
  have hroot : n * n = n.natAbs * n.natAbs := (Int.natAbs_mul_self' n).symm
  by_cases hsmall : n.natAbs ≤ 3037000499
  · have : (n.natAbs * n.natAbs : Int) ≤ 3037000499 * 3037000499 := by
      gcongr <;> exact_mod_cast hsmall
    omega
  · have : (3037000500 * 3037000500 : Int) ≤ n.natAbs * n.natAbs := by
      gcongr <;> omega
    omega

/-- Nothing brings a square back that has left the words. -/
theorem not_isWord_mul_pow {acc n : Int} (hacc : acc ≠ 0) (h : ¬ isWord (n * n)) {m : Nat}
    (hm : m ≠ 0) : ¬ isWord (acc * (n * n) ^ m) := by
  have hlarge : 2 ^ 63 < n * n := lt_sq_of_not_isWord h
  have hpow : 2 ^ 63 < (n * n) ^ m :=
    hlarge.trans_le (le_self_pow₀ (by omega) hm)
  rw [isWord_iff]
  intro ⟨hge, hlt⟩
  obtain hneg | hpos := Int.lt_or_gt_of_ne hacc
  · nlinarith
  · nlinarith

/-- An odd power takes one factor out, and what remains is a power of the square. -/
theorem mul_pow_of_odd (acc base : Int) {n : Nat} (hodd : n % 2 = 1) :
    acc * base ^ n = acc * base * (base * base) ^ (n / 2) := by
  rw [Int.mul_assoc, ← pow_two, ← pow_mul, ← pow_succ']
  congr 2
  omega

theorem mul_pow_of_even (acc base : Int) {n : Nat} (heven : n % 2 ≠ 1) :
    acc * base ^ n = acc * (base * base) ^ (n / 2) := by
  rw [← pow_two, ← pow_mul]
  congr 2
  omega

/-- Squaring computes the power exactly: an intermediate result is no word only if the power is no
word. The factor is zero only along with the base, or else a large square would tell nothing. -/
theorem timesPower?_eq (acc base : Int64) (n : Nat) (h : acc.toInt = 0 → base.toInt = 0) :
    timesPower? acc base n = word? (acc.toInt * base.toInt ^ n) := by
  induction n using Nat.strong_induction_on generalizing acc base with
  | _ n ih =>
    by_cases hzero : n = 0
    · rw [timesPower?, if_pos hzero, hzero, pow_zero, Int.mul_one, word?_toInt]
    -- what remains to be done once the last bit of the exponent has been taken off
    have hrest : ∀ acc' : Int64, (acc'.toInt = 0 → base.toInt = 0) →
        (if n = 1 then some acc' else
          (product? base base).bind fun square => timesPower? acc' square (n / 2)) =
          word? (acc'.toInt * (base.toInt * base.toInt) ^ (n / 2)) := by
      intro acc' h'
      by_cases hone : n = 1
      · simp [hone]
      rw [if_neg hone]
      by_cases hsquare : isWord (base.toInt * base.toInt)
      · obtain ⟨square, hk, hsome⟩ := product?_eq_some hsquare
        rw [hsome, ← hk]
        refine ih _ (by omega) acc' square fun hacc => ?_
        rw [hk, h' hacc, Int.mul_zero]
      · have hacc : acc'.toInt ≠ 0 := fun hacc => hsquare (by rw [h' hacc]; decide)
        rw [product?_eq_none hsquare]
        exact (if_neg (not_isWord_mul_pow hacc hsquare (by omega))).symm
    by_cases hodd : n % 2 = 1
    · rw [timesPower?, if_neg hzero, if_pos hodd, mul_pow_of_odd _ _ hodd]
      by_cases hprod : isWord (acc.toInt * base.toInt)
      · obtain ⟨acc', hk, hsome⟩ := product?_eq_some hprod
        rw [hsome, ← hk]
        refine hrest acc' fun hacc => ?_
        rw [hk] at hacc
        exact (mul_eq_zero.mp hacc).elim h id
      · have hbase : base.toInt ≠ 0 := fun hbase => hprod (by rw [hbase, Int.mul_zero]; decide)
        rw [product?_eq_none hprod]
        exact (if_neg (not_isWord_mul hprod (pow_pos (mul_self_pos.mpr hbase) _))).symm
    · rw [timesPower?, if_neg hzero, if_neg hodd, mul_pow_of_even _ _ hodd]
      exact hrest acc h

/-- The power is checked exactly, and there are no exponents beyond 32 bits. -/
theorem power?_eq {a : Int64} {n : Nat} (hn : n < 2 ^ 32) : power? a n = word? (a.toInt ^ n) := by
  have hexponent : ¬ Nat.pow 2 32 ≤ n := Nat.not_le.mpr hn
  have hone : (1 : Int64).toInt = 0 → a.toInt = 0 := fun hone => absurd hone (by decide)
  rw [power?, if_neg hexponent, timesPower?_eq 1 a n hone, Int64.toInt_one, Int.one_mul]

theorem power?_eq_none {a : Int64} {n : Nat} (hn : 2 ^ 32 ≤ n) : power? a n = none :=
  if_pos hn

/-- Of the powers that far up only those of zero, one and minus one are words. -/
theorem not_isWord_pow {a : Int} {n : Nat} (ha : 2 ≤ a.natAbs) (hn : 64 ≤ n) :
    ¬ isWord (a ^ n) := by
  have hlarge : 2 ^ 64 ≤ (a ^ n).natAbs :=
    calc 2 ^ 64 ≤ 2 ^ n := Nat.pow_le_pow_right (by decide) hn
      _ ≤ a.natAbs ^ n := Nat.pow_le_pow_left ha n
      _ = (a ^ n).natAbs := (Int.natAbs_pow a n).symm
  rw [isWord_iff]
  omega

end TaskletMachine.Number
