import Mathlib.Algebra.Order.Ring.Nat

/-!
# Masks and shifts as arithmetic

Code reads and writes fields of machine words with shifts and masks. On the numbers that the words stand for these are
quotients and remainders by powers of two, and a flag is a bit. The lemmas below are about `ℕ`, to which the
operations of the fixed-width types are taken by their `toNat` lemmas.
-/

namespace Bits

/-- A mask of `m` ones above `k` zeros. -/
theorem and_two_pow_mul (a k m : ℕ) : a &&& 2 ^ k * (2 ^ m - 1) = 2 ^ k * (a / 2 ^ k % 2 ^ m) := by
  apply Nat.eq_of_testBit_eq
  intro i
  rw [Nat.testBit_and, Nat.testBit_two_pow_mul, Nat.testBit_two_pow_mul, Nat.testBit_two_pow_sub_one,
    Nat.testBit_mod_two_pow, ← Nat.shiftRight_eq_div_pow, Nat.testBit_shiftRight]
  by_cases hk : k ≤ i
  · simp only [hk, decide_true, Bool.true_and, Nat.add_sub_cancel' hk]
    exact Bool.and_comm _ _
  · simp only [hk, decide_false, Bool.false_and, Bool.and_false]

theorem and_two_pow_ne_zero_iff (a i : ℕ) : a &&& 2 ^ i ≠ 0 ↔ a.testBit i := by
  have hpos : 0 < 2 ^ i := Nat.two_pow_pos i
  rw [← Nat.mul_one (2 ^ i)]
  change a &&& 2 ^ i * (2 ^ 1 - 1) ≠ 0 ↔ _
  rw [and_two_pow_mul, Nat.testBit_eq_decide_div_mod_eq, decide_eq_true_eq, ne_eq, Nat.mul_eq_zero]
  omega

theorem testBit_ite (c : Prop) [Decidable c] (i j : ℕ) :
    (if c then 2 ^ i else 0).testBit j = decide (c ∧ i = j) := by
  split_ifs with hc
  · rw [Nat.testBit_two_pow]
    simp only [hc, true_and]
  · rw [Nat.zero_testBit]
    simp only [hc, false_and, decide_false]

/-! ## Alignment -/

/-- `x` rounded up to a multiple of `a`, with the mask of the low bits. -/
def alignUp (x k : ℕ) : ℕ := 2 ^ k * ((x + (2 ^ k - 1)) / 2 ^ k)

/-- `x` rounded down. -/
def alignDown (x k : ℕ) : ℕ := 2 ^ k * (x / 2 ^ k)

theorem alignDown_le (x k : ℕ) : alignDown x k ≤ x := Nat.mul_div_le x _

theorem lt_alignDown_add (x k : ℕ) : x < alignDown x k + 2 ^ k := by
  have hpos : 0 < 2 ^ k := Nat.two_pow_pos k
  have hdiv := Nat.div_add_mod x (2 ^ k)
  have hmod := Nat.mod_lt x hpos
  rw [alignDown]
  omega

theorem alignUp_eq_alignDown (x k : ℕ) : alignUp x k = alignDown (x + (2 ^ k - 1)) k := rfl

theorem le_alignUp (x k : ℕ) : x ≤ alignUp x k := by
  have hpos : 0 < 2 ^ k := Nat.two_pow_pos k
  have hlt := lt_alignDown_add (x + (2 ^ k - 1)) k
  rw [alignUp_eq_alignDown]
  omega

theorem alignUp_lt_add (x k : ℕ) : alignUp x k < x + 2 ^ k := by
  have hpos : 0 < 2 ^ k := Nat.two_pow_pos k
  have hle := alignDown_le (x + (2 ^ k - 1)) k
  rw [alignUp_eq_alignDown]
  omega

theorem alignDown_mod (x k : ℕ) : alignDown x k % 2 ^ k = 0 := Nat.mul_mod_right ..

theorem alignUp_mod (x k : ℕ) : alignUp x k % 2 ^ k = 0 := Nat.mul_mod_right ..

/-- Masking the low `k` bits of a word of `w` bits rounds down. -/
theorem and_high_eq_alignDown {x k w : ℕ} (hk : k ≤ w) (hx : x < 2 ^ w) :
    x &&& 2 ^ k * (2 ^ (w - k) - 1) = alignDown x k := by
  have hdiv : x / 2 ^ k < 2 ^ (w - k) := by
    rw [Nat.div_lt_iff_lt_mul (Nat.two_pow_pos k), ← Nat.pow_add, Nat.sub_add_cancel hk]
    exact hx
  rw [and_two_pow_mul, Nat.mod_eq_of_lt hdiv, alignDown]

end Bits
