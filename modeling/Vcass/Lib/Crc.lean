import Mathlib.Data.List.Basic
import Mathlib.Logic.Function.Iterate

/-!
# Cyclic redundancy checks

The register of a check is shifted by one bit in a round, and the polynomial is added when the bit that drops
out differs from the next bit of the input. A word of the width of the register can be added before its rounds
instead of bit by bit, and then the rounds are an injective map of the register if the polynomial has its lowest
bit set.

So two registers that differ, or two words that differ, never meet again: `sum_ne` says that an input with one
word changed has another sum.
-/

namespace Crc

variable {w : ℕ} (poly : BitVec w)

/-- The polynomial, if a bit is set. -/
def mask (b : Bool) : BitVec w := if b then poly else 0

/-- A round without input. -/
def shift (reg : BitVec w) : BitVec w := reg <<< 1 ^^^ mask poly reg.msb

/-- A round with a bit of the word `word`. -/
def round (word : BitVec w) (reg : BitVec w) (i : ℕ) : BitVec w :=
  reg <<< 1 ^^^ mask poly (reg ^^^ word <<< i).msb

/-- All rounds with a word, beginning with its highest bit. -/
def addWord (reg word : BitVec w) : BitVec w := (List.range w).foldl (round poly word) reg

def sum (reg : BitVec w) (words : List (BitVec w)) : BitVec w := words.foldl (addWord poly) reg

variable {poly} {reg reg' word word' : BitVec w} {words words' : List (BitVec w)}

/-- The polynomial is added if its lowest bit shows up. -/
theorem getLsbD_shift_zero (hpoly : poly.getLsbD 0 = true) (x : BitVec w) :
    (shift poly x).getLsbD 0 = x.msb := by
  rw [shift, BitVec.getLsbD_xor, BitVec.getLsbD_shiftLeft]
  cases hmsb : x.msb with
  | false => simp [mask]
  | true => simp [mask, hpoly]

/-- The bits below the highest are found one place higher. -/
theorem eq_of_shiftLeft_eq {x y : BitVec w} (hmsb : x.msb = y.msb) (h : x <<< 1 = y <<< 1) : x = y := by
  apply BitVec.eq_of_getLsbD_eq
  intro i hi
  by_cases hlast : i + 1 < w
  · have hbit : (x <<< 1).getLsbD (i + 1) = (y <<< 1).getLsbD (i + 1) := by rw [h]
    simpa only [BitVec.getLsbD_shiftLeft, hlast, decide_true, Bool.true_and, Nat.add_sub_cancel,
      Nat.not_lt_of_le (Nat.le_add_left 1 i), decide_false, Bool.not_false] using hbit
  · have hlast : i = w - 1 := by omega
    rw [BitVec.msb_eq_getLsbD_last, BitVec.msb_eq_getLsbD_last] at hmsb
    rw [hlast]
    exact hmsb

theorem shift_injective (hpoly : poly.getLsbD 0 = true) : Function.Injective (shift poly) := by
  intro x y h
  have hmsb : x.msb = y.msb := by
    rw [← getLsbD_shift_zero hpoly x, ← getLsbD_shift_zero hpoly y, h]
  refine eq_of_shiftLeft_eq hmsb ?_
  rw [shift, shift, hmsb] at h
  exact (BitVec.xor_left_inj _).mp h

/-- The word may be added in advance: what is left of it is added to the register at each round. -/
theorem foldl_round (n : ℕ) (reg word : BitVec w) :
    (List.range n).foldl (round poly word) reg ^^^ word <<< n = (shift poly)^[n] (reg ^^^ word) := by
  induction n with
  | zero => simp
  | succ n ih =>
    rw [List.range_succ, List.foldl_append, List.foldl_cons, List.foldl_nil, Function.iterate_succ_apply', ← ih,
      round, shift, BitVec.shiftLeft_xor_distrib, ← BitVec.shiftLeft_add, BitVec.xor_assoc, BitVec.xor_assoc]
    rw [BitVec.xor_comm (mask _ _)]

theorem addWord_eq (reg word : BitVec w) : addWord poly reg word = (shift poly)^[w] (reg ^^^ word) := by
  have h : _ = (shift poly)^[w] (reg ^^^ word) := foldl_round w reg word
  rw [BitVec.shiftLeft_eq_zero (Nat.le_refl w), BitVec.xor_zero] at h
  exact h

theorem addWord_inj (hpoly : poly.getLsbD 0 = true) :
    addWord poly reg word = addWord poly reg' word' ↔ reg ^^^ word = reg' ^^^ word' := by
  rw [addWord_eq, addWord_eq]
  exact ((shift_injective hpoly).iterate w).eq_iff

/-- Registers that differ go on to differ. -/
theorem sum_ne_of_ne (hpoly : poly.getLsbD 0 = true) (h : reg ≠ reg') :
    sum poly reg words ≠ sum poly reg' words := by
  induction words generalizing reg reg' with
  | nil => exact h
  | cons word words ih =>
    apply ih
    intro heq
    exact h ((BitVec.xor_left_inj _).mp ((addWord_inj hpoly).mp heq))

/-- **One word that is changed changes the sum.** -/
theorem sum_ne (hpoly : poly.getLsbD 0 = true) (h : word ≠ word') :
    sum poly reg (words ++ word :: words') ≠ sum poly reg (words ++ word' :: words') := by
  rw [sum, sum, List.foldl_append, List.foldl_append, List.foldl_cons, List.foldl_cons]
  apply sum_ne_of_ne hpoly
  intro heq
  exact h ((BitVec.xor_right_inj _).mp ((addWord_inj hpoly).mp heq))

end Crc
