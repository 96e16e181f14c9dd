import Vcass.Lib.RingCounter

/-!
# VOP: counters of the kvec rings

The two machines of a VOP link exchange receive buffers through rings in shared memory. A ring may
have any number of entries, so its counters are kept modulo twice that number with `%`, in 16-bit
variables. The rings have at most `VCA_VRING_ENTRIES` entries, which `vop_copy_dp_entry` checks; all
that matters here is that twice the size still fits 16 bits, so that storing a counter changes
nothing. Then the macros compute on the residues of `RingCounter`.
-/

namespace Vcass.Vop

open RingCounter

/-- Storing into a 16-bit variable. -/
def u16 (n : ℕ) : ℕ := n % 2 ^ 16

/-! ## Macros -/

def kvecCounterEq (cnt1 cnt2 size : ℕ) : Bool := cnt1 % (2 * size) == cnt2 % (2 * size)

def kvecCounterAdd (cnt val size : ℕ) : ℕ := (cnt + val) % (2 * size)

def kvecCounterToIdx (cnt size : ℕ) : ℕ := cnt % size

def kvecCounterUsed (lastCnt cnt size : ℕ) : ℕ :=
  if lastCnt ≤ cnt then cnt - lastCnt else cnt + size * 2 - lastCnt

/-! ## What they compute -/

section Counters

variable {num a b v : ℕ}

theorem count_lt (hnum : 0 < num) : count num a < 2 * num := Nat.mod_lt _ (by omega)

/-- Twice the ring size fits, so the counter is stored as it is. -/
theorem u16_counterAdd (hsize : 2 * num ≤ 2 ^ 16) (hnum : 0 < num) :
    u16 (kvecCounterAdd (count num a) v num) = count num (a + v) := by
  have hlt : count num (a + v) < 2 * num := count_lt hnum
  rw [kvecCounterAdd, count_add, u16, Nat.mod_eq_of_lt (by omega)]

theorem u16_counterToIdx (hsize : 2 * num ≤ 2 ^ 16) (hnum : 0 < num) :
    u16 (kvecCounterToIdx (count num a) num) = slot num a := by
  have hlt := slot_lt hnum a
  have hidx : kvecCounterToIdx (count num a) num = slot num a := slot_count num a
  rw [hidx, u16, Nat.mod_eq_of_lt (by omega)]

/-- The distance of two counters is the distance of the positions behind them. -/
theorem counterUsed_count (hnum : 0 < num) (hab : a ≤ b) (hle : b ≤ a + num) :
    kvecCounterUsed (count num a) (count num b) num = b - a := by
  have ha := Nat.div_add_mod a (2 * num)
  have hb := Nat.div_add_mod b (2 * num)
  have halt : a % (2 * num) < 2 * num := Nat.mod_lt _ (by omega)
  have hblt : b % (2 * num) < 2 * num := Nat.mod_lt _ (by omega)
  have hq : a / (2 * num) ≤ b / (2 * num) := Nat.div_le_div_right hab
  rw [kvecCounterUsed, count, count]
  rcases Nat.lt_or_eq_of_le hq with hlt | heq
  · -- Exactly one multiple of twice the size lies between the two.
    have hnext : b / (2 * num) = a / (2 * num) + 1 := by
      by_contra hne
      have hmul : 2 * num * (a / (2 * num) + 2) ≤ 2 * num * (b / (2 * num)) :=
        Nat.mul_le_mul_left _ (by omega)
      rw [Nat.mul_add] at hmul
      omega
    rw [hnext, Nat.mul_add, Nat.mul_one] at hb
    rw [if_neg (by omega)]
    omega
  · rw [heq] at ha
    rw [if_pos (by omega)]
    omega

end Counters

end Vcass.Vop
