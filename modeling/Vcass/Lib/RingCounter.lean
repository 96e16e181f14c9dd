import Mathlib.Data.Nat.ModEq

/-!
# Counters of a ring buffer, modulo twice its size

A ring of `n` slots is driven by two counters kept modulo `2 * n`, one for the producer and one for
the consumer. The extra bit separates the full ring from the empty one. Behind them are two
*positions*, the numbers of elements ever produced and consumed, which are never reduced; the
counters of the code are their residues. The lemmas below say that as long as the positions are at
most `n` apart the residues decide emptiness and fullness exactly, and that the occupied positions
use distinct slots.
-/

namespace RingCounter

variable {n a b : ℕ}

/-- The counter kept for position `a` of a ring of `n` slots. -/
def count (n a : ℕ) : ℕ := a % (2 * n)

/-- The slot a counter or a position designates. -/
def slot (n c : ℕ) : ℕ := c % n

@[simp] theorem slot_count (n a : ℕ) : slot n (count n a) = slot n a := by
  rw [slot, slot, count, Nat.mod_mod_of_dvd a (Dvd.intro_left 2 rfl)]

theorem count_add (n a k : ℕ) : (count n a + k) % (2 * n) = count n (a + k) := by
  rw [count, count, Nat.mod_add_mod]

theorem slot_lt (hn : 0 < n) (c : ℕ) : slot n c < n := Nat.mod_lt _ hn

/-- Positions in a window of length `n` are determined by their slots. -/
theorem eq_of_slot_eq (hab : a ≤ b) (hlt : b < a + n) (h : slot n a = slot n b) : a = b := by
  rw [slot, slot] at h
  have hdvd : n ∣ b - a := (Nat.modEq_iff_dvd' hab).mp h
  have hzero : b - a = 0 := Nat.eq_zero_of_dvd_of_lt hdvd (by omega)
  omega

theorem slot_ne (hab : a < b) (hlt : b < a + n) : slot n a ≠ slot n b := fun h ↦ by
  have := eq_of_slot_eq hab.le hlt h
  omega

theorem exists_slot_eq (hn : 0 < n) (a : ℕ) {i : ℕ} (hi : i < n) : ∃ p, a ≤ p ∧ p < a + n ∧ slot n p = i := by
  have hdiv := Nat.div_add_mod a n
  have hmod := Nat.mod_lt a hn
  set t := a / n
  have hslot : ∀ u, slot n (i + n * u) = i := by
    intro u
    rw [slot, Nat.add_mul_mod_self_left, Nat.mod_eq_of_lt hi]
  rcases Nat.lt_or_ge i (a % n) with hlt | hge
  · refine ⟨i + n * (t + 1), ?_, ?_, hslot _⟩ <;> rw [Nat.mul_add] <;> omega
  · exact ⟨i + n * t, by omega, by omega, hslot _⟩

/-- Positions at most `n` apart are determined by their counters: the ring is empty exactly when
the counters agree. -/
theorem count_eq_count (hn : 0 < n) (hab : a ≤ b) (hle : b ≤ a + n) :
    count n a = count n b ↔ a = b := by
  refine ⟨fun h ↦ ?_, fun h ↦ by rw [h]⟩
  rw [count, count] at h
  have hdvd : 2 * n ∣ b - a := (Nat.modEq_iff_dvd' hab).mp h
  have hzero : b - a = 0 := Nat.eq_zero_of_dvd_of_lt hdvd (by omega)
  omega

/-- Equal slots under different counters mean that the ring is exactly full. -/
theorem full_iff (hn : 0 < n) (hab : a ≤ b) (hle : b ≤ a + n) :
    (count n b ≠ count n a ∧ slot n (count n b) = slot n (count n a)) ↔ b = a + n := by
  rw [slot_count, slot_count]
  constructor
  · rintro ⟨hne, hslot⟩
    by_contra hfull
    exact hne (by rw [eq_of_slot_eq hab (by omega) hslot.symm])
  · rintro rfl
    refine ⟨fun h ↦ ?_, by simp [slot]⟩
    have := (count_eq_count hn (Nat.le_add_right a n) le_rfl).mp h.symm
    omega

end RingCounter
