import Mathlib.Data.Nat.Digits.Lemmas
import Vcass.Lib.Overlay

/-!
# Words in a memory of bytes

A word is read with its lowest byte first. Words that are next to each other are one longer word; this is
how the value is computed that a read of the wrong width gets.
-/

namespace Overlay

variable {β : Type*} {m : ℕ → β} {off n : ℕ} {bs : List β}

/-! ## Ranges -/

theorem slice_add (m : ℕ → β) (off a b : ℕ) : slice m off (a + b) = slice m off a ++ slice m (off + a) b := by
  simp [slice, List.range_add, Nat.add_assoc]

theorem slice_overlay_self (m : ℕ → β) (off : ℕ) (bs : List β) : slice (overlay m off bs) off bs.length = bs := by
  apply List.ext_getElem (length_slice ..)
  intro i hi hi'
  simp only [slice, List.getElem_map, List.getElem_range, overlay_add, List.getElem?_eq_getElem hi',
    Option.getD_some]

theorem slice_overlay_of_disjoint {off' : ℕ} (h : off' + n ≤ off ∨ off + bs.length ≤ off') :
    slice (overlay m off bs) off' n = slice m off' n := by
  apply List.map_congr_left
  intro i hi
  rw [List.mem_range] at hi
  rcases h with h | h
  · exact overlay_of_lt (by omega)
  · exact overlay_of_ge (by omega)

/-! ## Words -/

/-- The word of `n` bytes at `off`. -/
def word (m : ℕ → UInt8) (off n : ℕ) : ℕ := Nat.ofDigits 256 ((slice m off n).map UInt8.toNat)

/-- The `n` lowest bytes of a number. -/
def bytes (n x : ℕ) : List UInt8 := (List.range n).map fun i ↦ UInt8.ofNat (x / 256 ^ i)

@[simp] theorem length_bytes (n x : ℕ) : (bytes n x).length = n := by simp [bytes]

theorem bytes_succ (n x : ℕ) : bytes (n + 1) x = UInt8.ofNat x :: bytes n (x / 256) := by
  simp [bytes, List.range_succ_eq_map, Nat.div_div_eq_div_mul, Nat.pow_succ, Nat.mul_comm]

theorem word_add (m : ℕ → UInt8) (off a b : ℕ) :
    word m off (a + b) = word m off a + 256 ^ a * word m (off + a) b := by
  rw [word, slice_add, List.map_append, Nat.ofDigits_append, List.length_map, length_slice, word, word]

theorem word_lt (m : ℕ → UInt8) (off n : ℕ) : word m off n < 256 ^ n := by
  have hlt := Nat.ofDigits_lt_base_pow_length (b := 256) (l := (slice m off n).map UInt8.toNat) (by decide) ?_
  · rwa [List.length_map, length_slice] at hlt
  · intro d hd
    obtain ⟨b, -, rfl⟩ := List.mem_map.mp hd
    exact b.toNat_lt

theorem ofDigits_bytes (n x : ℕ) : Nat.ofDigits 256 ((bytes n x).map UInt8.toNat) = x % 256 ^ n := by
  induction n generalizing x with
  | zero => simp [bytes, Nat.mod_one]
  | succ n ih =>
    rw [bytes_succ, List.map_cons, Nat.ofDigits_cons, ih, Nat.pow_succ', Nat.mod_mul]
    simp

theorem word_overlay_self (m : ℕ → UInt8) (off n x : ℕ) : word (overlay m off (bytes n x)) off n = x % 256 ^ n := by
  have hslice := slice_overlay_self m off (bytes n x)
  rw [length_bytes] at hslice
  rw [word, hslice, ofDigits_bytes]

theorem word_overlay_of_disjoint {m : ℕ → UInt8} {bs : List UInt8} {off' : ℕ}
    (h : off' + n ≤ off ∨ off + bs.length ≤ off') : word (overlay m off bs) off' n = word m off' n := by
  rw [word, slice_overlay_of_disjoint h, word]

end Overlay
