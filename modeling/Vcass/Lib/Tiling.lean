import Mathlib.Logic.Function.Basic
import Mathlib.Order.Nat

/-!
# Tables tiled by blocks

A table of `n` slots in which some runs of slots form *blocks*. The tiling is given by a function
`len`: a block of `len h` slots starts at `h`, and `len h = 0` says that none does. A slot is *inside*
a block when it belongs to the block without being its first slot.

A walk over the table goes from slot to slot, and over a block in one stride. It never lands inside a
block (`not_inside_succ`, `Tiled.not_inside_add`), so every slot it sees is the first one of a block or
a free one.
-/

namespace Tiling

open Function (update)

/-- The slot `i` belongs to a block that starts before it. -/
def Inside (len : ℕ → ℕ) (i : ℕ) : Prop := ∃ h < i, i < h + len h

/-- The slot `i` belongs to no block. -/
def Free (len : ℕ → ℕ) (i : ℕ) : Prop := len i = 0 ∧ ¬ Inside len i

/-- The blocks lie in the table and do not overlap. -/
structure Tiled (n : ℕ) (len : ℕ → ℕ) : Prop where
  fits : ∀ h, 0 < len h → h + len h ≤ n
  apart : ∀ i, Inside len i → len i = 0

variable {n : ℕ} {len : ℕ → ℕ} {h h' i k m : ℕ}

theorem Tiled.empty (n : ℕ) : Tiled n fun _ ↦ 0 where
  fits _ hpos := absurd hpos (lt_irrefl 0)
  apart _ _ := rfl

theorem not_inside_zero : ¬ Inside len 0 := by
  rintro ⟨h, hlt, -⟩
  omega

theorem not_inside_succ (hi : ¬ Inside len i) (hlen : len i = 0) : ¬ Inside len (i + 1) := by
  rintro ⟨h, hlt, hin⟩
  rcases Nat.lt_succ_iff_lt_or_eq.mp hlt with hlt | rfl
  · exact hi ⟨h, hlt, by omega⟩
  · omega

theorem Tiled.not_inside_add (ht : Tiled n len) (hi : ¬ Inside len i) : ¬ Inside len (i + len i) := by
  rintro ⟨h, hlt, hin⟩
  rcases lt_trichotomy h i with hhi | rfl | hhi
  · exact hi ⟨h, hhi, by omega⟩
  · omega
  · have := ht.apart h ⟨i, hhi, hlt⟩
    omega

theorem Tiled.eq_of_mem (ht : Tiled n len) (hh : h ≤ i) (hi : i < h + len h) (hh' : h' ≤ i)
    (hi' : i < h' + len h') : h = h' := by
  rcases lt_trichotomy h h' with hlt | heq | hlt
  · have := ht.apart h' ⟨h, hlt, by omega⟩
    omega
  · exact heq
  · have := ht.apart h ⟨h', hlt, by omega⟩
    omega

theorem Free.not_mem (hf : Free len i) : ¬ (h ≤ i ∧ i < h + len h) := by
  rintro ⟨hle, hlt⟩
  rcases Nat.lt_or_eq_of_le hle with hhi | rfl
  · exact hf.2 ⟨h, hhi, hlt⟩
  · have := hf.1
    omega

/-- **A new block** on a free run of slots. -/
theorem Tiled.insert (ht : Tiled n len) (hm : m + k ≤ n)
    (hfree : ∀ i, m ≤ i → i < m + k → Free len i) : Tiled n (update len m k) where
  fits h hpos := by
    by_cases hhm : h = m
    · subst hhm
      simpa using hm
    · rw [Function.update_of_ne hhm] at hpos ⊢
      exact ht.fits h hpos
  apart i := by
    rintro ⟨h, hlt, hin⟩
    by_cases hhm : h = m
    · subst hhm
      rw [Function.update_self] at hin
      rw [Function.update_of_ne hlt.ne']
      exact (hfree i hlt.le hin).1
    · rw [Function.update_of_ne hhm] at hin
      by_cases him : i = m
      · subst him
        rw [Function.update_self]
        by_contra hk
        exact (hfree i le_rfl (by omega)).2 ⟨h, hlt, hin⟩
      · rw [Function.update_of_ne him]
        exact ht.apart i ⟨h, hlt, hin⟩

theorem Tiled.erase (ht : Tiled n len) : Tiled n (update len m 0) where
  fits h hpos := by
    by_cases hhm : h = m
    · subst hhm
      simp at hpos
    · rw [Function.update_of_ne hhm] at hpos ⊢
      exact ht.fits h hpos
  apart i := by
    rintro ⟨h, hlt, hin⟩
    by_cases him : i = m
    · rw [him, Function.update_self]
    · rw [Function.update_of_ne him]
      by_cases hhm : h = m
      · subst hhm
        rw [Function.update_self] at hin
        omega
      · rw [Function.update_of_ne hhm] at hin
        exact ht.apart i ⟨h, hlt, hin⟩

end Tiling
