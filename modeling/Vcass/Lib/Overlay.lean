import Mathlib.Data.List.Basic

/-!
# Reading and overwriting ranges of a memory

A memory is a function from addresses to cells. `slice m off n` is the list of the `n` cells from
`off` on, and `overlay m off bs` is the memory with the cells from `off` on replaced by `bs`.
-/

namespace Overlay

variable {β : Type*}

/-- The `n` cells of `m` from `off` on. -/
def slice (m : ℕ → β) (off n : ℕ) : List β := (List.range n).map fun i ↦ m (off + i)

/-- `m` with the cells from `off` on replaced by `bs`. -/
def overlay (m : ℕ → β) (off : ℕ) (bs : List β) : ℕ → β := fun a ↦
  (if off ≤ a then bs[a - off]? else none).getD (m a)

@[simp] theorem length_slice (m : ℕ → β) (off n : ℕ) : (slice m off n).length = n := by
  simp [slice]

theorem overlay_add (m : ℕ → β) (off i : ℕ) (bs : List β) :
    overlay m off bs (off + i) = bs[i]?.getD (m (off + i)) := by
  rw [overlay, if_pos (Nat.le_add_right off i), Nat.add_sub_cancel_left]

theorem overlay_of_lt {m : ℕ → β} {off a : ℕ} {bs : List β} (h : a < off) : overlay m off bs a = m a := by
  rw [overlay, if_neg (by omega), Option.getD_none]

theorem overlay_of_ge {m : ℕ → β} {off a : ℕ} {bs : List β} (h : off + bs.length ≤ a) :
    overlay m off bs a = m a := by
  rw [overlay, List.getElem?_eq_none (by omega), ite_self, Option.getD_none]

theorem overlay_slice {m m' : ℕ → β} {off src n i : ℕ} (h : i < n) :
    overlay m off (slice m' src n) (off + i) = m' (src + i) := by
  rw [overlay_add]
  simp [slice, h]

end Overlay
