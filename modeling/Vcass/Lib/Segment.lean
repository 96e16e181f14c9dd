import Mathlib.Data.List.Nodup
import Mathlib.Logic.Function.Basic

/-!
# Linked segments

Cells that are linked by a function `next` from each cell to the one behind it. A *segment* is the list of cells
that one walks over from one cell to another: `Segment next i l j` says that `l` are the cells from `i` on, and
that `j` is the one behind them. Where the last link points to does not matter, so that a list whose end is not
marked is a segment as well.

Only the links of its own cells matter to a segment. So a write to another cell leaves it alone, and a write to
its last cell makes it lead elsewhere, which is how two lists become one.
-/

variable {ι : Type*}

/-- The cells `l` are linked from `i` on, and lead to `j`. -/
def Segment (next : ι → ι) : ι → List ι → ι → Prop
  | i, [], j => i = j
  | i, a :: l, j => i = a ∧ Segment next (next a) l j

namespace Segment

variable {next next' : ι → ι} {i j k a : ι} {l m : List ι}

@[simp] theorem nil_iff : Segment next i [] j ↔ i = j := Iff.rfl

@[simp] theorem cons_iff : Segment next i (a :: l) j ↔ i = a ∧ Segment next (next a) l j := Iff.rfl

theorem append_iff : Segment next i (l ++ m) k ↔ ∃ j, Segment next i l j ∧ Segment next j m k := by
  induction l generalizing i with
  | nil => simp
  | cons a l ih =>
    rw [List.cons_append, cons_iff, ih]
    simp only [cons_iff, and_assoc, exists_and_left]

/-- A segment only depends on the links of its cells. -/
theorem congr (h : ∀ a ∈ l, next' a = next a) : Segment next' i l j ↔ Segment next i l j := by
  induction l generalizing i with
  | nil => rfl
  | cons a l ih =>
    rw [cons_iff, cons_iff, h a List.mem_cons_self, ih fun b hb ↦ h b (List.mem_cons_of_mem _ hb)]

/-- A segment with cells starts with the first of them. -/
theorem head_eq (h : Segment next i l j) (hne : l ≠ []) : l.head hne = i := by
  cases l with
  | nil => exact absurd rfl hne
  | cons a l => exact h.1.symm

theorem unique (h : Segment next i l j) (h' : Segment next i m k) (hlen : l.length = m.length) :
    l = m ∧ j = k := by
  induction l generalizing i m with
  | nil =>
    obtain rfl : m = [] := List.length_eq_zero_iff.mp hlen.symm
    exact ⟨rfl, h.symm.trans h'⟩
  | cons a l ih =>
    cases m with
    | nil => cases hlen
    | cons b m =>
      obtain ⟨rfl, h⟩ := h
      obtain ⟨rfl, h'⟩ := h'
      obtain ⟨rfl, rfl⟩ := ih h h' (Nat.succ.inj hlen)
      exact ⟨rfl, rfl⟩

theorem split (h : Segment next i l k) (n : ℕ) :
    ∃ j, Segment next i (l.take n) j ∧ Segment next j (l.drop n) k := by
  rw [← List.take_append_drop n l] at h
  exact append_iff.mp h

section Update

variable [DecidableEq ι]

theorem update_of_notMem (ha : a ∉ l) : Segment (Function.update next a k) i l j ↔ Segment next i l j :=
  by
  refine congr fun b hb ↦ Function.update_of_ne ?_ ..
  rintro rfl
  exact ha hb

theorem redirect (h : Segment next i (l ++ [a]) j) (ha : a ∉ l) (k : ι) :
    Segment (Function.update next a k) i (l ++ [a]) k := by
  obtain ⟨b, hl, hb⟩ := append_iff.mp h
  obtain ⟨rfl, -⟩ := cons_iff.mp hb
  refine append_iff.mpr ⟨b, (update_of_notMem ha).mpr hl, ?_⟩
  rw [cons_iff, Function.update_self]
  exact ⟨rfl, rfl⟩

end Update

/-- Cells in a row, each linked to the next one. -/
theorem range' (next : ℕ → ℕ) {n i : ℕ} (h : ∀ a, i ≤ a → a + 1 < i + n → next a = a + 1) :
    ∃ j, Segment next i (List.range' i n) j := by
  induction n generalizing i with
  | zero => exact ⟨i, rfl⟩
  | succ n ih =>
    obtain ⟨j, hj⟩ := ih (i := i + 1) fun a ha hlt ↦ h a (by omega) (by omega)
    rcases n.eq_zero_or_pos with rfl | hn
    · exact ⟨next i, rfl, rfl⟩
    · exact ⟨j, rfl, by rwa [h i (Nat.le_refl i) (by omega)]⟩

end Segment
