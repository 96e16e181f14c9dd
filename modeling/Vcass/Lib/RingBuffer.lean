import Mathlib.Data.List.Infix
import Mathlib.Logic.Function.Basic
import Vcass.Lib.RingCounter

/-!
# The contents of a ring buffer

A ring of `n` slots keeps a window of a sequence that grows at one end, the *log* of everything ever
produced. `Stored` says that from position `a` on the log stands in the ring, each element in the slot
of its position. The producer writes to the slot behind the log, the consumer may do as it likes with
the slot it is about to give back; neither disturbs the window as long as it is at most `n` long.
-/

namespace RingBuffer

open RingCounter
open Function (update)

variable {α : Type*} {n a b : ℕ} {elems : ℕ → α} {log : List α} {x : α}

/-- The elements of the log from position `a` on stand in their slots. -/
def Stored (n : ℕ) (elems : ℕ → α) (log : List α) (a : ℕ) : Prop :=
  ∀ i x, a ≤ i → log[i]? = some x → elems (slot n i) = x

theorem Stored.nil : Stored n elems [] a := fun i x _ hx ↦ absurd hx (by simp)

theorem Stored.mono (h : Stored n elems log a) (hab : a ≤ b) : Stored n elems log b :=
  fun i x hi hx ↦ h i x (hab.trans hi) hx

theorem Stored.overwrite (h : Stored n elems log a) (hroom : log.length < a + n) (x : α) :
    Stored n (update elems (slot n log.length) x) log a := by
  intro i y hi hy
  have hlt : i < log.length := (List.getElem?_eq_some_iff.mp hy).1
  rw [Function.update_of_ne (slot_ne hlt (by omega))]
  exact h i y hi hy

theorem Stored.snoc (h : Stored n elems log a) (hx : elems (slot n log.length) = x) :
    Stored n elems (log ++ [x]) a := by
  intro i y hi hy
  rcases Nat.lt_or_ge i log.length with hlt | hge
  · rw [List.getElem?_append_left hlt] at hy
    exact h i y hi hy
  · obtain ⟨hlt, -⟩ := List.getElem?_eq_some_iff.mp hy
    rw [List.length_append, List.length_singleton] at hlt
    obtain rfl : i = log.length := by omega
    rw [List.getElem?_concat_length, Option.some_inj] at hy
    rw [hx, hy]

theorem Stored.push (h : Stored n elems log a) (hroom : log.length < a + n) (x : α) :
    Stored n (update elems (slot n log.length) x) (log ++ [x]) a :=
  (h.overwrite hroom x).snoc (Function.update_self ..)

theorem Stored.overwrite_before (h : Stored n elems log (a + 1)) (hle : log.length ≤ a + n) (x : α) :
    Stored n (update elems (slot n a) x) log (a + 1) := by
  intro i y hi hy
  have hlt : i < log.length := (List.getElem?_eq_some_iff.mp hy).1
  rw [Function.update_of_ne (slot_ne (by omega : a < i) (by omega)).symm]
  exact h i y hi hy

/-- What was consumed is the beginning of the log, and the next element of the log is consumed. -/
theorem isPrefix_snoc {done : List α} (h : done <+: log) (hx : log[done.length]? = some x) :
    done ++ [x] <+: log := by
  obtain ⟨hlt, rfl⟩ := List.getElem?_eq_some_iff.mp hx
  exact List.concat_get_prefix h hlt

/-! ## The ring as a whole

`Window` is about all `n` slots at once, those in use and those that are free: slot by slot, each stands
for one of the `n` positions from `a` on. -/

/-- What stands in the slot of a position of the window is in relation `R` to the position. -/
def Window (n : ℕ) (elems : ℕ → α) (R : ℕ → α → Prop) (a : ℕ) : Prop :=
  ∀ p, a ≤ p → p < a + n → R p (elems (slot n p))

section Window

variable {R R' : ℕ → α → Prop} {p : ℕ}

theorem Window.imp (h : Window n elems R a) (hR : ∀ p x, a ≤ p → p < a + n → R p x → R' p x) :
    Window n elems R' a := fun p hp hlt ↦ hR p _ hp hlt (h p hp hlt)

theorem Window.update (h : Window n elems R a) (hp : a ≤ p) (hlt : p < a + n) (hx : R' p x)
    (hR : ∀ q y, q ≠ p → R q y → R' q y) : Window n (Function.update elems (slot n p) x) R' a := by
  intro q hq hqlt
  by_cases hqp : q = p
  · subst hqp
    rwa [Function.update_self]
  · have hslot : slot n q ≠ slot n p := by
      rcases Nat.lt_or_gt_of_ne hqp with hlt' | hgt
      · exact slot_ne hlt' (by omega)
      · exact (slot_ne hgt (by omega)).symm
    rw [Function.update_of_ne hslot]
    exact hR q _ hqp (h q hq hqlt)

/-- The window moves on: the slots of the positions that are left stand for those that come in. -/
theorem Window.shift (h : Window n elems R a) (hab : a ≤ b) (hle : b ≤ a + n)
    (hR : ∀ q y, a ≤ q → q < b → R q y → R (q + n) y) : Window n elems R b := by
  intro q hq hqlt
  by_cases hin : q < a + n
  · exact h q (by omega) hin
  · have hslot : slot n (q - n) = slot n q := by
      rw [slot, slot, ← Nat.add_mod_right (q - n) n, Nat.sub_add_cancel (by omega)]
    have hmove := hR (q - n) (elems (slot n (q - n))) (by omega) (by omega) (h (q - n) (by omega) (by omega))
    rwa [Nat.sub_add_cancel (by omega), hslot] at hmove

end Window

end RingBuffer
