import Mathlib.Data.List.Nodup
import Mathlib.Logic.Function.Basic
import Vcass.BlockIo.Common

/-!
# The element pool `vcablk_pool`

A pool of preallocated elements linked through `next_free` from `head` to `tail`. Elements are
taken at the head and returned at the tail, and one element always stays in the pool, which is what
lets the two ends be used without a lock. An element that is out carries `VCABLK_POOL_USED` in its
link.

Elements are named by their index. The pool refines a queue: `Holds p l` says that the links of `p`
spell the list `l` of the elements in the pool, in the order they will be handed out, and each
operation of the pool is the queue operation on `l`.
-/

namespace Vcass.BlockIo

open Function (update)

/-- The link of an element that is out of the pool (`VCABLK_POOL_USED`). -/
def vcablkPoolUsed : ℕ := 65535

/-- A pool. `nextFree` is the link stored in front of each element. -/
structure VcablkPool where
  num : ℕ
  head : ℕ
  tail : ℕ
  nextFree : ℕ → ℕ

def vcablkPoolClear (num : ℕ) : VcablkPool where
  num := num
  head := 0
  tail := num - 1
  nextFree i := if i < num - 1 then i + 1 else 0

/-- A pool with `num` usable elements; one more is allocated, because one is always blocked. -/
def vcablkPoolInit (num : ℕ) : Option VcablkPool :=
  if vcablkPoolUsed ≤ num ∨ vcablkPoolUsed ≤ num + 1 then none
  else some (vcablkPoolClear (num + 1))

namespace VcablkPool

variable {p : VcablkPool} {l : List ℕ} {i : ℕ}

def vcablkPoolGetById (p : VcablkPool) (idx : ℕ) : Option ℕ :=
  if idx < p.num ∧ p.nextFree idx = vcablkPoolUsed then some idx else none

def vcablkPoolPop (p : VcablkPool) : Option (ℕ × VcablkPool) :=
  if p.head ≠ p.tail then
    some (p.head, { p with
      head := p.nextFree p.head
      nextFree := update p.nextFree p.head vcablkPoolUsed })
  else none

/-- Return element `idx`. `none` is the `BUG_ON` for an element that is not out. -/
def vcablkPoolPush (p : VcablkPool) (idx : ℕ) : Option VcablkPool :=
  if p.nextFree idx ≠ vcablkPoolUsed ∨ p.num ≤ idx then none
  else some { p with
    nextFree := update (update p.nextFree idx 0) p.tail idx
    tail := idx }

/-! ## The queue behind the links -/

/-- The links `f` lead from `h` through `xs` to `t`. -/
def Linked (f : ℕ → ℕ) (t : ℕ) : ℕ → List ℕ → Prop
  | h, [] => h = t
  | h, x :: xs => f h = x ∧ Linked f t x xs

theorem Linked.congr {f g : ℕ → ℕ} {t h : ℕ} {xs : List ℕ} (hfg : ∀ j ∈ h :: xs, f j = g j)
    (hf : Linked f t h xs) : Linked g t h xs := by
  induction xs generalizing h with
  | nil => exact hf
  | cons x xs ih =>
    refine ⟨(hfg h List.mem_cons_self).symm.trans hf.1, ih ?_ hf.2⟩
    exact fun j hj ↦ hfg j (List.mem_cons_of_mem _ hj)

theorem Linked.tail_mem {f : ℕ → ℕ} {t h : ℕ} {xs : List ℕ} (hf : Linked f t h xs) :
    t ∈ h :: xs := by
  induction xs generalizing h with
  | nil => rw [show h = t from hf]; exact List.mem_cons_self
  | cons x xs ih => exact List.mem_cons_of_mem _ (ih hf.2)

/-- The path does not read the link of its last element. -/
theorem Linked.update_tail {f : ℕ → ℕ} {t h v : ℕ} {xs : List ℕ} (hf : Linked f t h xs)
    (hnd : (h :: xs).Nodup) : Linked (update f t v) t h xs := by
  induction xs generalizing h with
  | nil => exact hf
  | cons x xs ih =>
    have hht : h ≠ t := fun h' ↦ (List.nodup_cons.mp hnd).1 (h' ▸ hf.2.tail_mem)
    exact ⟨(Function.update_of_ne hht _ _).trans hf.1, ih hf.2 (List.nodup_cons.mp hnd).2⟩

theorem Linked.extend {f : ℕ → ℕ} {t h i : ℕ} {xs : List ℕ} (hf : Linked f t h xs)
    (ht : f t = i) : Linked f i h (xs ++ [i]) := by
  induction xs generalizing h with
  | nil =>
    obtain rfl : h = t := hf
    exact ⟨ht, rfl⟩
  | cons x xs ih => exact ⟨hf.1, ih hf.2⟩

theorem Linked.snoc {f : ℕ → ℕ} {t h i : ℕ} {xs : List ℕ} (hf : Linked f t h xs)
    (hnd : (h :: xs).Nodup) (hi : i ∉ h :: xs) :
    Linked (update (update f i 0) t i) i h (xs ++ [i]) := by
  have hclear : Linked (update f i 0) t h xs := hf.congr fun j hj ↦ by
    rw [Function.update_of_ne]
    rintro rfl
    exact hi hj
  exact (hclear.update_tail hnd).extend (Function.update_self ..)

/-- The elements of `l` are in the pool, in this order from head to tail; all others are out. -/
structure Holds (p : VcablkPool) (l : List ℕ) : Prop where
  linked : ∃ rest, l = p.head :: rest ∧ Linked p.nextFree p.tail p.head rest
  nodup : l.Nodup
  lt_num : ∀ i ∈ l, i < p.num
  used_iff : ∀ i < p.num, p.nextFree i = vcablkPoolUsed ↔ i ∉ l
  num_le : p.num < vcablkPoolUsed

/-- **Taking an element** removes the front of the queue; the last element is never taken. -/
theorem Holds.pop (h : p.Holds l) :
    (l.length < 2 ∧ p.vcablkPoolPop = none) ∨
      ∃ a b rest q, l = a :: b :: rest ∧ p.vcablkPoolPop = some (a, q) ∧ q.Holds (b :: rest) ∧
        q.num = p.num := by
  obtain ⟨rest, rfl, hlink⟩ := h.linked
  cases rest with
  | nil =>
    refine Or.inl ⟨by simp, ?_⟩
    rw [vcablkPoolPop, if_neg]
    exact not_not.mpr hlink
  | cons x xs =>
    have hnot : p.head ∉ x :: xs := (List.nodup_cons.mp h.nodup).1
    have hne : p.head ≠ p.tail := fun h' ↦ hnot (h' ▸ hlink.2.tail_mem)
    refine Or.inr ⟨p.head, x, xs, { p with
      head := p.nextFree p.head
      nextFree := update p.nextFree p.head vcablkPoolUsed }, rfl, if_pos hne, ?_, rfl⟩
    refine ⟨⟨xs, by rw [hlink.1], ?_⟩, (List.nodup_cons.mp h.nodup).2, ?_, ?_, h.num_le⟩
    · show Linked _ _ (p.nextFree p.head) xs
      rw [hlink.1]
      refine hlink.2.congr fun j hj ↦ (Function.update_of_ne ?_ _ _).symm
      rintro rfl
      exact hnot hj
    · exact fun i hi ↦ h.lt_num i (List.mem_cons_of_mem _ hi)
    · intro i hi
      show update p.nextFree p.head vcablkPoolUsed i = vcablkPoolUsed ↔ i ∉ x :: xs
      by_cases hih : i = p.head
      · simp [hih, hnot]
      · rw [Function.update_of_ne hih, h.used_iff i hi, List.mem_cons, not_or]
        exact ⟨fun h' ↦ h'.2, fun h' ↦ ⟨hih, h'⟩⟩

/-- **Returning an element** appends it to the queue. -/
theorem Holds.push (h : p.Holds l) (hi : i < p.num) (hout : i ∉ l) :
    ∃ q, p.vcablkPoolPush i = some q ∧ q.Holds (l ++ [i]) ∧ q.num = p.num := by
  obtain ⟨rest, rfl, hlink⟩ := h.linked
  have hused : p.nextFree i = vcablkPoolUsed := (h.used_iff i hi).mpr hout
  refine ⟨{ p with
    nextFree := update (update p.nextFree i 0) p.tail i
    tail := i }, if_neg (by simp [hused, hi]), ?_, rfl⟩
  refine ⟨⟨rest ++ [i], rfl, hlink.snoc h.nodup hout⟩, ?_, ?_, ?_, h.num_le⟩
  · exact List.nodup_append.mpr ⟨h.nodup, List.nodup_singleton i, fun a ha b hb ↦
      fun hab ↦ hout (List.mem_singleton.mp hb ▸ hab ▸ ha)⟩
  · intro j hj
    rcases List.mem_append.mp hj with hj | hj
    · exact h.lt_num j hj
    · exact (List.mem_singleton.mp hj).symm ▸ hi
  · intro j hj
    show update (update p.nextFree i 0) p.tail i j = vcablkPoolUsed ↔ j ∉ p.head :: rest ++ [i]
    have htail : p.tail ∈ p.head :: rest := hlink.tail_mem
    have hused' : vcablkPoolUsed ≠ i := (hi.trans h.num_le).ne'
    by_cases hjt : j = p.tail
    · subst hjt
      rw [Function.update_self]
      simpa [hused'.symm] using fun h1 h2 ↦ absurd htail (by simp [h1, h2])
    · rw [Function.update_of_ne hjt]
      by_cases hji : j = i
      · subst hji
        rw [Function.update_self]
        simp [vcablkPoolUsed]
      · rw [Function.update_of_ne hji, h.used_iff j hj]
        simp [hji]

theorem Holds.getById (h : p.Holds l) :
    p.vcablkPoolGetById i = some i ↔ i < p.num ∧ i ∉ l := by
  rw [vcablkPoolGetById]
  by_cases hi : i < p.num
  · simp [hi, h.used_iff i hi]
  · simp [hi]

end VcablkPool

private theorem linked_clear {n h : ℕ} (k : ℕ) (hk : h + k = n) :
    VcablkPool.Linked (fun i ↦ if i < n then i + 1 else 0) n h (List.range' (h + 1) k) := by
  induction k generalizing h with
  | zero => exact hk
  | succ k ih => exact ⟨if_pos (by omega), ih (by omega)⟩

/-- **A fresh pool** holds all its elements, `num` of which can be taken. -/
theorem vcablkPoolInit_holds {num : ℕ} {p : VcablkPool} (h : vcablkPoolInit num = some p) :
    p.Holds (List.range (num + 1)) ∧ p.num = num + 1 := by
  rw [vcablkPoolInit] at h
  split at h
  · exact absurd h (by simp)
  rw [Option.some_inj] at h
  subst h
  refine ⟨⟨⟨List.range' 1 num, ?_, linked_clear num (Nat.zero_add num)⟩, List.nodup_range, ?_, ?_,
    ?_⟩, rfl⟩
  · rw [List.range_eq_range', List.range'_succ]
    rfl
  · exact fun i hi ↦ List.mem_range.mp hi
  · intro i hi
    have hi' : i ≤ num := Nat.lt_succ_iff.mp hi
    simp only [vcablkPoolClear, List.mem_range, not_lt, Nat.add_sub_cancel, vcablkPoolUsed] at *
    split <;> omega
  · simp only [vcablkPoolClear]
    omega

end Vcass.BlockIo
