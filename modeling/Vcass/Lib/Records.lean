import Mathlib.Data.List.Basic

/-!
# Walks over packed records

A region holds records of different sizes, one right behind the other, with no index: where the next
record begins is known from the header of this one only. A walk starts at some position and moves by the
stride of each record, past those that are free, until it finds an end mark or leaves the region.

`stride` and `kind` say what the memory holds at a position, whether a record begins there or not. The
rules below are about two memories: what is changed behind the record where a walk stands, or inside a
record it passes without reading it, does not change where it goes.
-/

namespace Records

/-- What the header at a position says. -/
inductive Kind
  | stop
  | free
  | live
  deriving DecidableEq, Repr

/-- A memory, as a walk sees it. -/
structure View where
  kind : ℕ → Kind
  stride : ℕ → ℕ

namespace View

section Defs

variable (v : View) (limit : ℕ)

/-- The live records from position `i` on. -/
def walk : ℕ → ℕ → List ℕ
  | 0, _ => []
  | fuel + 1, i =>
    if i < limit then
      match v.kind i with
      | .stop => []
      | .free => walk fuel (i + v.stride i)
      | .live => i :: walk fuel (i + v.stride i)
    else []

/-- A walk that is not cut off, as a stride is positive. -/
def scan (i : ℕ) : List ℕ := v.walk limit (limit - i) i

/-- The walk from `i` comes to `j`. -/
inductive Reaches (i : ℕ) : ℕ → Prop
  | refl : Reaches i i
  | step {j : ℕ} : Reaches i j → j < limit → v.kind j ≠ .stop → Reaches i (j + v.stride j)

/-- The strides are positive. -/
def Moves : Prop := ∀ i, 0 < v.stride i

end Defs

variable {v w : View} {limit i j : ℕ}

theorem walk_of_le (h : limit ≤ i) (fuel : ℕ) : v.walk limit fuel i = [] := by
  cases fuel with
  | zero => rfl
  | succ fuel => rw [walk, if_neg (by omega)]

theorem walk_eq_walk (hv : v.Moves) {fuel fuel' : ℕ} (h : limit - i ≤ fuel) (h' : limit - i ≤ fuel') :
    v.walk limit fuel i = v.walk limit fuel' i := by
  induction fuel generalizing i fuel' with
  | zero => rw [walk_of_le (by omega), walk_of_le (by omega)]
  | succ fuel ih =>
    by_cases hi : i < limit
    · obtain ⟨n, rfl⟩ : ∃ n, fuel' = n + 1 := ⟨fuel' - 1, by omega⟩
      have hmove := hv i
      rw [walk, walk, ih (by omega) (by omega : limit - (i + v.stride i) ≤ n)]
    · rw [walk_of_le (by omega), walk_of_le (by omega)]

section Scan

variable (hv : v.Moves)

include hv

theorem scan_of_lt (hi : i < limit) (hkind : v.kind i ≠ .stop) :
    v.scan limit i =
      (if v.kind i = .live then [i] else []) ++ v.scan limit (i + v.stride i) := by
  have hmove := hv i
  obtain ⟨n, hn⟩ : ∃ n, limit - i = n + 1 := ⟨limit - i - 1, by omega⟩
  have hrest : v.walk limit n (i + v.stride i) = v.scan limit (i + v.stride i) :=
    walk_eq_walk hv (by omega) (Nat.le_refl _)
  rw [scan, hn, walk, if_pos hi, hrest]
  cases h : v.kind i with
  | stop => exact absurd h hkind
  | free => rfl
  | live => rfl

omit hv in
theorem scan_of_stop (hkind : v.kind i = .stop) : v.scan limit i = [] := by
  rw [scan]
  cases limit - i with
  | zero => rfl
  | succ n =>
    rw [walk, hkind]
    exact ite_self _

omit hv in
theorem scan_of_le (h : limit ≤ i) : v.scan limit i = [] := walk_of_le h _

/-- Induction along the walk. -/
theorem scan_induction (limit : ℕ) {P : ℕ → Prop} (stop : ∀ i, limit ≤ i ∨ v.kind i = .stop → P i)
    (move : ∀ i, i < limit → v.kind i ≠ .stop → P (i + v.stride i) → P i) (i : ℕ) : P i := by
  by_cases hi : i < limit
  · by_cases hkind : v.kind i = .stop
    · exact stop i (.inr hkind)
    · have hmove := hv i
      exact move i hi hkind (scan_induction limit stop move (i + v.stride i))
  · exact stop i (.inl (by omega))
termination_by limit - i

omit hv in
theorem scan_eq_nil (h : limit ≤ i ∨ v.kind i = .stop) : v.scan limit i = [] :=
  h.elim scan_of_le scan_of_stop

/-- What a walk reports is a live record at or behind its start. -/
theorem of_mem_scan {p : ℕ} (h : p ∈ v.scan limit i) : i ≤ p ∧ v.kind p = .live := by
  induction i using scan_induction hv limit with
  | stop i hstop =>
    rw [scan_eq_nil hstop] at h
    cases h
  | move i hi hkind ih =>
    rw [scan_of_lt hv hi hkind, List.mem_append] at h
    rcases h with hhead | hrest
    · split_ifs at hhead with hlive
      · obtain rfl := List.mem_singleton.mp hhead
        exact ⟨Nat.le_refl _, hlive⟩
      · cases hhead
    · obtain ⟨hle, hlive⟩ := ih hrest
      exact ⟨by omega, hlive⟩

omit hv in
theorem Reaches.head (hi : i < limit) (hkind : v.kind i ≠ .stop)
    (h : v.Reaches limit (i + v.stride i) j) : v.Reaches limit i j := by
  induction h with
  | refl => exact .step .refl hi hkind
  | step _ hj hkind' ih => exact .step ih hj hkind'

omit hv in
theorem Reaches.le (h : v.Reaches limit i j) : i ≤ j := by
  induction h with
  | refl => exact Nat.le_refl _
  | step _ _ _ ih => omega

/-- A record that is reported is reached by the walk. -/
theorem reaches_of_mem_scan {p : ℕ} (h : p ∈ v.scan limit i) : v.Reaches limit i p ∧ p < limit := by
  induction i using scan_induction hv limit with
  | stop i hstop =>
    rw [scan_eq_nil hstop] at h
    cases h
  | move i hi hkind ih =>
    rw [scan_of_lt hv hi hkind, List.mem_append] at h
    rcases h with hhead | hrest
    · split_ifs at hhead with hlive
      · obtain rfl := List.mem_singleton.mp hhead
        exact ⟨.refl, hi⟩
      · cases hhead
    · exact ⟨.head hi hkind (ih hrest).1, (ih hrest).2⟩

/-- Two memories that agree on the records before `j` have the same walk up to `j`, and what it passes
ends there. -/
theorem Reaches.scan_eq (hw : w.Moves) (h : v.Reaches limit i j)
    (hagree : ∀ q, i ≤ q → q + v.stride q ≤ j → w.kind q = v.kind q ∧ w.stride q = v.stride q) :
    ∃ pre, v.scan limit i = pre ++ v.scan limit j ∧ w.scan limit i = pre ++ w.scan limit j ∧
      ∀ q ∈ pre, q + v.stride q ≤ j := by
  induction h with
  | refl => exact ⟨[], rfl, rfl, fun q hq ↦ absurd hq List.not_mem_nil⟩
  | @step j hij hj hkind ih =>
    have hle := hij.le
    have hmove := hv j
    obtain ⟨pre, hpre, hpre', hends⟩ := ih fun q hiq hq ↦ hagree q hiq (by omega)
    obtain ⟨hkind', hstride'⟩ := hagree j hle (Nat.le_refl _)
    refine ⟨pre ++ if v.kind j = .live then [j] else [], ?_, ?_, fun q hq ↦ ?_⟩
    · rw [hpre, scan_of_lt hv hj hkind, List.append_assoc]
    · rw [hpre', scan_of_lt hw hj (hkind'.symm ▸ hkind), hkind', hstride', List.append_assoc]
    · rcases List.mem_append.mp hq with hq | hq
      · have hend := hends q hq
        omega
      · split_ifs at hq with hlive
        · obtain rfl := List.mem_singleton.mp hq
          exact Nat.le_refl _
        · cases hq

/-- The walk depends only on the records it can still reach. -/
theorem scan_congr (hw : w.Moves)
    (hagree : ∀ q, i ≤ q → w.kind q = v.kind q ∧ w.stride q = v.stride q) :
    w.scan limit i = v.scan limit i := by
  induction i using scan_induction hv limit with
  | stop i hstop =>
    obtain ⟨hkind, -⟩ := hagree i (Nat.le_refl _)
    rw [scan_eq_nil hstop, scan_eq_nil (hstop.imp_right hkind.trans)]
  | move i hi hkind ih =>
    obtain ⟨hkind', hstride'⟩ := hagree i (Nat.le_refl _)
    rw [scan_of_lt hv hi hkind, scan_of_lt hw hi (hkind'.symm ▸ hkind), hkind', hstride',
      ih fun q hq ↦ hagree q (by omega)]

/-- A walk reports every record once, in order, and none that begins inside another. -/
theorem scan_pairwise (limit i : ℕ) : (v.scan limit i).Pairwise fun p q ↦ p + v.stride p ≤ q := by
  induction i using scan_induction hv limit with
  | stop i hstop =>
    rw [scan_eq_nil hstop]
    exact .nil
  | move i hi hkind ih =>
    rw [scan_of_lt hv hi hkind, List.pairwise_append]
    refine ⟨?_, ih, fun p hp q hq ↦ ?_⟩
    · split_ifs <;> simp
    · split_ifs at hp with hlive
      · rw [List.mem_singleton.mp hp]
        exact (of_mem_scan hv hq).1
      · cases hp

end Scan

/-! ## The first free record -/

section Find

variable (v limit)

/-- The first position below `limit` that does not hold a live record. -/
def find : ℕ → ℕ → Option ℕ
  | 0, _ => none
  | fuel + 1, i =>
    if i < limit then
      if v.kind i = .live then find fuel (i + v.stride i) else some i
    else none

variable {v limit}

/-- It is reached by every walk whose region is not smaller. -/
theorem of_find {size fuel : ℕ} (hle : limit ≤ size) (h : v.find limit fuel i = some j) :
    v.Reaches size i j ∧ j < limit ∧ v.kind j ≠ .live := by
  induction fuel generalizing i with
  | zero => cases h
  | succ fuel ih =>
    rw [find] at h
    split_ifs at h with hi hlive
    · obtain ⟨hreach, hj⟩ := ih h
      exact ⟨.head (by omega) (by rw [hlive]; decide) hreach, hj⟩
    · obtain rfl := Option.some_inj.mp h
      exact ⟨.refl, hi, hlive⟩

/-- Another memory that agrees on the records before a free one has it at the same place, for any limit. -/
theorem find_congr {fuel : ℕ} (h : v.find limit fuel i = some j)
    (hagree : ∀ q, q + v.stride q ≤ j → w.kind q = v.kind q ∧ w.stride q = v.stride q) (hfree : w.kind j ≠ .live)
    (limit' fuel' : ℕ) : w.find limit' fuel' i = v.find limit' fuel' i := by
  induction fuel generalizing i fuel' with
  | zero => cases h
  | succ fuel ih =>
    cases fuel' with
    | zero => rfl
    | succ fuel' =>
      obtain ⟨hreach, -, hkind⟩ := of_find (Nat.le_refl _) h
      rw [find] at h
      split_ifs at h with hi hlive
      · obtain ⟨hrest, -, -⟩ := of_find (Nat.le_refl _) h
        obtain ⟨hkind', hstride'⟩ := hagree i hrest.le
        rw [find, find, hkind', hstride', ih h]
      · obtain rfl := Option.some_inj.mp h
        rw [find, find, if_neg hfree, if_neg hkind]

/-- The walks of two memories that agree on the records before a free one come to it together, if they come so far. -/
theorem scan_of_find (hv : v.Moves) (hw : w.Moves) {fuel : ℕ} (h : v.find limit fuel i = some j)
    (hagree : ∀ q, q + v.stride q ≤ j → w.kind q = v.kind q ∧ w.stride q = v.stride q) (size : ℕ) :
    ∃ pre, v.scan size i = pre ++ v.scan size j ∧ w.scan size i = pre ++ w.scan size j ∧ ∀ q ∈ pre, q < j := by
  induction fuel generalizing i with
  | zero => cases h
  | succ fuel ih =>
    rw [find] at h
    split_ifs at h with hi hlive
    · have hle := (of_find (Nat.le_refl _) h).1.le
      have hmove := hv i
      obtain ⟨hkind', hstride'⟩ := hagree i hle
      by_cases hsize : i < size
      · obtain ⟨pre, hpre, hpre', hlt⟩ := ih h
        have hne : v.kind i ≠ .stop := by
          rw [hlive]
          decide
        refine ⟨i :: pre, ?_, ?_, fun q hq ↦ ?_⟩
        · rw [scan_of_lt hv hsize hne, if_pos hlive, hpre]
          rfl
        · rw [scan_of_lt hw hsize (hkind'.symm ▸ hne), hkind', hstride', if_pos hlive, hpre']
          rfl
        · rcases List.mem_cons.mp hq with rfl | hq
          · omega
          · exact hlt q hq
      · refine ⟨[], ?_, ?_, fun q hq ↦ absurd hq List.not_mem_nil⟩
        · rw [scan_of_le (by omega), scan_of_le (by omega), List.nil_append]
        · rw [scan_of_le (by omega), scan_of_le (by omega), List.nil_append]
    · obtain rfl := Option.some_inj.mp h
      exact ⟨[], rfl, rfl, fun q hq ↦ absurd hq List.not_mem_nil⟩

end Find

end View

end Records
