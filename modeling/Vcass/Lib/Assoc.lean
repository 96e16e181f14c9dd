import Mathlib.Data.List.Basic

/-!
# The last entry of a key

A list of entries, keys with values, stands for a table in which a later entry replaces an earlier one of the same
key. What a table holds in the end is read off the list, and a loop that writes into the table is reasoned about
at one key at a time: `read_foldlM` says what a run does from what one write does.

Keys that occur once are the special case in which the order of the writes does not matter (`exists_foldlM_nodup`).
-/

namespace Assoc

variable {κ α β ι ν σ : Type*} [DecidableEq κ]

/-- The value that the list gives to the key last. -/
def last (es : List (κ × α)) (k : κ) : Option α := ((es.filter fun e ↦ e.1 = k).getLast?).map Prod.snd

variable {es fs : List (κ × α)} {k k' : κ} {a : α}

@[simp] theorem last_nil : last ([] : List (κ × α)) k = none := rfl

theorem last_append : last (es ++ fs) k = (last fs k).or (last es k) := by
  rw [last, List.filter_append, List.getLast?_append, Option.map_or]
  rfl

theorem last_singleton : last [(k', a)] k = if k' = k then some a else none := by
  by_cases h : k' = k <;> simp [last, h]

theorem last_cons (e : κ × α) : last (e :: es) k = (last es k).or (if e.1 = k then some e.2 else none) := by
  rw [← List.singleton_append, last_append, ← last_singleton]

theorem last_concat (e : κ × α) : last (es ++ [e]) k = if e.1 = k then some e.2 else last es k := by
  rw [last_append, show [e] = [(e.1, e.2)] from rfl, last_singleton]
  split_ifs <;> rfl

theorem last_eq_none_iff : last es k = none ↔ ∀ e ∈ es, e.1 ≠ k := by
  rw [last, Option.map_eq_none_iff, List.getLast?_eq_none_iff, List.filter_eq_nil_iff]
  simp only [decide_eq_true_eq, ne_eq]

theorem last_ne_none_iff : last es k ≠ none ↔ ∃ e ∈ es, e.1 = k := by
  rw [Ne, last_eq_none_iff]
  push Not
  exact Iff.rfl

theorem mem_of_last (h : last es k = some a) : (k, a) ∈ es := by
  obtain ⟨e, he, rfl⟩ := Option.map_eq_some_iff.mp h
  have hmem := List.mem_filter.mp (List.mem_of_getLast? he)
  have hkey : e.1 = k := of_decide_eq_true hmem.2
  exact hkey ▸ hmem.1

theorem last_map_snd (f : α → β) : last (es.map fun e ↦ (e.1, f e.2)) k = (last es k).map f := by
  induction es with
  | nil => rfl
  | cons e es ih =>
    rw [List.map_cons, last_cons, last_cons, ih, Option.map_or]
    congr 1
    split_ifs <;> rfl

/-! ## Loops that write -/

theorem read_foldl_last (read : σ → κ → Option α) (write : σ → κ × α → σ)
    (hwrite : ∀ t e k, read (write t e) k = if e.1 = k then some e.2 else read t k)
    (es : List (κ × α)) (t : σ) (k : κ) :
    read (es.foldl write t) k = (last es k).or (read t k) := by
  induction es generalizing t with
  | nil => rfl
  | cons e es ih =>
    rw [List.foldl_cons, ih, hwrite, last_cons, Option.or_assoc]
    congr 1
    split_ifs <;> rfl

/-- Writes that need the key to be there: when the run goes through, and what it leaves. -/
theorem read_foldlM (read : σ → κ → Option ν) (write : σ → κ × α → Option σ) (change : ν → α → ν)
    (hnone : ∀ t e, write t e = none ↔ read t e.1 = none)
    (hsome : ∀ t e t', write t e = some t' →
      ∀ k, read t' k = if e.1 = k then (read t k).map (change · e.2) else read t k)
    (es : List (κ × α)) (t : σ) :
    (es.foldlM write t = none ↔ ∃ e ∈ es, read t e.1 = none) ∧
      ∀ t', es.foldlM write t = some t' →
        ∀ k, read t' k = (read t k).map fun v ↦ ((es.filter fun e ↦ e.1 = k).map Prod.snd).foldl change v := by
  induction es generalizing t with
  | nil =>
    refine ⟨by simp, fun t' h k ↦ ?_⟩
    obtain rfl : t = t' := by simpa using h
    exact Option.map_id'.symm
  | cons e es ih =>
    rw [List.foldlM_cons, List.exists_mem_cons_iff]
    cases hw : write t e with
    | none => exact ⟨iff_of_true rfl (Or.inl ((hnone t e).mp hw)), fun t' h ↦ nomatch h⟩
    | some u =>
      obtain ⟨hstop, hrun⟩ := ih u
      have hread := hsome t e u hw
      -- a write does not take keys away
      have hkeys : ∀ k, read u k = none ↔ read t k = none := by
        intro k
        rw [hread]
        split_ifs
        · exact Option.map_eq_none_iff
        · exact Iff.rfl
      have hhead : read t e.1 ≠ none := fun h ↦ by simp [(hnone t e).mpr h] at hw
      refine ⟨?_, fun t' h k ↦ ?_⟩
      · rw [or_iff_right hhead]
        refine hstop.trans (exists_congr fun x ↦ and_congr_right fun _ ↦ hkeys x.1)
      · rw [hrun t' h k, hread]
        by_cases heq : e.1 = k
        · rw [if_pos heq, List.filter_cons_of_pos (by simpa using heq), Option.map_map]
          rfl
        · rw [if_neg heq, List.filter_cons_of_neg (by simpa using heq)]

/-- A run of writes to different keys goes through if every write does, as long as an invariant holds. -/
theorem exists_foldlM_nodup (read : σ → κ → ν) (write : σ → ι → Option σ) (key : ι → Option κ) (change : ι → ν → ν)
    {Inv : σ → Prop} {xs : List ι} (hnodup : (xs.map key).Nodup)
    (hwrite : ∀ t, Inv t → ∀ x ∈ xs, ∃ t', write t x = some t' ∧ Inv t' ∧
      ∀ k, read t' k = if key x = some k then change x (read t k) else read t k) {t : σ} (ht : Inv t) :
    ∃ t', xs.foldlM write t = some t' ∧ Inv t' ∧ ∀ k,
      read t' k = ((xs.find? fun x ↦ key x = some k).map fun x ↦ change x (read t k)).getD (read t k) := by
  induction xs generalizing t with
  | nil => exact ⟨t, rfl, ht, fun _ ↦ rfl⟩
  | cons x xs ih =>
    obtain ⟨u, hu, hinv, hread⟩ := hwrite t ht x List.mem_cons_self
    rw [List.map_cons, List.nodup_cons] at hnodup
    obtain ⟨t', hrun, ht', hrest⟩ := ih hnodup.2 (fun t ht y hy ↦ hwrite t ht y (List.mem_cons_of_mem x hy)) hinv
    refine ⟨t', ?_, ht', fun k ↦ ?_⟩
    · rw [List.foldlM_cons, hu]
      exact hrun
    rw [hrest, hread]
    by_cases hkey : key x = some k
    · -- no later write is to this key
      have hlater : xs.find? (fun y ↦ key y = some k) = none := by
        rw [List.find?_eq_none]
        intro y hy hyk
        rw [decide_eq_true_eq, ← hkey] at hyk
        exact hnodup.1 (List.mem_map.mpr ⟨y, hy, hyk⟩)
      rw [hlater, if_pos hkey, List.find?_cons_of_pos (by simpa using hkey)]
      rfl
    · rw [if_neg hkey, List.find?_cons_of_neg (by simpa using hkey)]

end Assoc
