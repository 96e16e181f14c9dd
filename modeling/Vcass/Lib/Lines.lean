import Mathlib.Data.List.Basic

/-!
# Lines

A text is cut at a separator into lines, each of which the separator ends, and a rest that has no separator. The cut
of a text is put together from the cuts of its parts (`cut_append`), so it can be followed over a text that arrives
in pieces.
-/

namespace Lines

variable {α : Type*}

/-- The lines are ended by separators, and the rest is not. -/
structure IsCut (sep : α) (text : List α) (lines : List (List α)) (rest : List α) : Prop where
  text_eq : text = lines.flatMap (· ++ [sep]) ++ rest
  notMem_lines : ∀ line ∈ lines, sep ∉ line
  notMem_rest : sep ∉ rest

/-- Two cuts, put together: what the first one leaves over begins the first line of the second one. -/
def glue : List (List α) × List α → List (List α) × List α → List (List α) × List α
  | (lines, rest), ([], rest') => (lines, rest ++ rest')
  | (lines, rest), (line :: lines', rest') => (lines ++ (rest ++ line) :: lines', rest')

theorem glue_nil (a : List (List α) × List α) : glue ([], []) a = a := by
  rcases a with ⟨_ | ⟨line, lines⟩, rest⟩ <;> rfl

theorem glue_assoc (a b c : List (List α) × List α) : glue (glue a b) c = glue a (glue b c) := by
  rcases b with ⟨_ | ⟨line, lines⟩, rest⟩ <;> rcases c with ⟨_ | ⟨line', lines'⟩, rest'⟩ <;> simp [glue]

variable [DecidableEq α] {sep : α} {text rest : List α} {lines : List (List α)}

/-- Separators are searched for from the front. -/
def cut (sep : α) : List α → List (List α) × List α
  | [] => ([], [])
  | a :: text => glue (if a = sep then ([[]], []) else ([], [a])) (cut sep text)

theorem cut_append (text text' : List α) : cut sep (text ++ text') = glue (cut sep text) (cut sep text') := by
  induction text with
  | nil => exact (glue_nil _).symm
  | cons a text ih => rw [List.cons_append, cut, cut, ih, glue_assoc]

theorem cut_of_notMem (h : sep ∉ text) : cut sep text = ([], text) := by
  induction text with
  | nil => rfl
  | cons a text ih =>
    have ha : a ≠ sep := fun e ↦ h (e ▸ List.mem_cons_self)
    rw [cut, if_neg ha, ih fun hmem ↦ h (List.mem_cons_of_mem _ hmem)]
    rfl

theorem IsCut.cut_eq (h : IsCut sep text lines rest) : cut sep text = (lines, rest) := by
  obtain ⟨rfl, hlines, hrest⟩ := h
  induction lines with
  | nil => exact cut_of_notMem hrest
  | cons line lines ih =>
    have hline : cut sep (line ++ [sep]) = ([line], []) := by
      rw [cut_append, cut_of_notMem (hlines line List.mem_cons_self), cut, if_pos rfl]
      simp [cut, glue]
    rw [List.flatMap_cons, List.append_assoc, cut_append, hline,
      ih fun l hl ↦ hlines l (List.mem_cons_of_mem _ hl)]
    rcases lines with _ | ⟨line', lines⟩ <;> rfl

theorem isCut_cut (sep : α) (text : List α) : IsCut sep text (cut sep text).1 (cut sep text).2 := by
  induction text with
  | nil => exact ⟨rfl, by simp [cut], by simp [cut]⟩
  | cons a text ih =>
    obtain ⟨heq, hlines, hrest⟩ := ih
    rw [cut]
    rcases h : cut sep text with ⟨_ | ⟨line, lines⟩, rest⟩ <;> rw [h] at heq hlines hrest <;> subst heq <;>
      split_ifs with ha
    · exact ⟨by simp [glue, ha], by simp [glue], by simpa [glue] using hrest⟩
    · refine ⟨by simp [glue], by simp [glue], ?_⟩
      simpa [glue, eq_comm (a := a), Ne.symm ha] using hrest
    · exact ⟨by simp [glue, ha], by simpa [glue] using hlines, by simpa [glue] using hrest⟩
    · refine ⟨by simp [glue], ?_, by simpa [glue] using hrest⟩
      simpa [glue, Ne.symm ha] using hlines

end Lines
