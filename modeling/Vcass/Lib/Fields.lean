import Mathlib.Data.List.TakeWhile

/-!
# Fields of a text

The fields are what is left between separators when nothing counts as a field that is empty. A stream takes them one
by one: it skips separators, and takes what comes before the next one.
-/

namespace Fields

variable {α : Type*} {sep : α → Bool} {s : α} {a b w text rest : List α}

/-- The parts between separators that are not empty. -/
def fields (sep : α → Bool) (text : List α) : List (List α) := (text.splitOnP sep).filter fun w ↦ !w.isEmpty

/-- The next field of a stream, and what is behind it. -/
def extract (sep : α → Bool) (text : List α) : Option (List α × List α) :=
  match text.dropWhile sep with
  | [] => none
  | c :: text => some ((c :: text).takeWhile fun d ↦ !sep d, (c :: text).dropWhile fun d ↦ !sep d)

@[simp] theorem fields_nil : fields sep [] = [] := rfl

theorem fields_append_cons (hs : sep s = true) (a b : List α) :
    fields sep (a ++ s :: b) = fields sep a ++ fields sep b := by
  rw [fields, List.splitOnP_append_cons _ _ hs, List.filter_append, fields, fields]

theorem fields_cons (hs : sep s = true) (b : List α) : fields sep (s :: b) = fields sep b :=
  fields_append_cons hs [] b

theorem fields_word (hne : w ≠ []) (hw : ∀ c ∈ w, sep c = false) : fields sep w = [w] := by
  rw [fields, List.splitOnP_eq_singleton hw]
  apply List.filter_cons_of_pos
  rw [Bool.not_eq_true', List.isEmpty_eq_false_iff]
  exact hne

theorem ne_nil_of_mem_fields (h : w ∈ fields sep text) : w ≠ [] := by
  have hne := (List.mem_filter.mp h).2
  rwa [Bool.not_eq_true', List.isEmpty_eq_false_iff] at hne

theorem fields_dropWhile (text : List α) : fields sep (text.dropWhile sep) = fields sep text := by
  induction text with
  | nil => rfl
  | cons c text ih =>
    by_cases hc : sep c = true
    · rw [List.dropWhile_cons_of_pos hc, ih, fields_cons hc]
    · rw [List.dropWhile_cons_of_neg hc]

theorem head_of_dropWhile {p : α → Bool} (h : text.dropWhile p = s :: rest) : p s = false := by
  have hhead := List.head?_dropWhile_not p text
  rw [h] at hhead
  exact hhead

theorem fields_of_head (hs : sep s = false) (text : List α) :
    fields sep (s :: text) =
      ((s :: text).takeWhile fun d ↦ !sep d) :: fields sep ((s :: text).dropWhile fun d ↦ !sep d) := by
  have hword : ∀ d ∈ (s :: text).takeWhile fun d ↦ !sep d, sep d = false := by
    intro d hd
    simpa using List.mem_takeWhile_imp hd
  have hne : ((s :: text).takeWhile fun d ↦ !sep d) ≠ [] := by
    rw [List.takeWhile_cons_of_pos (by rw [hs]; rfl)]
    exact List.cons_ne_nil _ _
  have hsplit := List.takeWhile_append_dropWhile (p := fun d ↦ !sep d) (l := s :: text)
  -- What is behind the field is nothing, or begins with a separator.
  cases hrest : (s :: text).dropWhile fun d ↦ !sep d with
  | nil =>
    rw [hrest, List.append_nil] at hsplit
    rw [fields_nil, hsplit]
    exact fields_word (List.cons_ne_nil _ _) (hsplit ▸ hword)
  | cons c rest =>
    have hc : sep c = true := by simpa using head_of_dropWhile hrest
    have hfields := fields_append_cons hc ((s :: text).takeWhile fun d ↦ !sep d) rest
    rw [← hrest, hsplit, fields_word hne hword] at hfields
    rw [hfields, fields_cons hc]
    rfl

theorem fields_ne_nil (hs : sep s = false) (h : s ∈ text) : fields sep text ≠ [] := by
  induction text with
  | nil => exact absurd h List.not_mem_nil
  | cons c text ih =>
    by_cases hc : sep c = true
    · rw [fields_cons hc]
      apply ih
      apply List.mem_of_ne_of_mem _ h
      rintro rfl
      rw [hc] at hs
      cases hs
    · rw [fields_of_head (Bool.eq_false_iff.mpr hc)]
      exact List.cons_ne_nil _ _

/-- The field that is taken is the first one, and the others are behind it. -/
theorem extract_spec (sep : α → Bool) (text : List α) :
    (fields sep text = [] ∧ extract sep text = none) ∨
      ∃ w rest, fields sep text = w :: fields sep rest ∧ extract sep text = some (w, rest) := by
  rw [← fields_dropWhile text]
  cases htext : text.dropWhile sep with
  | nil =>
    left
    constructor
    · rfl
    · rw [extract, htext]
  | cons c rest =>
    right
    refine ⟨_, _, fields_of_head (head_of_dropWhile htext) rest, ?_⟩
    rw [extract, htext]

end Fields
