import Mathlib.Data.List.Induction

/-!
# Variables that keep their last value

A variable is given a list of values, one after the other, and takes each of them but the blank one. The
values come from *slots*, some of which are marked; `overwrite v` puts `v` into the marked ones. When the
variable ends with `v` is decided by the last slot that counts.
-/

namespace LastWrite

variable {α : Type*} [DecidableEq α] (blank : α)

/-- A variable takes every value but the blank one. -/
def put (old new : α) : α := if new = blank then old else new

/-- What the variable holds in the end. -/
def settle (old : α) (vs : List α) : α := vs.foldl (put blank) old

/-- The slots, with a value in those that are marked. -/
def overwrite (v : α) (slots : List (Bool × α)) : List α := slots.map fun s ↦ if s.1 then v else s.2

/-- The slots that are not blank once the marked ones are overwritten. -/
def counting (v : α) (slots : List (Bool × α)) : List (Bool × α) :=
  slots.filter fun s ↦ if s.1 then v ≠ blank else s.2 ≠ blank

/-- The last slot that counts is marked, or it holds the value anyway. -/
def Lasts (v old : α) (slots : List (Bool × α)) : Prop :=
  match (counting blank v slots).getLast? with
  | none => old = v
  | some s => s.1 = true ∨ s.2 = v

instance Lasts.decidable (v old : α) (slots : List (Bool × α)) : Decidable (Lasts blank v old slots) :=
  match h : (counting blank v slots).getLast? with
  | none => decidable_of_iff (old = v) (by rw [Lasts, h])
  | some s => decidable_of_iff (s.1 = true ∨ s.2 = v) (by rw [Lasts, h])

variable {blank} {v old : α} {slots : List (Bool × α)}

@[simp] theorem settle_nil : settle blank old [] = old := rfl

theorem settle_append (vs ws : List α) :
    settle blank old (vs ++ ws) = settle blank (settle blank old vs) ws := List.foldl_append

theorem settle_concat (vs : List α) (w : α) :
    settle blank old (vs ++ [w]) = put blank (settle blank old vs) w := by
  rw [settle_append]
  rfl

/-- Giving the values a second time changes nothing. -/
theorem settle_settle (vs : List α) : settle blank (settle blank old vs) vs = settle blank old vs := by
  induction vs using List.reverseRecOn with
  | nil => rfl
  | append_singleton vs w ih =>
    rw [settle_concat, settle_concat]
    by_cases hw : w = blank
    · rw [put, if_pos hw, put, if_pos hw, ih]
    · rw [put, if_neg hw, put, if_neg hw]

theorem settle_overwrite_eq_iff : settle blank old (overwrite v slots) = v ↔ Lasts blank v old slots := by
  induction slots using List.reverseRecOn with
  | nil => rfl
  | append_singleton slots s ih =>
    rw [overwrite, List.map_append, List.map_singleton, settle_concat, put, Lasts, counting, List.filter_append]
    by_cases hmark : s.1 = true
    · rw [if_pos hmark]
      by_cases hv : v = blank
      · rw [if_pos hv]
        have hskip : List.filter (fun s : Bool × α ↦ if s.1 then v ≠ blank else s.2 ≠ blank) [s] = [] := by
          simp [hmark, hv]
        rw [hskip, List.append_nil]
        exact ih
      · rw [if_neg hv]
        have hkeep : List.filter (fun s : Bool × α ↦ if s.1 then v ≠ blank else s.2 ≠ blank) [s] = [s] := by
          simp [hmark, hv]
        rw [hkeep, List.getLast?_concat]
        exact iff_of_true rfl (.inl hmark)
    · rw [if_neg hmark]
      by_cases hs : s.2 = blank
      · rw [if_pos hs]
        have hskip : List.filter (fun s : Bool × α ↦ if s.1 then v ≠ blank else s.2 ≠ blank) [s] = [] := by
          simp [hmark, hs]
        rw [hskip, List.append_nil]
        exact ih
      · rw [if_neg hs]
        have hkeep : List.filter (fun s : Bool × α ↦ if s.1 then v ≠ blank else s.2 ≠ blank) [s] = [s] := by
          simp [hmark, hs]
        rw [hkeep, List.getLast?_concat]
        exact ⟨.inr, fun h ↦ h.resolve_left hmark⟩

end LastWrite
