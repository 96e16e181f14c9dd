import Mathlib.Data.List.Basic

/-!
# Scripts of operations that may fail

A script performs operations one after the other and gives up at the first that fails. What is left of it is
the trace of the operations, and how it ended. A script with a loop may also not have ended.

Whether the operations come in a permitted order is a matter of the trace alone. A *monitor* goes along it
with a state of its own, and is asked at each operation.
-/

/-- What a script has done, and whether it went through. -/
structure Script (ε : Type*) where
  trace : List ε
  /-- `none` as long as the script has not ended. -/
  result : Option Bool
  deriving DecidableEq, Repr

namespace Script

variable {ε : Type*} {a b : Script ε} {e : ε}

/-- Something is asked, and nothing is done. -/
def check (ok : Bool) : Script ε := ⟨[], some ok⟩

/-- One operation. -/
def op (e : ε) (ok : Bool) : Script ε := ⟨[e], some ok⟩

/-- One operation, of which the outcome does not matter. -/
def record (e : ε) : Script ε := op e true

/-- The second script follows if the first went through. -/
def andThen (a b : Script ε) : Script ε :=
  if a.result = some true then ⟨a.trace ++ b.trace, b.result⟩ else a

/-- The outcome does not matter. -/
def ignore (a : Script ε) : Script ε := ⟨a.trace, a.result.map fun _ ↦ true⟩

/-- Operations that were performed before. -/
def after (before : List ε) (a : Script ε) : Script ε := ⟨before ++ a.trace, a.result⟩

theorem andThen_of_true (h : a.result = some true) : a.andThen b = after a.trace b := if_pos h

theorem andThen_of_ne (h : a.result ≠ some true) : a.andThen b = a := if_neg h

@[simp] theorem check_true_andThen : (check true).andThen b = b := rfl

@[simp] theorem check_false_andThen : (check false : Script ε).andThen b = check false := rfl

@[simp] theorem record_andThen : (record e).andThen b = after [e] b := rfl

@[simp] theorem op_true_andThen : (op e true).andThen b = after [e] b := rfl

@[simp] theorem op_false_andThen : (op e false).andThen b = op e false := rfl

@[simp] theorem after_nil : after [] a = a := rfl

@[simp] theorem after_trace (before : List ε) : (after before a).trace = before ++ a.trace := rfl

@[simp] theorem after_result (before : List ε) : (after before a).result = a.result := rfl

@[simp] theorem after_after (l l' : List ε) : after l (after l' a) = after (l ++ l') a := by
  rw [after, after_trace, after_result, ← List.append_assoc, after]

@[simp] theorem after_andThen (before : List ε) : (after before a).andThen b = after before (a.andThen b) := by
  by_cases h : a.result = some true
  · rw [andThen_of_true h, andThen_of_true (a := after before a) h, after_trace, after_after]
  · rw [andThen_of_ne h, andThen_of_ne (a := after before a) h]

@[simp] theorem check_trace (ok : Bool) : (check ok : Script ε).trace = [] := rfl

@[simp] theorem check_result (ok : Bool) : (check ok : Script ε).result = some ok := rfl

@[simp] theorem op_trace (e : ε) (ok : Bool) : (op e ok).trace = [e] := rfl

@[simp] theorem op_result (e : ε) (ok : Bool) : (op e ok).result = some ok := rfl

theorem andThen_result : (a.andThen b).result = some true ↔ a.result = some true ∧ b.result = some true := by
  by_cases h : a.result = some true
  · rw [andThen_of_true h, after_result]
    exact (and_iff_right h).symm
  · rw [andThen_of_ne h]
    exact iff_of_false h fun hab ↦ h hab.1

theorem mem_trace_andThen : e ∈ (a.andThen b).trace ↔ e ∈ a.trace ∨ a.result = some true ∧ e ∈ b.trace := by
  by_cases h : a.result = some true
  · rw [andThen_of_true h, after_trace, List.mem_append]
    exact or_congr_right (and_iff_right h).symm
  · rw [andThen_of_ne h]
    exact ⟨Or.inl, fun hmem ↦ hmem.resolve_right fun hb ↦ h hb.1⟩

theorem andThen_trace : ∃ l, (a.andThen b).trace = a.trace ++ l ∧ (l = [] ∨ a.result = some true ∧ l = b.trace) := by
  by_cases h : a.result = some true
  · exact ⟨b.trace, by rw [andThen_of_true h, after_trace], Or.inr ⟨h, rfl⟩⟩
  · exact ⟨[], by rw [andThen_of_ne h, List.append_nil], Or.inl rfl⟩

/-! ## Monitors -/

section Monitor

variable {κ : Type*} (next : κ → ε → κ) (permitted : κ → ε → Prop)

/-- Every operation of the trace is permitted in the state that the monitor has reached. -/
def Monitored : κ → List ε → Prop
  | _, [] => True
  | q, e :: es => permitted q e ∧ Monitored (next q e) es

variable {next permitted} {q : κ} {l l' : List ε}

theorem monitored_append :
    Monitored next permitted q (l ++ l') ↔
      Monitored next permitted q l ∧ Monitored next permitted (l.foldl next q) l' := by
  induction l generalizing q with
  | nil => simp [Monitored]
  | cons e l ih => rw [List.cons_append, Monitored, Monitored, List.foldl_cons, ih, and_assoc]

/-- Operations that do not move the monitor. -/
theorem foldl_eq_of_forall (h : ∀ e ∈ l, next q e = q) : l.foldl next q = q := by
  induction l with
  | nil => rfl
  | cons e l ih =>
    rw [List.foldl_cons, h e List.mem_cons_self]
    exact ih fun e' he' ↦ h e' (List.mem_cons_of_mem _ he')

theorem monitored_of_forall (h : ∀ e ∈ l, next q e = q ∧ permitted q e) : Monitored next permitted q l := by
  induction l with
  | nil => trivial
  | cons e l ih =>
    obtain ⟨hnext, hperm⟩ := h e List.mem_cons_self
    refine ⟨hperm, ?_⟩
    rw [hnext]
    exact ih fun e' he' ↦ h e' (List.mem_cons_of_mem _ he')

theorem monitored_of_permitted (h : ∀ e ∈ l, ∀ q, permitted q e) : Monitored next permitted q l := by
  induction l generalizing q with
  | nil => trivial
  | cons e l ih =>
    exact ⟨h e List.mem_cons_self q, ih fun e' he' ↦ h e' (List.mem_cons_of_mem _ he')⟩

end Monitor

end Script
