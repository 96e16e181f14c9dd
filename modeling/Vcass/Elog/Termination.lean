import Vcass.Elog.Reads

/-!
# Where the event log ends

The position behind a record is its own plus its length byte, so the loop of `print_events` never goes back. A
record of length 0 leads to itself, and the loop reads it for ever, as it does the first nine bytes of an area that
was cleared with zeros.
-/

namespace Vcass.Elog

open Walk

variable (biosdata : Option BiosVersion) (file : List UInt8) (start : ℕ)

/-! ## The property -/

/-- The loop stops at the end of the log or of the data, and has begun at no position twice. -/
def Stops : Prop :=
  ∃ fuel e, (printEvents biosdata file fuel start).stop = some e ∧ (e = .endOfLog ∨ e = .endOfData) ∧
    (printEvents biosdata file fuel start).visits.Nodup

/-! ## The condition -/

/-- The positions from `start` on where each leads to the next by the length byte of a record that is complete. -/
inductive Chain : ℕ → Prop
  | start : Chain start
  | next {p : ℕ} : Chain p → Complete biosdata file p → (header file p).Readable biosdata →
      Chain (p + (header file p).length)

/-- No record of the chain has length 0, and none needs a `biosdata` that is not set. -/
def Advances : Prop :=
  ∀ p, Chain biosdata file start p → Complete biosdata file p →
    (header file p).Readable biosdata ∧ (header file p).length ≠ 0

/-! ## The loop -/

variable {biosdata file start} {p : ℕ}

theorem Chain.reaches (h : Chain biosdata file start p) : Reaches (step biosdata file) start p := by
  induction h with
  | start => exact .refl
  | next _ hcomplete hread ih =>
    obtain ⟨event, hstep⟩ := step_of_complete hcomplete hread
    exact .next ih hstep

/-- A round that does not stop the loop has read a record. -/
theorem of_step_eq_ok {q : ℕ} {event : Option Event} (h : step biosdata file p = .ok (q, event)) :
    Complete biosdata file p ∧ (header file p).Readable biosdata ∧ q = p + (header file p).length := by
  by_cases hcomplete : Complete biosdata file p
  · by_cases hread : (header file p).Readable biosdata
    · obtain ⟨event', hstep⟩ := step_of_complete hcomplete hread
      rw [hstep] at h
      cases h
      exact ⟨hcomplete, hread, rfl⟩
    · rw [step_of_not_readable hcomplete hread] at h
      cases h
  · rcases step_of_not_complete hcomplete with hstep | hstep
    · rw [hstep] at h
      cases h
    · rw [hstep] at h
      cases h

theorem chain_of_reaches (h : Reaches (step biosdata file) start p) : Chain biosdata file start p := by
  induction h with
  | refl => exact .start
  | next _ hstep ih =>
    obtain ⟨hcomplete, hread, rfl⟩ := of_step_eq_ok hstep
    exact .next ih hcomplete hread

theorem step_of_length_le (h : file.length ≤ p) : step biosdata file p = .error .endOfData := by
  obtain ⟨event, hevent⟩ := exists_step_eq biosdata (header file p)
  rw [hevent file p rfl, if_neg (by omega), if_neg (by unfold prescribed; omega)]

/-- A record of length 0 is read for ever. -/
theorem never_stops (hchain : Chain biosdata file start p) (hcomplete : Complete biosdata file p)
    (hread : (header file p).Readable biosdata) (hzero : (header file p).length = 0) (fuel : ℕ) :
    (printEvents biosdata file fuel start).stop = none := by
  obtain ⟨event, hstep⟩ := step_of_complete hcomplete hread
  rw [hzero] at hstep
  exact hchain.reaches.never_stops hstep fuel

theorem stops_of_advances (h : Advances biosdata file start) : Stops biosdata file start := by
  have hup : ∀ q, Reaches (step biosdata file) start q → ∀ r event, step biosdata file q = .ok (r, event) → q < r := by
    intro q hq r event hstep
    obtain ⟨hcomplete, -, rfl⟩ := of_step_eq_ok hstep
    have hlength := (h q (chain_of_reaches hq) hcomplete).2
    omega
  have hend : ∀ q, file.length ≤ q → ∃ e, step biosdata file q = .error e := fun q hq ↦ ⟨_, step_of_length_le hq⟩
  obtain ⟨q, e, hq, hstep, hstop⟩ := stops_of_up hup hend (Nat.lt_succ_self _)
  refine ⟨_, e, hstop, ?_, nodup_of_up hup _⟩
  have hcomplete : ¬ Complete biosdata file q := by
    intro hcomplete
    obtain ⟨event, hok⟩ := step_of_complete hcomplete (h q (chain_of_reaches hq) hcomplete).1
    rw [hok] at hstep
    cases hstep
  rcases step_of_not_complete hcomplete with hlog | hdata
  · rw [hlog] at hstep
    cases hstep
    exact .inl rfl
  · rw [hdata] at hstep
    cases hstep
    exact .inr rfl

/-- The loop stops as it should exactly where the length bytes lead on from each record that it comes to. -/
theorem print_events_stops_iff (biosdata : Option BiosVersion) (file : List UInt8) (start : ℕ) :
    Stops biosdata file start ↔ Advances biosdata file start := by
  refine ⟨?_, stops_of_advances⟩
  rintro ⟨fuel, e, hstop, he, -⟩ p hchain hcomplete
  by_cases hread : (header file p).Readable biosdata
  · refine ⟨hread, fun hzero ↦ ?_⟩
    rw [never_stops hchain hcomplete hread hzero fuel] at hstop
    cases hstop
  · have hindex := hchain.reaches.error_eq (step_of_not_readable hcomplete hread) hstop
    rcases he with rfl | rfl
    · cases hindex
    · cases hindex

/-- A record of zeros at the start of the log. -/
theorem zeros_never_stop : ¬ Stops none (List.replicate 9 0) 0 := by
  rintro ⟨fuel, e, hstop, -⟩
  rw [never_stops .start (by decide) (by decide) (by decide) fuel] at hstop
  cases hstop

end Vcass.Elog
