import Mathlib.Data.List.Basic

/-!
# Walks that stop by an error

A step takes a position to the next one and gives a value, or fails. A walk takes steps until one fails, and
the error says why it has stopped. Nothing keeps a step from standing still or from going back: a walk is
bounded by fuel, and has stopped when there is an error.

The steps decide everything about a walk: where all reachable steps go up and the positions have an end, the
walk stops and no position comes twice; where a reachable step stands still, it never stops.
-/

namespace Walk

variable {ε β : Type*}

/-- The positions at which a step was tried, the values of those that succeeded, and the error of the last. -/
structure Trace (ε β : Type*) where
  visits : List ℕ
  values : List β
  stop : Option ε

section Defs

variable (step : ℕ → Except ε (ℕ × β))

def walk : ℕ → ℕ → Trace ε β
  | 0, _ => ⟨[], [], none⟩
  | fuel + 1, p =>
    match step p with
    | .error e => ⟨[p], [], some e⟩
    | .ok (q, b) => ⟨p :: (walk fuel q).visits, b :: (walk fuel q).values, (walk fuel q).stop⟩

/-- The walk from `p` comes to a position. -/
inductive Reaches (p : ℕ) : ℕ → Prop
  | refl : Reaches p p
  | next {q r : ℕ} {b : β} : Reaches p q → step q = .ok (r, b) → Reaches p r

end Defs

variable {step : ℕ → Except ε (ℕ × β)} {p q r : ℕ} {b : β} {e e' : ε} {fuel : ℕ}

@[simp]
theorem walk_zero : walk step 0 p = ⟨[], [], none⟩ := rfl

theorem walk_of_error (h : step p = .error e) : walk step (fuel + 1) p = ⟨[p], [], some e⟩ := by
  rw [walk, h]

theorem walk_of_ok (h : step p = .ok (q, b)) :
    walk step (fuel + 1) p =
      ⟨p :: (walk step fuel q).visits, b :: (walk step fuel q).values, (walk step fuel q).stop⟩ := by
  rw [walk, h]

theorem Reaches.head (h : step p = .ok (q, b)) (hreach : Reaches step q r) : Reaches step p r := by
  induction hreach with
  | refl => exact .next .refl h
  | next _ hstep ih => exact .next ih hstep

/-- A walk that comes past a position stops as the walk from there does, or has not stopped yet. -/
theorem Reaches.stop_eq (h : Reaches step p q) (fuel : ℕ) :
    (walk step fuel p).stop = none ∨ ∃ n, (walk step fuel p).stop = (walk step n q).stop := by
  induction h with
  | refl => exact .inr ⟨fuel, rfl⟩
  | next _ hstep ih =>
    rcases ih with hnone | ⟨n, hn⟩
    · exact .inl hnone
    · cases n with
      | zero =>
        left
        rw [hn, walk_zero]
      | succ n =>
        right
        refine ⟨n, ?_⟩
        rw [hn, walk_of_ok hstep]

/-- There is one error a walk can stop with. -/
theorem Reaches.error_eq (h : Reaches step p q) (hq : step q = .error e) (hstop : (walk step fuel p).stop = some e') :
    e' = e := by
  rcases h.stop_eq fuel with hnone | ⟨n, hn⟩
  · rw [hnone] at hstop
    cases hstop
  · cases n with
    | zero =>
      rw [hn, walk_zero] at hstop
      cases hstop
    | succ n =>
      rw [hn, walk_of_error hq] at hstop
      exact (Option.some.inj hstop).symm

/-- At a position whose step stands still a walk stays for ever. -/
theorem stop_of_loop (h : step q = .ok (q, b)) (fuel : ℕ) : (walk step fuel q).stop = none := by
  induction fuel with
  | zero => rfl
  | succ fuel ih => rw [walk_of_ok h, ih]

theorem Reaches.never_stops (h : Reaches step p q) (hq : step q = .ok (q, b)) (fuel : ℕ) :
    (walk step fuel p).stop = none := by
  rcases h.stop_eq fuel with hnone | ⟨n, hn⟩
  · exact hnone
  · rw [hn, stop_of_loop hq]

section Up

variable (hup : ∀ q, Reaches step p q → ∀ r b, step q = .ok (r, b) → q < r)

include hup

/-- Steps that go up visit the positions in order. -/
theorem visits_of_up (fuel : ℕ) :
    (walk step fuel p).visits.Pairwise (· < ·) ∧ ∀ v ∈ (walk step fuel p).visits, p ≤ v := by
  induction fuel generalizing p with
  | zero => exact ⟨List.Pairwise.nil, fun v hv ↦ absurd hv List.not_mem_nil⟩
  | succ fuel ih =>
    cases hstep : step p with
    | error e =>
      rw [walk_of_error hstep]
      refine ⟨List.pairwise_singleton _ _, fun v hv ↦ ?_⟩
      exact Nat.le_of_eq (List.mem_singleton.mp hv).symm
    | ok next =>
      obtain ⟨q, b⟩ := next
      have hlt : p < q := hup p .refl q b hstep
      obtain ⟨hsorted, hle⟩ := ih fun q' hq' ↦ hup q' (.head hstep hq')
      rw [walk_of_ok hstep]
      constructor
      · refine List.pairwise_cons.mpr ⟨fun v hv ↦ ?_, hsorted⟩
        exact Nat.lt_of_lt_of_le hlt (hle v hv)
      · intro v hv
        rcases List.mem_cons.mp hv with rfl | hv
        · exact Nat.le_refl _
        · exact Nat.le_of_lt (Nat.lt_of_lt_of_le hlt (hle v hv))

theorem nodup_of_up (fuel : ℕ) : (walk step fuel p).visits.Nodup :=
  (visits_of_up hup fuel).1.imp Nat.ne_of_lt

/-- Steps that go up and fail behind an end stop the walk, at a position it reaches. -/
theorem stops_of_up {limit : ℕ} (hend : ∀ q, limit ≤ q → ∃ e, step q = .error e) (hfuel : limit - p < fuel) :
    ∃ q e, Reaches step p q ∧ step q = .error e ∧ (walk step fuel p).stop = some e := by
  induction fuel generalizing p with
  | zero => omega
  | succ fuel ih =>
    cases hstep : step p with
    | error e =>
      refine ⟨p, e, .refl, hstep, ?_⟩
      rw [walk_of_error hstep]
    | ok next =>
      obtain ⟨q, b⟩ := next
      have hlt : p < q := hup p .refl q b hstep
      have hinside : p < limit := by
        by_contra hout
        obtain ⟨e, he⟩ := hend p (by omega)
        rw [hstep] at he
        cases he
      obtain ⟨last, e, hreach, hlast, hstop⟩ :=
        ih (fun q' hq' ↦ hup q' (.head hstep hq')) (by omega : limit - q < fuel)
      refine ⟨last, e, .head hstep hreach, hlast, ?_⟩
      rw [walk_of_ok hstep, hstop]

end Up

end Walk
