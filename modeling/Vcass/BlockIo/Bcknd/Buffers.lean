import Mathlib.Data.List.Perm.Basic
import Vcass.BlockIo.Bcknd.Answers

/-!
# Block I/O backend: the transfer buffers

Where the sixteen elements of `transfer_buffer_pool` are. `Owned` accounts for every buffer at every
moment; here it is combined with the counts of pops and pushes.

A buffer is never returned twice. Two exits of `vcablk_bcknd_transfer` do not return it at all: after
a failed media read and after a failed DMA submission the loop is left with the buffer in hand.
These are the only leaks, and each such failure leaks for good, so a run conserves its buffers if and
only if it has none of them.
-/

namespace Vcass.BlockIo.Bcknd

open Conc

def Event.popped (b : ℕ) : Event → Option Unit
  | .pop b' => if b' = b then some () else none
  | _ => none

def Event.pushed (b : ℕ) : Event → Option Unit
  | .push _ b' => if b' = b then some () else none
  | _ => none

/-- How often buffer `b` was taken from the pool. -/
def pops (b : ℕ) (log : List Event) : ℕ := (history (Event.popped b) log).length

/-- How often buffer `b` was returned to the pool. -/
def pushes (b : ℕ) (log : List Event) : ℕ := (history (Event.pushed b) log).length

/-- A media read or a DMA submission that fails. -/
def Event.drops : Event → Bool
  | .load _ _ _ ret _ => ret != 0
  | .submit _ _ _ cookie => decide (cookie < 0)
  | _ => false

theorem lost_eq_zero_iff (log : List Event) :
    (∀ b, lost log b = 0) ↔ ∀ e ∈ log, e.drops = false := by
  simp only [lost, List.countP_eq_zero]
  constructor
  · intro h e he
    cases e with
    | load g b p ret bytes => simpa [Event.loses, Event.drops] using h b _ he
    | submit g p d cookie => simpa [Event.loses, Event.drops] using h d.buf _ he
    | _ => rfl
  · intro h b e he
    have hdrop := h e he
    cases e with
    | load g b' p ret bytes =>
      simp only [Event.drops] at hdrop
      simp [Event.loses, hdrop]
    | submit g p d cookie =>
      simp only [Event.drops] at hdrop
      simp [Event.loses, hdrop]
    | _ => exact Bool.false_ne_true

namespace Pipe

variable {a a' : Pipe}

/-- A buffer is in the pool as often as it was returned, less the times it was taken. -/
def Stocked (a : Pipe) : Prop :=
  ∀ b, a.free.count b + pops b a.core.log =
    pushes b a.core.log + if b < vcablkTransferRingSize then 1 else 0

section Stocked

attribute [local simp] pops pushes Event.popped Event.pushed List.count_cons

theorem Stocked.step (h : Stocked a) (hs : Step a a') : Stocked a' := by
  intro x
  have hx := h x
  cases hs with
  | @pop cookie w c cs es b b' free hq hfree =>
    by_cases hbx : b = x
    · simp_all
      omega
    · simp_all
  | @push b hxf =>
    by_cases hbx : b = x
    · simp_all
      omega
    · simp_all
  | _ => simpa using hx

end Stocked

theorem Stocked.start (media mem : ℕ → UInt8) : Stocked (Pipe.start media mem) := by
  intro b
  simp [Pipe.start, init, pops, pushes, List.count_range]

end Pipe

/-! ## Every run -/

/-- No transfer is in flight: the request thread is between two groups and every submitted chunk is
completed. -/
def Quiet (s : Sys) : Prop :=
  s.req = none ∧ ∀ gid, (returned gid s.log).length = (submitted gid s.log).length

theorem Quiet.flight_eq_nil {s : Sys} {a : Pipe} (hq : Quiet s) (hsim : Sim s a)
    (hc : a.Counted) : a.flight = [] := by
  rw [List.eq_nil_iff_forall_not_mem]
  intro b hb
  have hcount := hc (a.core.group b)
  have hdone := hq.2 (a.core.group b)
  rw [Sys.log, hsim.core] at hdone
  have hzero : (a.flight.countP fun b' ↦ decide (a.core.group b' = a.core.group b)) = 0 := by
    omega
  exact List.countP_eq_zero.mp hzero b hb (by simp)

theorem Quiet.balance {s : Sys} {a : Pipe} (hq : Quiet s) (hsim : Sim s a) (hc : a.Counted)
    (hst : a.Stocked) (b : ℕ) :
    (a.free.count b + lost s.log b = if b < vcablkTransferRingSize then 1 else 0) ∧
      pops b s.log = pushes b s.log + lost s.log b := by
  have hidle := hsim.req
  rw [hq.1] at hidle
  have hown := hsim.owned b
  rw [hq.flight_eq_nil hsim hc, show a.req = .idle from hidle] at hown
  have hstock := hst b
  rw [Sys.log, hsim.core]
  simp only [ReqSt.hand_idle, List.count_nil, add_zero] at hown
  omega

/-- **Conservation of the transfer buffers.** A buffer is at every moment at home or out once. When
no transfer is in flight, every buffer is back and the pool complete if and only if no media read and
no DMA submission failed. -/
theorem buffers_conserved_iff {media mem : ℕ → UInt8} {ls : List Label} {s : Sys}
    (h : exec step (init media mem) ls = some s) :
    (∀ b, pushes b s.log ≤ pops b s.log ∧ pops b s.log ≤ pushes b s.log + 1) ∧
      (Quiet s → (((∀ b, pops b s.log = pushes b s.log) ∧
          ∃ l, s.shared.pool.Holds l ∧ l.Perm (List.range vcablkTransferRingSize)) ↔
        ∀ e ∈ s.log, e.drops = false)) := by
  obtain ⟨a, hsim, ha, hst⟩ : ∃ a, Sim s a ∧ a.Answered ∧ a.Stocked :=
    exec_invariant_pipe (C := fun _ _ ↦ True) (along_of_forall fun _ _ _ ↦ trivial) h
      ⟨Pipe.Answered.start media mem, Pipe.Stocked.start media mem⟩
      fun ha hs _ ↦ ⟨ha.1.step hs, ha.2.step hs⟩
  have hlog : s.log = a.core.log := by rw [Sys.log, hsim.core]
  constructor
  · intro b
    have hown := hsim.owned b
    have hstock := hst b
    have hle : (if b < vcablkTransferRingSize then 1 else 0) ≤ 1 := by split <;> omega
    rw [hlog]
    omega
  · intro hq
    have hbal := fun b ↦ hq.balance hsim ha.counted hst b
    rw [← lost_eq_zero_iff]
    constructor
    · rintro ⟨heq, -⟩ b
      have := (hbal b).2
      have := heq b
      omega
    · intro hlost
      refine ⟨fun b ↦ by rw [(hbal b).2, hlost b, add_zero], a.free, hsim.pool, ?_⟩
      rw [List.perm_iff_count]
      intro b
      have := (hbal b).1
      rw [hlost b, add_zero] at this
      rw [this, List.count_range]

theorem write_run_conserves :
    ∃ s, exec step (init (fun _ ↦ 0) fun _ ↦ 0) writeRun = some s ∧ Quiet s ∧
      (∀ b, pops b s.log = pushes b s.log) ∧
      ∃ l, s.shared.pool.Holds l ∧ l.Perm (List.range vcablkTransferRingSize) := by
  have hrun : exec step (init (fun _ ↦ 0) fun _ ↦ 0) writeRun = some _ := rfl
  have hquiet : ∀ s, exec step (init (fun _ ↦ 0) fun _ ↦ 0) writeRun = some s → Quiet s := by
    rintro s ⟨⟩
    exact ⟨rfl, fun gid ↦ by cases gid <;> rfl⟩
  have hdrops : ∀ s, exec step (init (fun _ ↦ 0) fun _ ↦ 0) writeRun = some s →
      s.log.all (fun e ↦ !e.drops) = true := by
    rintro s ⟨⟩
    rfl
  refine ⟨_, hrun, hquiet _ hrun, ((buffers_conserved_iff hrun).2 (hquiet _ hrun)).mpr ?_⟩
  intro e he
  simpa using List.all_eq_true.mp (hdrops _ hrun) e he

/-- A failed media read leaves buffer 0 outside the pool. -/
theorem failed_read_leaks :
    ∃ s, exec step (init (fun _ ↦ 0) fun _ ↦ 0) [.fetch [⟨4096, 3, 1, 1, .read⟩], .request 1,
        .request 0, .request 0, .request (-5), .request 0, .request 0, .request 0] = some s ∧
      Quiet s ∧ pops 0 s.log = 1 ∧ pushes 0 s.log = 0 :=
  ⟨_, rfl, ⟨rfl, fun _ ↦ rfl⟩, rfl, rfl⟩

end Vcass.BlockIo.Bcknd
