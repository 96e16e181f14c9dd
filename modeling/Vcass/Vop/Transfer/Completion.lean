import Vcass.Vop.Transfer.Steps

/-!
# VOP: completions of the DMA

What `transfer_done_callback` finishes, in every run that meets the condition of `Clear`; and a run of 511
packets that fail and one that does not, which is never finished.
-/

namespace Vcass.Vop.Transfer

open Conc RingCounter
open Function (update)

variable {m : Mode} {s s' : Sys}

/-! ## The callback ends -/

/-- How many steps the callback still makes, at most. -/
def Callback.rank (cb : Callback) : ℕ := 2 * missed cb.next cb.stop + if cb.started then 0 else 1

def Sys.callbackRank (s : Sys) : ℕ := s.callback.elim 0 Callback.rank

theorem transferDone_completed (s : Sys) (i : ℕ) : (transferDone s i).completed = s.completed := by
  simp only [transferDone]
  split <;> split <;> rfl

theorem callbackStep_completed (hs : callbackStep s = some s') : s'.completed = s.completed := by
  rw [callbackStep.eq_def] at hs
  split at hs
  · cases hs
  · dsimp only at hs
    split at hs
    · cases hs
      exact transferDone_completed _ _
    · split at hs
      · split at hs <;> cases hs <;> rfl
      · cases hs
        rfl

theorem Callback.rank_advance {cb : Callback} (hnext : cb.next < ringSize) (hstop : cb.stop < ringSize)
    (hne : cb.next ≠ cb.stop) :
    Callback.rank { cb with next := (cb.next + 1) % ringSize, started := false } + 1 =
      2 * missed cb.next cb.stop := by
  have hsucc := missed_succ (c := cb.next) hstop (by rw [Nat.mod_eq_of_lt hnext]; exact hne.symm)
  rw [Nat.mod_eq_of_lt hnext] at hsucc
  rw [Callback.rank, if_neg Bool.false_ne_true]
  dsimp only
  omega

theorem Inv.callbackRank_lt (h : Inv m s) (hs : callbackStep s = some s') :
    s'.callbackRank < s.callbackRank := by
  rw [callbackStep.eq_def] at hs
  split at hs
  · cases hs
  rename_i cb hcb
  obtain ⟨-, hnext, hstop, hstarted⟩ := h.flow.callback cb hcb
  have hnext : cb.next < ringSize := hnext ▸ Nat.mod_lt _ ringSize_pos
  have hstop : cb.stop < ringSize := hstop ▸ slot_lt ringSize_pos _
  have hrank : s.callbackRank = cb.rank := by rw [Sys.callbackRank, hcb]; rfl
  rw [hrank, Callback.rank]
  dsimp only at hs
  split at hs
  · rename_i hst
    cases hs
    have hadv := Callback.rank_advance hnext hstop (hstarted hst).1
    rw [if_pos hst]
    exact Nat.lt_of_succ_le hadv.le
  · rename_i hst
    rw [if_neg hst]
    split at hs
    · rename_i hwalk
      split at hs
      · cases hs
        exact Nat.lt_succ_self _
      · cases hs
        have hadv := Callback.rank_advance hnext hstop hwalk.2
        change Callback.rank _ < _
        omega
    · cases hs
      exact Nat.succ_pos _

theorem Inv.callback_ends (h : Inv m s) :
    ∃ n s', exec (Transfer.step m) s (List.replicate n .callback) = some s' ∧ s'.callback = none ∧
      s'.completed = s.completed ∧ Inv m s' := by
  induction hrank : s.callbackRank using Nat.strong_induction_on generalizing s with
  | _ r ih =>
    cases hcb : s.callback with
    | none => exact ⟨0, s, rfl, hcb, rfl, h⟩
    | some cb =>
      obtain ⟨s', hs'⟩ : ∃ s', callbackStep s = some s' := by
        rw [callbackStep.eq_def, hcb]
        dsimp only
        split
        · exact ⟨_, rfl⟩
        · split
          · split <;> exact ⟨_, rfl⟩
          · exact ⟨_, rfl⟩
      have hstep : Transfer.step m s .callback = some s' := by
        rw [step.eq_def, if_neg (by rw [h.fault]; decide)]
        exact hs'
      obtain ⟨n, t, hrun, hnone, hcompleted, hinv⟩ :=
        ih _ (hrank ▸ h.callbackRank_lt hs') (h.callback_step hs') rfl
      refine ⟨n + 1, t, ?_, hnone, hcompleted.trans (callbackStep_completed hs'), hinv⟩
      rw [List.replicate_succ, exec_cons]
      exact ⟨s', hstep, hrun⟩

/-! ## The accounting -/

/-- **What the callback has finished**: DMAs are completed in the order they were started; those finished
are the first of the completed ones, each of them once, and all of them when the callback returns, which
it does. -/
structure Accounted (m : Mode) (s : Sys) : Prop where
  nodup : s.started.Nodup
  completed : s.completed <+: s.started
  finished : s.finished <+: s.completed
  all_finished : s.callback = none → s.finished = s.completed
  returns : ∃ n s', exec (step m) s (List.replicate n .callback) = some s' ∧ s'.callback = none ∧
    s'.finished = s.completed

theorem Inv.finished_eq (h : Inv m s) (hcb : s.callback = none) : s.finished = s.completed := by
  rw [h.flow.completed, Sys.called, hcb, List.append_nil]

/-- **The callback accounts for every DMA**, in every run in which no DMA is started within the range of the
oldest one, and none that is the only one is at the end of the range from `counter_done_transfer` on. -/
theorem callback_accounts {ls : List Label} (hregular : Along Regular (step m) init ls)
    (h : exec (step m) init ls = some s) : Accounted m s := by
  have hinv := inv_of_exec hregular h
  refine ⟨?_, ?_, ?_, hinv.finished_eq, ?_⟩
  · exact hinv.flow.sorted.imp Nat.ne_of_lt
  · rw [hinv.flow.completed, hinv.flow.started, Sys.unfinished, ← List.append_assoc]
    exact List.prefix_append _ _
  · rw [hinv.flow.completed]
    exact List.prefix_append _ _
  · obtain ⟨n, s', hrun, hnone, hcompleted, hinv'⟩ := hinv.callback_ends
    exact ⟨n, s', hrun, hnone, (hinv'.finished_eq hnone).trans hcompleted⟩

/-- A packet whose buffer turns out to be too small. -/
def failedPacket : List Label :=
  [.getRead, .fetch 0 [12, 100], .read, .wait (.ok 0 [12, 0] 2), .write true, .writeFailed]

/-- A packet that is sent, up to the first step of its callback. -/
def sentPacket : List Label :=
  [.getRead, .fetch 0 [12, 100], .read, .wait (.ok 0 [12, 2000] 2), .write true, .start, .submit true,
    .complete, .callback]

/-- A packet fails, and the callback of the next one goes past its item. -/
theorem failed_packet_passed :
    ∃ s, exec (step ⟨true, true⟩) init (failedPacket ++ sentPacket ++ List.replicate 3 .callback) = some s ∧
      s.callback = none ∧ s.finished = [1] ∧ Accounted ⟨true, true⟩ s := by
  have hrun : (exec (step ⟨true, true⟩) init
      (failedPacket ++ sentPacket ++ List.replicate 3 .callback)).map
        (fun s ↦ (s.callback, s.finished)) = some (none, [1]) := by decide +kernel
  have hregular : Along Regular (step ⟨true, true⟩) init
      (failedPacket ++ sentPacket ++ List.replicate 3 .callback) := by decide +kernel
  obtain ⟨s, hs, heq⟩ := Option.map_eq_some_iff.mp hrun
  simp only [Prod.mk.injEq] at heq
  exact ⟨s, hs, heq.1, heq.2, callback_accounts hregular hs⟩

/-! ## Failures that are not accounted for -/

/-- The ring after `k` packets that failed, in its first round. -/
def afterFailures (k : ℕ) : Sys :=
  { init with
    indicatorRcv := u16 k
    used := List.replicate k (0, 0)
    put := List.replicate k (0, 112)
    taken := k
    written := k }

theorem failedPacket_run {k : ℕ} (hk : k < ringSize) :
    exec (step ⟨true, true⟩) (afterFailures k) failedPacket = some (afterFailures (k + 1)) := by
  have hk' : u16 k % ringSize = k := by rw [u16_mod, slot, Nat.mod_eq_of_lt hk]
  have hu : u16 (u16 k + 1) = u16 (k + 1) := by rw [u16, u16, u16, Nat.mod_add_mod]
  simp [failedPacket, exec, step, afterFailures, init, hk', hu, readerStep, transferRead, putRead, waitStep,
    writeStep, transferWrite, transferDone, Item.usedEntry, itemReset, leaveWrite, Mode.writeInThread, Mode.intermediate,
    Mode.sendAlignmentOverhead, Item.reset, dmaMaxOffset, plxDmaAlignBytes, List.replicate_succ']

theorem failedPackets_run {k : ℕ} (hk : k ≤ ringSize) :
    exec (step ⟨true, true⟩) init (List.replicate k failedPacket).flatten = some (afterFailures k) := by
  induction k with
  | zero => rfl
  | succ k ih =>
    rw [List.replicate_succ', List.flatten_append, List.flatten_singleton, exec_append]
    exact ⟨_, ih (Nat.le_of_succ_le hk), failedPacket_run hk⟩

/-- After 511 packets that fail, the callback of the next one takes its range for empty: the item is not
finished, and no callback will come for it. -/
theorem item_never_finished :
    ∃ ls s, Along Served (step ⟨true, true⟩) init ls ∧ exec (step ⟨true, true⟩) init ls = some s ∧
      s.callback = none ∧ s.started = [511] ∧ s.completed = [511] ∧ s.finished = [] ∧
      ¬Accounted ⟨true, true⟩ s := by
  have hlast : (exec (step ⟨true, true⟩) (afterFailures 511) sentPacket).map
      (fun s ↦ (s.callback, s.started, s.completed, s.finished)) = some (none, [511], [511], []) := by
    decide +kernel
  obtain ⟨s, hs, heq⟩ := Option.map_eq_some_iff.mp hlast
  simp only [Prod.mk.injEq] at heq
  refine ⟨(List.replicate 511 failedPacket).flatten ++ sentPacket, s, along_of_mem fun l hl ↦ ?_, ?_, heq.1,
    heq.2.1, heq.2.2.1, heq.2.2.2, fun hacc ↦ ?_⟩
  · rw [List.mem_append, List.mem_flatten] at hl
    have hfailed : ∀ l ∈ failedPacket, ∀ s s', Served s l s' := by simp [failedPacket, Served]
    have hsent : ∀ l ∈ sentPacket, ∀ s s', Served s l s' := by simp [sentPacket, Served]
    rcases hl with ⟨packet, hpacket, hl⟩ | hl
    · rw [List.eq_of_mem_replicate hpacket] at hl
      exact hfailed l hl
    · exact hsent l hl
  · rw [exec_append]
    exact ⟨_, failedPackets_run (by decide), hs⟩
  · have hall := hacc.all_finished heq.1
    rw [heq.2.2.1, heq.2.2.2] at hall
    cases hall

end Vcass.Vop.Transfer
