import Vcass.BlockIo.Bcknd.Refine

/-!
# Block I/O backend: the transfer ring loses nothing

A transfer is *completed* when the DMA engine has moved its data and *processed* when
`vca_bcknd_complete_transfer` has returned its buffer to the pool. Between the two the buffer passes
the list of finished descriptors, the callback, the transfer ring and the transfer thread, in this
order and one behind the other. The invariant `Behind` says that the processed transfers followed by
the buffers on this way are the completed ones.

The one place where a transfer could get lost is the fullness test of `vca_bcknd_callback_dma`. The
transfer thread returns a buffer before it frees the ring slot, so a slot may be occupied without a
buffer; still the test never succeeds, because the pool keeps one buffer back and the callback holds
one itself (`Sim.ring_room`).

The callback and the transfer thread also get to the end of their work: left to themselves they come
to rest after a bounded number of steps (`work_decreases`), and at rest nothing is underway.
-/

namespace Vcass.BlockIo.Bcknd

open Conc

def Event.completed : Event → Option (ℕ × ℕ)
  | .moved gid _ d _ => some (gid, d.buf)
  | _ => none

def Event.processed : Event → Option (ℕ × ℕ)
  | .push gid b => some (gid, b)
  | _ => none

/-- The completed transfers, in the order of completion: the group and the buffer of each. -/
abbrev completed (log : List Event) : List (ℕ × ℕ) := history Event.completed log

/-- The transfers that `vca_bcknd_complete_transfer` is done with, in the order it processed them. -/
abbrev processed (log : List Event) : List (ℕ × ℕ) := history Event.processed log

namespace Pipe

/-- The buffers between the DMA engine and the pool, the next to be processed first. -/
def behind (a : Pipe) : List ℕ := a.xf.hand ++ a.queue ++ a.cb.hand ++ a.core.done

/-- The processed transfers and those on their way are the completed ones. -/
def Behind (a : Pipe) : Prop :=
  completed a.core.log = processed a.core.log ++ a.behind.map fun b ↦ (a.core.group b, b)

theorem behind_subset_flight (a : Pipe) : a.behind ⊆ a.flight := fun b hb ↦ by
  rw [flight, ← behind]
  exact List.mem_append_left _ hb

section BehindStep

variable {a a' : Pipe}

attribute [local simp] Event.completed Event.processed behind

theorem Behind.step (h : Behind a) (hown : a.Owned) (hs : Step a a') : Behind a' := by
  rw [Behind] at h ⊢
  cases hs with
  | @pop cookie w c cs es b b' free hq hfree =>
    -- The buffer changes its group, but a buffer of the pool is not on its way.
    have hb : b ∉ a.behind := fun hb ↦
      hown.notMem_flight_of_free (by simp [hfree]) (a.behind_subset_flight hb)
    have hmap : (a.behind.map fun x ↦ ((a.core.taken b).group x, x)) =
        a.behind.map fun x ↦ (a.core.group x, x) := by
      refine List.map_congr_left fun x hx ↦ ?_
      rw [Core.taken_group, Function.update_of_ne]
      rintro rfl
      exact hb hx
    change completed (a.core.log ++ [.pop b]) = processed (a.core.log ++ [.pop b]) ++
      a.behind.map fun x ↦ ((a.core.taken b).group x, x)
    rw [hmap]
    simpa using h
  | move hd => simp [show history Event.completed a.core.log = _ from h]
  | cbStart hcb hd => simpa [hcb, hd] using h
  | cbUnmap hcb => simpa [hcb] using h
  | cbClear hcb => simpa [hcb] using h
  | enqueue hcb => simpa [hcb] using h
  | take hxf hq => simpa [hxf, hq] using h
  | clearTx hxf => simpa [hxf] using h
  | store r hxf hr => simpa [hxf] using h
  | flush r hxf hr => simpa [hxf] using h
  | respond hxf => simpa [hxf] using h
  | push hxf => simpa [hxf] using h
  | release hxf => simpa [hxf] using h
  | _ => simpa using h

end BehindStep

end Pipe

/-! ## The work of the callback and of the transfer thread -/

/-- The steps of the callback and of the transfer thread. -/
def Label.drains : Label → Bool
  | .callbackStart => true
  | .callback _ => true
  | .transfer _ => true
  | _ => false

/-- Neither the callback nor the transfer thread can take a step. -/
def AtRest (s : Sys) : Prop := ∀ l : Label, l.drains = true → step s l = none

/-- How far the callback is from its end, read off the operation it is about to perform. -/
def callbackRank : Option (BProg Unit) → ℕ
  | none => 0
  | some (.ret _) => 1
  | some (.act (.ringSetLastAdd _) _) => 2
  | some (.act (.ringPut _ _) _) => 3
  | some (.act .ringLastUsed _) => 4
  | some (.act .ringLastAdd _) => 5
  | some (.act (.setParam _ _) _) => 6
  | some (.act _ _) => 7

/-- How far the transfer thread is from its wait. The return of the buffer finishes one transfer,
which pays for what follows it. -/
def transferRank : BProg ℕ → ℕ
  | .act (.poolPush _) _ => 5
  | .act (.sendResponse _ _ _) _ => 6
  | .act (.mediaSync _) _ => 7
  | .act (.mediaTransfer _ _ _ _) _ => 8
  | .act (.clearTx _) _ => 9
  | .act (.ringGet _) _ => 10
  | .act (.ringWait _) _ => 11
  | .ret _ => 12
  | .act _ _ => 13

/-- A bound for the steps the callback and the transfer thread can take on their own. -/
def work (s : Sys) : ℕ :=
  12 * ((completed s.log).length - (processed s.log).length) + 8 * s.shared.core.done.length +
    callbackRank s.cb + transferRank s.xf

section Work

variable {s s' : Sys} {a : Pipe}

theorem callbackRank_start (b : ℕ) (p : CallbackParam) :
    callbackRank (some (vcaBckndCallbackDma b p)) ≤ 7 := by
  rw [vcaBckndCallbackDma]
  cases p.remapped with
  | some w => exact le_rfl
  | none => exact Nat.le_add_right 5 2

theorem transferRank_stored (lastUsed b : ℕ) (p : CallbackParam) (err : ℤ) :
    transferRank (storedCode lastUsed b p err) ≤ 7 := by
  rw [storedCode]
  split
  · split
    · exact le_rfl
    · exact Nat.le_succ 6
  · exact Nat.le_add_right 5 2

theorem transferRank_begun (lastUsed b : ℕ) (p : CallbackParam) :
    transferRank (begunCode lastUsed b p) ≤ 8 := by
  rw [begunCode]
  split
  · exact le_rfl
  · exact (transferRank_stored lastUsed b p 0).trans (Nat.le_succ 7)

/-- Nothing is completed or processed, and no callback becomes due, between the two states. -/
structure Core.SameDuty (k k' : Core) : Prop where
  completed : completed k'.log = completed k.log
  processed : processed k'.log = processed k.log
  done : k'.done = k.done

theorem Core.SameDuty.refl (k : Core) : k.SameDuty k := ⟨rfl, rfl, rfl⟩

theorem work_lt_of_callback {sh : Shared} {p : BProg Unit} (hk : s.shared.core.SameDuty sh.core)
    (hrank : callbackRank (some p) < callbackRank s.cb) :
    work { s with shared := sh, cb := some p } < work s := by
  rw [work, work, Sys.log, Sys.log, hk.completed, hk.processed, hk.done]
  dsimp only
  omega

theorem work_lt_of_transfer {sh : Shared} {p : BProg ℕ} (hk : s.shared.core.SameDuty sh.core)
    (hrank : transferRank p < transferRank s.xf) :
    work { s with shared := sh, xf := p } < work s := by
  rw [work, work, Sys.log, Sys.log, hk.completed, hk.processed, hk.done]
  dsimp only
  omega

attribute [local simp] Event.completed Event.processed

theorem work_callback {c : ℤ} (h : Sim s a) (hs : step s (.callback c) = some s') :
    work s' < work s := by
  have hcb := h.cb
  generalize hp : s.cb = p at hcb
  generalize a.cb = q at hcb
  cases hcb with
  | idle => simp [step, hp] at hs
  | fin =>
    simp only [step, hp, Option.some_inj] at hs
    subst hs
    simp [work, hp, callbackRank, Sys.log]
  | unmap =>
    obtain ⟨r, sh, hsem, rfl⟩ := step_callback_act hp hs
    cases hsem
    exact work_lt_of_callback ⟨by simp, by simp, rfl⟩ (hp ▸ (by decide : 6 < 7))
  | clear =>
    obtain ⟨r, sh, hsem, rfl⟩ := step_callback_act hp hs
    cases hsem
    exact work_lt_of_callback ⟨rfl, rfl, rfl⟩ (hp ▸ (by decide : 5 < 6))
  | holding =>
    obtain ⟨r, sh, hsem, rfl⟩ := step_callback_act hp hs
    cases hsem
    exact work_lt_of_callback (.refl _) (hp ▸ (by decide : 4 < 5))
  | gotAdd =>
    obtain ⟨r, sh, hsem, rfl⟩ := step_callback_act hp hs
    cases hsem
    refine work_lt_of_callback (.refl _) (hp ▸ ?_)
    split
    · exact (by decide : 1 < 4)
    · exact (by decide : 3 < 4)
  | put =>
    obtain ⟨r, sh, hsem, rfl⟩ := step_callback_act hp hs
    cases hsem
    exact work_lt_of_callback (.refl _) (hp ▸ (by decide : 2 < 3))
  | added =>
    obtain ⟨r, sh, hsem, rfl⟩ := step_callback_act hp hs
    cases hsem
    exact work_lt_of_callback (.refl _) (hp ▸ (by decide : 1 < 2))

theorem work_transfer {c : ℤ} (h : Sim s a) (hb : a.Behind)
    (hs : step s (.transfer c) = some s') : work s' < work s := by
  have hxf := h.xf
  generalize hp : s.xf = p at hxf
  generalize hq : a.xf = q at hxf
  cases hxf with
  | loop =>
    simp only [step, hp, Option.some_inj] at hs
    subst hs
    exact work_lt_of_transfer (.refl _) (hp ▸ (by decide : 11 < 12))
  | wait =>
    obtain ⟨r, sh, hsem, rfl⟩ := step_transfer_act hp hs
    simp only [sem] at hsem
    split at hsem <;> cases hsem
    exact work_lt_of_transfer (.refl _) (hp ▸ (by decide : 10 < 11))
  | ready hne =>
    obtain ⟨r, sh, hsem, rfl⟩ := step_transfer_act hp hs
    cases hsem
    exact work_lt_of_transfer (.refl _) (hp ▸ (by decide : 9 < 10))
  | took =>
    obtain ⟨r, sh, hsem, rfl⟩ := step_transfer_act hp hs
    cases hsem
    exact work_lt_of_transfer ⟨rfl, rfl, rfl⟩
      (hp ▸ Nat.lt_succ_of_le (transferRank_begun _ _ _))
  | toStore =>
    obtain ⟨r, sh, hsem, rfl⟩ := step_transfer_act hp hs
    simp only [sem] at hsem
    split at hsem <;> cases hsem
    exact work_lt_of_transfer ⟨by simp, by simp, rfl⟩
      (hp ▸ Nat.lt_succ_of_le (transferRank_stored _ _ _ _))
  | toSync =>
    obtain ⟨r, sh, hsem, rfl⟩ := step_transfer_act hp hs
    simp only [sem] at hsem
    split at hsem <;> cases hsem
    exact work_lt_of_transfer ⟨by simp, by simp, rfl⟩ (hp ▸ (by decide : 6 < 7))
  | toRespond =>
    obtain ⟨r, sh, hsem, rfl⟩ := step_transfer_act hp hs
    cases hsem
    exact work_lt_of_transfer ⟨by simp, by simp, rfl⟩ (hp ▸ (by decide : 5 < 6))
  | @toPush b =>
    -- The only step that processes a transfer, so the ranks after it may be higher.
    have hlen := congrArg List.length hb
    rw [← h.core, Pipe.behind, hq] at hlen
    obtain ⟨r, sh, hsem, rfl⟩ := step_transfer_act hp hs
    simp only [sem] at hsem
    split at hsem <;> cases hsem
    have hrank : transferRank (releaseCode s.shared.ring.lastUsed) = 13 := rfl
    rw [work, work, hp, pushCode, hrank]
    simp only [completed, processed, Sys.log, Core.emit_log, Core.emit_done, history_snoc,
      Event.completed, Event.processed, Option.toList_none, Option.toList_some, List.append_nil, List.length_append,
      List.length_singleton, List.length_map, XfSt.hand_toPush, transferRank] at hlen ⊢
    omega
  | pushed =>
    obtain ⟨r, sh, hsem, rfl⟩ := step_transfer_act hp hs
    cases hsem
    exact work_lt_of_transfer (.refl _) (hp ▸ (by decide : 12 < 13))

theorem work_callbackStart (hs : step s .callbackStart = some s') : work s' < work s := by
  rw [step] at hs
  split at hs <;> cases hs
  rename_i b rest hcb hdone
  have hrank := callbackRank_start b (s.shared.core.param b)
  simp only [work, Sys.log, hcb, hdone, callbackRank, List.length_cons] at hrank ⊢
  omega

end Work

/-- **A step of the callback or of the transfer thread** brings them closer to their rest and
completes no transfer. -/
theorem work_decreases {s s' : Sys} {a : Pipe} {l : Label} (h : Sim s a) (hb : a.Behind)
    (hl : l.drains = true) (hs : step s l = some s') : work s' < work s := by
  cases l with
  | callbackStart => exact work_callbackStart hs
  | callback c => exact work_callback h hs
  | transfer c => exact work_transfer h hb hs
  | _ => cases hl

/-! ## Every run -/

section AtRest

variable {s : Sys} {a : Pipe}

theorem AtRest.callback_idle (hr : AtRest s) (h : Sim s a) : s.cb = none ∧ a.cb = .idle := by
  have hcb := h.cb
  have hstep := hr (.callback 0) rfl
  generalize hp : s.cb = p at hcb
  generalize a.cb = q at hcb ⊢
  cases hcb with
  | idle => exact ⟨rfl, rfl⟩
  | _ => simp [step, hp, advance, sem, enqueueCode, Prog.perform] at hstep

theorem AtRest.transfer_idle (hr : AtRest s) (h : Sim s a) : a.xf = .idle ∧ a.queue = [] := by
  have hxf := h.xf
  obtain ⟨used, hring⟩ := h.ring
  have hstep := hr (.transfer 0) rfl
  generalize hp : s.xf = p at hxf
  generalize hq : a.xf = q at hxf hring
  cases hxf with
  | wait =>
    refine ⟨rfl, (hring.empty_iff h.queue_le).mp ?_⟩
    by_contra hempty
    simp [step, hp, vcablkBckndDiskMakeTransferThread, advance, sem, hempty, Prog.perform] at hstep
  | toPush =>
    obtain ⟨pool, hpush, -⟩ := h.pool_push hq
    simp [step, hp, advance, pushCode, sem, hpush] at hstep
  | _ =>
    simp [step, hp, advance, sem, takenCode, respondCode, releaseCode, isErrno] at hstep

theorem AtRest.behind_eq_nil (hr : AtRest s) (h : Sim s a) : a.behind = [] := by
  obtain ⟨hnone, hcb⟩ := hr.callback_idle h
  obtain ⟨hxf, hqueue⟩ := hr.transfer_idle h
  have hdone : a.core.done = [] := by
    rw [← h.core]
    have hstep := hr .callbackStart rfl
    by_contra hne
    obtain ⟨b, rest, hdone⟩ := List.exists_cons_of_ne_nil hne
    simp [step, hnone, hdone] at hstep
  rw [Pipe.behind, hxf, hqueue, hcb, hdone]
  rfl

end AtRest

theorem exec_behind {media mem : ℕ → UInt8} {ls : List Label} {s : Sys}
    (h : exec step (init media mem) ls = some s) : ∃ a, Sim s a ∧ a.Behind := by
  obtain ⟨a, hsim, -, hb⟩ : ∃ a, Sim s a ∧ a.Owned ∧ a.Behind :=
    exec_invariant_pipe (C := fun _ _ ↦ True) (along_of_forall fun _ _ _ ↦ trivial) h
      ⟨(Sim.start media mem).owned, rfl⟩ fun ha hs _ ↦ ⟨ha.1.step hs, ha.2.step ha.1 hs⟩
  exact ⟨a, hsim, hb⟩

theorem sem_completed {s s' : Shared} {o : Op} {c : ℤ} {r : Res o}
    (h : sem s o c = some (r, s')) : completed s'.core.log = completed s.core.log := by
  cases o with
  | ioremap phys len =>
    simp only [sem] at h
    split at h <;> cases h <;> simp [Event.completed]
  | getTransferParam =>
    simp only [sem] at h
    split at h
    · cases h
    · split at h <;> cases h
      simp [Event.completed]
  | mediaTransfer sector nsec b write =>
    simp only [sem] at h
    split at h <;> cases h
    split <;> simp [Event.completed]
  | poolPush b | mediaSync who | dmaAsync b w off bytes write | ringWait lastUsed =>
    simp only [sem] at h
    split at h <;> cases h
    simp [Event.completed]
  | _ =>
    cases h
    simp [Event.completed]

theorem completed_of_drains {s s' : Sys} {l : Label} (hl : l.drains = true)
    (hs : step s l = some s') : completed s'.log = completed s.log := by
  cases l with
  | callbackStart =>
    rw [step] at hs
    split at hs <;> cases hs
    rfl
  | callback c =>
    rcases hp : s.cb with _ | ⟨_ | ⟨o, k⟩⟩
    · simp [step, hp] at hs
    · simp only [step, hp, Option.some_inj] at hs
      subst hs
      rfl
    · obtain ⟨r, sh, hsem, rfl⟩ := step_callback_act hp hs
      exact sem_completed hsem
  | transfer c =>
    rcases hp : s.xf with _ | ⟨o, k⟩
    · simp only [step, hp, Option.some_inj] at hs
      subst hs
      rfl
    · obtain ⟨r, sh, hsem, rfl⟩ := step_transfer_act hp hs
      exact sem_completed hsem
  | _ => cases hl

/-- The callback and the transfer thread, left to themselves, come to rest, and then every completed
transfer is processed. -/
theorem drain_bounded {media mem : ℕ → UInt8} {ls ls' : List Label} {s t : Sys}
    (h : exec step (init media mem) ls = some s) (hdrain : ∀ l ∈ ls', l.drains = true)
    (ht : exec step s ls' = some t) :
    ls'.length ≤ work s ∧ completed t.log = completed s.log := by
  induction ls' generalizing s ls with
  | nil =>
    rw [exec_nil, Option.some_inj] at ht
    exact ⟨Nat.zero_le _, ht ▸ rfl⟩
  | cons l ls' ih =>
    obtain ⟨s', hs', ht⟩ := exec_cons.mp ht
    have hl := hdrain l List.mem_cons_self
    obtain ⟨a, hsim, hb⟩ := exec_behind h
    have hrun : exec step (init media mem) (ls ++ [l]) = some s' :=
      exec_append.mpr ⟨s, h, exec_cons.mpr ⟨s', hs', exec_nil⟩⟩
    obtain ⟨hlen, hcompleted⟩ :=
      ih hrun (fun l hl ↦ hdrain l (List.mem_cons_of_mem _ hl)) ht
    have hwork := work_decreases hsim hb hl hs'
    refine ⟨?_, hcompleted.trans (completed_of_drains hl hs')⟩
    rw [List.length_cons]
    omega

/-- **The transfer ring never drops a completion.** Whenever the callback tests the ring, it is not
full and the callback goes on to insert its buffer. The processed transfers are the first ones
completed, in the order of completion. And the callback and the transfer thread, left to themselves,
come to rest after at most `work s` steps, when all transfers completed so far are processed. -/
theorem transfers_processed_in_order {media mem : ℕ → UInt8} {ls : List Label} {s : Sys}
    (h : exec step (init media mem) ls = some s) :
    (∀ k, s.cb = some (.act .ringLastUsed k) →
        vcaRbBuffFull s.shared.ring.lastAdd s.shared.ring.lastUsed vcablkTransferRingSize = false ∧
          ∃ b, k s.shared.ring.lastUsed = do
            call (.ringPut (vcaRbCounterToIdx s.shared.ring.lastAdd vcablkTransferRingSize) b)
            call (.ringSetLastAdd
              (vcaRbCounterAdd s.shared.ring.lastAdd 1 vcablkTransferRingSize))) ∧
      processed s.log <+: completed s.log ∧
      ∀ ls' t, (∀ l ∈ ls', l.drains = true) → exec step s ls' = some t →
        ls'.length ≤ work s ∧ (AtRest t → processed t.log = completed s.log) := by
  obtain ⟨a, hsim, hb⟩ := exec_behind h
  refine ⟨fun k hk ↦ ?_, ?_, fun ls' t hdrain ht ↦ ?_⟩
  · obtain ⟨used, hring⟩ := hsim.ring
    have hcb := hsim.cb
    rw [hk] at hcb
    generalize hq : a.cb = q at hcb
    cases hcb with
    | @gotAdd b =>
      have hroom := hring.not_full (hsim.ring_room hq)
      refine ⟨hroom, b, ?_⟩
      exact if_neg (Bool.eq_false_iff.mp hroom)
  · rw [Sys.log, hsim.core, hb]
    exact List.prefix_append ..
  · obtain ⟨hlen, hcompleted⟩ := drain_bounded h hdrain ht
    refine ⟨hlen, fun hr ↦ ?_⟩
    obtain ⟨a', hsim', hb'⟩ := exec_behind (exec_append.mpr ⟨s, h, ht⟩)
    rw [Pipe.Behind, hr.behind_eq_nil hsim', List.map_nil, List.append_nil, ← hsim'.core] at hb'
    rw [← hcompleted, Sys.log, hb']

/-- A write served from reception to completion: its one transfer is completed, nothing is left to
do, and it is processed. -/
theorem write_processed :
    ∃ s, exec step (init (fun _ ↦ 0) fun _ ↦ 0) (writeRun ++ [.transfer 0]) = some s ∧
      completed s.log = [(0, 0)] ∧ AtRest s ∧ processed s.log = completed s.log := by
  obtain ⟨s, hs, hcompleted, hrest⟩ : ∃ s,
      exec step (init (fun _ ↦ 0) fun _ ↦ 0) (writeRun ++ [.transfer 0]) = some s ∧
      completed s.log = [(0, 0)] ∧ AtRest s := by
    refine ⟨_, rfl, rfl, fun l hl ↦ ?_⟩
    cases l with
    | fetch g => cases hl
    | request c => cases hl
    | dma => cases hl
    | callbackStart => rfl
    | callback c => rfl
    | transfer c => rfl
  exact ⟨s, hs, hcompleted, hrest,
    ((transfers_processed_in_order hs).2.2 [] s (by simp) exec_nil).2 hrest⟩

end Vcass.BlockIo.Bcknd
