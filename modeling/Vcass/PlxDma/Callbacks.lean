import Vcass.PlxDma.Steps

/-!
# PLX DMA: transactions and their callbacks

What the descriptor ring is for: every submitted transaction comes to its callback stage once, in the
order of submission and after its descriptors, and no entry is written while it is in use. The numbers of
descriptors have to be right for this; `num_desc` is an `int`, and for a length that overflows it the ring
can be filled without a place being left.
-/

namespace Vcass.PlxDma

open Conc

/-- What a user of the channel relies on. -/
structure Sound (s : Sys) : Prop where
  /-- No descriptor and no `tx_array` entry was overwritten while it was in use. -/
  clobbered : s.clobbered = false
  /-- The transactions are passed in the order of their submission, each of them once. -/
  passed : s.passed = List.range s.passed.length ∧ s.passed.length ≤ s.subs.length
  /-- The callbacks that were set are called, and no others. -/
  called : s.called = s.passed.filter fun t ↦ (s.subs.map Sub.callback).getD t false
  /-- A transaction is passed when the hardware has done all its descriptors. -/
  done : ∀ t ∈ s.passed, ∀ p, s.written[p]? = some t → p ∈ s.completed
  completedCookie : s.completedCookie =
    (s.passed.getLast?.bind fun t ↦ s.subs[t]?.map Sub.cookie).getD dmaMinCookie
  /-- A cleanup passes all transactions that were submitted and done when it began. -/
  cleaned : s.cleanup = .idle → ∀ t sub, s.subs[t]? = some sub → sub.last < s.cleanDone →
    sub.last < s.cleanHead → t ∈ s.passed

theorem Inv.sound {s : Sys} (h : Inv s) : Sound s where
  clobbered := h.clobbered
  passed := ⟨h.stages.passed_eq, h.subs.le⟩
  called := h.stages.called_eq
  done t ht p hp := by
    rw [h.stages.passed_eq, List.mem_range] at ht
    obtain ⟨sub, hsub⟩ : ∃ sub, s.subs[t]? = some sub :=
      ⟨_, List.getElem?_eq_getElem (ht.trans_le h.subs.le)⟩
    have hlast := (h.written p t hp).2 sub hsub
    have hpassed := h.subs.passed t sub ht hsub
    have hdone := h.places.passes_le_done
    rw [h.completed, List.mem_range]
    omega
  completedCookie := h.stages.cookie_eq
  cleaned hidle t sub hsub hdone hhead := by
    have hok := h.places.cleanup
    rw [hidle] at hok
    rw [h.stages.passed_eq, List.mem_range]
    by_contra hle
    have hpending := h.subs.pending t sub (Nat.not_lt.mp hle) hsub
    rcases hok.1 with hd | hc <;> omega

/-! ## A cleanup comes to its end -/

section Ends

variable {s : Sys}

/-- How many steps a cleanup can still take. -/
def Sys.cleanupLeft (s : Sys) : ℕ :=
  match s.cleanup with
  | .idle => 0
  | .loop _ _ => 3 * (s.cleanHead - s.passes) + 2
  | .again _ _ => 3 * (s.cleanHead - s.passes) + 1
  | .stage _ _ => 3 * (s.cleanHead - s.passes)
  | .store _ => 1

theorem cleanup_left_lt (h : Inv s) (hc : s.cleanup ≠ .idle) :
    (cleanup s).cleanupLeft < s.cleanupLeft := by
  have hok := h.places.cleanup
  cases hcl : s.cleanup with
  | idle => exact absurd hcl hc
  | loop i k =>
    simp only [cleanup, Sys.cleanupLeft, hcl]
    split_ifs <;> simp only <;> omega
  | again i k =>
    rw [hcl] at hok
    have hlt := hok.2.2.1
    simp only [cleanup, Sys.cleanupLeft, hcl]
    split_ifs <;> simp only <;> omega
  | stage i k =>
    rw [hcl] at hok
    have hlt := hok.2.2.1
    simp only [cleanup, stage, Sys.cleanupLeft, hcl]
    omega
  | store i =>
    simp only [cleanup, Sys.cleanupLeft, hcl]
    exact Nat.one_pos

theorem cleanup_keeps (hc : s.cleanup ≠ .idle) :
    (cleanup s).subs = s.subs ∧ (cleanup s).cleanDone = s.cleanDone ∧ (cleanup s).cleanHead = s.cleanHead := by
  rw [cleanup.eq_def]
  cases hcl : s.cleanup with
  | idle => exact absurd hcl hc
  | loop i k | again i k | stage i k | store i => exact ⟨rfl, rfl, rfl⟩

theorem cleanup_ends (h : Inv s) :
    ∃ n s', exec step s (List.replicate n Label.cleanup) = some s' ∧ Inv s' ∧ s'.cleanup = .idle ∧
      s'.subs = s.subs ∧ s'.cleanDone = s.cleanDone ∧ s'.cleanHead = s.cleanHead := by
  induction hm : s.cleanupLeft using Nat.strong_induction_on generalizing s with
  | _ m ih =>
    by_cases hc : s.cleanup = .idle
    · exact ⟨0, s, rfl, h, hc, rfl, rfl, rfl⟩
    · have hlt := cleanup_left_lt h hc
      obtain ⟨hsubs, hdone, hhead⟩ := cleanup_keeps hc
      obtain ⟨n, s', hrun, hinv, hidle, hsubs', hdone', hhead'⟩ := ih _ (hm ▸ hlt) (cleanup_inv h) rfl
      refine ⟨n + 1, s', ?_, hinv, hidle, hsubs'.trans hsubs, hdone'.trans hdone, hhead'.trans hhead⟩
      rw [List.replicate_succ, exec_cons]
      exact ⟨cleanup s, rfl, hrun⟩

end Ends

/-- When all that was submitted is done, a cleanup that is left alone passes all of it. -/
def Cleanable (s : Sys) : Prop :=
  s.prep = .idle → s.cleanup = .idle → (∀ sub ∈ s.subs, sub.last ∈ s.completed) →
    ∃ n s', exec step s (List.replicate n Label.cleanup) = some s' ∧ s'.cleanup = .idle ∧
      s'.passed = List.range s.subs.length

theorem Inv.cleanable {s : Sys} (h : Inv s) : Cleanable s := by
  intro hprep hidle hdone
  obtain ⟨n, s', hrun, hinv, hidle', hsubs, hcleanDone, hcleanHead⟩ := cleanup_ends (cleanup_inv h)
  have hstart : (cleanup s).subs = s.subs ∧ (cleanup s).cleanDone = s.completed.length ∧
      (cleanup s).cleanHead = s.written.length := by
    rw [cleanup.eq_def, hidle]
    refine ⟨rfl, rfl, ?_⟩
    simp only [hprep]
    rfl
  refine ⟨n + 1, s', ?_, hidle', ?_⟩
  · rw [List.replicate_succ, exec_cons]
    exact ⟨cleanup s, rfl, hrun⟩
  · have hsound := hinv.sound
    have hlen : s'.passed.length = s.subs.length := by
      refine Nat.le_antisymm ?_ ?_
      · have hle := hsound.passed.2
        rwa [hsubs, hstart.1] at hle
      · -- The last transaction is passed, and with it all before.
        by_contra hlt
        have hk : s'.passed.length < s.subs.length := Nat.not_le.mp hlt
        have hsub : s'.subs[s'.passed.length]? = some s.subs[s'.passed.length] := by
          rw [hsubs, hstart.1, List.getElem?_eq_getElem hk]
        have hmem : s.subs[s'.passed.length] ∈ s.subs := List.getElem_mem hk
        have hdone' := hdone _ hmem
        rw [h.completed, List.mem_range] at hdone'
        have hle := h.places.done_lt
        have hin := hsound.cleaned hidle' _ _ hsub (by omega) (by omega)
        rw [hsound.passed.1, List.mem_range, List.length_range] at hin
        exact absurd hin (Nat.lt_irrefl _)
    rw [hsound.passed.1, hlen]

/-- In every run in which the number of descriptors of each transaction is positive as an `int`. -/
theorem transactions_sound {ls : List Label} {s : Sys} (hls : ∀ l ∈ ls, Countable l)
    (hs : exec step init ls = some s) : Sound s ∧ Cleanable s :=
  ⟨(exec_inv hls hs).sound, (exec_inv hls hs).cleanable⟩

/-- Two transactions, the second of two descriptors; the first is done and cleaned up in between. -/
def twoRun : List Label :=
  [Label.prep 64, Label.prepStep, Label.prepStep, Label.submit true, Label.submitStep, Label.submitStep,
    Label.complete, Label.cleanup, Label.prep 0x8000000, Label.cleanup, Label.prepStep, Label.prepStep,
    Label.cleanup, Label.prepStep, Label.prepStep, Label.cleanup, Label.submit true, Label.cleanup]

theorem two_transactions_sound :
    ∃ s, exec step init twoRun = some s ∧ s.called = [0] ∧ s.completedCookie = 2 ∧ Sound s ∧ Cleanable s := by
  have hrun : (exec step init twoRun).map (fun s ↦ (s.called, s.completedCookie)) = some ([0], 2) := by
    decide +kernel
  obtain ⟨s, hs, hlast⟩ := Option.map_eq_some_iff.mp hrun
  obtain ⟨hcalled, hcookie⟩ := Prod.mk.inj hlast
  exact ⟨s, hs, hcalled, hcookie, transactions_sound (by decide) hs⟩

/-! ## An overflow -/

section Overflow

variable {s : Sys}

/-- The loop of `plx_dma_prog_memcpy_desc`, while nobody else moves. -/
theorem program_run {n : BitVec 32} {k : ℕ} (hprep : s.prep = .program n) (hn : n.toNat = k + 1) :
    ∃ s', exec step s (List.replicate (2 * k + 1) Label.prepStep) = some s' ∧ s'.prep = .prepared ∧
      s'.written.length = s.written.length + k + 1 ∧ s'.lastTail = s.lastTail ∧ s'.passes = s.passes := by
  induction k generalizing s n with
  | zero =>
    have hlast : n - 1 = 0 := (sub_one_eq_zero_iff (by omega)).mpr hn
    refine ⟨program s n, ?_, ?_, ?_, rfl, rfl⟩
    · rw [Nat.mul_zero, Nat.zero_add, List.replicate_one, exec_cons]
      refine ⟨program s n, ?_, exec_nil⟩
      rw [step, prepStep, hprep]
    · simp only [program, if_pos hlast]
    · simp only [program, List.length_append, List.length_singleton]
  | succ k ih =>
    have hlast : ¬n - 1 = 0 := fun h ↦ by
      have hone := (sub_one_eq_zero_iff (by omega)).mp h
      omega
    have hn' : (n - 1).toNat = k + 1 := by
      rw [toNat_sub_one (by omega), hn]
      rfl
    obtain ⟨s', hrun, hprep', hlen, htail, hpasses⟩ :=
      ih (s := { program s n with head := ringInc s.head, prep := .program (n - 1) }) rfl hn'
    refine ⟨s', ?_, hprep', ?_, htail, hpasses⟩
    · rw [show 2 * (k + 1) + 1 = 2 * k + 1 + 1 + 1 by omega, List.replicate_succ, List.replicate_succ, exec_cons]
      refine ⟨program s n, ?_, ?_⟩
      · rw [step, prepStep, hprep]
      · rw [exec_cons]
        refine ⟨_, ?_, hrun⟩
        rw [step, prepStep]
        simp only [program, if_neg hlast]
    · rw [hlen]
      simp only [program, List.length_append, List.length_singleton]
      omega

/-- A transaction whose number of descriptors is 0 in 64 bits, and a small one. -/
def overflowTail : List Label :=
  [Label.prep 0xFFFFFFFFFFFFFFFF, Label.prepStep, Label.submit true, Label.submitStep, Label.submitStep,
    Label.prep 64, Label.prepStep, Label.prepStep]

theorem overflowTail_clobbers (hprep : s.prep = .idle) (hhead : s.head = 2047) (htail : s.lastTail = 0)
    (hdesc : (s.desc 0).num.isSome = true) : ∃ s', exec step s overflowTail = some s' ∧ s'.clobbered = true := by
  have hnone : numDesc 0xFFFFFFFFFFFFFFFF = 0 := by decide
  have hone : numDesc 64 = 1 := by decide
  have hfull : plxDmaRingCount 2047 0 = 0 := by decide
  have hempty : plxDmaRingCount 0 0 = 2047 := by decide
  have hwrap : ringInc 2047 = 0 := by decide
  simp [overflowTail, exec, step, prepStep, submit, submitStep, spaceFound, program, hprep, hhead, htail, hnone,
    hone, hfull, hempty, hwrap, hdesc]

/-- A transaction that takes all descriptors but the one that is kept. -/
def fillRun : List Label :=
  [Label.prep (2047 * maxXferSize), Label.prepStep] ++
    (List.replicate (2 * 2046 + 1) Label.prepStep ++ [Label.submit true, Label.submitStep, Label.submitStep])

theorem fillRun_countable : ∀ l ∈ fillRun, Countable l := by
  intro l hl
  simp only [fillRun, List.mem_append, List.mem_cons, List.mem_replicate, List.not_mem_nil, or_false] at hl
  rcases hl with (rfl | rfl) | ⟨-, rfl⟩ | rfl | rfl | rfl <;> decide

theorem fillRun_fills : ∃ s, exec step init fillRun = some s ∧ s.prep = .idle ∧ s.written.length = 2047 ∧
    s.lastTail = 0 ∧ s.passes = 0 := by
  have hstart : exec step init [Label.prep (2047 * maxXferSize), Label.prepStep] =
      some { init with prep := .program 2047 } := by
    have hnum : numDesc (2047 * maxXferSize) = 2047 := by decide
    simp [exec, step, prepStep, init, hnum, spaceFound, plxDmaRingCount, ringSize]
  obtain ⟨s, hrun, hprep, hlen, htail, hpasses⟩ :=
    program_run (s := { init with prep := .program 2047 }) (n := 2047) (k := 2046) rfl (by decide)
  obtain ⟨t, hsubmit, hidle, hlen', htail', hpasses'⟩ :
      ∃ t, exec step s [Label.submit true, Label.submitStep, Label.submitStep] = some t ∧ t.prep = .idle ∧
        t.written.length = s.written.length ∧ t.lastTail = s.lastTail ∧ t.passes = s.passes := by
    simp [exec, step, submit, submitStep, hprep]
  exact ⟨t, exec_append.mpr ⟨_, hstart, exec_append.mpr ⟨s, hrun, hsubmit⟩⟩, hidle, hlen'.trans hlen,
    htail'.trans htail, hpasses'.trans hpasses⟩

/-- The descriptors of the first transaction are overwritten before the hardware has done them. -/
theorem overflow_clobbers_ring :
    (exec step init (fillRun ++ overflowTail)).map Sys.clobbered = some true := by
  obtain ⟨s, hrun, hprep, hlen, htail, hpasses⟩ := fillRun_fills
  have h := exec_inv fillRun_countable hrun
  have hhead : s.head = 2047 := by
    rw [h.places.head, Sys.headNum, hprep, hlen]
    decide
  have hfreed : s.freed = 0 := Nat.le_zero.mp (hpasses ▸ h.places.freed_le)
  have hat := h.desc 0 (le_of_eq hfreed) (by rw [hfreed]; decide)
  have hdesc : (s.desc 0).num = some 0 := hat.num_eq (by omega)
  obtain ⟨t, htail', hclobbered⟩ := overflowTail_clobbers hprep hhead htail (by rw [hdesc]; rfl)
  rw [exec_append.mpr ⟨s, hrun, htail'⟩, Option.map_some, hclobbered]

end Overflow

end Vcass.PlxDma
