import Vcass.Vop.Transfer.Completion

/-!
# VOP: packets do not get stuck

Every item that is taken is finished. The tasks, the DMA engine and the callback always have a step to make
for it, unless the read task itself waits for a chain or for a buffer of the peer; and each of these steps
lowers a weight, so there are only so many of them before the item is ready again. Items that are taken in
the meantime add to the weight, but there are less than 512 of them: the next one would be this item.
-/

namespace Vcass.Vop.Transfer

open Conc RingCounter
open Function (update)

variable {m : Mode} {s s' : Sys} {l : Label} {k : ℕ}

/-- The steps of the driver and the DMA engine; the others are those of a waiting read task, and of its
environment. -/
def Label.works : Label → Bool
  | .getRead | .fetch _ _ | .wait _ | .stop => false
  | _ => true

/-! ## The weight -/

def Reader.weight : Reader → ℕ
  | .idle => 0
  | .hold _ => 1033
  | .read _ => 1032
  | .failed _ => 1
  | .wait _ => 1031
  | .post _ => 1030
  | .write _ => 0

def Writer.weight : Writer → ℕ
  | .idle => 0
  | .write _ => 1028
  | .send _ => 1027
  | .submit _ => 1026
  | .failed _ => 1

/-- How many items are in the queue of the DMA task. -/
def Sys.backlog (s : Sys) : ℕ := s.taken - s.reader.holds - s.written - s.writer.holds

/-- A bound of the steps until the items that are taken are finished: a DMA costs its completion and a
callback of 1023 steps. -/
def Sys.weight (s : Sys) : ℕ :=
  s.reader.weight + 1029 * s.backlog + s.writer.weight + 1024 * s.dma.length + s.callbackRank

/-- The same, with the items that may be taken before turn `k` is over. -/
def Sys.weightUntil (s : Sys) (k : ℕ) : ℕ := s.weight + 1034 * (k + ringSize - s.taken)

section Done

variable (s) (i : ℕ)

theorem transferDone_fields : (transferDone s i).reader = s.reader ∧ (transferDone s i).writer = s.writer ∧
    (transferDone s i).taken = s.taken ∧ (transferDone s i).written = s.written ∧
    (transferDone s i).callback = s.callback ∧ (transferDone s i).dma.length = s.dma.length := by
  simp only [transferDone]
  split <;> split <;> refine ⟨rfl, rfl, rfl, rfl, rfl, ?_⟩
  all_goals
    first
      | rfl
      | simp only [itemReset]
        split <;> simp

end Done

/-- The end of a write lowers the weight by that of the write. -/
theorem weight_leave {i : ℕ} (hi : s.writer.item? = some i)
    (hinline : m.writeInThread = false → s.written + s.reader.holds = s.taken ∧
      (s.writer.holds = 1 → ∃ j, s.reader = .write j)) :
    (leaveWrite m s).weight + s.writer.weight = s.weight := by
  have hholds : s.writer.holds = 1 := by rw [Writer.holds, hi]; rfl
  cases hm : m.writeInThread with
  | true =>
    rw [leaveWrite_thread m s hm]
    simp only [Sys.weight, Sys.backlog, Sys.callbackRank, hholds, Writer.weight,
      show Writer.idle.holds = 0 from rfl]
    omega
  | false =>
    obtain ⟨htaken, hwriter⟩ := hinline hm
    obtain ⟨j, hj⟩ := hwriter hholds
    rw [leaveWrite_inline m s hm]
    rw [hj, show (Reader.write j).holds = 1 from rfl] at htaken
    simp only [Sys.weight, Sys.backlog, Sys.callbackRank, hholds, hj, Writer.weight, Reader.weight,
      show Writer.idle.holds = 0 from rfl, show Reader.idle.holds = 0 from rfl,
      show (Reader.write j).holds = 1 from rfl]
    omega

/-- The weight sees the tasks, the lengths of the queues and the callback. -/
theorem weight_congr (hreader : s'.reader = s.reader) (hwriter : s'.writer = s.writer)
    (htaken : s'.taken = s.taken) (hwritten : s'.written = s.written) (hcallback : s'.callback = s.callback)
    (hdma : s'.dma.length = s.dma.length) : s'.weight = s.weight := by
  rw [Sys.weight, Sys.weight, Sys.backlog, Sys.backlog, Sys.callbackRank, Sys.callbackRank, hreader,
    hwriter, htaken, hwritten, hcallback, hdma]

theorem Inv.weight_wait {r : Wait} (h : Inv m s) (herr : r ≠ .err) (hs : waitStep m s r = some s') :
    s'.weight ≤ s.weight ∧ s'.taken = s.taken := by
  cases hr : s.reader with
  | wait i =>
    rw [waitStep.eq_def, hr] at hs
    cases r with
    | busy =>
      cases hs
      exact ⟨le_rfl, rfl⟩
    | err => exact absurd rfl herr
    | ok head kvecs num =>
      dsimp only at hs
      split at hs
      · cases hs
        refine ⟨?_, rfl⟩
        simp only [Sys.weight, Sys.backlog, Sys.callbackRank, hr, Reader.weight,
          show (Reader.wait i).holds = 1 from rfl, show (Reader.post i).holds = 1 from rfl]
        omega
      · rename_i hm
        cases hs
        obtain ⟨htaken, -, hwriter⟩ := h.stages.inline (by simpa using hm)
        refine ⟨?_, rfl⟩
        rw [hr, show (Reader.wait i).holds = 1 from rfl] at htaken
        simp only [Sys.weight, Sys.backlog, Sys.callbackRank, hr, Reader.weight, Writer.weight,
          show (Reader.wait i).holds = 1 from rfl, show (Reader.write i).holds = 1 from rfl]
        omega
  | _ =>
    rw [waitStep.eq_def, hr] at hs
    cases hs

theorem Inv.weight_pick (h : Inv m s) (hs : pickStep m s = some s') :
    s'.weight < s.weight ∧ s'.taken = s.taken := by
  rw [pickStep] at hs
  split at hs
  case isFalse => cases hs
  rename_i hpick
  obtain ⟨hm, -, hidle, hne⟩ := hpick
  obtain ⟨hsend, hlast, hle, -⟩ := h.stages.thread hm
  have hlt : s.written < s.taken - s.reader.holds := by
    have : s.written ≠ s.taken - s.reader.holds := fun heq ↦ hne (by rw [hlast, hsend, heq])
    omega
  have hready := (h.item_of_live (.inr ⟨le_rfl, by omega⟩)).1
  dsimp only at hs
  rw [hlast, u16_mod, hready] at hs
  cases hs
  refine ⟨?_, rfl⟩
  simp only [Sys.weight, Sys.backlog, Sys.callbackRank, hidle, Writer.weight,
    show Writer.idle.holds = 0 from rfl, show (Writer.write (slot ringSize s.written)).holds = 1 from rfl]
  omega

theorem Stages.inline_write (h : Stages m s) (hm : m.writeInThread = false) :
    s.written + s.reader.holds = s.taken ∧ (s.writer.holds = 1 → ∃ j, s.reader = .write j) :=
  ⟨(h.inline hm).1, (h.inline hm).2.2.mp⟩

theorem Stages.weight_done {i : ℕ} (h : Stages m s) (hi : s.writer.item? = some i) :
    (leaveWrite m (transferDone s i)).weight + s.writer.weight = s.weight ∧
      (leaveWrite m (transferDone s i)).taken = s.taken := by
  obtain ⟨hreader, hwriter, htaken, hwritten, hcallback, hdma⟩ := transferDone_fields s i
  have hleave := weight_leave (m := m) (s := transferDone s i) (i := i) (by rw [hwriter, hi]) (by
    rw [hreader, hwriter, htaken, hwritten]
    exact h.inline_write)
  rw [hwriter, weight_congr hreader hwriter htaken hwritten hcallback hdma] at hleave
  exact ⟨hleave, (leaveWrite_taken m _).trans htaken⟩

theorem Inv.weight_write {remap : Bool} (h : Inv m s) (hs : writeStep m s remap = some s') :
    s'.weight < s.weight ∧ s'.taken = s.taken := by
  rw [writeStep.eq_def] at hs
  split at hs
  case h_2 => cases hs
  rename_i i hw
  have hi : s.writer.item? = some i := by rw [hw]; rfl
  have hweight : s.writer.weight = 1028 := by rw [hw]; rfl
  dsimp only at hs
  split at hs
  · split at hs
    · cases hs
      refine ⟨?_, rfl⟩
      simp only [Sys.weight, Sys.backlog, Sys.callbackRank, hw, Writer.weight,
        show (Writer.write i).holds = 1 from rfl, show (Writer.send i).holds = 1 from rfl]
      omega
    · cases hs
      set s₁ : Sys := { s with items := update s.items i (transferWrite m (s.items i) remap).1 }
      have hstages : Stages m s₁ := ⟨h.stages.holds_le, h.stages.reader, h.stages.not_failed,
        h.stages.writer, h.stages.thread, h.stages.inline⟩
      obtain ⟨hdone, htaken⟩ := hstages.weight_done hi
      have hsame : s₁.weight = s.weight := rfl
      have hwriter : s₁.writer.weight = 1028 := hweight
      exact ⟨by omega, htaken⟩
  · cases hs
    refine ⟨?_, rfl⟩
    simp only [Sys.weight, Sys.backlog, Sys.callbackRank, hw, Writer.weight,
      show (Writer.write i).holds = 1 from rfl, show (Writer.failed i).holds = 1 from rfl]
    omega

theorem Inv.weight_submit {ok : Bool} (h : Inv m s) (hs : submitStep m s ok = some s') :
    s'.weight < s.weight ∧ s'.taken = s.taken := by
  rw [submitStep.eq_def] at hs
  split at hs
  case h_2 => cases hs
  rename_i i hw
  have hi : s.writer.item? = some i := by rw [hw]; rfl
  have hweight : s.writer.weight = 1026 := by rw [hw]; rfl
  obtain ⟨hlive, hslot, -⟩ := h.writer_live hi
  have htx : (s.items i).tx = false := by
    rw [hslot, ← Bool.not_eq_true, (h.item_of_live hlive).2.2.2.1]
    exact fun hmem ↦ h.written_not_mem (Flow.mem_unfinished_of_queued hmem)
  dsimp only at hs
  rw [if_neg (Bool.eq_false_iff.mp htx)] at hs
  cases ok with
  | true =>
    cases hs
    set s₁ : Sys := { s with
      items := update s.items i { s.items i with tx := true }
      dma := s.dma ++ [⟨i, (s.items i).turn, true⟩]
      started := s.started ++ [(s.items i).turn] }
    have hstages : Stages m s₁ := ⟨h.stages.holds_le, h.stages.reader, h.stages.not_failed,
      h.stages.writer, h.stages.thread, h.stages.inline⟩
    have hleave := weight_leave (m := m) (s := s₁) hi hstages.inline_write
    have hwriter : s₁.writer.weight = 1026 := hweight
    have hsame : s₁.weight = s.weight + 1024 := by
      have hlen : s₁.dma.length = s.dma.length + 1 := List.length_append
      rw [Sys.weight, hlen, Sys.weight]
      change s.reader.weight + 1029 * s.backlog + s.writer.weight + 1024 * (s.dma.length + 1) +
        s.callbackRank = _
      omega
    exact ⟨by omega, leaveWrite_taken m s₁⟩
  | false =>
    cases hs
    refine ⟨?_, rfl⟩
    simp only [Sys.weight, Sys.backlog, Sys.callbackRank, hw, Writer.weight,
      show (Writer.submit i).holds = 1 from rfl, show (Writer.failed i).holds = 1 from rfl]
    omega

theorem Callback.rank_le (cb : Callback) : cb.rank ≤ 1023 := by
  have hlt : missed cb.next cb.stop < 512 := Nat.mod_lt _ (by decide)
  rw [Callback.rank]
  split <;> omega

theorem Inv.weight_complete (h : Inv m s) (hs : completeStep s = some s') :
    s'.weight < s.weight ∧ s'.taken = s.taken := by
  rw [completeStep.eq_def] at hs
  split at hs
  case h_2 => cases hs
  rename_i d dma hdma hnone
  obtain ⟨-, hcb⟩ := h.flow.dma d (hdma ▸ List.mem_cons_self)
  dsimp only at hs
  rw [if_pos hcb] at hs
  cases hs
  refine ⟨?_, rfl⟩
  simp only [Sys.weight, Sys.backlog, Sys.callbackRank, hdma, hnone, Option.elim_some, Option.elim_none,
    List.length_cons]
  have := Callback.rank_le ⟨d.item, s.counterDoneTransfer % ringSize, (d.item + 1) % ringSize, false, d.turn⟩
  omega

theorem Inv.weight_callback (h : Inv m s) (hs : callbackStep s = some s') :
    s'.weight < s.weight ∧ s'.taken = s.taken := by
  have hrank := h.callbackRank_lt hs
  have hsame : s'.reader = s.reader ∧ s'.writer = s.writer ∧ s'.taken = s.taken ∧
      s'.written = s.written ∧ s'.dma.length = s.dma.length := by
    rw [callbackStep.eq_def] at hs
    split at hs
    · cases hs
    rename_i cb hcb
    dsimp only at hs
    split at hs
    · cases hs
      obtain ⟨h1, h2, h3, h4, -, h6⟩ := transferDone_fields { s with
        items := update s.items cb.next { s.items cb.next with jiffies := false }
        finished := s.finished ++ [(s.items cb.next).turn] } cb.next
      exact ⟨h1, h2, h3, h4, h6⟩
    · split at hs
      · split at hs <;> cases hs <;> exact ⟨rfl, rfl, rfl, rfl, rfl⟩
      · cases hs
        exact ⟨rfl, rfl, rfl, rfl, rfl⟩
  obtain ⟨hreader, hwriter, htaken, hwritten, hdma⟩ := hsame
  refine ⟨?_, htaken⟩
  rw [Sys.weight, Sys.weight, Sys.backlog, Sys.backlog, hreader, hwriter, htaken, hwritten, hdma]
  omega

theorem Inv.weight_read (h : Inv m s) (hs : readerStep m s = some s') :
    s'.weight < s.weight ∧ s'.taken = s.taken := by
  cases hr : s.reader with
  | read i =>
    have hi : s.reader.item? = some i := by rw [hr]; rfl
    obtain ⟨hlive, hpos, hslot⟩ := h.reader_live hi
    have hfrom : (s.items i).kFrom.length = 2 := by
      rw [hslot]
      exact (h.item_of_live hlive).2.2.2.2.2 ⟨by rw [hr]; rfl, hpos⟩
    obtain ⟨item, put, heq, -⟩ := readerStep_eq hr hfrom
    rw [heq] at hs
    cases hs
    refine ⟨?_, rfl⟩
    simp only [Sys.weight, Sys.backlog, Sys.callbackRank, hr, Reader.weight,
      show (Reader.read i).holds = 1 from rfl, show (Reader.wait i).holds = 1 from rfl]
    omega
  | _ =>
    rw [readerStep, hr] at hs
    cases hs

/-- **A step and the weight.** The steps of the driver lower the weight, and the others do not raise it
beyond what is accounted for the items that are still to be taken. -/
theorem Inv.weightUntil_step (h : Inv m s) (hserved : Served s l s')
    (hs : Transfer.step m s l = some s') (hk : s'.taken ≤ k + ringSize) :
    s'.weightUntil k + (if l.works then 1 else 0) ≤ s.weightUntil k ∧ s.taken ≤ s'.taken := by
  -- All but the first step leave the number of items taken.
  have hlt : s'.weight < s.weight ∧ s'.taken = s.taken →
      s'.weightUntil k + (if l.works then 1 else 0) ≤ s.weightUntil k ∧ s.taken ≤ s'.taken := by
    rintro ⟨hweight, htaken⟩
    rw [Sys.weightUntil, Sys.weightUntil, htaken]
    refine ⟨?_, le_rfl⟩
    split <;> omega
  have hle : l.works = false → s'.weight ≤ s.weight ∧ s'.taken = s.taken →
      s'.weightUntil k + (if l.works then 1 else 0) ≤ s.weightUntil k ∧ s.taken ≤ s'.taken := by
    rintro hworks ⟨hweight, htaken⟩
    rw [Sys.weightUntil, Sys.weightUntil, htaken, hworks]
    exact ⟨Nat.add_le_add_right hweight _, le_rfl⟩
  rw [step.eq_def, if_neg (by rw [h.fault]; decide)] at hs
  cases l with
  | getRead =>
    dsimp only at hs
    split at hs
    · rename_i hidle
      split at hs
      · cases hs
        refine ⟨?_, Nat.le_succ _⟩
        dsimp only at hk
        simp only [Sys.weightUntil, Sys.weight, Sys.backlog, Sys.callbackRank, hidle.2, Reader.weight,
          Label.works, Bool.false_eq_true, if_false, show Reader.idle.holds = 0 from rfl,
          show (Reader.hold (s.indicatorRcv % ringSize)).holds = 1 from rfl]
        omega
      · cases hs
        exact hle rfl ⟨le_rfl, rfl⟩
    · cases hs
  | fetch head kFrom =>
    dsimp only at hs
    split at hs
    · rename_i i hr
      rw [if_pos h.ready] at hs
      cases hs
      refine hle rfl ⟨?_, rfl⟩
      simp only [Sys.weight, Sys.backlog, Sys.callbackRank, hr, Reader.weight,
        show (Reader.hold i).holds = 1 from rfl, show (Reader.read i).holds = 1 from rfl]
      omega
    · cases hs
  | read => exact hlt (h.weight_read hs)
  | readFailed =>
    dsimp only at hs
    split at hs
    · rename_i i hr
      exact absurd hr (h.stages.not_failed i)
    · cases hs
  | wait r => exact hle rfl (h.weight_wait hserved hs)
  | post =>
    dsimp only at hs
    split at hs
    · rename_i i hr
      rw [if_neg (not_not.mpr (h.post_step hr).1)] at hs
      cases hs
      refine hlt ⟨?_, rfl⟩
      have hm : m.writeInThread = true := by
        by_contra hm
        exact (h.stages.inline (by simpa using hm)).2.1 i hr
      have hle := (h.stages.thread hm).2.2.1
      rw [hr, show (Reader.post i).holds = 1 from rfl] at hle
      simp only [Sys.weight, Sys.backlog, Sys.callbackRank, hr, Reader.weight,
        show (Reader.post i).holds = 1 from rfl, show Reader.idle.holds = 0 from rfl]
      omega
    · cases hs
  | pick => exact hlt (h.weight_pick hs)
  | write remap => exact hlt (h.weight_write hs)
  | start =>
    dsimp only at hs
    split at hs
    · rename_i i hw
      cases hs
      refine hlt ⟨?_, rfl⟩
      simp only [Sys.weight, Sys.backlog, Sys.callbackRank, hw, Writer.weight,
        show (Writer.send i).holds = 1 from rfl, show (Writer.submit i).holds = 1 from rfl]
      omega
    · cases hs
  | submit ok => exact hlt (h.weight_submit hs)
  | writeFailed =>
    dsimp only at hs
    split at hs
    · rename_i i hw
      cases hs
      obtain ⟨hdone, htaken⟩ := h.stages.weight_done (i := i) (by rw [hw]; rfl)
      have hone : s.writer.weight = 1 := by rw [hw]; rfl
      exact hlt ⟨by omega, htaken⟩
    · cases hs
  | complete => exact hlt (h.weight_complete hs)
  | callback => exact hlt (h.weight_callback hs)
  | stop => exact absurd hserved id

/-- A run and the weight. -/
theorem Inv.weightUntil_exec {ls : List Label} (h : Inv m s) (hregular : Along Regular (Transfer.step m) s ls)
    (hs : exec (Transfer.step m) s ls = some s') (hk : s'.taken ≤ k + ringSize) :
    s'.weightUntil k + ls.countP Label.works ≤ s.weightUntil k ∧ s.taken ≤ s'.taken := by
  induction ls generalizing s with
  | nil =>
    rw [exec_nil, Option.some_inj] at hs
    rw [hs, List.countP_nil]
    exact ⟨le_rfl, le_rfl⟩
  | cons l ls ih =>
    obtain ⟨t, ht, hrun⟩ := exec_cons.mp hs
    obtain ⟨⟨hserved, hclear⟩, htail⟩ := hregular t ht
    obtain ⟨hweight, htaken⟩ := ih (h.step hserved hclear ht) htail hrun
    obtain ⟨hweight', htaken'⟩ := h.weightUntil_step hserved ht (htaken.trans hk)
    rw [List.countP_cons]
    exact ⟨by omega, htaken'.trans htaken⟩

/-! ## Progress -/

theorem callbackStep_isSome {cb : Callback} (hcb : s.callback = some cb) : (callbackStep s).isSome := by
  rw [callbackStep.eq_def, hcb]
  dsimp only
  split
  · rfl
  · split
    · split <;> rfl
    · rfl

theorem Inv.progress_unfinished (h : Inv m s) (hk : k ∈ s.unfinished) :
    ∃ l, Label.works l = true ∧ (Transfer.step m s l).isSome = true := by
  have hfault : ¬s.fault.isSome = true := by rw [h.fault]; decide
  cases hcb : s.callback with
  | some cb =>
    refine ⟨.callback, rfl, ?_⟩
    rw [step.eq_def, if_neg hfault]
    exact callbackStep_isSome hcb
  | none =>
    refine ⟨.complete, rfl, ?_⟩
    rw [step.eq_def, if_neg hfault]
    rw [Sys.unfinished, Sys.called, hcb, List.nil_append, Sys.queued] at hk
    cases hdma : s.dma with
    | nil =>
      rw [hdma] at hk
      cases hk
    | cons d dma =>
      dsimp only
      rw [completeStep.eq_def, hdma, hcb]
      dsimp only
      split <;> rfl

theorem Inv.progress_writer {i : ℕ} (h : Inv m s) (hi : s.writer.item? = some i) :
    ∃ l, Label.works l = true ∧ (Transfer.step m s l).isSome = true := by
  have hfault : ¬s.fault.isSome = true := by rw [h.fault]; decide
  cases hw : s.writer with
  | idle =>
    rw [hw] at hi
    cases hi
  | write j =>
    refine ⟨.write true, rfl, ?_⟩
    rw [step.eq_def, if_neg hfault]
    dsimp only
    rw [writeStep, hw]
    dsimp only
    split
    · split <;> rfl
    · rfl
  | send j =>
    refine ⟨.start, rfl, ?_⟩
    rw [step.eq_def, if_neg hfault]
    dsimp only
    rw [hw]
    rfl
  | submit j =>
    refine ⟨.submit true, rfl, ?_⟩
    rw [step.eq_def, if_neg hfault]
    dsimp only
    rw [submitStep, hw]
    dsimp only
    split <;> rfl
  | failed j =>
    refine ⟨.writeFailed, rfl, ?_⟩
    rw [step.eq_def, if_neg hfault]
    dsimp only
    rw [hw]
    rfl

theorem Inv.progress_reader {i : ℕ} (h : Inv m s) (hi : s.reader.item? = some i)
    (hwrite : ∀ j, s.reader ≠ .write j) : (s.reader = .hold i ∨ s.reader = .wait i) ∨
      ∃ l, Label.works l = true ∧ (Transfer.step m s l).isSome = true := by
  have hfault : ¬s.fault.isSome = true := by rw [h.fault]; decide
  cases hr : s.reader with
  | idle =>
    rw [hr] at hi
    cases hi
  | hold j =>
    rw [hr] at hi
    cases hi
    exact .inl (.inl rfl)
  | wait j =>
    rw [hr] at hi
    cases hi
    exact .inl (.inr rfl)
  | read j =>
    refine .inr ⟨.read, rfl, ?_⟩
    rw [step.eq_def, if_neg hfault]
    dsimp only
    rw [readerStep, hr]
    dsimp only
    split <;> rfl
  | failed j => exact absurd hr (h.stages.not_failed j)
  | post j =>
    refine .inr ⟨.post, rfl, ?_⟩
    rw [step.eq_def, if_neg hfault]
    dsimp only
    rw [hr]
    dsimp only
    split <;> rfl
  | write j => exact absurd hr (hwrite j)

/-- The DMA task finds the items in its queue. -/
theorem Inv.progress_backlog (h : Inv m s) (hm : m.writeInThread = true) (hidle : s.writer = .idle)
    (hlt : s.written + s.reader.holds < s.taken) : (Transfer.step m s .pick).isSome = true := by
  obtain ⟨hsend, hlast, -, -⟩ := h.stages.thread hm
  have hwindow := h.window s.written (.inr ⟨le_rfl, by omega⟩)
  have hne : s.counterDmaLast ≠ s.counterDmaSend := by
    rw [hlast, hsend, u16, u16]
    simp only [ringSize] at hwindow
    omega
  rw [step.eq_def, if_neg (by rw [h.fault]; decide)]
  dsimp only
  rw [pickStep, if_pos ⟨hm, h.ready, hidle, hne⟩]
  dsimp only
  split <;> rfl

/-- A turn that is live can go on, unless it is the one of the read task and waits for its chain or its
buffer. -/
theorem Inv.progress (h : Inv m s) (hk : Live s k) :
    (s.reader = .hold (slot ringSize k) ∨ s.reader = .wait (slot ringSize k)) ∨
      ∃ l, Label.works l = true ∧ (Transfer.step m s l).isSome = true := by
  rcases hk with hk | ⟨hle, hlt⟩
  · exact .inr (h.progress_unfinished hk)
  cases hw : s.writer.item? with
  | some i => exact .inr (h.progress_writer hw)
  | none =>
    have hidle : s.writer = .idle := by
      cases hwriter : s.writer with
      | idle => rfl
      | _ =>
        rw [hwriter] at hw
        cases hw
    have hholds : s.writer.holds = 0 := by rw [hidle]; rfl
    -- No turn is with the DMA task or in its queue: this one is with the read task.
    have hown : s.written + s.reader.holds = s.taken → (∀ j, s.reader ≠ .write j) →
        (s.reader = .hold (slot ringSize k) ∨ s.reader = .wait (slot ringSize k)) ∨
          ∃ l, Label.works l = true ∧ (Transfer.step m s l).isSome = true := fun heq hwrite ↦ by
      cases hr : s.reader.item? with
      | none =>
        rw [Reader.holds, hr, Option.elim_none] at heq
        omega
      | some i =>
        rw [Reader.holds, hr, Option.elim_some] at heq
        obtain ⟨-, -, hslot⟩ := h.reader_live hr
        obtain rfl : i = slot ringSize k := by
          rw [hslot]
          congr 1
          omega
        exact h.progress_reader hr hwrite
    cases hm : m.writeInThread with
    | true =>
      obtain ⟨-, -, hwritten, hwrite⟩ := h.stages.thread hm
      rw [hholds, Nat.add_zero] at hwritten
      rcases Nat.lt_or_eq_of_le hwritten with hlt' | heq
      · exact .inr ⟨.pick, rfl, h.progress_backlog hm hidle hlt'⟩
      · exact hown heq hwrite
    | false =>
      obtain ⟨heq, -, hwriter⟩ := h.stages.inline hm
      refine hown heq fun j hj ↦ ?_
      have := hwriter.mpr ⟨j, hj⟩
      omega

/-! ## The pipeline -/

/-- **A pipeline that works.** No store through a `kvec_to` that is `NULL` and no `BUG_ON` is reached; an item
that is not ready can always go on, unless it is the one of the read task and waits for its chain or its
buffer; and it is not passed over: only so many steps are made before it is ready again. -/
structure Works (m : Mode) (s : Sys) : Prop where
  fault : s.fault = none
  goes_on : ∀ i < ringSize, (s.items i).statusReady = false →
    (s.reader = .hold i ∨ s.reader = .wait i) ∨
      ∃ l, Label.works l = true ∧ (step m s l).isSome = true
  finished : ∀ i < ringSize, (s.items i).statusReady = false → ∃ bound, ∀ ls s',
    Along Regular (step m) s ls → exec (step m) s ls = some s' → (s'.items i).statusReady = false →
      (s'.items i).turn = (s.items i).turn → ls.countP Label.works ≤ bound

theorem Inv.live_of_not_ready {i : ℕ} (h : Inv m s) (hi : i < ringSize)
    (hready : (s.items i).statusReady = false) :
    Live s (s.items i).turn ∧ slot ringSize (s.items i).turn = i := by
  rcases h.items i hi with hfree | ⟨k, hlive, heq, -, hturn, -⟩
  · rw [hfree.1] at hready
    cases hready
  · rw [hturn]
    exact ⟨hlive, heq⟩

theorem Inv.works (h : Inv m s) : Works m s where
  fault := h.fault
  goes_on i hi hready := by
    obtain ⟨hlive, heq⟩ := h.live_of_not_ready hi hready
    have := h.progress hlive
    rwa [heq] at this
  finished i hi hready := by
    refine ⟨s.weightUntil (s.items i).turn, fun ls s' hregular hs hready' hturn ↦ ?_⟩
    have h' : Inv m s' := exec_invariant (P := Regular)
      (fun hinv hcond hstep ↦ hinv.step hcond.1 hcond.2 hstep) hregular h hs
    have hwindow := h'.window _ (h'.live_of_not_ready hi hready').1
    rw [hturn] at hwindow
    have := (h.weightUntil_exec hregular hs hwindow).1
    omega

/-- **The pipeline works**, in both modes of `write_in_thread`, in every run in which the chains have two
descriptors, `transfer_wait` is not given up and the DMAs are clear of the range of the callback. -/
theorem pipeline_works {ls : List Label} (hregular : Along Regular (step m) init ls)
    (h : exec (step m) init ls = some s) : Works m s :=
  (inv_of_exec hregular h).works

/-- A packet whose DMA is on its way, submitted by the DMA task. -/
def packetInDma : List Label :=
  [.getRead, .fetch 0 [12, 100], .read, .wait (.ok 0 [12, 2000] 2), .post, .pick, .write true, .start,
    .submit true]

theorem packet_in_dma_works :
    ∃ s, exec (step ⟨true, false⟩) init packetInDma = some s ∧ (s.items 0).statusReady = false ∧
      Works ⟨true, false⟩ s := by
  have hrun : (exec (step ⟨true, false⟩) init packetInDma).map (fun s ↦ (s.items 0).statusReady) =
      some false := by decide +kernel
  have hregular : Along Regular (step ⟨true, false⟩) init packetInDma := by decide +kernel
  obtain ⟨s, hs, hready⟩ := Option.map_eq_some_iff.mp hrun
  exact ⟨s, hs, hready, pipeline_works hregular hs⟩

/-- A chain of one descriptor ends in a store through `NULL`: `transfer_read` fails, and `transfer_done` is
run on an item that has no buffer. And when `transfer_wait` gives up, the item is lost, and the next one
trips over the `BUG_ON`. -/
theorem failed_packet_crashes :
    (∃ s, exec (step ⟨true, false⟩) init [.getRead, .fetch 0 [12], .read, .readFailed] = some s ∧
      s.fault = some .nullKvecTo) ∧
    (∃ s, exec (step ⟨true, false⟩) init [.getRead, .fetch 0 [12, 100], .read, .wait .err, .getRead,
        .fetch 1 [12, 100], .read, .wait (.ok 0 [12, 2000] 2), .post] = some s ∧
      s.fault = some .bugDmaSend ∧ (s.items 0).statusReady = false) := by
  have hrun : (exec (step ⟨true, false⟩) init [.getRead, .fetch 0 [12], .read, .readFailed]).map Sys.fault =
      some (some .nullKvecTo) := by decide +kernel
  have hrun' : (exec (step ⟨true, false⟩) init [.getRead, .fetch 0 [12, 100], .read, .wait .err, .getRead,
      .fetch 1 [12, 100], .read, .wait (.ok 0 [12, 2000] 2), .post]).map
        (fun s ↦ (s.fault, (s.items 0).statusReady)) = some (some .bugDmaSend, false) := by decide +kernel
  obtain ⟨s, hs, hfault⟩ := Option.map_eq_some_iff.mp hrun
  obtain ⟨s', hs', hfault'⟩ := Option.map_eq_some_iff.mp hrun'
  rw [Prod.mk.injEq] at hfault'
  exact ⟨⟨s, hs, hfault⟩, s', hs', hfault'⟩

end Vcass.Vop.Transfer
