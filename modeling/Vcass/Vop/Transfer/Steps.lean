import Vcass.Vop.Transfer.Invariant

/-!
# VOP: the invariant of the pipeline along a run

The steps of the writing task, the DMA engine and the callback keep the invariant, if the read task never
fails and the start of a DMA respects the range of the oldest one.
-/

namespace Vcass.Vop.Transfer

open Conc RingCounter
open Function (update)

variable {m : Mode} {s s' : Sys}

/-! ## Conditions -/

/-- The chains have the two descriptors that `transfer_read` asks for, `transfer_wait` is not given up, and
the device stays ready. -/
def Served (_ : Sys) (l : Label) (_ : Sys) : Prop :=
  match l with
  | .fetch _ kFrom => kFrom.length = 2
  | .wait r => r ≠ .err
  | .stop => False
  | _ => True

/-- Item `i` is beyond the range that the callback of the oldest DMA will walk. -/
def Beyond (s : Sys) (i : ℕ) : Prop := ∀ j ∈ s.pendingItems.head?,
  missed (s.counterDoneTransfer % ringSize) j < missed (s.counterDoneTransfer % ringSize) i

/-- If the DMA of item `i` is the only one, its callback does not take its range for empty. -/
def NotLast (s : Sys) (i : ℕ) : Prop :=
  s.pendingItems = [] → s.counterDoneTransfer % ringSize ≠ (i + 1) % ringSize

/-- A DMA is started only for an item beyond the range of the oldest one, and the item of a DMA that is the
only one is not the last of the range from `counter_done_transfer` on. -/
def Clear (s : Sys) (l : Label) (_ : Sys) : Prop :=
  match l with
  | .start => ∀ i ∈ s.writer.item?, Beyond s i
  | .submit ok => ok = true → ∀ i ∈ s.writer.item?, NotLast s i
  | _ => True

instance Served.decidable (s : Sys) (l : Label) (s' : Sys) : Decidable (Served s l s') :=
  match l with
  | .fetch _ kFrom => inferInstanceAs (Decidable (kFrom.length = 2))
  | .wait r => inferInstanceAs (Decidable (r ≠ .err))
  | .stop => isFalse id
  | .getRead | .read | .readFailed | .post | .pick | .write _ | .start | .submit _ | .writeFailed
  | .complete | .callback => isTrue trivial

instance Beyond.decidable (s : Sys) (i : ℕ) : Decidable (Beyond s i) :=
  inferInstanceAs (Decidable (∀ j ∈ s.pendingItems.head?, _))

instance NotLast.decidable (s : Sys) (i : ℕ) : Decidable (NotLast s i) :=
  inferInstanceAs (Decidable (_ → _))

instance Clear.decidable (s : Sys) (l : Label) (s' : Sys) : Decidable (Clear s l s') :=
  match l with
  | .start => inferInstanceAs (Decidable (∀ i ∈ s.writer.item?, Beyond s i))
  | .submit ok => inferInstanceAs (Decidable (ok = true → ∀ i ∈ s.writer.item?, NotLast s i))
  | .getRead | .fetch _ _ | .read | .readFailed | .wait _ | .post | .pick | .write _ | .writeFailed
  | .complete | .callback | .stop => isTrue trivial

theorem Flow.pendingItems (h : Flow s) : s.pendingItems = s.unfinished.map (slot ringSize) := by
  have hdma : s.dma.map Dma.item = s.queued.map (slot ringSize) := by
    rw [Sys.queued, List.map_map]
    exact List.map_congr_left fun d hd ↦ (h.dma d hd).1
  rw [Sys.pendingItems, Sys.unfinished, List.map_append, hdma, Sys.called]
  congr 1
  cases hcb : s.callback with
  | none => rfl
  | some cb =>
    dsimp only
    split
    · rfl
    · rw [(h.callback cb hcb).1]
      rfl

/-! ## The task that writes -/

theorem Inv.writer_live {i : ℕ} (h : Inv m s) (hi : s.writer.item? = some i) :
    Live s s.written ∧ i = slot ringSize s.written ∧ ¬Early s s.written := by
  have hholds : s.writer.holds = 1 := by rw [Writer.holds, hi]; rfl
  have hle := h.stages.written_le
  refine ⟨.inr ⟨le_rfl, by omega⟩, h.stages.writer i hi, ?_⟩
  rintro ⟨hearly, heq⟩
  obtain ⟨hreader, -, -, hwrite⟩ := Reader.early_cases hearly
  cases hm : m.writeInThread with
  | true =>
    have := (h.stages.thread hm).2.2.1
    omega
  | false =>
    obtain ⟨j, hj⟩ := (h.stages.inline hm).2.2.mp hholds
    exact hwrite j hj

theorem Stages.set_writer {i : ℕ} {items : ℕ → Item} {w : Writer} (h : Stages m s)
    (hi : s.writer.item? = some i) (hw : w.item? = some i) :
    Stages m { s with items := items, writer := w } := by
  have hholds : w.holds = s.writer.holds := by rw [Writer.holds, Writer.holds, hi, hw]
  refine ⟨h.holds_le, h.reader, h.not_failed, fun j hj ↦ h.writer j (hi.trans (hw.symm.trans hj)), ?_, ?_⟩
  · dsimp only
    rw [hholds]
    exact h.thread
  · dsimp only
    rw [hholds]
    exact h.inline

/-- `transfer_write` goes on with its item. -/
theorem Inv.writer_touch {i : ℕ} {item : Item} {w : Writer} (h : Inv m s)
    (hi : s.writer.item? = some i) (hw : w.item? = some i) (hsub : s.writer.submitting = false)
    (hsub' : w.submitting = false) (hmarks : item.marks = (s.items i).marks)
    (hkvec : item.kvecTo = (s.items i).kvecTo) (hfrom : item.kFrom = (s.items i).kFrom) :
    Inv m { s with items := update s.items i item, writer := w } := by
  obtain ⟨-, hslot, -⟩ := h.writer_live hi
  have hbegun : ∀ k, Begun { s with items := update s.items i item, writer := w } k ↔ Begun s k :=
    fun k ↦ by
      rw [Begun, Begun, hsub, hsub']
      rfl
  have hsame : ∀ k, Same s { s with items := update s.items i item, writer := w } k :=
    fun k ↦ ⟨.rfl, hbegun k, .rfl, id, id⟩
  have hlt : i < ringSize := hslot ▸ slot_lt ringSize_pos _
  refine ⟨h.fault, h.ready, h.indicatorRcv, h.stages.set_writer hi hw, h.window, ?_,
    h.flow.mono rfl rfl rfl rfl rfl rfl le_rfl, fun k hk j hj ↦ h.clear k hk j ((hbegun j).mp hj), h.room⟩
  exact h.items_set rfl (((h.items i hlt).touch hmarks hkvec hfrom).congr fun k _ ↦ hsame k)
    fun k _ ↦ hsame k

theorem Inv.pick_step (h : Inv m s) (hs : pickStep m s = some s') : Inv m s' := by
  rw [pickStep] at hs
  split at hs
  case isFalse => cases hs
  rename_i hpick
  obtain ⟨hm, -, hidle, hne⟩ := hpick
  obtain ⟨hsend, hlast, hle, hwrite⟩ := h.stages.thread hm
  have hlt : s.written < s.taken - s.reader.holds := by
    have : s.written ≠ s.taken - s.reader.holds := fun heq ↦ hne (by rw [hlast, hsend, heq])
    omega
  have hlive : Live s s.written := .inr ⟨le_rfl, by omega⟩
  have hslot : s.counterDmaLast % ringSize = slot ringSize s.written := by rw [hlast, u16_mod]
  have hready := (h.item_of_live hlive).1
  dsimp only at hs
  rw [hslot, hready] at hs
  cases hs
  have hbegun : ∀ k, Begun { s with writer := .write (slot ringSize s.written) } k ↔ Begun s k :=
    fun k ↦ by
      rw [Begun, Begun, hidle]
      rfl
  refine ⟨h.fault, h.ready, h.indicatorRcv, ?_, h.window, fun i hi ↦ (h.items i hi).congr fun k _ ↦ ?_,
    h.flow.mono rfl rfl rfl rfl rfl rfl le_rfl, fun k hk j hj ↦ h.clear k hk j ((hbegun j).mp hj), h.room⟩
  · refine ⟨h.stages.holds_le, h.stages.reader, h.stages.not_failed, ?_, fun _ ↦ ?_, fun hm' ↦ ?_⟩
    · rintro j ⟨⟩
      rfl
    · refine ⟨hsend, hlast, ?_, hwrite⟩
      dsimp only
      rw [show (Writer.write (slot ringSize s.written)).holds = 1 from rfl]
      omega
    · rw [hm] at hm'
      cases hm'
  · exact ⟨.rfl, hbegun k, .rfl, id, id⟩

theorem Inv.start_step {i : ℕ} (h : Inv m s) (hsend : s.writer = .send i)
    (hclear : Clear s .start s') :
    Inv m { s with
      items := update s.items i { s.items i with jiffies := true }
      writer := .submit i } := by
  have hi : s.writer.item? = some i := by rw [hsend]; rfl
  replace hclear : Beyond s i := hclear i hi
  obtain ⟨hlive, rfl, hearly⟩ := h.writer_live hi
  obtain ⟨h1, h2, h3, h4, h5, h6⟩ := h.item_of_live hlive
  have hnot : s.written ∉ s.unfinished := fun hmem ↦
    absurd (h.flow.lt_written _ (h.flow.mem_started hmem)) (Nat.lt_irrefl _)
  have hnotBegun : ∀ k, Begun s k ↔ k ∈ s.unfinished := fun k ↦ by
    rw [Begun, hsend]
    exact or_iff_left fun hk ↦ Bool.false_ne_true hk.1
  refine ⟨h.fault, h.ready, h.indicatorRcv, h.stages.set_writer hi rfl, h.window,
    h.items_set rfl ?_ fun k hk ↦ ⟨.rfl, ?_, .rfl, id, id⟩, h.flow.mono rfl rfl rfl rfl rfl rfl le_rfl,
    fun k hk j hj hne ↦ ?_, h.room⟩
  · refine .inr ⟨s.written, hlive, rfl, h1, h2, iff_of_true rfl (.inr ⟨rfl, rfl⟩), h4, fun _ ↦ h5 hearly, h6⟩
  · rw [hnotBegun]
    exact or_iff_left fun hwr ↦ hk (hwr.2 ▸ rfl)
  · rcases hj with hj | ⟨-, rfl⟩
    · exact h.clear k hk j (.inl hj) hne
    · apply hclear
      rw [h.flow.pendingItems, List.head?_map]
      exact congrArg (Option.map _) hk

/-! ## The end of a write -/

section Leave

variable (m s)

theorem leaveWrite_thread (hm : m.writeInThread = true) : leaveWrite m s =
    { s with writer := .idle, counterDmaLast := u16 (s.counterDmaLast + 1), written := s.written + 1 } :=
  if_pos hm

theorem leaveWrite_inline (hm : m.writeInThread = false) : leaveWrite m s =
    { s with writer := .idle, reader := .idle, written := s.written + 1 } :=
  if_neg (by rw [hm]; decide)

@[simp] theorem leaveWrite_items : (leaveWrite m s).items = s.items := by
  rw [leaveWrite]; split <;> rfl

@[simp] theorem leaveWrite_fault : (leaveWrite m s).fault = s.fault := by
  rw [leaveWrite]; split <;> rfl

@[simp] theorem leaveWrite_ready : (leaveWrite m s).ready = s.ready := by
  rw [leaveWrite]; split <;> rfl

@[simp] theorem leaveWrite_indicatorRcv : (leaveWrite m s).indicatorRcv = s.indicatorRcv := by
  rw [leaveWrite]; split <;> rfl

@[simp] theorem leaveWrite_counterDoneTransfer :
    (leaveWrite m s).counterDoneTransfer = s.counterDoneTransfer := by
  rw [leaveWrite]; split <;> rfl

@[simp] theorem leaveWrite_writer : (leaveWrite m s).writer = .idle := by
  rw [leaveWrite]; split <;> rfl

@[simp] theorem leaveWrite_dma : (leaveWrite m s).dma = s.dma := by
  rw [leaveWrite]; split <;> rfl

@[simp] theorem leaveWrite_callback : (leaveWrite m s).callback = s.callback := by
  rw [leaveWrite]; split <;> rfl

@[simp] theorem leaveWrite_taken : (leaveWrite m s).taken = s.taken := by
  rw [leaveWrite]; split <;> rfl

@[simp] theorem leaveWrite_written : (leaveWrite m s).written = s.written + 1 := by
  rw [leaveWrite]; split <;> rfl

@[simp] theorem leaveWrite_started : (leaveWrite m s).started = s.started := by
  rw [leaveWrite]; split <;> rfl

@[simp] theorem leaveWrite_completed : (leaveWrite m s).completed = s.completed := by
  rw [leaveWrite]; split <;> rfl

@[simp] theorem leaveWrite_finished : (leaveWrite m s).finished = s.finished := by
  rw [leaveWrite]; split <;> rfl

@[simp] theorem leaveWrite_called : (leaveWrite m s).called = s.called := by
  rw [Sys.called, Sys.called, leaveWrite_callback]

@[simp] theorem leaveWrite_queued : (leaveWrite m s).queued = s.queued := by
  rw [Sys.queued, Sys.queued, leaveWrite_dma]

@[simp] theorem leaveWrite_unfinished : (leaveWrite m s).unfinished = s.unfinished := by
  rw [Sys.unfinished, Sys.unfinished, leaveWrite_called, leaveWrite_queued]

end Leave

theorem Stages.leave {i : ℕ} (h : Stages m s) (hi : s.writer.item? = some i) :
    Stages m (leaveWrite m s) := by
  have hholds : s.writer.holds = 1 := by rw [Writer.holds, hi]; rfl
  cases hm : m.writeInThread with
  | true =>
    obtain ⟨hsend, hlast, hle, hwrite⟩ := h.thread hm
    rw [leaveWrite_thread m s hm]
    refine ⟨h.holds_le, h.reader, h.not_failed, by rintro _ ⟨⟩, fun _ ↦ ⟨hsend, ?_, ?_, hwrite⟩, fun hm' ↦ ?_⟩
    · rw [hlast, u16, u16, u16, Nat.mod_add_mod]
    · rw [hholds] at hle
      exact hle
    · rw [hm] at hm'
      cases hm'
  | false =>
    obtain ⟨htaken, -, hwriter⟩ := h.inline hm
    obtain ⟨j, hj⟩ := hwriter.mp hholds
    rw [hj] at htaken
    rw [leaveWrite_inline m s hm]
    refine ⟨Nat.zero_le _, by rintro _ ⟨⟩, by rintro _ ⟨⟩, by rintro _ ⟨⟩, fun hm' ↦ ?_, fun _ ↦ ?_⟩
    · rw [hm] at hm'
      cases hm'
    · exact ⟨htaken, by rintro _ ⟨⟩, by rintro ⟨⟩, by rintro ⟨_, ⟨⟩⟩⟩

theorem Stages.early_leave {i k : ℕ} (h : Stages m s) (hi : s.writer.item? = some i) :
    (Early s k → Early (leaveWrite m s) k) ∧ (Reading (leaveWrite m s) k → Reading s k) := by
  have hholds : s.writer.holds = 1 := by rw [Writer.holds, hi]; rfl
  cases hm : m.writeInThread with
  | true =>
    rw [leaveWrite_thread m s hm]
    exact ⟨id, id⟩
  | false =>
    obtain ⟨j, hj⟩ := (h.inline hm).2.2.mp hholds
    rw [leaveWrite_inline m s hm]
    refine ⟨fun hearly ↦ ?_, by rintro ⟨⟨⟩, _⟩⟩
    rw [Early, hj] at hearly
    exact absurd hearly.1 Bool.false_ne_true

theorem Inv.written_not_mem (h : Inv m s) : s.written ∉ s.unfinished := fun hmem ↦
  absurd (h.flow.lt_written _ (h.flow.mem_started hmem)) (Nat.lt_irrefl _)

/-- An item without a DMA is done: its turn is over. -/
theorem Inv.leave_done {i : ℕ} {item : Item} {used put : List (ℕ × ℕ)} (h : Inv m s)
    (hi : s.writer.item? = some i) (hsub : s.writer.submitting = false) (hready : item.statusReady = true)
    (hjiffies : item.jiffies = false) (htx : item.tx = false) :
    Inv m (leaveWrite m { s with items := update s.items i item, used := used, put := put }) := by
  obtain ⟨hlive, hslot, -⟩ := h.writer_live hi
  set s₁ : Sys := { s with items := update s.items i item, used := used, put := put } with hs₁
  have hstages : Stages m s₁ := ⟨h.stages.holds_le, h.stages.reader, h.stages.not_failed,
    h.stages.writer, h.stages.thread, h.stages.inline⟩
  have hnot := h.written_not_mem
  have hlive' : ∀ k, Live (leaveWrite m s₁) k ↔ Live s k ∧ k ≠ s.written := fun k ↦ by
    rw [Live, Live, leaveWrite_unfinished, leaveWrite_written, leaveWrite_taken]
    change k ∈ s.unfinished ∨ s.written + 1 ≤ k ∧ k < s.taken ↔ _
    constructor
    · rintro (hk | hk)
      · exact ⟨.inl hk, fun heq ↦ hnot (heq ▸ hk)⟩
      · exact ⟨.inr ⟨by omega, hk.2⟩, by omega⟩
    · rintro ⟨hk | hk, hne⟩
      · exact .inl hk
      · exact .inr ⟨by omega, hk.2⟩
  have hbegun : ∀ k, Begun (leaveWrite m s₁) k ↔ Begun s k := fun k ↦ by
    rw [Begun, Begun, leaveWrite_unfinished, leaveWrite_writer, hsub]
    exact or_congr_right ⟨fun hk ↦ absurd hk.1 Bool.false_ne_true, fun hk ↦ absurd hk.1 Bool.false_ne_true⟩
  refine ⟨?_, ?_, ?_, hstages.leave hi, fun k hk ↦ ?_, ?_, ?_, fun k hk j hj ↦ ?_, ?_⟩
  · rw [leaveWrite_fault]
    exact h.fault
  · rw [leaveWrite_ready]
    exact h.ready
  · rw [leaveWrite_indicatorRcv, leaveWrite_taken]
    exact h.indicatorRcv
  · rw [leaveWrite_taken]
    exact h.window k ((hlive' k).mp hk).1
  · have hitems : (leaveWrite m s₁).items = update s.items i item := leaveWrite_items m s₁
    refine h.items_set hitems (.inl ⟨hready, hjiffies, htx, ?_⟩)
      fun k hk ↦ ⟨?_, hbegun k, ?_, (hstages.early_leave hi).1, (hstages.early_leave hi).2⟩
    · intro k hk heq
      obtain ⟨hk, hne⟩ := (hlive' k).mp hk
      exact hne (h.slot_inj hk hlive (heq.trans hslot))
    · rw [hlive']
      exact and_iff_left fun heq ↦ hk (by rw [heq, hslot])
    · rw [leaveWrite_queued]
      rfl
  · refine h.flow.mono (leaveWrite_started m s₁) (leaveWrite_completed m s₁) (leaveWrite_finished m s₁)
      (leaveWrite_dma m s₁) (leaveWrite_callback m s₁) (leaveWrite_counterDoneTransfer m s₁) ?_
    rw [leaveWrite_written]
    exact Nat.le_succ _
  · rw [leaveWrite_unfinished] at hk
    rw [leaveWrite_counterDoneTransfer]
    exact h.clear k hk j ((hbegun j).mp hj)
  · rw [leaveWrite_called, leaveWrite_unfinished, leaveWrite_counterDoneTransfer]
    exact h.room

/-- `transfer_done` of an item that has a buffer and no DMA. -/
theorem transferDone_eq {i : ℕ} (hkvec : (s.items i).kvecTo ≠ none) (htx : (s.items i).tx = false) :
    ∃ used put, transferDone s i =
      { s with items := update s.items i (s.items i).reset, used := used, put := put } := by
  obtain ⟨kvecs, hkvec⟩ := Option.ne_none_iff_exists'.mp hkvec
  cases hready : (s.items i).statusReady with
  | true => exact ⟨s.used, s.put, by simp [transferDone, itemReset, hkvec, htx, hready]⟩
  | false => exact ⟨_, _, by simp [transferDone, itemReset, hkvec, htx, hready]; exact ⟨rfl, rfl⟩⟩

theorem Inv.done_step {i : ℕ} (h : Inv m s) (hi : s.writer.item? = some i)
    (hsub : s.writer.submitting = false) : Inv m (leaveWrite m (transferDone s i)) := by
  obtain ⟨hlive, rfl, hearly⟩ := h.writer_live hi
  obtain ⟨-, -, -, htx, hkvec, -⟩ := h.item_of_live hlive
  have htx' : (s.items (slot ringSize s.written)).tx = false := by
    rw [← Bool.not_eq_true, htx]
    exact fun hmem ↦ h.written_not_mem (Flow.mem_unfinished_of_queued hmem)
  obtain ⟨used, put, heq⟩ := transferDone_eq (hkvec hearly) htx'
  rw [heq]
  exact h.leave_done hi hsub rfl rfl rfl

theorem Inv.write_step {remap : Bool} (h : Inv m s) (hs : writeStep m s remap = some s') : Inv m s' := by
  rw [writeStep.eq_def] at hs
  split at hs
  case h_2 => cases hs
  rename_i i hw
  have hi : s.writer.item? = some i := by rw [hw]; rfl
  have hsub : s.writer.submitting = false := by rw [hw]; rfl
  have hmarks : (transferWrite m (s.items i) remap).1.marks = (s.items i).marks ∧
      (transferWrite m (s.items i) remap).1.kvecTo = (s.items i).kvecTo ∧
      (transferWrite m (s.items i) remap).1.kFrom = (s.items i).kFrom := by
    rw [transferWrite]
    split
    · exact ⟨rfl, rfl, rfl⟩
    · dsimp only
      split <;> exact ⟨rfl, rfl, rfl⟩
  obtain ⟨hmarks, hkvec, hfrom⟩ := hmarks
  dsimp only at hs
  split at hs
  · split at hs
    · cases hs
      exact h.writer_touch hi rfl hsub rfl hmarks hkvec hfrom
    · cases hs
      have htouch := h.writer_touch (w := s.writer) hi hi hsub hsub hmarks hkvec hfrom
      exact htouch.done_step hi hsub
  · cases hs
    exact h.writer_touch hi rfl hsub rfl hmarks hkvec hfrom

/-! ## Submission -/

theorem Inv.submit_error {i : ℕ} (h : Inv m s) (hw : s.writer = .submit i) :
    Inv m { s with
      items := update s.items i { s.items i with jiffies := false }
      writer := .failed i } := by
  have hi : s.writer.item? = some i := by rw [hw]; rfl
  obtain ⟨hlive, rfl, hearly⟩ := h.writer_live hi
  obtain ⟨h1, h2, h3, h4, h5, h6⟩ := h.item_of_live hlive
  have hbegun : ∀ k, k ≠ s.written → (k ∈ s.unfinished ↔ Begun s k) := fun k hk ↦
    (or_iff_left fun hwr ↦ hk hwr.2).symm
  refine ⟨h.fault, h.ready, h.indicatorRcv, h.stages.set_writer hi rfl, h.window,
    h.items_set rfl ?_ fun k hk ↦ ⟨.rfl, ?_, .rfl, id, id⟩, h.flow.mono rfl rfl rfl rfl rfl rfl le_rfl,
    fun k hk j hj hne ↦ ?_, h.room⟩
  · refine .inr ⟨s.written, hlive, rfl, h1, h2, iff_of_false Bool.false_ne_true ?_, h4,
      fun _ ↦ h5 hearly, h6⟩
    rintro (hmem | hmem)
    · exact h.written_not_mem hmem
    · exact absurd hmem.1 Bool.false_ne_true
  · rw [← hbegun k fun heq ↦ hk (heq ▸ rfl)]
    exact or_iff_left fun hwr ↦ absurd hwr.1 Bool.false_ne_true
  · rcases hj with hj | hj
    · exact h.clear k hk j (.inl hj) hne
    · exact absurd hj.1 Bool.false_ne_true

theorem Inv.submit_ok {i : ℕ} (h : Inv m s) (hw : s.writer = .submit i)
    (hclear : Clear s (.submit true) s') :
    Inv m (leaveWrite m { s with
      items := update s.items i { s.items i with tx := true }
      dma := s.dma ++ [⟨i, (s.items i).turn, true⟩]
      started := s.started ++ [(s.items i).turn] }) := by
  have hi : s.writer.item? = some i := by rw [hw]; rfl
  replace hclear : NotLast s i := hclear rfl i hi
  rw [NotLast, h.flow.pendingItems, List.map_eq_nil_iff] at hclear
  obtain ⟨hlive, rfl, hearly⟩ := h.writer_live hi
  obtain ⟨h1, h2, h3, h4, h5, h6⟩ := h.item_of_live hlive
  rw [h2]
  set s₁ : Sys := { s with
    items := update s.items (slot ringSize s.written) { s.items (slot ringSize s.written) with tx := true }
    dma := s.dma ++ [⟨slot ringSize s.written, s.written, true⟩]
    started := s.started ++ [s.written] } with hs₁
  have hstages : Stages m s₁ := ⟨h.stages.holds_le, h.stages.reader, h.stages.not_failed,
    h.stages.writer, h.stages.thread, h.stages.inline⟩
  have hqueued : s₁.queued = s.queued ++ [s.written] := List.map_append
  have hunfinished : s₁.unfinished = s.unfinished ++ [s.written] := by
    rw [Sys.unfinished, hqueued, ← List.append_assoc]
    rfl
  have hlive' : ∀ k, Live (leaveWrite m s₁) k ↔ Live s k := fun k ↦ by
    rw [Live, Live, leaveWrite_unfinished, leaveWrite_written, leaveWrite_taken, hunfinished,
      List.mem_append, List.mem_singleton]
    change (k ∈ s.unfinished ∨ k = s.written) ∨ s.written + 1 ≤ k ∧ k < s.taken ↔ _
    have := h.lt_taken hlive
    rw [or_assoc]
    exact or_congr_right (by omega)
  have hbegun : ∀ k, Begun (leaveWrite m s₁) k ↔ Begun s k := fun k ↦ by
    rw [Begun, Begun, leaveWrite_unfinished, leaveWrite_writer, hunfinished, hw, List.mem_append,
      List.mem_singleton]
    constructor
    · rintro ((hk | hk) | hk)
      · exact .inl hk
      · exact .inr ⟨rfl, hk⟩
      · exact absurd hk.1 Bool.false_ne_true
    · rintro (hk | hk)
      · exact .inl (.inl hk)
      · exact .inl (.inr hk.2)
  -- The oldest turn is the same, unless the new one is the only one.
  have hhead : ∀ k, (leaveWrite m s₁).unfinished.head? = some k →
      s.unfinished.head? = some k ∨ s.unfinished = [] ∧ k = s.written := fun k hk ↦ by
    rw [leaveWrite_unfinished, hunfinished] at hk
    cases hun : s.unfinished with
    | nil =>
      rw [hun] at hk
      exact .inr ⟨rfl, (Option.some_inj.mp hk).symm⟩
    | cons k' rest =>
      rw [hun] at hk
      exact .inl hk
  refine ⟨?_, ?_, ?_, hstages.leave hi, fun k hk ↦ ?_, ?_, ?_, fun k hk j hj hne ↦ ?_, fun hcalled k hk ↦ ?_⟩
  · rw [leaveWrite_fault]
    exact h.fault
  · rw [leaveWrite_ready]
    exact h.ready
  · rw [leaveWrite_indicatorRcv, leaveWrite_taken]
    exact h.indicatorRcv
  · rw [leaveWrite_taken]
    exact h.window k ((hlive' k).mp hk)
  · have hitems : (leaveWrite m s₁).items = update s.items (slot ringSize s.written)
        { s.items (slot ringSize s.written) with tx := true } := leaveWrite_items m s₁
    have hearly' : ∀ {k}, (Early s k → Early (leaveWrite m s₁) k) ∧
        (Reading (leaveWrite m s₁) k → Reading s k) := hstages.early_leave hi
    refine h.items_set hitems (.inr ⟨s.written, (hlive' _).mpr hlive, rfl, h1, h2, ?_, ?_,
      fun _ ↦ h5 hearly, fun hread ↦ h6 (hearly'.2 hread)⟩)
      fun k hk ↦ ⟨hlive' k, hbegun k, ?_, hearly'.1, hearly'.2⟩
    · exact h3.trans (hbegun _).symm
    · rw [leaveWrite_queued, hqueued]
      exact iff_of_true rfl (List.mem_append_right _ (List.mem_singleton_self _))
    · rw [leaveWrite_queued, hqueued, List.mem_append, List.mem_singleton]
      exact or_iff_left fun heq ↦ hk (heq ▸ rfl)
  · have hstarted : s₁.started = s₁.finished ++ s₁.unfinished := by
      rw [hunfinished, ← List.append_assoc, ← h.flow.started]
    have hflow : Flow { s₁ with written := s.written + 1 } := by
      refine ⟨?_, fun k hk ↦ ?_, hstarted, h.flow.completed, fun d hd ↦ ?_, h.flow.callback⟩
      · refine List.pairwise_append.mpr ⟨h.flow.sorted, List.pairwise_singleton _ _, fun a ha b hb ↦ ?_⟩
        rw [List.mem_singleton] at hb
        rw [hb]
        exact h.flow.lt_written a ha
      · rcases List.mem_append.mp hk with hk | hk
        · exact Nat.lt_succ_of_lt (h.flow.lt_written k hk)
        · exact Nat.lt_succ_of_le (List.mem_singleton.mp hk).le
      · rcases List.mem_append.mp hd with hd | hd
        · exact h.flow.dma d hd
        · rw [List.mem_singleton.mp hd]
          exact ⟨rfl, rfl⟩
    refine hflow.mono (leaveWrite_started m s₁) (leaveWrite_completed m s₁) (leaveWrite_finished m s₁)
      (leaveWrite_dma m s₁) (leaveWrite_callback m s₁) (leaveWrite_counterDoneTransfer m s₁) ?_
    rw [leaveWrite_written]
  · rw [leaveWrite_counterDoneTransfer]
    rcases hhead k hk with hk | ⟨hnil, rfl⟩
    · exact h.clear k hk j ((hbegun j).mp hj) hne
    · rcases (hbegun j).mp hj with hj | hj
      · rw [hnil] at hj
        cases hj
      · exact absurd hj.2 hne
  · rw [leaveWrite_called] at hcalled
    rw [leaveWrite_counterDoneTransfer]
    rcases hhead k hk with hk | ⟨hnil, rfl⟩
    · exact h.room hcalled k hk
    · have hne := hclear hnil
      rwa [slot, Nat.mod_add_mod] at hne

/-! ## Completion -/

theorem stop_eq (k : ℕ) : (slot ringSize k + 1) % ringSize = slot ringSize (k + 1) := by
  rw [slot, slot, Nat.mod_add_mod]

theorem Inv.complete_step (h : Inv m s) (hs : completeStep s = some s') : Inv m s' := by
  rw [completeStep.eq_def] at hs
  split at hs
  case h_2 => cases hs
  rename_i d dma hdma hnone
  obtain ⟨hitem, hcb⟩ := h.flow.dma d (hdma ▸ List.mem_cons_self)
  have hcalled : s.called = [] := by rw [Sys.called, hnone]
  have hqueued : s.queued = d.turn :: dma.map Dma.turn := by rw [Sys.queued, hdma, List.map_cons]
  have hunfinished : s.unfinished = d.turn :: dma.map Dma.turn := by
    rw [Sys.unfinished, hcalled, hqueued, List.nil_append]
  have hsorted := h.flow.sorted_unfinished
  rw [hunfinished, List.pairwise_cons] at hsorted
  have hlive : Live s d.turn := .inl (hunfinished ▸ List.mem_cons_self)
  obtain ⟨h1, h2, h3, h4, h5, h6⟩ := h.item_of_live hlive
  have hne : s.counterDoneTransfer % ringSize ≠ slot ringSize (d.turn + 1) :=
    h.room hcalled d.turn (by rw [hunfinished]; rfl)
  dsimp only at hs
  rw [hcb, if_pos rfl, hitem, stop_eq] at hs
  cases hs
  set s₁ : Sys := { s with
    items := update s.items (slot ringSize d.turn) { s.items (slot ringSize d.turn) with tx := false }
    dma := dma
    callback := some ⟨slot ringSize d.turn, s.counterDoneTransfer % ringSize, slot ringSize (d.turn + 1),
      false, d.turn⟩
    completed := s.completed ++ [d.turn] }
  have hcalled' : s₁.called = [d.turn] := if_neg hne
  have hunfinished' : s₁.unfinished = s.unfinished := by
    rw [Sys.unfinished, hcalled', hunfinished]
    rfl
  have hlive' : ∀ k, Live s₁ k ↔ Live s k := fun k ↦ by
    rw [Live, Live, hunfinished']
  have hbegun : ∀ k, Begun s₁ k ↔ Begun s k := fun k ↦ by
    rw [Begun, Begun, hunfinished']
  refine ⟨h.fault, h.ready, h.indicatorRcv, ?_, fun k hk ↦ h.window k ((hlive' k).mp hk),
    h.items_set rfl ?_ fun k hk ↦ ⟨hlive' k, hbegun k, ?_, id, id⟩, ?_, fun k hk j hj ↦ ?_, fun hnil ↦ ?_⟩
  · exact ⟨h.stages.holds_le, h.stages.reader, h.stages.not_failed, h.stages.writer, h.stages.thread,
      h.stages.inline⟩
  · refine .inr ⟨d.turn, (hlive' _).mpr hlive, rfl, h1, h2, h3.trans (hbegun _).symm,
      iff_of_false Bool.false_ne_true fun hmem ↦ ?_, h5, h6⟩
    exact Nat.lt_irrefl _ (hsorted.1 _ hmem)
  · rw [hqueued, List.mem_cons]
    exact (or_iff_right fun heq : k = d.turn ↦ hk (by rw [heq])).symm
  · refine ⟨h.flow.sorted, h.flow.lt_written, ?_, ?_, fun e he ↦ ?_, ?_⟩
    · rw [hunfinished']
      exact h.flow.started
    · rw [hcalled']
      change s.completed ++ [d.turn] = s.finished ++ [d.turn]
      rw [h.flow.completed, hcalled, List.append_nil]
    · exact h.flow.dma e (hdma ▸ List.mem_cons_of_mem _ he)
    · rintro cb ⟨⟩
      exact ⟨rfl, rfl, rfl, by rintro ⟨⟩⟩
  · rw [hunfinished'] at hk
    exact h.clear k hk j ((hbegun j).mp hj)
  · rw [hcalled'] at hnil
    cases hnil

theorem missed_succ {c i : ℕ} (hi : i < ringSize) (hne : i ≠ c % ringSize) :
    missed ((c + 1) % ringSize) i + 1 = missed (c % ringSize) i := by
  simp only [missed, ringSize] at *
  omega

theorem missed_slot {a k : ℕ} (hle : a ≤ k) (hlt : k < a + ringSize) :
    missed (slot ringSize a) (slot ringSize k) = k - a := by
  simp only [missed, slot, ringSize] at *
  omega

theorem Inv.callback_skip {cb : Callback} (h : Inv m s) (hcb : s.callback = some cb)
    (hne : cb.next ≠ cb.stop) (hjiffies : (s.items cb.next).jiffies = false) : Inv m (advance s cb) := by
  obtain ⟨hitem, hnext, hstop, -⟩ := h.flow.callback cb hcb
  have hcalled : s.called = [cb.turn] := by
    rw [Sys.called, hcb]
    exact if_neg hne
  have hhead : s.unfinished.head? = some cb.turn := by rw [Sys.unfinished, hcalled]; rfl
  -- The items that are started, its own among them, are further on.
  have hbegun : ∀ k, Begun s k → slot ringSize k ≠ s.counterDoneTransfer % ringSize := fun k hk heq ↦ by
    rw [← hnext] at heq
    have hmark := (h.item_of_live (h.live_of_begun hk)).2.2.1.mpr hk
    rw [heq, hjiffies] at hmark
    cases hmark
  have hown : Begun s cb.turn := .inl (List.mem_of_mem_head? hhead)
  have hne' : (cb.next + 1) % ringSize ≠ cb.stop := fun heq ↦ by
    refine hbegun cb.turn hown ?_
    have hlt := slot_lt ringSize_pos cb.turn
    rw [hnext, hstop, ← stop_eq] at heq
    have := Nat.mod_lt s.counterDoneTransfer ringSize_pos
    generalize s.counterDoneTransfer % ringSize = a at *
    generalize slot ringSize cb.turn = b at *
    simp only [ringSize] at *
    omega
  have hcalled' : (advance s cb).called = s.called := by
    rw [hcalled]
    exact if_neg hne'
  have hunfinished : (advance s cb).unfinished = s.unfinished := by
    rw [Sys.unfinished, hcalled']
    rfl
  have hcount : (advance s cb).counterDoneTransfer % ringSize = (s.counterDoneTransfer + 1) % ringSize :=
    u16_mod _
  have hlive : ∀ k, Live (advance s cb) k ↔ Live s k := fun k ↦ by
    rw [Live, Live, hunfinished]
    rfl
  have hbegun' : ∀ k, Begun (advance s cb) k ↔ Begun s k := fun k ↦ by
    rw [Begun, Begun, hunfinished]
    rfl
  refine ⟨h.fault, h.ready, h.indicatorRcv, ?_, fun k hk ↦ h.window k ((hlive k).mp hk),
    fun i hi ↦ (h.items i hi).congr fun k _ ↦ ⟨hlive k, hbegun' k, .rfl, id, id⟩, ?_,
    fun k hk j hj hjk ↦ ?_, fun hnil ↦ ?_⟩
  · exact ⟨h.stages.holds_le, h.stages.reader, h.stages.not_failed, h.stages.writer, h.stages.thread,
      h.stages.inline⟩
  · refine ⟨h.flow.sorted, h.flow.lt_written, ?_, ?_, h.flow.dma, ?_⟩
    · rw [hunfinished]
      exact h.flow.started
    · rw [hcalled']
      exact h.flow.completed
    · rintro cb' ⟨⟩
      refine ⟨hitem, ?_, hstop, by rintro ⟨⟩⟩
      dsimp only
      rw [hcount, hnext, Nat.mod_add_mod]
  · rw [hunfinished] at hk
    have hj' := (hbegun' j).mp hj
    have hlt := h.clear k hk j hj' hjk
    have hk' : Begun s k := .inl (List.mem_of_mem_head? hk)
    have h1 := missed_succ (slot_lt ringSize_pos k) (hbegun k hk')
    have h2 := missed_succ (slot_lt ringSize_pos j) (hbegun j hj')
    rw [hcount]
    omega
  · rw [hcalled', hcalled] at hnil
    cases hnil

theorem Inv.callback_meet {cb : Callback} (h : Inv m s) (hcb : s.callback = some cb)
    (hne : cb.next ≠ cb.stop) (hjiffies : (s.items cb.next).jiffies = true) :
    Inv m { s with callback := some { cb with started := true } } := by
  obtain ⟨hitem, hnext, hstop, -⟩ := h.flow.callback cb hcb
  have hcalled : s.called = [cb.turn] := by
    rw [Sys.called, hcb]
    exact if_neg hne
  have hhead : s.unfinished.head? = some cb.turn := by rw [Sys.unfinished, hcalled]; rfl
  have hown : cb.next = slot ringSize cb.turn := by
    have hlt : cb.next < ringSize := hnext ▸ Nat.mod_lt _ ringSize_pos
    obtain ⟨k, hk, hslot⟩ := h.begun_of_jiffies hlt hjiffies
    by_cases heq : k = cb.turn
    · rw [← hslot, heq]
    · have := h.clear cb.turn hhead k hk heq
      rw [← hnext, hslot, missed, missed, Nat.add_sub_cancel_left, Nat.mod_self] at this
      exact absurd this (Nat.not_lt_zero _)
  have hcalled' : Sys.called { s with callback := some { cb with started := true } } = s.called := by
    rw [hcalled]
    exact if_neg hne
  have hunfinished : Sys.unfinished { s with callback := some { cb with started := true } } =
      s.unfinished := by
    rw [Sys.unfinished, hcalled']
    rfl
  have hsame : ∀ k, Same s { s with callback := some { cb with started := true } } k := fun k ↦ by
    refine ⟨?_, ?_, .rfl, id, id⟩
    · rw [Live, Live, hunfinished]
    · rw [Begun, Begun, hunfinished]
  refine ⟨h.fault, h.ready, h.indicatorRcv, ?_, fun k hk ↦ h.window k ((hsame k).live.mp hk),
    fun i hi ↦ (h.items i hi).congr fun k _ ↦ hsame k, ?_, fun k hk j hj ↦ ?_, fun hnil ↦ ?_⟩
  · exact ⟨h.stages.holds_le, h.stages.reader, h.stages.not_failed, h.stages.writer, h.stages.thread,
      h.stages.inline⟩
  · refine ⟨h.flow.sorted, h.flow.lt_written, ?_, ?_, h.flow.dma, ?_⟩
    · rw [hunfinished]
      exact h.flow.started
    · rw [hcalled']
      exact h.flow.completed
    · rintro cb' ⟨⟩
      exact ⟨hitem, hnext, hstop, fun _ ↦ ⟨hne, hown⟩⟩
  · rw [hunfinished] at hk
    exact h.clear k hk j ((hsame j).begun.mp hj)
  · rw [hcalled', hcalled] at hnil
    cases hnil

/-- A turn that is written has its buffer. -/
theorem Inv.written_le_early {k : ℕ} (h : Inv m s) (hearly : Early s k) : s.written ≤ k := by
  obtain ⟨hearly, hk⟩ := hearly
  have hholds := (Reader.early_cases hearly).1
  cases hm : m.writeInThread with
  | true =>
    have := (h.stages.thread hm).2.2.1
    omega
  | false =>
    have := (h.stages.inline hm).1
    omega

theorem Inv.called_of_started {cb : Callback} (h : Inv m s) (hcb : s.callback = some cb)
    (hstarted : cb.started = true) : s.called = [cb.turn] := by
  obtain ⟨-, -, -, hown⟩ := h.flow.callback cb hcb
  rw [Sys.called, hcb]
  exact if_neg (hown hstarted).1

theorem Inv.unfinished_of_started {cb : Callback} (h : Inv m s) (hcb : s.callback = some cb)
    (hstarted : cb.started = true) : s.unfinished = cb.turn :: s.queued := by
  rw [Sys.unfinished, h.called_of_started hcb hstarted]
  rfl

/-- The oldest turn that is not finished is finished, and the tasks stay where they are. -/
structure Finishes (s s' : Sys) (turn : ℕ) : Prop where
  before : s.unfinished = turn :: s.queued
  after : s'.unfinished = s.queued
  written : s'.written = s.written
  taken : s'.taken = s.taken
  writer : s'.writer = s.writer
  lt_written : ∀ k ∈ s.unfinished, k < s.written
  oldest : s.unfinished.Pairwise (· < ·)

section Finishes

variable {turn k j : ℕ}

theorem Finishes.turn_lt (h : Finishes s s' turn) (hk : k ∈ s.queued) : turn < k := by
  have holdest := h.oldest
  rw [h.before, List.pairwise_cons] at holdest
  exact holdest.1 k hk

theorem Finishes.turn_lt_written (h : Finishes s s' turn) : turn < s.written :=
  h.lt_written turn (h.before ▸ List.mem_cons_self)

theorem Finishes.live_iff (h : Finishes s s' turn) (k : ℕ) : Live s' k ↔ Live s k ∧ k ≠ turn := by
  have hlt := h.turn_lt_written
  rw [Live, Live, h.after, h.before, h.written, h.taken, List.mem_cons]
  constructor
  · rintro (hk | hk)
    · exact ⟨.inl (.inr hk), (h.turn_lt hk).ne'⟩
    · exact ⟨.inr hk, by omega⟩
  · rintro ⟨(hk | hk) | hk, hne⟩
    · exact absurd hk hne
    · exact .inl hk
    · exact .inr hk

theorem Finishes.begun_iff (h : Finishes s s' turn) (k : ℕ) : Begun s' k ↔ Begun s k ∧ k ≠ turn := by
  have hlt := h.turn_lt_written
  rw [Begun, Begun, h.after, h.before, h.written, h.writer, List.mem_cons]
  constructor
  · rintro (hk | hk)
    · exact ⟨.inl (.inr hk), (h.turn_lt hk).ne'⟩
    · exact ⟨.inr hk, by omega⟩
  · rintro ⟨(hk | hk) | hk, hne⟩
    · exact absurd hk hne
    · exact .inl hk
    · exact .inr hk

/-- The next turn is the oldest of those that have begun. -/
theorem Finishes.next_lt (h : Finishes s s' turn) (hk : s'.unfinished.head? = some k) (hj : Begun s' j) (hjk : j ≠ k) :
    turn < k ∧ k < j := by
  rw [h.after] at hk
  have hkmem : k ∈ s.queued := List.mem_of_mem_head? hk
  refine ⟨h.turn_lt hkmem, ?_⟩
  rcases hj with hj | ⟨-, rfl⟩
  · rw [h.after] at hj
    have hqueued := h.oldest
    obtain ⟨rest, hrest⟩ : ∃ rest, s.queued = k :: rest := List.head?_eq_some_iff.mp hk
    rw [h.before, hrest, List.pairwise_cons] at hqueued
    rw [hrest] at hj
    rcases List.mem_cons.mp hj with heq | hj
    · exact absurd heq hjk
    · exact (List.pairwise_cons.mp hqueued.2).1 j hj
  · rw [h.written]
    exact h.lt_written k (h.before ▸ List.mem_cons_of_mem _ hkmem)

end Finishes

theorem Inv.callback_finish {cb : Callback} {item : Item} {turn : ℕ} {used put : List (ℕ × ℕ)}
    (h : Inv m s) (hcb : s.callback = some cb) (hstarted : cb.started = true) (hturn : turn = cb.turn)
    (hready : item.statusReady = true) (hjiffies : item.jiffies = false) (htx : item.tx = false) :
    Inv m (advance { s with
      items := update s.items cb.next item
      finished := s.finished ++ [turn]
      used := used
      put := put } cb) := by
  subst hturn
  obtain ⟨hitem, hnext, hstop, hown⟩ := h.flow.callback cb hcb
  obtain ⟨hne, hown⟩ := hown hstarted
  have hcalled := h.called_of_started hcb hstarted
  have hunfinished := h.unfinished_of_started hcb hstarted
  have hlive : Live s cb.turn := .inl (hunfinished ▸ List.mem_cons_self)
  have hwindow := h.window cb.turn hlive
  set s₁ : Sys := advance { s with
    items := update s.items cb.next item
    finished := s.finished ++ [cb.turn]
    used := used
    put := put } cb
  have hcalled' : s₁.called = [] := by
    refine if_pos ?_
    dsimp only
    rw [hown, hstop, stop_eq]
  have hunfinished' : s₁.unfinished = s.queued := by
    rw [Sys.unfinished, hcalled']
    rfl
  have hfin : Finishes s s₁ cb.turn := ⟨hunfinished, hunfinished', rfl, rfl, rfl,
    fun k hk ↦ h.flow.lt_written k (h.flow.mem_started hk), h.flow.sorted_unfinished⟩
  have hcount : s₁.counterDoneTransfer % ringSize = slot ringSize (cb.turn + 1) := by
    have : s₁.counterDoneTransfer % ringSize = (s.counterDoneTransfer + 1) % ringSize := u16_mod _
    rw [this, ← Nat.mod_add_mod, ← hnext, hown, stop_eq]
  refine ⟨h.fault, h.ready, h.indicatorRcv, ?_, fun k hk ↦ h.window k ((hfin.live_iff k).mp hk).1,
    h.items_set rfl (.inl ⟨hready, hjiffies, htx, fun k hk heq ↦ ?_⟩) fun k hk ↦ ?_, ?_,
    fun k hk j hj hjk ↦ ?_, fun _ k hk ↦ ?_⟩
  · exact ⟨h.stages.holds_le, h.stages.reader, h.stages.not_failed, h.stages.writer, h.stages.thread,
      h.stages.inline⟩
  · obtain ⟨hk, hne⟩ := (hfin.live_iff k).mp hk
    exact hne (h.slot_inj hk hlive (heq.trans hown))
  · have hne : k ≠ cb.turn := fun heq ↦ hk (by rw [heq, hown])
    refine ⟨?_, ?_, .rfl, id, id⟩
    · rw [hfin.live_iff]
      exact and_iff_left hne
    · rw [hfin.begun_iff]
      exact and_iff_left hne
  · refine ⟨h.flow.sorted, h.flow.lt_written, ?_, ?_, h.flow.dma, ?_⟩
    · rw [hunfinished']
      change s.started = s.finished ++ [cb.turn] ++ s.queued
      rw [h.flow.started, hunfinished, List.append_assoc]
      rfl
    · rw [hcalled']
      change s.completed = s.finished ++ [cb.turn] ++ []
      rw [h.flow.completed, hcalled, List.append_nil]
    · rintro cb' ⟨⟩
      refine ⟨hitem, ?_, hstop, by rintro ⟨⟩⟩
      rw [hcount, hown, stop_eq]
  -- The turns that are live lie within the ring behind the one that is finished.
  · obtain ⟨hkturn, hkj⟩ := hfin.next_lt hk hj hjk
    have hjlt := h.lt_taken (h.live_of_begun ((hfin.begun_iff j).mp hj).1)
    rw [hcount, missed_slot (by omega) (by omega), missed_slot (by omega) (by omega)]
    omega
  · rw [hunfinished'] at hk
    have hkmem : k ∈ s.queued := List.mem_of_mem_head? hk
    have hkturn := hfin.turn_lt hkmem
    have hklt := h.lt_taken (.inl (Flow.mem_unfinished_of_queued hkmem))
    rw [hcount]
    exact slot_ne (by omega) (by omega)

theorem Inv.callback_step (h : Inv m s) (hs : callbackStep s = some s') : Inv m s' := by
  rw [callbackStep.eq_def] at hs
  split at hs
  · cases hs
  · rename_i cb hcb
    dsimp only at hs
    split at hs
    · rename_i hstarted
      cases hs
      obtain ⟨-, -, -, hown⟩ := h.flow.callback cb hcb
      obtain ⟨hne, hown⟩ := hown hstarted
      have hunfinished := h.unfinished_of_started hcb hstarted
      have hsorted := h.flow.sorted_unfinished
      rw [hunfinished, List.pairwise_cons] at hsorted
      have hmem : cb.turn ∈ s.unfinished := hunfinished ▸ List.mem_cons_self
      obtain ⟨-, hturn, -, htx, hkvec, -⟩ := h.item_of_live (.inl hmem)
      have hkvec := hkvec fun hearly ↦ absurd (h.written_le_early hearly)
        (Nat.not_le.mpr (h.flow.lt_written _ (h.flow.mem_started hmem)))
      have htx : (s.items (slot ringSize cb.turn)).tx = false := by
        rw [← Bool.not_eq_true, htx]
        exact fun hq ↦ Nat.lt_irrefl _ (hsorted.1 _ hq)
      rw [← hown] at hturn hkvec htx
      obtain ⟨used, put, heq⟩ := transferDone_eq (i := cb.next)
        (s := { s with
          items := update s.items cb.next { s.items cb.next with jiffies := false }
          finished := s.finished ++ [(s.items cb.next).turn] })
        (by simpa using hkvec) (by simpa using htx)
      dsimp only at heq
      rw [heq]
      simp only [Function.update_idem, Function.update_self]
      exact h.callback_finish hcb hstarted hturn rfl rfl rfl
    · split at hs
      · rename_i hwalk
        split at hs
        · rename_i hjiffies
          cases hs
          exact h.callback_meet hcb hwalk.2 hjiffies
        · rename_i hjiffies
          cases hs
          exact h.callback_skip hcb hwalk.2 (by simpa using hjiffies)
      · rename_i hwalk
        cases hs
        have heq : cb.next = cb.stop := by
          by_contra hne
          exact hwalk ⟨h.ready, hne⟩
        have hcalled : s.called = [] := by
          rw [Sys.called, hcb]
          exact if_pos heq
        have hunfinished : Sys.unfinished { s with callback := none } = s.unfinished := by
          rw [Sys.unfinished, Sys.unfinished, hcalled]
          rfl
        have hsame : ∀ k, Same s { s with callback := none } k := fun k ↦ by
          refine ⟨?_, ?_, .rfl, id, id⟩
          · rw [Live, Live, hunfinished]
          · rw [Begun, Begun, hunfinished]
        refine ⟨h.fault, h.ready, h.indicatorRcv, ?_, fun k hk ↦ h.window k ((hsame k).live.mp hk),
          fun i hi ↦ (h.items i hi).congr fun k _ ↦ hsame k, ?_, fun k hk j hj ↦ ?_, fun _ k hk ↦ ?_⟩
        · exact ⟨h.stages.holds_le, h.stages.reader, h.stages.not_failed, h.stages.writer,
            h.stages.thread, h.stages.inline⟩
        · refine ⟨h.flow.sorted, h.flow.lt_written, ?_, ?_, h.flow.dma, by rintro _ ⟨⟩⟩
          · rw [hunfinished]
            exact h.flow.started
          · have := h.flow.completed
            rw [hcalled] at this
            exact this
        · rw [hunfinished] at hk
          exact h.clear k hk j ((hsame j).begun.mp hj)
        · rw [hunfinished] at hk
          exact h.room hcalled k hk

/-! ## Runs -/

theorem readerStep_eq {i : ℕ} (hread : s.reader = .read i) (hfrom : (s.items i).kFrom.length = 2) :
    ∃ item put, readerStep m s =
      some { s with items := update s.items i item, reader := .wait i, put := put } ∧
        item.marks = (s.items i).marks := by
  have hne : (s.items i).kFrom ≠ [] := fun heq ↦ by
    rw [heq] at hfrom
    cases hfrom
  rw [readerStep, hread]
  dsimp only
  rw [if_neg hne, transferRead, if_neg (not_not.mpr hfrom), putRead]
  split
  · simp only [Function.update_idem, Function.update_self]
    exact ⟨_, _, rfl, rfl⟩
  · exact ⟨_, _, rfl, rfl⟩

theorem Inv.read_step (h : Inv m s) (hs : readerStep m s = some s') : Inv m s' := by
  cases hr : s.reader with
  | read i =>
    have hi : s.reader.item? = some i := by rw [hr]; rfl
    obtain ⟨hlive, hpos, hslot⟩ := h.reader_live hi
    have hfrom : (s.items i).kFrom.length = 2 := by
      rw [hslot]
      exact (h.item_of_live hlive).2.2.2.2.2 ⟨by rw [hr]; rfl, hpos⟩
    obtain ⟨item, put, heq, hmarks⟩ := readerStep_eq hr hfrom
    rw [heq] at hs
    cases hs
    exact h.reader_touch hi (by rw [hr]; rfl) rfl rfl hmarks (by rintro ⟨⟩)
  | _ =>
    rw [readerStep, hr] at hs
    cases hs

theorem Inv.wait_step {r : Wait} (h : Inv m s) (herr : r ≠ .err) (hs : waitStep m s r = some s') :
    Inv m s' := by
  cases hr : s.reader with
  | wait i =>
    rw [waitStep.eq_def, hr] at hs
    cases r with
    | busy =>
      cases hs
      exact h
    | err => exact absurd rfl herr
    | ok head kvecs num =>
      dsimp only at hs
      split at hs
      · rename_i hm
        cases hs
        exact h.wait_thread hm hr rfl (Option.some_ne_none _)
      · rename_i hm
        cases hs
        exact h.wait_inline (by simpa using hm) hr rfl (Option.some_ne_none _)
  | _ =>
    rw [waitStep.eq_def, hr] at hs
    cases hs

theorem Inv.submit_step {ok : Bool} (h : Inv m s) (hclear : Clear s (.submit ok) s')
    (hs : submitStep m s ok = some s') : Inv m s' := by
  cases hw : s.writer with
  | submit i =>
    have hi : s.writer.item? = some i := by rw [hw]; rfl
    obtain ⟨hlive, hslot, -⟩ := h.writer_live hi
    have htx : (s.items i).tx = false := by
      rw [hslot, ← Bool.not_eq_true, (h.item_of_live hlive).2.2.2.1]
      exact fun hmem ↦ h.written_not_mem (Flow.mem_unfinished_of_queued hmem)
    rw [submitStep, hw] at hs
    dsimp only at hs
    rw [if_neg (Bool.eq_false_iff.mp htx)] at hs
    cases ok with
    | true =>
      cases hs
      exact h.submit_ok hw hclear
    | false =>
      cases hs
      exact h.submit_error hw
  | _ =>
    rw [submitStep, hw] at hs
    cases hs

theorem Inv.step {l : Label} (h : Inv m s) (hserved : Served s l s') (hclear : Clear s l s')
    (hs : Transfer.step m s l = some s') : Inv m s' := by
  rw [step.eq_def, if_neg (by rw [h.fault]; decide)] at hs
  cases l with
  | getRead =>
    dsimp only at hs
    split at hs
    · rename_i hidle
      split at hs
      · rename_i hfree
        cases hs
        exact h.getRead_step hidle.2 hfree
      · cases hs
        exact h
    · cases hs
  | fetch head kFrom =>
    dsimp only at hs
    split at hs
    · rename_i i hr
      rw [if_pos h.ready] at hs
      cases hs
      exact h.reader_touch (by rw [hr]; rfl) (by rw [hr]; rfl) rfl rfl rfl fun _ ↦ hserved
    · cases hs
  | read => exact h.read_step hs
  | readFailed =>
    dsimp only at hs
    split at hs
    · rename_i i hr
      exact absurd hr (h.stages.not_failed i)
    · cases hs
  | wait r => exact h.wait_step hserved hs
  | post =>
    dsimp only at hs
    split at hs
    · rename_i i hr
      obtain ⟨hid, hinv⟩ := h.post_step hr
      rw [if_neg (not_not.mpr hid)] at hs
      cases hs
      exact hinv
    · cases hs
  | pick => exact h.pick_step hs
  | write remap => exact h.write_step hs
  | start =>
    dsimp only at hs
    split at hs
    · rename_i i hw
      cases hs
      exact h.start_step hw hclear
    · cases hs
  | submit ok => exact h.submit_step hclear hs
  | writeFailed =>
    dsimp only at hs
    split at hs
    · rename_i i hw
      cases hs
      exact h.done_step (by rw [hw]; rfl) (by rw [hw]; rfl)
    · cases hs
  | complete => exact h.complete_step hs
  | callback => exact h.callback_step hs
  | stop => exact absurd hserved id

theorem inv_init : Inv m init where
  fault := rfl
  ready := rfl
  indicatorRcv := rfl
  stages := ⟨le_rfl, nofun, nofun, nofun, fun _ ↦ ⟨rfl, rfl, le_rfl, nofun⟩, fun _ ↦ ⟨rfl, nofun, nofun, nofun⟩⟩
  window k hk := by
    rcases hk with hk | hk
    · cases hk
    · exact absurd hk.2 (Nat.not_lt_zero _)
  items i _ := by
    refine .inl ⟨rfl, rfl, rfl, fun k hk ↦ ?_⟩
    rcases hk with hk | hk
    · cases hk
    · exact absurd hk.2 (Nat.not_lt_zero _)
  flow := ⟨.nil, nofun, rfl, rfl, nofun, nofun⟩
  clear := nofun
  room := nofun

/-- The condition on the steps of a run: chains that can be served, and DMAs that are clear of the range of
the callback. -/
def Regular (s : Sys) (l : Label) (s' : Sys) : Prop := Served s l s' ∧ Clear s l s'

instance Regular.decidable (s : Sys) (l : Label) (s' : Sys) : Decidable (Regular s l s') :=
  inferInstanceAs (Decidable (_ ∧ _))

theorem inv_of_exec {ls : List Label} (hregular : Along Regular (step m) init ls)
    (h : exec (step m) init ls = some s) : Inv m s :=
  exec_invariant (P := Regular) (fun hinv hcond hstep ↦ hinv.step hcond.1 hcond.2 hstep) hregular inv_init h

end Vcass.Vop.Transfer
