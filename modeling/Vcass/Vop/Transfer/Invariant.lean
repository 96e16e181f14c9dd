import Vcass.Lib.RingCounter
import Vcass.Vop.Transfer.System

/-!
# VOP: which items of the pipeline are where

An item that was taken is with one of the tasks, in the queue of the DMA task, with the DMA engine or with
the callback. The invariant says so in terms of turns: those that are *live* are the ones submitted and not
finished, and those from the oldest that is not written to the last one taken. Live turns are within a
window of 512, so they have different items, and the marks of an item tell where its turn is.

## The window of the callback

`transfer_done_callback` walks from `counter_done_transfer` to its own item and finishes every item that
is started. That is right as long as its own item is the only one in this range: `Inv.clear`. It depends
on the failed items, which are skipped by `counter_done_transfer` only when the callback comes by, but can
be taken again at once; so it is a condition on the start of a DMA, and `Clear` states it.
-/

namespace Vcass.Vop.Transfer

open Conc RingCounter
open Function (update)

variable {m : Mode} {s s' : Sys}

/-! ## Turns -/

/-- The items whose DMA was submitted and that the callback has not passed, oldest first. -/
def Sys.pendingItems (s : Sys) : List ℕ :=
  (match s.callback with
    | some cb => if cb.next = cb.stop then [] else [cb.item]
    | none => []) ++ s.dma.map Dma.item

/-- The turn that the callback is for, until it is finished. -/
def Sys.called (s : Sys) : List ℕ :=
  match s.callback with
  | some cb => if cb.next = cb.stop then [] else [cb.turn]
  | none => []

def Sys.queued (s : Sys) : List ℕ := s.dma.map Dma.turn

def Sys.unfinished (s : Sys) : List ℕ := s.called ++ s.queued

def Live (s : Sys) (k : ℕ) : Prop := k ∈ s.unfinished ∨ s.written ≤ k ∧ k < s.taken

def Writer.submitting : Writer → Bool
  | .submit _ => true
  | _ => false

/-- The mark `jiffies` is set for the turn. -/
def Begun (s : Sys) (k : ℕ) : Prop :=
  k ∈ s.unfinished ∨ s.writer.submitting = true ∧ k = s.written

def Reader.early : Reader → Bool
  | .hold _ | .read _ | .wait _ => true
  | _ => false

/-- The turn has no buffer of the peer yet. -/
def Early (s : Sys) (k : ℕ) : Prop := s.reader.early = true ∧ k + 1 = s.taken

def Reader.reading : Reader → Bool
  | .read _ => true
  | _ => false

/-- The chain of the turn is fetched and not yet read. -/
def Reading (s : Sys) (k : ℕ) : Prop := s.reader.reading = true ∧ k + 1 = s.taken

/-- Item `i` is free, or it belongs to a live turn. -/
def ItemOk (s : Sys) (i : ℕ) (item : Item) : Prop :=
  (item.statusReady = true ∧ item.jiffies = false ∧ item.tx = false ∧
    ∀ k, Live s k → slot ringSize k ≠ i) ∨
  ∃ k, Live s k ∧ slot ringSize k = i ∧ item.statusReady = false ∧ item.turn = k ∧
    (item.jiffies = true ↔ Begun s k) ∧ (item.tx = true ↔ k ∈ s.queued) ∧
    (¬Early s k → item.kvecTo ≠ none) ∧ (Reading s k → item.kFrom.length = 2)

/-- The distance that `transfer_done_callback` computes as `missed`. -/
def missed (next i : ℕ) : ℕ := (i + ringSize - next) % ringSize

/-! ## The invariant -/

def Reader.item? : Reader → Option ℕ
  | .idle => none
  | .hold i | .read i | .failed i | .wait i | .post i | .write i => some i

def Writer.item? : Writer → Option ℕ
  | .idle => none
  | .write i | .send i | .submit i | .failed i => some i

/-- How many items the task is at. -/
def Reader.holds (r : Reader) : ℕ := r.item?.elim 0 fun _ ↦ 1

def Writer.holds (w : Writer) : ℕ := w.item?.elim 0 fun _ ↦ 1

/-- Which item a task is at, and how the counters of the tasks stand to each other. -/
structure Stages (m : Mode) (s : Sys) : Prop where
  holds_le : s.reader.holds ≤ s.taken
  reader : ∀ i, s.reader.item? = some i → i = slot ringSize (s.taken - 1)
  not_failed : ∀ i, s.reader ≠ .failed i
  writer : ∀ i, s.writer.item? = some i → i = slot ringSize s.written
  thread : m.writeInThread = true → s.counterDmaSend = u16 (s.taken - s.reader.holds) ∧
    s.counterDmaLast = u16 s.written ∧ s.written + s.writer.holds + s.reader.holds ≤ s.taken ∧
    ∀ i, s.reader ≠ .write i
  inline : m.writeInThread = false → s.written + s.reader.holds = s.taken ∧
    (∀ i, s.reader ≠ .post i) ∧ (s.writer.holds = 1 ↔ ∃ i, s.reader = .write i)

/-- The way of the turns through the DMA engine. -/
structure Flow (s : Sys) : Prop where
  sorted : s.started.Pairwise (· < ·)
  lt_written : ∀ k ∈ s.started, k < s.written
  started : s.started = s.finished ++ s.unfinished
  completed : s.completed = s.finished ++ s.called
  dma : ∀ d ∈ s.dma, d.item = slot ringSize d.turn ∧ d.callback = true
  callback : ∀ cb, s.callback = some cb → cb.item = slot ringSize cb.turn ∧
    cb.next = s.counterDoneTransfer % ringSize ∧ cb.stop = slot ringSize (cb.turn + 1) ∧
    (cb.started = true → cb.next ≠ cb.stop ∧ cb.next = slot ringSize cb.turn)

structure Inv (m : Mode) (s : Sys) : Prop where
  fault : s.fault = none
  ready : s.ready = true
  indicatorRcv : s.indicatorRcv = u16 s.taken
  stages : Stages m s
  window : ∀ k, Live s k → s.taken ≤ k + ringSize
  items : ∀ i < ringSize, ItemOk s i (s.items i)
  flow : Flow s
  /-- The callback meets its own item before any other that is started. -/
  clear : ∀ k, s.unfinished.head? = some k → ∀ j, Begun s j → j ≠ k →
    missed (s.counterDoneTransfer % ringSize) (slot ringSize k) <
      missed (s.counterDoneTransfer % ringSize) (slot ringSize j)
  /-- The callback does not take its range for empty. -/
  room : s.called = [] → ∀ k, s.unfinished.head? = some k →
    s.counterDoneTransfer % ringSize ≠ slot ringSize (k + 1)

theorem Flow.mono (h : Flow s) (hstarted : s'.started = s.started) (hcompleted : s'.completed = s.completed)
    (hfinished : s'.finished = s.finished) (hdma : s'.dma = s.dma) (hcallback : s'.callback = s.callback)
    (hcounter : s'.counterDoneTransfer = s.counterDoneTransfer) (hwritten : s.written ≤ s'.written) :
    Flow s' where
  sorted := hstarted ▸ h.sorted
  lt_written k hk := (h.lt_written k (hstarted ▸ hk)).trans_le hwritten
  started := by
    rw [hstarted, hfinished, Sys.unfinished, Sys.called, Sys.queued, hdma, hcallback]
    exact h.started
  completed := by
    rw [hcompleted, hfinished, Sys.called, hcallback]
    exact h.completed
  dma := hdma ▸ h.dma
  callback := by
    rw [hcallback, hcounter]
    exact h.callback

/-! ## Items of live turns -/

theorem ringSize_pos : 0 < ringSize := by decide

theorem u16_mod (n : ℕ) : u16 n % ringSize = slot ringSize n :=
  Nat.mod_mod_of_dvd n (by decide)

theorem Stages.written_le (h : Stages m s) : s.written + s.writer.holds ≤ s.taken := by
  have hholds : s.writer.holds ≤ 1 := by
    rw [Writer.holds]
    cases s.writer.item? <;> simp
  cases hm : m.writeInThread with
  | true =>
    have := (h.thread hm).2.2.1
    omega
  | false =>
    obtain ⟨htaken, -, hwriter⟩ := h.inline hm
    have : s.writer.holds = 1 → s.reader.holds = 1 := fun hone ↦ by
      obtain ⟨i, hi⟩ := hwriter.mp hone
      rw [hi]
      rfl
    omega

theorem Flow.mem_started (h : Flow s) {k : ℕ} (hk : k ∈ s.unfinished) : k ∈ s.started := by
  rw [h.started]
  exact List.mem_append_right _ hk

theorem Flow.sorted_unfinished (h : Flow s) : s.unfinished.Pairwise (· < ·) := by
  have hsorted := h.sorted
  rw [h.started] at hsorted
  exact (List.pairwise_append.mp hsorted).2.1

theorem Flow.mem_unfinished_of_queued {k : ℕ} (hk : k ∈ s.queued) : k ∈ s.unfinished :=
  List.mem_append_right _ hk

section Live

variable (h : Inv m s) {j k : ℕ}
include h

theorem Inv.lt_taken (hk : Live s k) : k < s.taken := by
  rcases hk with hk | hk
  · have := h.flow.lt_written k (h.flow.mem_started hk)
    have := h.stages.written_le
    omega
  · exact hk.2

theorem Inv.slot_inj (hj : Live s j) (hk : Live s k) (heq : slot ringSize j = slot ringSize k) :
    j = k := by
  have hj' := h.window j hj
  have hk' := h.window k hk
  have hjlt := h.lt_taken hj
  have hklt := h.lt_taken hk
  rcases Nat.le_total j k with hle | hle
  · exact eq_of_slot_eq hle (by omega) heq
  · exact (eq_of_slot_eq hle (by omega) heq.symm).symm

theorem Inv.item_of_live (hk : Live s k) :
    (s.items (slot ringSize k)).statusReady = false ∧ (s.items (slot ringSize k)).turn = k ∧
      ((s.items (slot ringSize k)).jiffies = true ↔ Begun s k) ∧
      ((s.items (slot ringSize k)).tx = true ↔ k ∈ s.queued) ∧
      (¬Early s k → (s.items (slot ringSize k)).kvecTo ≠ none) ∧
      (Reading s k → (s.items (slot ringSize k)).kFrom.length = 2) := by
  rcases h.items _ (slot_lt ringSize_pos k) with hfree | ⟨j, hj, heq, hrest⟩
  · exact absurd rfl (hfree.2.2.2 k hk)
  · obtain rfl := h.slot_inj hj hk heq
    exact hrest

theorem Inv.live_of_begun (hk : Begun s k) : Live s k := by
  rcases hk with hk | ⟨hw, rfl⟩
  · exact .inl hk
  · have hle := h.stages.written_le
    cases hwriter : s.writer with
    | submit i =>
      rw [hwriter, Writer.holds, Writer.item?, Option.elim_some] at hle
      exact .inr ⟨le_rfl, hle⟩
    | _ => simp [hwriter, Writer.submitting] at hw

theorem Inv.begun_of_jiffies {i : ℕ} (hi : i < ringSize) (hjiffies : (s.items i).jiffies = true) :
    ∃ k, Begun s k ∧ slot ringSize k = i := by
  rcases h.items i hi with hfree | ⟨k, -, heq, -, -, hbegun, -⟩
  · rw [hfree.2.1] at hjiffies
    cases hjiffies
  · exact ⟨k, hbegun.mp hjiffies, heq⟩

end Live

/-- The turn `k` is in the same place. -/
structure Same (s s' : Sys) (k : ℕ) : Prop where
  live : Live s' k ↔ Live s k
  begun : Begun s' k ↔ Begun s k
  queued : k ∈ s'.queued ↔ k ∈ s.queued
  early : Early s k → Early s' k
  reading : Reading s' k → Reading s k

theorem ItemOk.congr {i : ℕ} {item : Item} (h : ItemOk s i item)
    (hsame : ∀ k, slot ringSize k = i → Same s s' k) : ItemOk s' i item := by
  rcases h with ⟨hready, hjiffies, htx, hlive⟩ | ⟨k, hlive, heq, hready, hturn, hbegun, htx, hkvec, hfrom⟩
  · exact .inl ⟨hready, hjiffies, htx, fun k hk heq ↦ hlive k ((hsame k heq).live.mp hk) heq⟩
  · have hk := hsame k heq
    exact .inr ⟨k, hk.live.mpr hlive, heq, hready, hturn, hbegun.trans hk.begun.symm,
      htx.trans hk.queued.symm, fun hearly ↦ hkvec fun he ↦ hearly (hk.early he),
      fun hread ↦ hfrom (hk.reading hread)⟩

/-- The marks of an item that tell where its turn is. -/
def Item.marks (item : Item) : Bool × Bool × Bool × ℕ :=
  (item.statusReady, item.jiffies, item.tx, item.turn)

theorem ItemOk.touch {i : ℕ} {item item' : Item} (h : ItemOk s i item) (hmarks : item'.marks = item.marks)
    (hkvec : item'.kvecTo = item.kvecTo) (hfrom : item'.kFrom = item.kFrom) : ItemOk s i item' := by
  simp only [Item.marks, Prod.mk.injEq] at hmarks
  rw [ItemOk, hmarks.1, hmarks.2.1, hmarks.2.2.1, hmarks.2.2.2, hkvec, hfrom]
  exact h

/-- One item changes, and the turns of the others are where they were. -/
theorem Inv.items_set {j : ℕ} {item : Item} (h : Inv m s) (hitems : s'.items = update s.items j item)
    (hj : ItemOk s' j item) (hsame : ∀ k, slot ringSize k ≠ j → Same s s' k) (i : ℕ) (hi : i < ringSize) :
    ItemOk s' i (s'.items i) := by
  rw [hitems]
  by_cases hij : i = j
  · rw [hij, Function.update_self]
    exact hj
  · rw [Function.update_of_ne hij]
    exact (h.items i hi).congr fun k hk ↦ hsame k (hk ▸ hij)

/-! ## The read task -/

/-- The read task takes the item of the next turn: if it is free, no live turn has it. -/
theorem Inv.getRead_step (h : Inv m s) (hidle : s.reader = .idle)
    (hfree : (s.items (s.indicatorRcv % ringSize)).statusReady = true) :
    Inv m { s with
      items := update s.items (s.indicatorRcv % ringSize)
        { s.items (s.indicatorRcv % ringSize) with statusReady := false, turn := s.taken }
      indicatorRcv := u16 (s.indicatorRcv + 1)
      reader := .hold (s.indicatorRcv % ringSize)
      taken := s.taken + 1 } := by
  have hwritten := h.stages.written_le
  have hitem : s.indicatorRcv % ringSize = slot ringSize s.taken := by
    rw [h.indicatorRcv, u16_mod]
  rw [hitem] at hfree ⊢
  obtain ⟨hjiffies, htx, hnone⟩ : (s.items (slot ringSize s.taken)).jiffies = false ∧
      (s.items (slot ringSize s.taken)).tx = false ∧
      ∀ k, Live s k → slot ringSize k ≠ slot ringSize s.taken := by
    rcases h.items _ (slot_lt ringSize_pos s.taken) with hok | ⟨k, -, -, hready, -⟩
    · exact hok.2
    · rw [hready] at hfree
      cases hfree
  have hnot : s.taken ∉ s.unfinished := fun hmem ↦ by
    have := h.flow.lt_written _ (h.flow.mem_started hmem)
    omega
  have hwindow : ∀ k, Live s k → s.taken < k + ringSize := fun k hk ↦ by
    refine lt_of_le_of_ne (h.window k hk) fun heq ↦ hnone k hk ?_
    rw [slot, slot, heq, Nat.add_mod_right]
  refine ⟨h.fault, h.ready, ?_, ?_, fun k hk ↦ ?_, ?_, h.flow.mono rfl rfl rfl rfl rfl rfl le_rfl,
    h.clear, h.room⟩
  · rw [h.indicatorRcv, u16, u16, u16, Nat.mod_add_mod]
  · have hholds : s.reader.holds = 0 := by rw [hidle]; rfl
    refine ⟨Nat.le_add_left _ _, ?_, by rintro _ ⟨⟩, h.stages.writer, fun hm ↦ ?_, fun hm ↦ ?_⟩
    · rintro i ⟨⟩
      rfl
    · obtain ⟨hsend, hlast, hle, -⟩ := h.stages.thread hm
      rw [hholds] at hsend hle
      exact ⟨hsend, hlast, Nat.succ_le_succ hle, by rintro _ ⟨⟩⟩
    · obtain ⟨hle, -, hwriter⟩ := h.stages.inline hm
      rw [hholds] at hle
      refine ⟨congrArg Nat.succ hle, by rintro _ ⟨⟩, fun hone ↦ ?_, by rintro ⟨_, ⟨⟩⟩⟩
      obtain ⟨i, hi⟩ := hwriter.mp hone
      rw [hidle] at hi
      cases hi
  · rcases hk with hk | ⟨hle, hlt⟩
    · exact hwindow k (.inl hk)
    · rcases Nat.lt_or_ge k s.taken with hk | hk
      · exact hwindow k (.inr ⟨hle, hk⟩)
      · exact Nat.add_le_add hk ringSize_pos
  · refine h.items_set rfl (.inr ⟨s.taken, .inr ⟨by dsimp only; omega, Nat.lt_succ_self _⟩, rfl, rfl, rfl,
      ?_, ?_, fun hearly ↦ absurd ⟨rfl, rfl⟩ hearly, by rintro ⟨⟨⟩, _⟩⟩) fun k hk ↦ ?_
    · rw [hjiffies]
      refine ⟨(by rintro ⟨⟩), fun hbegun ↦ ?_⟩
      exact absurd rfl (hnone s.taken (h.live_of_begun hbegun))
    · rw [htx]
      exact ⟨(by rintro ⟨⟩), fun hq ↦ absurd (Flow.mem_unfinished_of_queued hq) hnot⟩
    · have hne : k ≠ s.taken := fun heq ↦ hk (heq ▸ rfl)
      refine ⟨or_congr_right (and_congr_right fun _ ↦ ?_), .rfl, .rfl, fun hearly ↦ ?_, by rintro ⟨⟨⟩, _⟩⟩
      · dsimp only
        omega
      · rw [Early, hidle] at hearly
        exact absurd hearly.1 (by decide)

theorem Reader.early_cases {r : Reader} (h : r.early = true) :
    r.holds = 1 ∧ (∀ i, r ≠ .failed i) ∧ (∀ i, r ≠ .post i) ∧ ∀ i, r ≠ .write i := by
  cases r <;> simp [Reader.early, Reader.holds, Reader.item?] at h ⊢

theorem Inv.reader_live {i : ℕ} (h : Inv m s) (hi : s.reader.item? = some i) :
    Live s (s.taken - 1) ∧ s.taken - 1 + 1 = s.taken ∧ i = slot ringSize (s.taken - 1) := by
  have hle := h.stages.holds_le
  have hholds : s.reader.holds = 1 := by rw [Reader.holds, hi]; rfl
  have hwritten : s.written + 1 ≤ s.taken := by
    cases hm : m.writeInThread with
    | true =>
      have := (h.stages.thread hm).2.2.1
      omega
    | false =>
      have := (h.stages.inline hm).1
      omega
  exact ⟨.inr ⟨by omega, by omega⟩, by omega, h.stages.reader i hi⟩

theorem Inv.reader_touch {i : ℕ} {item : Item} {r : Reader} {put : List (ℕ × ℕ)} (h : Inv m s)
    (hi : s.reader.item? = some i) (hearly : s.reader.early = true) (hr : r.item? = some i)
    (hearly' : r.early = true) (hmarks : item.marks = (s.items i).marks)
    (hfrom : r.reading = true → item.kFrom.length = 2) :
    Inv m { s with items := update s.items i item, reader := r, put := put } := by
  obtain ⟨hholds, -, -, hwrite⟩ := Reader.early_cases hearly
  obtain ⟨hholds', hfailed', hpost', hwrite'⟩ := Reader.early_cases hearly'
  obtain ⟨hlive, hpos, rfl⟩ := h.reader_live hi
  refine ⟨h.fault, h.ready, h.indicatorRcv, ?_, h.window, h.items_set rfl ?_ fun k hk ↦ ?_,
    h.flow.mono rfl rfl rfl rfl rfl rfl le_rfl, h.clear, h.room⟩
  · have hle := h.stages.holds_le
    rw [hholds] at hle
    refine ⟨hholds'.trans_le hle, fun j hj ↦ ?_, hfailed', h.stages.writer, fun hm ↦ ?_, fun hm ↦ ?_⟩
    · rw [hr] at hj
      exact h.stages.reader j (hi.trans hj)
    · obtain ⟨hsend, hlast, hle, -⟩ := h.stages.thread hm
      rw [hholds] at hsend hle
      dsimp only
      rw [hholds']
      exact ⟨hsend, hlast, hle, hwrite'⟩
    · obtain ⟨htaken, -, hwriter⟩ := h.stages.inline hm
      rw [hholds] at htaken
      dsimp only
      rw [hholds']
      refine ⟨htaken, hpost', ?_, ?_⟩
      · intro hone
        obtain ⟨j, hj⟩ := hwriter.mp hone
        exact absurd hj (hwrite j)
      · rintro ⟨j, hj⟩
        exact absurd hj (hwrite' j)
  · obtain ⟨h1, h2, h3, h4, -⟩ := h.item_of_live hlive
    simp only [Item.marks, Prod.mk.injEq] at hmarks
    refine .inr ⟨s.taken - 1, hlive, rfl, hmarks.1.trans h1, hmarks.2.2.2.trans h2, ?_, ?_,
      fun he ↦ absurd ⟨hearly', hpos⟩ he, fun hread ↦ hfrom hread.1⟩
    · rw [hmarks.2.1]
      exact h3
    · rw [hmarks.2.2.1]
      exact h4
  · have hne : k + 1 ≠ s.taken := fun heq ↦ by
      obtain rfl : k = s.taken - 1 := Nat.succ_injective (heq.trans hpos.symm)
      exact hk rfl
    exact ⟨.rfl, .rfl, .rfl, fun he ↦ absurd he.2 hne, fun hread ↦ absurd hread.2 hne⟩

theorem Inv.items_got {i : ℕ} {item : Item} {r : Reader} {w : Writer} (h : Inv m s)
    (hi : s.reader.item? = some i) (hw : w.submitting = s.writer.submitting) (hr : r.reading = false)
    (hmarks : item.marks = (s.items i).marks) (hkvec : item.kvecTo ≠ none) :
    ∀ j < ringSize, ItemOk { s with items := update s.items i item, reader := r, writer := w } j
      (update s.items i item j) := by
  have hbegun : ∀ k, Begun { s with items := update s.items i item, reader := r, writer := w } k ↔
      Begun s k := fun k ↦ by
    rw [Begun, Begun, hw]
    rfl
  have hread : ∀ k, ¬Reading { s with items := update s.items i item, reader := r, writer := w } k :=
    fun k hk ↦ Bool.false_ne_true (hr.symm.trans hk.1)
  obtain ⟨hlive, hpos, rfl⟩ := h.reader_live hi
  refine h.items_set rfl ?_ fun k hk ↦ ⟨.rfl, hbegun k, .rfl, fun hearly ↦ ?_, fun hk ↦ absurd hk (hread k)⟩
  · obtain ⟨h1, h2, h3, h4, -⟩ := h.item_of_live hlive
    simp only [Item.marks, Prod.mk.injEq] at hmarks
    refine .inr ⟨s.taken - 1, hlive, rfl, hmarks.1.trans h1, hmarks.2.2.2.trans h2, ?_, ?_, fun _ ↦ hkvec,
      fun hk ↦ absurd hk (hread _)⟩
    · rw [hmarks.2.1, hbegun]
      exact h3
    · rw [hmarks.2.2.1]
      exact h4
  · obtain rfl : k = s.taken - 1 := Nat.succ_injective (hearly.2.trans hpos.symm)
    exact absurd rfl hk

theorem Inv.wait_thread {i : ℕ} {item : Item} (h : Inv m s) (hm : m.writeInThread = true)
    (hwait : s.reader = .wait i) (hmarks : item.marks = (s.items i).marks) (hkvec : item.kvecTo ≠ none) :
    Inv m { s with items := update s.items i item, reader := .post i } := by
  have hi : s.reader.item? = some i := by rw [hwait]; rfl
  have hholds : s.reader.holds = 1 := by rw [hwait]; rfl
  have hle := h.stages.holds_le
  obtain ⟨hsend, hlast, hwritten, -⟩ := h.stages.thread hm
  rw [hholds] at hsend hwritten hle
  refine ⟨h.fault, h.ready, h.indicatorRcv, ?_, h.window,
    h.items_got hi rfl rfl hmarks hkvec,
    h.flow.mono rfl rfl rfl rfl rfl rfl le_rfl, h.clear, h.room⟩
  refine ⟨hle, fun j hj ↦ h.stages.reader j (hi.trans hj), by rintro _ ⟨⟩, h.stages.writer, fun _ ↦ ?_,
    fun hm' ↦ ?_⟩
  · exact ⟨hsend, hlast, hwritten, by rintro _ ⟨⟩⟩
  · rw [hm] at hm'
    cases hm'

theorem Inv.wait_inline {i : ℕ} {item : Item} (h : Inv m s) (hm : m.writeInThread = false)
    (hwait : s.reader = .wait i) (hmarks : item.marks = (s.items i).marks) (hkvec : item.kvecTo ≠ none) :
    Inv m { s with items := update s.items i item, reader := .write i, writer := .write i } := by
  have hi : s.reader.item? = some i := by rw [hwait]; rfl
  have hholds : s.reader.holds = 1 := by rw [hwait]; rfl
  have hle := h.stages.holds_le
  obtain ⟨htaken, -, hwriter⟩ := h.stages.inline hm
  rw [hholds] at htaken hle
  have hidle : s.writer = .idle := by
    cases hw : s.writer with
    | idle => rfl
    | _ =>
      obtain ⟨j, hj⟩ := hwriter.mp (by rw [hw]; rfl)
      rw [hwait] at hj
      cases hj
  refine ⟨h.fault, h.ready, h.indicatorRcv, ?_, h.window,
    h.items_got hi (by rw [hidle]; rfl) rfl hmarks hkvec,
    h.flow.mono rfl rfl rfl rfl rfl rfl le_rfl, ?_, h.room⟩
  · refine ⟨hle, fun j hj ↦ h.stages.reader j (hi.trans hj), by rintro _ ⟨⟩, fun j hj ↦ ?_, fun hm' ↦ ?_,
      fun _ ↦ ⟨htaken, by rintro _ ⟨⟩, fun _ ↦ ⟨i, rfl⟩, fun _ ↦ rfl⟩⟩
    · rw [h.stages.reader j (hi.trans hj)]
      congr 1
      dsimp only
      omega
    · rw [hm] at hm'
      cases hm'
  · have hclear := h.clear
    simp only [Begun, hidle] at hclear
    exact hclear

theorem Inv.post_step {i : ℕ} (h : Inv m s) (hpost : s.reader = .post i) :
    i = s.counterDmaSend % ringSize ∧
      Inv m { s with counterDmaSend := u16 (s.counterDmaSend + 1), reader := .idle } := by
  have hi : s.reader.item? = some i := by rw [hpost]; rfl
  have hholds : s.reader.holds = 1 := by rw [hpost]; rfl
  obtain ⟨-, hpos, hslot⟩ := h.reader_live hi
  cases hm : m.writeInThread with
  | false => exact absurd hpost ((h.stages.inline hm).2.1 i)
  | true =>
    obtain ⟨hsend, hlast, hwritten, -⟩ := h.stages.thread hm
    rw [hholds] at hsend hwritten
    refine ⟨by rw [hslot, hsend, u16_mod], h.fault, h.ready, h.indicatorRcv, ?_, h.window, ?_,
      h.flow.mono rfl rfl rfl rfl rfl rfl le_rfl, h.clear, h.room⟩
    · refine ⟨Nat.zero_le _, by rintro _ ⟨⟩, by rintro _ ⟨⟩, h.stages.writer, fun _ ↦ ⟨?_, hlast, ?_, by rintro _ ⟨⟩⟩,
        fun hm' ↦ ?_⟩
      · rw [hsend, u16, u16, Nat.mod_add_mod, hpos]
        rfl
      · exact (Nat.le_succ _).trans hwritten
      · rw [hm] at hm'
        cases hm'
    · refine fun j hj ↦ (h.items j hj).congr fun k _ ↦ ⟨.rfl, .rfl, .rfl, fun hearly ↦ ?_, by rintro ⟨⟨⟩, _⟩⟩
      rw [Early, hpost] at hearly
      exact absurd hearly.1 Bool.false_ne_true

end Vcass.Vop.Transfer
