import Vcass.Lib.Overlay
import Vcass.Vop.Transfer.System

/-!
# VOP: what a used entry promises

When an item is finished, `vop_kvec_used` tells the peer how many bytes were put into its buffer, and
`receive_buf` on the other machine takes every entry that is long enough for a packet. The length is
added up in `transfer_write` before the steps that can fail: remapping the buffer of the peer and
submitting the DMA. Here one packet is followed through `transfer`, with what is written to the buffer.

## The buffer of the peer

`Option` tells the cells that were written from those that were not, so that what is already in the
buffer cannot be taken for the packet by accident.
-/

namespace Vcass.Vop.Transfer

open Overlay

/-! ## One packet -/

/-- A chain of the transmit queue, the buffer that is obtained for it and how its transfer goes. -/
structure Packet where
  /-- The lengths of the vectors of the chain. -/
  kFrom : List ℕ
  /-- The physical address of the data. -/
  src : ℕ
  /-- `BUG_ON(item->src_phys == 0)`. -/
  src_ne : src ≠ 0
  /-- The memory of this machine. -/
  mem : ℕ → UInt8
  headFrom : ℕ
  headTo : ℕ
  kvecs : List ℕ
  num : ℕ
  /-- The DMA address that `transfer_ioremap` gets, `none` if it fails. -/
  remap : Option ℕ
  /-- Whether `vop_async_dma` returns a cookie. -/
  submit : Bool

/-- `ALIGN(x, PLX_DMA_ALIGN_BYTES)`. -/
def alignUp (x : ℕ) : ℕ := (x + (plxDmaAlignBytes - 1)) / plxDmaAlignBytes * plxDmaAlignBytes

/-- The buffer of the peer, from the start of the remapped window on. -/
abbrev Peer := ℕ → Option UInt8

section Send

variable (m : Mode) (p : Packet) (size : ℕ) (peer : Peer)

/-- Copy `n` bytes of this machine, from `src` on, to the buffer of the peer. -/
def copyTo (dst src n : ℕ) : Peer := overlay peer dst (slice (fun a ↦ some (p.mem a)) src n)

/-- `iowrite8` to the start of the window. -/
def ioWrite8 (offset : ℕ) : Peer := overlay peer 0 [some (UInt8.ofNat offset)]

def transferMemcpySend : Peer :=
  if size = 0 then peer
  else if m.featureDescAlignment then
    let offset := if p.src % 4 = 0 then 4 else p.src % 4
    copyTo p (ioWrite8 peer offset) offset p.src size
  else copyTo p peer 0 p.src size

/-- `transfer_dma_send`, with the DMA carried out if it could be submitted. Without the alignment
feature it is done from the buffer of the item, where `transfer_read` has copied the data. -/
def transferDmaSend (dst : ℕ) : Peer :=
  if m.featureDescAlignment then
    let newDst := alignUp dst
    let offsetDst := newDst - dst
    let offsetSrc := p.src % plxDmaAlignBytes
    let newSrc := p.src - offsetSrc
    let offset := offsetDst + offsetSrc
    let srcPhysSz := alignUp (size + offsetSrc)
    -- The first byte is for the offset.
    let offset' := if offsetDst < 1 then offset + plxDmaAlignBytes else offset
    let newDst' := if offsetDst < 1 then newDst + plxDmaAlignBytes else newDst
    let peer := ioWrite8 peer offset'
    if p.submit then copyTo p peer (newDst' - dst) newSrc srcPhysSz else peer
  else if p.submit then copyTo p peer 0 p.src (alignUp size)
  else peer

end Send

/-! ## What is published -/

/-- What becomes of a packet: the used entry and the buffer of the peer at that time. -/
structure Outcome where
  used : Option (ℕ × ℕ)
  peer : Peer

section Transfer

variable (m : Mode) (p : Packet)

/-- `transfer` and what follows it, until the item is finished. -/
def transfer : Outcome :=
  let item := { init.items 0 with
    statusReady := false, headFrom := some p.headFrom, vringhTx := true, kFrom := p.kFrom }
  let (item, ok) := transferRead m item
  if ok then
    let item := { item with headTo := some p.headTo, kvecTo := some p.kvecs, numKvecsTo := p.num }
    let (item, ok) := transferWrite m item p.remap.isSome
    match p.remap with
    | none => ⟨item.usedEntry, fun _ ↦ none⟩
    | some dst =>
      if ok then
        if m.dmaDev then ⟨item.usedEntry, transferDmaSend m p item.dataSize (fun _ ↦ none) dst⟩
        else ⟨item.usedEntry, transferMemcpySend m p item.dataSize (fun _ ↦ none)⟩
      else ⟨item.usedEntry, fun _ ↦ none⟩
  -- There is no buffer of the peer yet.
  else ⟨item.usedEntry, fun _ ↦ none⟩

/-- `data_size` after `transfer_read`. -/
def Packet.dataSize : ℕ :=
  let srcSize := p.kFrom.getD 1 0
  if m.intermediate && srcSize > intDmaBufSize then intDmaBufSize else srcSize

/-- The size check lets the packet pass. -/
def Packet.Fits : Prop :=
  p.kFrom.length = 2 ∧ p.num = 2 ∧ p.dataSize m + m.sendAlignmentOverhead ≤ p.kvecs.getD 1 0

/-- The length that is added up for it. -/
def Packet.length : ℕ := (p.kvecs.getD 0 0 + p.dataSize m) % 2 ^ 32

/-- The payload is in the buffer: behind the offset that the first byte gives if the alignment feature
is used, from the start otherwise. -/
def Delivered (n : ℕ) (peer : Peer) : Prop :=
  if m.featureDescAlignment then
    ∃ offset : UInt8, peer 0 = some offset ∧ 0 < offset.toNat ∧
      ∀ i < n, peer (offset.toNat + i) = some (p.mem (p.src + i))
  else ∀ i < n, peer i = some (p.mem (p.src + i))

instance Packet.decidableFits : Decidable (p.Fits m) :=
  inferInstanceAs (Decidable (_ ∧ _ ∧ _))

end Transfer

/-! ## The writes -/

section Writes

variable {m : Mode} {p : Packet} {size dst offset : ℕ} {peer : Peer}

theorem le_alignUp (x : ℕ) : x ≤ alignUp x := by
  simp only [alignUp, plxDmaAlignBytes]
  omega

theorem alignUp_lt (x : ℕ) : alignUp x < x + 64 := by
  simp only [alignUp, plxDmaAlignBytes]
  omega

theorem ioWrite8_zero : ioWrite8 peer offset 0 = some (UInt8.ofNat offset) := by
  simp [ioWrite8, overlay]

theorem copyTo_add {src n i : ℕ} (h : i < n) :
    copyTo p peer dst src n (dst + i) = some (p.mem (src + i)) :=
  overlay_slice h

/-- The offset is a byte, so the receiver reads it as it was written. -/
theorem toNat_offset (h : offset ≤ dmaMaxOffset) : (UInt8.ofNat offset).toNat = offset := by
  rw [UInt8.toNat_ofNat']
  exact Nat.mod_eq_of_lt (lt_of_le_of_lt h (by decide))

/-- A copy behind the first byte leaves the offset in place. -/
theorem copyTo_ioWrite8_zero {src n : ℕ} (h : 0 < dst) :
    copyTo p (ioWrite8 peer offset) dst src n 0 = some (UInt8.ofNat offset) := by
  rw [copyTo, overlay_of_lt h, ioWrite8_zero]

/-- With the offset in the first byte, a copy that has the payload behind it delivers. -/
theorem delivered_copyTo {src n : ℕ} (skip : ℕ) (halign : m.featureDescAlignment) (hdst : 0 < dst)
    (hoffset : offset = dst + skip) (hmax : offset ≤ dmaMaxOffset) (hsrc : src + skip = p.src)
    (hn : size + skip ≤ n) :
    Delivered m p size (copyTo p (ioWrite8 peer offset) dst src n) := by
  rw [Delivered, if_pos halign]
  refine ⟨UInt8.ofNat offset, copyTo_ioWrite8_zero hdst, ?_, fun i hi ↦ ?_⟩
  · rw [toNat_offset hmax]
    omega
  · rw [toNat_offset hmax, hoffset, Nat.add_assoc, copyTo_add (by omega), ← hsrc, Nat.add_assoc]

/-- Without the alignment feature the payload is at the start. -/
theorem delivered_copyTo_start {n : ℕ} (halign : ¬m.featureDescAlignment) (hn : size ≤ n) :
    Delivered m p size (copyTo p peer 0 p.src n) := by
  rw [Delivered, if_neg halign]
  intro i hi
  have hcopy : copyTo p peer 0 p.src n (0 + i) = _ := copyTo_add (lt_of_lt_of_le hi hn)
  rwa [Nat.zero_add] at hcopy

/-- An empty payload is delivered without a write, unless the receiver looks for an offset. -/
theorem delivered_zero_iff_of_empty (hpeer : peer 0 = none) :
    Delivered m p 0 peer ↔ ¬m.featureDescAlignment := by
  rw [Delivered]
  split_ifs with halign
  · simp [hpeer, halign]
  · simp [halign]

theorem not_delivered_of_untouched (hsize : 0 < size) (hpeer : ∀ i, 0 < i → peer i = none)
    (h : ¬m.featureDescAlignment → peer 0 = none) : ¬Delivered m p size peer := by
  rw [Delivered]
  split_ifs with halign
  · rintro ⟨offset, -, hpos, hread⟩
    have hfirst := hread 0 hsize
    rw [hpeer _ (by omega)] at hfirst
    cases hfirst
  · intro hread
    have hfirst := hread 0 hsize
    rw [h halign] at hfirst
    cases hfirst

theorem delivered_none_iff : Delivered m p size (fun _ ↦ none) ↔ size = 0 ∧ ¬m.featureDescAlignment := by
  rcases Nat.eq_zero_or_pos size with rfl | hsize
  · rw [delivered_zero_iff_of_empty rfl]
    simp
  · have hnot : ¬Delivered m p size (fun _ ↦ none) :=
      not_delivered_of_untouched hsize (fun _ _ ↦ rfl) fun _ ↦ rfl
    simp only [hnot, false_iff]
    omega

/-- `transfer_memcpy_send` delivers, but for the offset of an empty payload. -/
theorem delivered_transferMemcpySend_iff :
    Delivered m p size (transferMemcpySend m p size fun _ ↦ none) ↔
      0 < size ∨ ¬m.featureDescAlignment := by
  rcases Nat.eq_zero_or_pos size with rfl | hsize
  · rw [transferMemcpySend, if_pos rfl, delivered_none_iff]
    simp
  · refine iff_of_true ?_ (.inl hsize)
    rw [transferMemcpySend, if_neg (by omega)]
    split_ifs with halign hmod
    · exact delivered_copyTo 0 halign (by decide) rfl (by decide) rfl le_rfl
    · exact delivered_copyTo 0 halign (by omega) rfl (by rw [dmaMaxOffset]; omega) rfl le_rfl
    · exact delivered_copyTo_start halign le_rfl

/-- The window of the DMA starts behind the first byte of the buffer, and the offset is where the data
is in it. -/
theorem dma_window (dst src : ℕ) :
    let offsetDst := alignUp dst - dst
    let offset := offsetDst + src % plxDmaAlignBytes
    let offset' := if offsetDst < 1 then offset + plxDmaAlignBytes else offset
    let newDst' := if offsetDst < 1 then alignUp dst + plxDmaAlignBytes else alignUp dst
    0 < newDst' - dst ∧ offset' = newDst' - dst + src % plxDmaAlignBytes ∧ offset' ≤ dmaMaxOffset := by
  have hle := le_alignUp dst
  have hlt := alignUp_lt dst
  simp only [plxDmaAlignBytes, dmaMaxOffset]
  split_ifs with hzero <;> omega

/-- `transfer_dma_send` delivers what it could submit; the offset is written before. -/
theorem delivered_transferDmaSend_iff :
    Delivered m p size (transferDmaSend m p size (fun _ ↦ none) dst) ↔ p.submit ∨ size = 0 := by
  rw [transferDmaSend]
  split_ifs with halign hsubmit hsubmit
  · refine iff_of_true ?_ (.inl hsubmit)
    obtain ⟨hpos, hoffset, hmax⟩ := dma_window dst p.src
    exact delivered_copyTo (p.src % plxDmaAlignBytes) halign hpos hoffset hmax
      (Nat.sub_add_cancel (Nat.mod_le _ _)) (le_alignUp _)
  · obtain ⟨hpos, hoffset, hmax⟩ := dma_window dst p.src
    simp only [hsubmit, Bool.false_eq_true, false_or]
    rcases Nat.eq_zero_or_pos size with rfl | hsize
    · refine iff_of_true ?_ rfl
      rw [Delivered, if_pos halign]
      refine ⟨_, ioWrite8_zero, ?_, fun i hi ↦ absurd hi (Nat.not_lt_zero i)⟩
      rw [toNat_offset hmax]
      omega
    · refine iff_of_false (not_delivered_of_untouched hsize (fun i hi ↦ ?_) fun h ↦ absurd halign h) (by omega)
      simp [ioWrite8, overlay, Nat.ne_of_gt hi]
  · exact iff_of_true (delivered_copyTo_start halign (le_alignUp _)) (.inl hsubmit)
  · rw [delivered_none_iff]
    simp [hsubmit, halign]

end Writes

/-! ## The promise -/

section Promise

/-- `ETH_HLEN`. -/
def ethHlen : ℕ := 14

variable (m : Mode) (p : Packet) (hdrLen : ℕ)

/-- What `receive_buf` takes for a packet, with a header of `hdrLen` bytes, is a packet. -/
def Promise : Prop :=
  ∀ head len, (transfer m p).used = some (head, len) → hdrLen + ethHlen ≤ len →
    Delivered m p (p.dataSize m) (transfer m p).peer

/-- The data does not reach the buffer of the peer, or its offset does not. -/
def Packet.Lost : Prop :=
  if p.remap.isSome then
    if m.dmaDev then 0 < p.dataSize m ∧ ¬p.submit else p.dataSize m = 0 ∧ m.featureDescAlignment
  else 0 < p.dataSize m ∨ m.featureDescAlignment

variable {m p}

/-- What a packet that passes the size check leaves in the buffer of the peer. -/
def Packet.sent (m : Mode) (p : Packet) : Peer :=
  match p.remap with
  | none => fun _ ↦ none
  | some dst =>
    if m.dmaDev then transferDmaSend m p (p.dataSize m) (fun _ ↦ none) dst
    else transferMemcpySend m p (p.dataSize m) fun _ ↦ none

/-- The length is published as soon as the size check is passed, whatever happens then. -/
theorem transfer_of_fits (h : p.Fits m) :
    transfer m p = ⟨some (p.headTo, p.length m), p.sent m⟩ := by
  obtain ⟨hfrom, hnum, hsize⟩ := h
  have hread : ¬p.kFrom.length ≠ 2 := not_not.mpr hfrom
  have hwrite : ¬p.num ≠ 2 := not_not.mpr hnum
  have hfit : ¬p.kvecs.getD 1 0 < p.dataSize m + m.sendAlignmentOverhead := Nat.not_lt.mpr hsize
  rw [Packet.dataSize] at hfit
  rw [Packet.sent]
  cases hremap : p.remap <;>
    simp only [transfer, transferRead, transferWrite, if_neg hread, if_neg hwrite, hremap, hfit, init,
      Item.usedEntry, Packet.length, Packet.dataSize, Option.getD_some, Option.map_some, Nat.zero_add,
      Option.isSome_some, Option.isSome_none, if_false, if_true]
  split_ifs <;> rfl

/-- A packet that is too large, or not in two vectors, is published without a length. -/
theorem transfer_used_of_not_fits (h : ¬p.Fits m) {head len : ℕ}
    (hused : (transfer m p).used = some (head, len)) : len = 0 := by
  by_cases hfrom : p.kFrom.length = 2
  · have hread : ¬p.kFrom.length ≠ 2 := not_not.mpr hfrom
    have hcheck : p.num = 2 → p.kvecs.getD 1 0 < p.dataSize m + m.sendAlignmentOverhead := by
      intro hnum
      by_contra hsize
      exact h ⟨hfrom, hnum, Nat.not_lt.mp hsize⟩
    rw [Packet.dataSize] at hcheck
    simp only [transfer, transferRead, if_neg hread, transferWrite, init, Option.getD_some, if_true] at hused
    -- Either way out of `transfer_write` before the remapping leaves 0 written bytes.
    by_cases hnum : p.num = 2
    · rw [if_neg (not_not.mpr hnum), if_pos (hcheck hnum)] at hused
      cases hremap : p.remap <;> simp [hremap, Item.usedEntry] at hused <;> exact hused.2.symm
    · rw [if_pos hnum] at hused
      cases hremap : p.remap <;> simp [hremap, Item.usedEntry] at hused <;> exact hused.2.symm
  · simp [transfer, transferRead, hfrom, init, Item.usedEntry] at hused

theorem sent_delivered_iff : Delivered m p (p.dataSize m) (p.sent m) ↔ ¬p.Lost m := by
  rw [Packet.sent, Packet.Lost]
  cases p.remap with
  | none =>
    rw [delivered_none_iff, Option.isSome_none, if_neg Bool.false_ne_true]
    simp
  | some dst =>
    rw [Option.isSome_some, if_pos rfl]
    split_ifs with hdma
    · rw [delivered_transferDmaSend_iff, not_and_or, Nat.not_lt, Nat.le_zero, not_not, or_comm]
    · rw [delivered_transferMemcpySend_iff, not_and_or, Nat.pos_iff_ne_zero]

/-- The entries that the receiver takes are packets, unless one of the length of a packet is lost on the
way: the length is not taken back when the buffer cannot be remapped or the DMA is refused. -/
theorem used_entry_delivers_iff : Promise m p hdrLen ↔
    ¬(p.Fits m ∧ p.Lost m ∧ hdrLen + ethHlen ≤ p.length m) := by
  by_cases hfits : p.Fits m
  · rw [Promise, transfer_of_fits hfits, sent_delivered_iff]
    constructor
    · rintro h ⟨-, hlost, hlen⟩
      exact h _ _ rfl hlen hlost
    · intro h head len hused hlen hlost
      obtain ⟨-, rfl⟩ := Prod.mk_inj.mp (Option.some_inj.mp hused)
      exact h ⟨hfits, hlost, hlen⟩
  · refine iff_of_true (fun head len hused hlen ↦ ?_) fun h ↦ hfits h.1
    rw [transfer_used_of_not_fits hfits hused, ethHlen] at hlen
    omega

end Promise

/-- A packet of 100 bytes behind its header, for which no window onto the buffer of the peer is free. -/
def unmappedPacket : Packet where
  kFrom := [12, 100]
  src := 4096
  src_ne := by decide
  mem _ := 0
  headFrom := 0
  headTo := 0
  kvecs := [12, 2048]
  num := 2
  remap := none
  submit := true

/-- Its buffer is handed to the receiver as a packet of 112 bytes, with nothing written to it. -/
theorem unmapped_packet_delivered :
    (transfer ⟨true, true⟩ unmappedPacket).used = some (0, 112) ∧
      (∀ i, (transfer ⟨true, true⟩ unmappedPacket).peer i = none) ∧
      ¬Promise ⟨true, true⟩ unmappedPacket 12 := by
  have hused : (transfer ⟨true, true⟩ unmappedPacket).used = some (0, 112) := by decide
  refine ⟨hused, fun _ ↦ rfl, fun h ↦ ?_⟩
  obtain ⟨offset, hoffset, -⟩ := h 0 112 hused (by decide)
  cases hoffset

end Vcass.Vop.Transfer
