import Vcass.Lib.Bits
import Vcass.Lib.Overlay
import Vcass.Virtio.Net

/-!
# VOP: transfers to aligned addresses

The DMA engine is fast on aligned ranges, and a packet begins at any address in the sender's memory and goes to a
buffer at any address of the receiver's. With the feature for it the sender moves the packet inside the buffer to where
the engine can copy whole blocks, and writes into the first byte of the buffer how far it has been moved. The other
path copies the packet itself to where both addresses are alike in a word. The receiver reads the byte and skips as much.

## Room

`transfer_write` checks that the buffer has room for the packet and `send_aligment_overhead` bytes, and maps as much.
Addresses have 64 bits; a window that could be mapped does not wrap around.

## Short packets

`receive_buf` drops a packet that has no whole Ethernet header, wherever it came from.
-/

namespace Vcass.Vop.Alignment

open Bits Overlay Virtio
open Function (update)

/-! ## The sender -/

/-- `PLX_DMA_ALIGN_BYTES`, which is `2 ^ 6`. -/
def plxDmaAlignBytes : UInt64 := 64

def dmaMaxOffset : UInt64 := 127

def sendAlignOverheadDmaSize : ℕ := 127 + 64

def sendAlignOverheadMemcpySize : ℕ := 64

/-- `ALIGN` to `PLX_DMA_ALIGN_BYTES`. -/
def align (x : UInt64) : UInt64 := (x + (plxDmaAlignBytes - 1)) &&& ~~~(plxDmaAlignBytes - 1)

/-- What `transfer_dma_send` writes as an offset and gives to the DMA engine. -/
structure DmaSend where
  offset : UInt64
  newDst : UInt64
  newSrc : UInt64
  srcPhysSz : UInt64

def transferDmaSend (srcPhys dst size : UInt64) : DmaSend :=
  let newDst := align dst
  let offsetDst := newDst - dst
  let newSrc := srcPhys &&& ~~~(plxDmaAlignBytes - 1)
  let offsetSrc := srcPhys - newSrc
  let offset := offsetDst + offsetSrc
  let srcPhysSz := align (size + offsetSrc)
  -- the first byte of the buffer is kept for the offset
  if offsetDst < 1 then ⟨offset + plxDmaAlignBytes, newDst + plxDmaAlignBytes, newSrc, srcPhysSz⟩
  else ⟨offset, newDst, newSrc, srcPhysSz⟩

/-- The offset of `transfer_memcpy_send`. -/
def memcpyOffset (srcVirt : UInt64) : UInt64 :=
  let offset := srcVirt &&& (4 - 1)
  if offset = 0 then offset + 4 else offset

/-- What is written to the window: the offset in its first byte, and bytes somewhere. -/
structure Sent where
  offset : UInt8
  addr : ℕ
  bytes : List UInt8

/-- The bytes of the DMA transfer. -/
def dmaSent (ram : ℕ → UInt8) (srcPhys dst size : UInt64) : Sent :=
  let send := transferDmaSend srcPhys dst size
  ⟨send.offset.toUInt8, send.newDst.toNat, slice ram send.newSrc.toNat send.srcPhysSz.toNat⟩

/-- `transfer_memcpy_send`. -/
def memcpySent (ram : ℕ → UInt8) (srcVirt dst size : UInt64) : Option Sent :=
  if size = 0 then none
  else some ⟨(memcpyOffset srcVirt).toUInt8, (dst + memcpyOffset srcVirt).toNat, slice ram srcVirt.toNat size.toNat⟩

/-- The receiver's memory after the transfer. -/
def Sent.apply (sent : Sent) (mem : ℕ → UInt8) (dst : ℕ) : ℕ → UInt8 :=
  overlay (update mem dst sent.offset) sent.addr sent.bytes

/-! ## The receiver -/

/-- The data of a buffer: its bytes are at `data`. -/
structure Skb where
  data : ℕ
  len : ℕ

def Skb.trim (skb : Skb) (len : ℕ) : Skb := { skb with len := min skb.len len }

def Skb.reserve (skb : Skb) (n : ℕ) : Skb := { skb with data := skb.data + n }

def Skb.bytes (skb : Skb) (mem : ℕ → UInt8) : List UInt8 := slice mem skb.data skb.len

def receiveSmall (skb : Skb) (len offset : ℕ) : Skb :=
  let skb := skb.trim (len - Net.hdrLen)
  if offset ≠ 0 then skb.reserve offset else skb

/-- `receive_buf` with `offset_rx_bufs`, up to where the packet is looked at. -/
def receiveBuf (mem : ℕ → UInt8) (skb : Skb) (len : ℕ) : Option Skb :=
  if len < Net.hdrLen + Net.ethHlen then none else some (receiveSmall skb len (mem skb.data).toNat)

/-! ## What both sides should agree on -/

/-- The packet at `src` comes out of the buffer at `dst`, if it is not a short one. The lengths of the buffer and of
what is in it are those that `transfer_write` checks and publishes. -/
structure Delivers (ram : ℕ → UInt8) (src dst size overhead : ℕ) (sent : Sent) : Prop where
  offset_pos : 0 < sent.offset.toNat
  offset_le : sent.offset.toNat ≤ dmaMaxOffset.toNat
  kept : ∀ mem, sent.apply mem dst dst = sent.offset
  inside : dst ≤ sent.addr ∧ sent.addr + sent.bytes.length ≤ dst + size + overhead
  received : ∀ mem bufLen, size + overhead ≤ bufLen →
    (receiveBuf (sent.apply mem dst) ⟨dst, bufLen⟩ (Net.hdrLen + size)).map (fun skb ↦ skb.bytes (sent.apply mem dst)) =
      if size < Net.ethHlen then none else some (slice ram src size)

/-- What the DMA engine is given are blocks; `map` is how it sees the sender's memory. -/
structure BlockAligned (map : UInt64 → UInt64) (send : DmaSend) : Prop where
  src : (map send.newSrc).toNat % plxDmaAlignBytes.toNat = 0
  dst : send.newDst.toNat % plxDmaAlignBytes.toNat = 0
  size : send.srcPhysSz.toNat % plxDmaAlignBytes.toNat = 0

/-! ## Addresses -/

theorem toNat_down (x : UInt64) : (x &&& ~~~(plxDmaAlignBytes - 1)).toNat = alignDown x.toNat 6 := by
  rw [UInt64.toNat_and, ← and_high_eq_alignDown (show 6 ≤ 64 by decide) x.toNat_lt]
  rfl

theorem toNat_align {x : UInt64} (h : x.toNat + 63 < 2 ^ 64) : (align x).toNat = alignUp x.toNat 6 := by
  have hadd : (x + (plxDmaAlignBytes - 1)).toNat = x.toNat + (2 ^ 6 - 1) := by
    rw [UInt64.toNat_add]
    change (x.toNat + 63) % 2 ^ 64 = _
    omega
  rw [align, toNat_down, hadd, alignUp_eq_alignDown]

/-- Where the packet is, in the buffer and in the blocks that are copied. -/
structure Blocks (src dst size : ℕ) (send : DmaSend) : Prop where
  offset_pos : 0 < send.offset.toNat
  offset_le : send.offset.toNat ≤ dmaMaxOffset.toNat
  newDst_mod : send.newDst.toNat % 64 = 0
  newSrc_mod : send.newSrc.toNat % 64 = 0
  size_mod : send.srcPhysSz.toNat % 64 = 0
  newSrc_le : send.newSrc.toNat ≤ src
  lt_newDst : dst < send.newDst.toNat
  /-- The packet is as far behind the beginning of the blocks on both sides. -/
  shift : send.newDst.toNat + (src - send.newSrc.toNat) = dst + send.offset.toNat
  covered : src - send.newSrc.toNat + size ≤ send.srcPhysSz.toNat
  inside : send.newDst.toNat + send.srcPhysSz.toNat ≤ dst + size + sendAlignOverheadDmaSize

theorem transferDmaSend_blocks (srcPhys : UInt64) {dst size : UInt64}
    (hwindow : dst.toNat + size.toNat + sendAlignOverheadDmaSize ≤ 2 ^ 64) :
    Blocks srcPhys.toNat dst.toNat size.toNat (transferDmaSend srcPhys dst size) := by
  rw [sendAlignOverheadDmaSize] at hwindow
  have hdst := toNat_align (x := dst) (by omega)
  have hdstLe := le_alignUp dst.toNat 6
  have hdstLt := alignUp_lt_add dst.toNat 6
  have hdstMod := alignUp_mod dst.toNat 6
  have hsrc := toNat_down srcPhys
  have hsrcLe := alignDown_le srcPhys.toNat 6
  have hsrcLt := lt_alignDown_add srcPhys.toNat 6
  have hsrcMod := alignDown_mod srcPhys.toNat 6
  have hoffsetDst : (align dst - dst).toNat = alignUp dst.toNat 6 - dst.toNat := by
    rw [UInt64.toNat_sub_of_le _ _ (UInt64.le_iff_toNat_le.mpr (hdst ▸ hdstLe)), hdst]
  have hoffsetSrc : (srcPhys - (srcPhys &&& ~~~(plxDmaAlignBytes - 1))).toNat =
      srcPhys.toNat - alignDown srcPhys.toNat 6 := by
    rw [UInt64.toNat_sub_of_le _ _ (UInt64.le_iff_toNat_le.mpr (hsrc ▸ hsrcLe)), hsrc]
  generalize hnewSrc : srcPhys &&& ~~~(plxDmaAlignBytes - 1) = newSrc at hsrc hoffsetSrc
  generalize hdown : alignDown srcPhys.toNat 6 = down at *
  generalize hup : alignUp dst.toNat 6 = up at *
  have hsum : (size + (srcPhys - newSrc)).toNat = size.toNat + (srcPhys.toNat - down) := by
    rw [UInt64.toNat_add, hoffsetSrc]
    omega
  have hsize := toNat_align (x := size + (srcPhys - newSrc)) (by omega)
  have hsizeLe := le_alignUp (size + (srcPhys - newSrc)).toNat 6
  have hsizeLt := alignUp_lt_add (size + (srcPhys - newSrc)).toNat 6
  have hsizeMod := alignUp_mod (size + (srcPhys - newSrc)).toNat 6
  rw [← hsize] at hsizeLe hsizeLt hsizeMod
  have hoffset : (align dst - dst + (srcPhys - newSrc)).toNat = up - dst.toNat + (srcPhys.toNat - down) := by
    rw [UInt64.toNat_add, hoffsetDst, hoffsetSrc]
    omega
  rw [transferDmaSend]
  simp only [hnewSrc]
  split_ifs with hzero
  · -- the destination is aligned, and the packet moves on by a block
    have hzero' : up - dst.toNat = 0 := by
      have hlt := UInt64.lt_iff_toNat_lt.mp hzero
      rw [hoffsetDst] at hlt
      exact Nat.lt_one_iff.mp hlt
    have hnewDst : (align dst + plxDmaAlignBytes).toNat = up + 64 := by
      rw [UInt64.toNat_add, hdst]
      change (up + 64) % 2 ^ 64 = _
      omega
    have hoffset' : (align dst - dst + (srcPhys - newSrc) + plxDmaAlignBytes).toNat = srcPhys.toNat - down + 64 := by
      rw [UInt64.toNat_add, hoffset]
      change (_ + 64) % 2 ^ 64 = _
      omega
    constructor <;> simp only [hnewDst, hoffset', hsrc, sendAlignOverheadDmaSize] <;> first | omega | skip
    change _ ≤ 127
    omega
  · have hpos : 0 < up - dst.toNat := by
      have hge := UInt64.le_iff_toNat_le.mp (UInt64.not_lt.mp hzero)
      rwa [hoffsetDst] at hge
    constructor <;> simp only [hdst, hoffset, hsrc, sendAlignOverheadDmaSize] <;> first | omega | skip
    change _ ≤ 127
    omega

theorem memcpyOffset_spec (srcVirt : UInt64) :
    0 < (memcpyOffset srcVirt).toNat ∧ (memcpyOffset srcVirt).toNat ≤ 4 := by
  have hmask : (srcVirt &&& (4 - 1)).toNat = srcVirt.toNat % 2 ^ 2 := by
    rw [UInt64.toNat_and, ← Nat.and_two_pow_sub_one_eq_mod]
    rfl
  rw [memcpyOffset]
  split_ifs with hzero
  · rw [hzero]
    decide
  · have hne : (srcVirt &&& (4 - 1)).toNat ≠ 0 := fun h ↦ hzero (UInt64.toNat_inj.mp h)
    omega

/-! ## The packet at the other side -/

theorem slice_congr {m m' : ℕ → UInt8} {off off' n : ℕ} (h : ∀ i < n, m (off + i) = m' (off' + i)) :
    slice m off n = slice m' off' n :=
  List.map_congr_left fun i hi ↦ h i (List.mem_range.mp hi)

theorem delivers_of_slice {ram : ℕ → UInt8} {src dst size overhead addr start n shift : ℕ} {offset : UInt8}
    (hpos : 0 < offset.toNat) (hle : offset.toNat ≤ dmaMaxOffset.toNat) (hbehind : dst < addr)
    (hinside : addr + n ≤ dst + size + overhead) (haddr : addr + shift = dst + offset.toNat)
    (hstart : start + shift = src) (hcovered : shift + size ≤ n) :
    Delivers ram src dst size overhead ⟨offset, addr, slice ram start n⟩ := by
  have hkept : ∀ mem, Sent.apply ⟨offset, addr, slice ram start n⟩ mem dst dst = offset := by
    intro mem
    rw [Sent.apply, overlay_of_lt hbehind, Function.update_self]
  refine ⟨hpos, hle, hkept, ⟨Nat.le_of_lt hbehind, by rwa [length_slice]⟩, fun mem bufLen hbuf ↦ ?_⟩
  have hpacket : slice (Sent.apply ⟨offset, addr, slice ram start n⟩ mem dst) (dst + offset.toNat) size =
      slice ram src size := by
    refine slice_congr fun i hi ↦ ?_
    rw [Sent.apply, ← haddr, Nat.add_assoc, overlay_slice (by omega), ← Nat.add_assoc, hstart]
  have hshort : Net.hdrLen + size < Net.hdrLen + Net.ethHlen ↔ size < Net.ethHlen := Nat.add_lt_add_iff_left
  have hne : offset.toNat ≠ 0 := Nat.pos_iff_ne_zero.mp hpos
  have hlen : min bufLen (Net.hdrLen + size - Net.hdrLen) = size := by
    rw [Nat.add_sub_cancel_left]
    omega
  rw [receiveBuf, if_congr hshort rfl rfl]
  split_ifs
  · rfl
  · simp only [hkept, receiveSmall, hne, ne_eq, not_false_eq_true, if_true, Skb.trim, Skb.reserve, Skb.bytes, hlen,
      Option.map_some, hpacket]

theorem delivers_dmaSent {ram : ℕ → UInt8} {srcPhys dst size : UInt64}
    (hwindow : dst.toNat + size.toNat + sendAlignOverheadDmaSize ≤ 2 ^ 64) :
    Delivers ram srcPhys.toNat dst.toNat size.toNat sendAlignOverheadDmaSize (dmaSent ram srcPhys dst size) := by
  obtain ⟨hpos, hle, -, -, -, hsrc, hbehind, hshift, hcovered, hinside⟩ := transferDmaSend_blocks srcPhys hwindow
  have hbyte : (transferDmaSend srcPhys dst size).offset.toUInt8.toNat =
      (transferDmaSend srcPhys dst size).offset.toNat := by
    have hmax : dmaMaxOffset.toNat = 127 := by decide
    rw [UInt64.toNat_toUInt8]
    omega
  rw [dmaSent]
  rw [← hbyte] at hpos hle hshift
  exact delivers_of_slice hpos hle hbehind hinside hshift (by omega) hcovered

theorem delivers_memcpySent {ram : ℕ → UInt8} {srcVirt dst size : UInt64} (hsize : 0 < size)
    (hwindow : dst.toNat + size.toNat + sendAlignOverheadMemcpySize ≤ 2 ^ 64) :
    ∃ sent, memcpySent ram srcVirt dst size = some sent ∧
      Delivers ram srcVirt.toNat dst.toNat size.toNat sendAlignOverheadMemcpySize sent := by
  obtain ⟨hpos, hle⟩ := memcpyOffset_spec srcVirt
  have hne : size ≠ 0 := by
    rintro rfl
    exact absurd hsize (by decide)
  have hmax : dmaMaxOffset.toNat = 127 := by decide
  have hbyte : (memcpyOffset srcVirt).toUInt8.toNat = (memcpyOffset srcVirt).toNat := by
    rw [UInt64.toNat_toUInt8]
    omega
  rw [sendAlignOverheadMemcpySize] at hwindow ⊢
  have haddr : (dst + memcpyOffset srcVirt).toNat = dst.toNat + (memcpyOffset srcVirt).toNat := by
    rw [UInt64.toNat_add]
    omega
  refine ⟨_, if_neg hne, delivers_of_slice ?_ ?_ ?_ ?_ (haddr.trans (congrArg _ hbyte.symm)) (Nat.add_zero _) ?_⟩
  all_goals omega

/-- Both paths bring a packet to the other side, through the byte in front of it; the DMA engine copies whole blocks
of 64 bytes. A packet without a whole Ethernet header is not taken by the receiver. -/
theorem aligned_transfers_agree {map : UInt64 → UInt64} (hmap : ∀ a, (map a).toNat % 4096 = a.toNat % 4096)
    (ram : ℕ → UInt8) (src dst size : UInt64) (hsize : 0 < size) :
    (dst.toNat + size.toNat + sendAlignOverheadDmaSize ≤ 2 ^ 64 →
      Delivers ram src.toNat dst.toNat size.toNat sendAlignOverheadDmaSize (dmaSent ram src dst size) ∧
        BlockAligned map (transferDmaSend src dst size)) ∧
      (dst.toNat + size.toNat + sendAlignOverheadMemcpySize ≤ 2 ^ 64 →
        ∃ sent, memcpySent ram src dst size = some sent ∧
          Delivers ram src.toNat dst.toNat size.toNat sendAlignOverheadMemcpySize sent) := by
  refine ⟨fun hwindow ↦ ⟨delivers_dmaSent hwindow, ?_⟩, delivers_memcpySent hsize⟩
  have hblocks := transferDmaSend_blocks src hwindow
  have hpage := hmap (transferDmaSend src dst size).newSrc
  have hsrc := hblocks.newSrc_mod
  refine ⟨?_, hblocks.newDst_mod, hblocks.size_mod⟩
  change _ % 64 = 0
  omega

/-- A packet of 60 bytes to a window at 0x10000, on both paths. -/
theorem packet_transfers_agree :
    (Delivers (fun a ↦ a.toUInt8) 0x1234 0x10000 60 sendAlignOverheadDmaSize
        (dmaSent (fun a ↦ a.toUInt8) 0x1234 0x10000 60) ∧
      BlockAligned (· + 0x200000) (transferDmaSend 0x1234 0x10000 60)) ∧
    ∃ sent, memcpySent (fun a ↦ a.toUInt8) 0x1234 0x10000 60 = some sent ∧
      Delivers (fun a ↦ a.toUInt8) 0x1234 0x10000 60 sendAlignOverheadMemcpySize sent := by
  have hmap : ∀ a : UInt64, (a + 0x200000).toNat % 4096 = a.toNat % 4096 := by
    intro a
    rw [UInt64.toNat_add, show (0x200000 : UInt64).toNat = 512 * 4096 from rfl]
    omega
  have h := aligned_transfers_agree hmap (fun a ↦ a.toUInt8) 0x1234 0x10000 60 (by decide)
  exact ⟨h.1 (by decide), h.2 (by decide)⟩

/-- A single byte arrives in the buffer, and `receive_buf` drops it. -/
theorem single_byte_dropped :
    receiveBuf ((dmaSent (fun _ ↦ 0xAB) 0x1000 0x2000 1).apply (fun _ ↦ 0) 0x2000) ⟨0x2000, 2000⟩ (Net.hdrLen + 1) =
      none :=
  rfl

end Vcass.Vop.Alignment
