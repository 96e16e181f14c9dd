import Vcass.PlxDma.System

/-!
# PLX DMA: where the hardware is

The engine shows where it is by a register with the low 32 bits of the address of a descriptor. The driver takes the
low bits of the address of the ring from it, divides by the size of a descriptor and masks.

The ring can lie across a multiple of 4 GiB, and then the difference is negative, which is a number near 2⁶⁴. What is
wrong with it is a multiple of 2³², and 2³² bytes are a whole number of rings, so the index does not see it.
-/

namespace Vcass.PlxDma

/-! ## The code -/

/-- The registers of the device, by their offsets. -/
abbrev Regs := UInt32 → UInt32

/-- What of `struct plx_dma_chan` says where the ring and the registers are. -/
structure ChanAddrs where
  descRingDa : UInt64
  chBaseAddr : UInt64
  deriving DecidableEq, Repr

def plxDmaNextDescAddrLow : UInt32 := 0x1C

def plxDmaLastDescAddrLow : UInt32 := 0x24

/-- `sizeof(struct plx_dma_desc)`. -/
def descSize : UInt64 := 16

/-- The sum has 64 bits, and is passed on as a `u32`. -/
def plxDmaChRegRead (regs : Regs) (ch : ChanAddrs) (offset : UInt32) : UInt32 :=
  regs (offset.toUInt64 + ch.chBaseAddr).toUInt32

def descRingDaToIndex (addr : UInt64) : UInt32 := (addr / descSize &&& UInt64.ofNat (ringSize - 1)).toUInt32

/-- The body of the two functions below, with the offset of the register. -/
def hwDesc (regs : Regs) (ch : ChanAddrs) (offset : UInt32) : UInt32 :=
  let desc := plxDmaChRegRead regs ch offset
  let dmaOff := desc.toUInt64 - (ch.descRingDa &&& 0xFFFFFFFF)
  descRingDaToIndex dmaOff

def plxGetHwLastDesc (regs : Regs) (ch : ChanAddrs) : UInt32 := hwDesc regs ch plxDmaLastDescAddrLow

def plxGetHwNextDesc (regs : Regs) (ch : ChanAddrs) : UInt32 := hwDesc regs ch plxDmaNextDescAddrLow

/-- The address of a descriptor. -/
def ChanAddrs.descAddr (ch : ChanAddrs) (i : ℕ) : UInt64 := ch.descRingDa + descSize * UInt64.ofNat i

/-! ## The index -/

variable {regs : Regs} {ch : ChanAddrs} {offset : UInt32} {i : ℕ}

theorem toNat_descRingDaToIndex (addr : UInt64) : (descRingDaToIndex addr).toNat = addr.toNat / 16 % ringSize := by
  have hmask : addr.toNat / 16 &&& 2 ^ 11 - 1 = addr.toNat / 16 % 2 ^ 11 := Nat.and_two_pow_sub_one_eq_mod _ _
  have hlt : addr.toNat / 16 % 2 ^ 11 < 2 ^ 32 := lt_trans (Nat.mod_lt _ (by decide)) (by decide)
  change (addr.toNat / 16 &&& 2 ^ 11 - 1) % 2 ^ 32 = addr.toNat / 16 % 2 ^ 11
  rw [hmask, Nat.mod_eq_of_lt hlt]

/-- The ring divides 2³² bytes. -/
theorem index_toUInt32 (addr : UInt64) : addr.toNat / 16 % ringSize = addr.toUInt32.toNat / 16 % ringSize := by
  rw [UInt64.toNat_toUInt32, ringSize]
  omega

/-- The difference might as well be taken with 32 bits. -/
theorem toNat_hwDesc :
    (hwDesc regs ch offset).toNat =
      (plxDmaChRegRead regs ch offset - ch.descRingDa.toUInt32).toNat / 16 % ringSize := by
  have hmask : (0xFFFFFFFF : UInt64).toUInt32 = -1 := rfl
  have hbase : (ch.descRingDa &&& 0xFFFFFFFF).toUInt32 = ch.descRingDa.toUInt32 := by
    rw [UInt64.toUInt32_and, hmask, UInt32.and_neg_one]
  rw [hwDesc, toNat_descRingDaToIndex, index_toUInt32, UInt64.toUInt32_sub, UInt32.toUInt32_toUInt64, hbase]

theorem toNat_hwDesc_of_descAddr (hi : i < ringSize)
    (hreg : plxDmaChRegRead regs ch offset = (ch.descAddr i).toUInt32) : (hwDesc regs ch offset).toNat = i := by
  have hoff : plxDmaChRegRead regs ch offset - ch.descRingDa.toUInt32 = (descSize * UInt64.ofNat i).toUInt32 := by
    rw [hreg, ChanAddrs.descAddr, UInt64.toUInt32_add, UInt32.add_comm, UInt32.add_sub_cancel]
  have hi' : i < 2048 := hi
  have hval : (descSize * UInt64.ofNat i).toUInt32.toNat = 16 * i := by
    change 16 * (i % 2 ^ 64) % 2 ^ 64 % 2 ^ 32 = 16 * i
    omega
  rw [toNat_hwDesc, hoff, hval, Nat.mul_div_cancel_left i (by decide), Nat.mod_eq_of_lt hi]

/-- Wherever the ring is, the index of the descriptor whose address is in the register is found. -/
theorem hw_position_recovered (regs : Regs) (ch : ChanAddrs) (i : ℕ) (hi : i < ringSize) :
    (plxDmaChRegRead regs ch plxDmaLastDescAddrLow = (ch.descAddr i).toUInt32 → (plxGetHwLastDesc regs ch).toNat = i) ∧
      (plxDmaChRegRead regs ch plxDmaNextDescAddrLow = (ch.descAddr i).toUInt32 →
        (plxGetHwNextDesc regs ch).toNat = i) :=
  ⟨toNat_hwDesc_of_descAddr hi, toNat_hwDesc_of_descAddr hi⟩

/-- A ring across 4 GiB, of which the descriptor is behind the boundary. -/
theorem hw_position_across_boundary :
    (plxGetHwLastDesc (fun _ ↦ 0x40) ⟨0xFFFFFF00, 0x200⟩).toNat = 20 ∧
      (plxGetHwNextDesc (fun _ ↦ 0x40) ⟨0xFFFFFF00, 0x200⟩).toNat = 20 :=
  have h := hw_position_recovered (fun _ ↦ 0x40) ⟨0xFFFFFF00, 0x200⟩ 20 (by decide)
  ⟨h.1 (by decide), h.2 (by decide)⟩

end Vcass.PlxDma
