import Vcass.Plx.Manager

/-!
# The A-LUT in the hardware: the code

The functions of `plx_hw.c` that drive the address lookup table through memory-mapped registers. Each
slot of the table has a lower and a higher re-map register and a permission register; the arrays of
these registers are interleaved in blocks of 128 slots.

A function that programs the table is given as the list of its register writes, in order, so that
also the moments between two writes can be spoken about. The EEPROM check and the RID table, which
`plx_hw_init` deals with first, touch none of these registers and are left out.
-/

namespace Vcass.Plx

open Function (update)

/-! ## Registers -/

/-- Slots of the whole table (`PLX_ALUT_SEGMENTS_NUM`). -/
def plxAlutSegmentsNum : ℕ := 256

def plxALutMaxArray : ℕ := 128

def plxALutArrayOffset : ℕ := 0x1000

def plxALutLowerReMapSubarrayOffset : ℕ := 0x0

def plxALutHigherReMapSubarrayOffset : ℕ := 0x400

def plxALutPermissionSubarrayOffset : ℕ := 0x800

/-- `PLX_A_LUT_PERMISSION_READ_ENABLE | PLX_A_LUT_PERMISSION_WRITE_ENABLE`. -/
def permissionEnable : ℕ := 0x2 ||| 0x1

def plxALutControl : ℕ := 0xc94

/-- `PLX_A_LUT_ENABLE`. -/
def aLutEnable : ℕ := 1 <<< 28 ||| 1 <<< 31

def plxGetALutEntryOffset (idx : ℕ) : ℕ :=
  (if plxALutMaxArray ≤ idx then plxALutArrayOffset else 0) + idx % plxALutMaxArray * 4

section Registers

variable (base i : ℕ)

def lowerReg : ℕ := base + plxGetALutEntryOffset i + plxALutLowerReMapSubarrayOffset

def higherReg : ℕ := base + plxGetALutEntryOffset i + plxALutHigherReMapSubarrayOffset

def permissionReg : ℕ := base + plxGetALutEntryOffset i + plxALutPermissionSubarrayOffset

end Registers

/-- Register writes, the offset and the value of each. -/
abbrev Writes := List (ℕ × ℕ)

/-- The registers after a sequence of writes. -/
def mmioWrites (mmio : ℕ → ℕ) (ws : Writes) : ℕ → ℕ :=
  ws.foldl (fun mmio w ↦ update mmio w.1 w.2) mmio

/-! ## The device -/

/-- The part of `struct plx_device` that the table needs, and the registers. -/
structure PlxDevice where
  aLutManager : PlxAlm
  aLutArrayBase : ℕ
  mmio : ℕ → ℕ

/-- A device as `plx_device_create` allocates it, zeroed, with whatever its registers hold. -/
def plxDeviceCreate (mmio : ℕ → ℕ) : PlxDevice := ⟨⟨0, 0, fun _ ↦ zeroEntry⟩, 0, mmio⟩

namespace PlxDevice

variable (xdev : PlxDevice)

/-- The re-map address of a slot. -/
def reMap (i : ℕ) : ℕ :=
  xdev.mmio (higherReg xdev.aLutArrayBase i) * 2 ^ 32 + xdev.mmio (lowerReg xdev.aLutArrayBase i)

def permission (i : ℕ) : ℕ := xdev.mmio (permissionReg xdev.aLutArrayBase i)

/-- The writes that open `num` slots from `i` on, for the addresses from `addrMasked` on. -/
def programWrites (base segmentSize : ℕ) : (num i addrMasked : ℕ) → Writes
  | 0, _, _ => []
  | num + 1, i, addrMasked =>
    (higherReg base i, addrMasked / 2 ^ 32 % 2 ^ 32) :: (lowerReg base i, addrMasked % 2 ^ 32) ::
      (permissionReg base i, permissionEnable) ::
      programWrites base segmentSize num (i + 1) ((addrMasked + segmentSize) % 2 ^ 64)

/-- `plx_add_a_lut_entry`: the manager, the register writes, and on success the segments and
`*addr_out`. A mapping that was embedded needs no writes. -/
def plxAddALutEntry (addr size : ℕ) : Option (PlxAlm × Writes × Option (PlxAlm.Placed × ℕ)) :=
  match xdev.aLutManager.plxAlmAddEntry addr size with
  | none => none
  | some (err, alm, some p) =>
    if err ≠ 0 ∧ err ≠ -eexist then some (alm, [], none)
    else
      let writes := if err = 0 then
        programWrites xdev.aLutArrayBase alm.segmentSize p.segmentsNum p.segmentId
          (xdev.aLutManager.addrMasked addr)
      else []
      let addrOut := (p.segmentId * alm.segmentSize + xdev.aLutManager.offsetInSegment addr) % 2 ^ 64
      some (alm, writes, some (p, addrOut))
  | some (_, alm, none) => some (alm, [], none)

/-- The writes that close `num` slots from `i` on. -/
def revokeWrites (base num i : ℕ) : Writes :=
  (List.range num).map fun k ↦ (permissionReg base (i + k), 0)

/-- `plx_del_a_lut_entry`: the manager and the register writes. -/
def plxDelALutEntry (addr : ℕ) : Option (PlxAlm × Writes) :=
  let alm := xdev.aLutManager
  if alm.segmentsNum * alm.segmentSize % 2 ^ 64 ≤ addr then some (alm, [])
  else
    match alm.plxAlmDelEntry (addr / alm.segmentSize % 2 ^ 32) with
    | none => none
    | some (alm, none) => some (alm, [])
    | some (alm, some (startSegment, segmentsNum)) =>
      some (alm, revokeWrites xdev.aLutArrayBase segmentsNum startSegment)

/-! ## Initialization -/

/-- The writes of `plx_a_lut_clear`: as many slots as the manager has segments at that time. -/
def clearWrites (base segmentsNum : ℕ) : Writes :=
  (List.range segmentsNum).flatMap fun i ↦
    [(permissionReg base i, 0), (higherReg base i, 0), (lowerReg base i, 0)]

def plxALutClear : PlxDevice :=
  { xdev with
    aLutManager := xdev.aLutManager.plxAlmReset
    mmio := mmioWrites xdev.mmio (clearWrites xdev.aLutArrayBase xdev.aLutManager.segmentsNum) }

/-- `_plx_a_lut_enable`. The table is switched off, cleared and switched on again: the driver is built
with both sides of the A-LUT, so `a_lut_peer` is always set. -/
def plxALutEnable (regBase : ℕ) : PlxDevice :=
  let xdev := { xdev with mmio := update xdev.mmio (regBase + plxALutControl) 0 }.plxALutClear
  { xdev with mmio := update xdev.mmio (regBase + plxALutControl) aLutEnable }

/-- `port_id` and `link_side` of the supported devices. -/
def portAndSide : ℕ → Option (ℕ × ℕ)
  | 0x2954 => some (0, 0)
  | 0x2955 => some (1, 0)
  | 0x2956 => some (0, 0)
  | 0x2958 => some (0, 1)
  | 0x2959 => some (1, 1)
  | 0x295a => some (0, 1)
  | _ => none

/-- The number of ports that share the table, from the upstream register; two if it names none. -/
def alutPorts (val : ℕ) : ℕ :=
  let ports := (if val.testBit 30 then 1 else 0) + if val.testBit 31 then 1 else 0
  if ports = 0 then 2 else ports

/-- `a_lut_array_base`. -/
def arrayBase (alutPorts portId linkSide : ℕ) : ℕ :=
  if alutPorts = 2 then
    if linkSide = 0 then if portId = 0 then 0x38000 else 0x3a000
    else if portId = 0 then 0x39000 else 0x3b000
  else if linkSide = 0 then 0x38000 else 0x3a000

/-- `_plx_get_reg_base`. -/
def plxGetRegBase (linkSide portId : ℕ) : ℕ := 0x3E000 - portId * 0x2000 + linkSide * 0x1000

/-- `plx_hw_init`; `none` for an unsupported device. The table is cleared before the manager learns
how many segments it has. -/
def plxHwInit (device val aperLen : ℕ) : Option PlxDevice :=
  match portAndSide device with
  | none => none
  | some (portId, linkSide) =>
    let ports := alutPorts val
    let xdev := { xdev with aLutArrayBase := arrayBase ports portId linkSide }
    let xdev := xdev.plxALutEnable (plxGetRegBase linkSide portId)
    some { xdev with aLutManager := plxAlmInit (plxAlutSegmentsNum / ports) aperLen }

end PlxDevice

end Vcass.Plx
