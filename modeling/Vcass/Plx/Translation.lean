import Vcass.Plx.Hw

/-!
# The A-LUT in the hardware: translation

The hardware table follows the software table: every slot of a block is open for the peer and re-maps
to the block's address plus the slot's offset in the block (`Follows`). The addition of a block opens
its slots, an embedded mapping relies on slots that were opened long ago, and neither deletion nor
cleanup touches the slots of a block with a user. Hence every live mapping translates exactly.
-/

namespace Vcass.Plx

open Conc Tiling PlxAlm
open Function (update)

/-! ## Register writes -/

section Registers

variable {base i j : ℕ}

theorem entryOffset_eq (hi : i < plxAlutSegmentsNum) :
    plxGetALutEntryOffset i = i / 128 * 4096 + i % 128 * 4 := by
  rw [plxAlutSegmentsNum] at hi
  rw [plxGetALutEntryOffset, plxALutMaxArray, plxALutArrayOffset]
  split <;> omega

/-- The registers of a slot. -/
def slotRegs (base i : ℕ) : List ℕ := [higherReg base i, lowerReg base i, permissionReg base i]

theorem slotRegs_disjoint (hi : i < plxAlutSegmentsNum) (hj : j < plxAlutSegmentsNum) (hij : i ≠ j) :
    ∀ r ∈ slotRegs base i, r ∉ slotRegs base j := by
  simp only [slotRegs, higherReg, lowerReg, permissionReg, plxALutHigherReMapSubarrayOffset,
    plxALutLowerReMapSubarrayOffset, plxALutPermissionSubarrayOffset, entryOffset_eq hi,
    entryOffset_eq hj, List.mem_cons, List.not_mem_nil, or_false]
  rw [plxAlutSegmentsNum] at hi hj
  rintro r (rfl | rfl | rfl) <;> omega

theorem mmioWrites_of_notMem {mmio : ℕ → ℕ} {ws : Writes} {r : ℕ} (h : ∀ w ∈ ws, w.1 ≠ r) :
    mmioWrites mmio ws r = mmio r := by
  rw [mmioWrites]
  induction ws generalizing mmio with
  | nil => rfl
  | cons w ws ih =>
    rw [List.foldl_cons, ih fun w' hw' ↦ h w' (List.mem_cons_of_mem _ hw')]
    exact Function.update_of_ne (h w List.mem_cons_self).symm _ _

/-- All writes go to registers of the `num` slots from `i` on. -/
def Confined (base i num : ℕ) (ws : Writes) : Prop :=
  ∀ w ∈ ws, ∃ k < num, w.1 ∈ slotRegs base (i + k)

theorem Confined.mmioWrites_eq {num r : ℕ} {mmio : ℕ → ℕ} {ws : Writes}
    (hws : Confined base i num ws) (hnum : i + num ≤ plxAlutSegmentsNum)
    (hj : j < plxAlutSegmentsNum) (hout : ¬ (i ≤ j ∧ j < i + num)) (hr : r ∈ slotRegs base j) :
    mmioWrites mmio ws r = mmio r := by
  refine mmioWrites_of_notMem fun w hw hwr ↦ ?_
  obtain ⟨k, hk, hmem⟩ := hws w hw
  exact slotRegs_disjoint (by omega) hj (by omega) _ hmem (hwr ▸ hr)

theorem Confined.sublist {num : ℕ} {ws ws' : Writes} (h : Confined base i num ws)
    (hsub : ws' ⊆ ws) : Confined base i num ws' := fun w hw ↦ h w (hsub hw)

/-- The slot is open and re-maps to `v`. -/
structure Opens (mmio : ℕ → ℕ) (base i v : ℕ) : Prop where
  permission : mmio (permissionReg base i) = permissionEnable
  higher : mmio (higherReg base i) = v / 2 ^ 32 % 2 ^ 32
  lower : mmio (lowerReg base i) = v % 2 ^ 32

theorem Opens.congr {mmio mmio' : ℕ → ℕ} {v : ℕ} (h : Opens mmio base i v)
    (heq : ∀ r ∈ slotRegs base i, mmio' r = mmio r) : Opens mmio' base i v where
  permission := (heq _ (by simp [slotRegs])).trans h.permission
  higher := (heq _ (by simp [slotRegs])).trans h.higher
  lower := (heq _ (by simp [slotRegs])).trans h.lower

variable {segmentSize num a : ℕ}

theorem programWrites_confined :
    Confined base i num (PlxDevice.programWrites base segmentSize num i a) := by
  induction num generalizing i a with
  | zero => simp [Confined, PlxDevice.programWrites]
  | succ num ih =>
    intro w hw
    rw [PlxDevice.programWrites, List.mem_cons, List.mem_cons, List.mem_cons] at hw
    rcases hw with rfl | rfl | rfl | hw
    · exact ⟨0, Nat.succ_pos _, by simp [slotRegs]⟩
    · exact ⟨0, Nat.succ_pos _, by simp [slotRegs]⟩
    · exact ⟨0, Nat.succ_pos _, by simp [slotRegs]⟩
    · obtain ⟨k, hk, hmem⟩ := ih w hw
      exact ⟨k + 1, by omega, by rwa [show i + (k + 1) = i + 1 + k by omega]⟩

theorem opens_update {mmio : ℕ → ℕ} :
    Opens (update (update (update mmio (higherReg base i) (a / 2 ^ 32 % 2 ^ 32)) (lowerReg base i)
      (a % 2 ^ 32)) (permissionReg base i) permissionEnable) base i a := by
  have hhl : higherReg base i ≠ lowerReg base i := by
    simp [higherReg, lowerReg, plxALutHigherReMapSubarrayOffset, plxALutLowerReMapSubarrayOffset]
  have hhp : higherReg base i ≠ permissionReg base i := by
    simp [higherReg, permissionReg, plxALutHigherReMapSubarrayOffset,
      plxALutPermissionSubarrayOffset]
  have hlp : lowerReg base i ≠ permissionReg base i := by
    simp [lowerReg, permissionReg, plxALutLowerReMapSubarrayOffset, plxALutPermissionSubarrayOffset]
  refine ⟨Function.update_self .., ?_, ?_⟩
  · rw [Function.update_of_ne hhp, Function.update_of_ne hhl, Function.update_self]
  · rw [Function.update_of_ne hlp, Function.update_self]

/-- **Programming** opens the slots for consecutive addresses. -/
theorem programWrites_opens {mmio : ℕ → ℕ} {k : ℕ} (hnum : i + num ≤ plxAlutSegmentsNum)
    (ha : a < 2 ^ 64) (hk : k < num) :
    Opens (mmioWrites mmio (PlxDevice.programWrites base segmentSize num i a)) base (i + k)
      ((a + k * segmentSize) % 2 ^ 64) := by
  induction num generalizing i a mmio k with
  | zero => omega
  | succ num ih =>
    rw [PlxDevice.programWrites, mmioWrites, List.foldl_cons, List.foldl_cons, List.foldl_cons,
      ← mmioWrites]
    cases k with
    | zero =>
      -- The writes that follow go to other slots.
      simp only [Nat.zero_mul, Nat.add_zero, Nat.mod_eq_of_lt ha]
      exact opens_update.congr fun r hr ↦ programWrites_confined.mmioWrites_eq (by omega) (by omega)
        (by omega) hr
    | succ k =>
      have haddr : (a + (k + 1) * segmentSize) % 2 ^ 64 =
          ((a + segmentSize) % 2 ^ 64 + k * segmentSize) % 2 ^ 64 := by
        rw [Nat.mod_add_mod, Nat.succ_mul, Nat.add_assoc, Nat.add_comm segmentSize]
      rw [haddr, show i + (k + 1) = i + 1 + k by omega]
      exact ih (by omega) (Nat.mod_lt _ (by decide)) (by omega)

end Registers

/-! ## Addresses -/

section Addresses

variable {alm : PlxAlm} {addr size n : ℕ}

theorem offsetInSegment_eq (hsize : alm.segmentSize = 2 ^ n) :
    alm.offsetInSegment addr = addr % 2 ^ n := by
  rw [offsetInSegment, translationMask, hsize, Nat.and_two_pow_sub_one_eq_mod]

/-- Masking with the complement of the mask clears the low bits. -/
theorem addrMasked_eq (hsize : alm.segmentSize = 2 ^ n) (hn : n ≤ 64) (haddr : addr < 2 ^ 64) :
    alm.addrMasked addr = addr / 2 ^ n * 2 ^ n := by
  have hmask : 2 ^ 64 - 1 - (2 ^ n - 1) = (2 ^ (64 - n) - 1) <<< n := by
    have hpow : 2 ^ (64 - n) * 2 ^ n = 2 ^ 64 := by rw [← Nat.pow_add, Nat.sub_add_cancel hn]
    have hpos := Nat.two_pow_pos n
    rw [Nat.shiftLeft_eq, Nat.sub_mul, hpow]
    omega
  rw [addrMasked, translationMask, hsize, hmask, ← Nat.shiftRight_eq_div_pow, ← Nat.shiftLeft_eq]
  apply Nat.eq_of_testBit_eq
  intro j
  rw [Nat.testBit_and, Nat.testBit_shiftLeft, Nat.testBit_shiftLeft, Nat.testBit_shiftRight,
    Nat.testBit_two_pow_sub_one]
  by_cases hj : n ≤ j
  · rw [Nat.add_sub_cancel' hj]
    by_cases hj' : j < 64
    · simp [hj]
      omega
    · rw [Nat.testBit_lt_two_pow (haddr.trans_le (Nat.pow_le_pow_right (by omega) (by omega)))]
      simp
  · simp [hj]

/-- The sizes with which `plx_hw_init` sets up the manager: a table for one or two ports, segments of
a power of two, and an aperture of less than `2 ^ 64` bytes. -/
structure Sized (alm : PlxAlm) (n : ℕ) : Prop where
  size : alm.segmentSize = 2 ^ n
  num : alm.segmentsNum = 256 ∨ alm.segmentsNum = 128
  aper : 2 ^ n * alm.segmentsNum < 2 ^ 64

/-- The aperture is a power of two as well, so it even fits 63 bits. -/
theorem Sized.aper_le (h : Sized alm n) : 2 ^ n * alm.segmentsNum ≤ 2 ^ 63 := by
  have haper := h.aper
  rcases h.num with hnum | hnum
  · rw [hnum, show 256 = 2 ^ 8 from rfl, ← Nat.pow_add] at haper ⊢
    exact Nat.pow_le_pow_right (by omega) (by
      have := (Nat.pow_lt_pow_iff_right (by omega)).mp haper
      omega)
  · rw [hnum, show 128 = 2 ^ 7 from rfl, ← Nat.pow_add] at haper ⊢
    exact Nat.pow_le_pow_right (by omega) (by
      have := (Nat.pow_lt_pow_iff_right (by omega)).mp haper
      omega)

theorem Sized.le (h : Sized alm n) : n ≤ 56 := by
  by_contra hn
  have hpow : 2 ^ 57 ≤ 2 ^ n := Nat.pow_le_pow_right (by omega) (by omega)
  have := h.aper
  rcases h.num with hnum | hnum <;> rw [hnum] at this <;> omega

theorem Sized.size_le (h : Sized alm n) (hsize : alm.Accepts size) :
    size ≤ 2 ^ n * alm.segmentsNum := by
  have := hsize.2
  rwa [h.size, Nat.mod_eq_of_lt h.aper] at this

/-- Nothing overflows in the computation of the number of segments. -/
theorem Sized.segmentsOf_eq (h : Sized alm n) (hsize : alm.Accepts size) :
    alm.segmentsOf addr size = (addr % 2 ^ n + size + 2 ^ n - 1) / 2 ^ n := by
  have hle := h.size_le hsize
  have hpos := Nat.two_pow_pos n
  have hpow : 2 ^ n ≤ 2 ^ 56 := Nat.pow_le_pow_right (by omega) h.le
  have hoff : addr % 2 ^ n < 2 ^ n := Nat.mod_lt _ hpos
  have haper := h.aper_le
  rw [segmentsOf, offsetInSegment_eq h.size, h.size]
  have hlt : addr % 2 ^ n + size + 2 ^ n - 1 < 2 ^ 64 := by omega
  have hquot : (addr % 2 ^ n + size + 2 ^ n - 1) / 2 ^ n < 2 ^ 32 := by
    rw [Nat.div_lt_iff_lt_mul hpos]
    rcases h.num with hnum | hnum <;> rw [hnum] at hle <;> omega
  rw [Nat.mod_eq_of_lt hlt, Nat.mod_eq_of_lt hquot]

/-- The segments cover the mapping. -/
theorem Sized.covers (h : Sized alm n) (hsize : alm.Accepts size) :
    0 < alm.segmentsOf addr size ∧ addr % 2 ^ n + size ≤ alm.segmentsOf addr size * 2 ^ n := by
  have hpos := Nat.two_pow_pos n
  have hne : 0 < size := Nat.pos_of_ne_zero hsize.1
  rw [h.segmentsOf_eq hsize]
  refine ⟨Nat.div_pos (by omega) hpos, ?_⟩
  have hdiv := Nat.div_add_mod (addr % 2 ^ n + size + 2 ^ n - 1) (2 ^ n)
  have hmod := Nat.mod_lt (addr % 2 ^ n + size + 2 ^ n - 1) hpos
  rw [Nat.mul_comm] at hdiv
  omega

end Addresses

/-! ## The system -/

namespace Translation

/-- A mapping: what was asked for, and what was returned. -/
structure Mapping where
  placed : Placed
  addr : ℕ
  size : ℕ
  addrOut : ℕ
  deriving DecidableEq, Repr

/-- The device and the live mappings. `crashed` records a `BUG_ON`. -/
structure Sys where
  xdev : PlxDevice
  live : List Mapping
  crashed : Bool

inductive Label
  | add (addr size : ℕ)
  /-- The deletion of the `i`-th live mapping, by an address `k` bytes into its window. -/
  | del (i k : ℕ)

def start (xdev : PlxDevice) : Sys := ⟨xdev, [], false⟩

/-- One call. Addresses and sizes have 64 bits. -/
def step (s : Sys) : Label → Option Sys
  | .add addr size =>
    if s.crashed ∨ 2 ^ 64 ≤ addr ∨ 2 ^ 64 ≤ size then none
    else match s.xdev.plxAddALutEntry addr size with
    | none => some { s with crashed := true }
    | some (alm, ws, out) => some { s with
        xdev := { s.xdev with aLutManager := alm, mmio := mmioWrites s.xdev.mmio ws }
        live := s.live ++ out.toList.map fun o ↦ ⟨o.1, addr, size, o.2⟩ }
  | .del i k =>
    match s.live[i]? with
    | none => none
    | some m =>
      if s.crashed ∨ m.size ≤ k then none
      else match s.xdev.plxDelALutEntry (m.addrOut + k) with
      | none => some { s with crashed := true }
      | some (alm, ws) => some { s with
          xdev := { s.xdev with aLutManager := alm, mmio := mmioWrites s.xdev.mmio ws }
          live := s.live.eraseIdx i }

/-- The mapping translates exactly: each of its bytes is behind an open slot that re-maps to it. -/
def Translates (xdev : PlxDevice) (m : Mapping) : Prop :=
  ∀ k < m.size, xdev.permission ((m.addrOut + k) / xdev.aLutManager.segmentSize) = permissionEnable ∧
    (xdev.reMap ((m.addrOut + k) / xdev.aLutManager.segmentSize) +
      (m.addrOut + k) % xdev.aLutManager.segmentSize) % 2 ^ 64 = (m.addr + k) % 2 ^ 64

/-- The register writes of a call, in order. -/
def writes (s : Sys) : Label → Writes
  | .add addr size => ((s.xdev.plxAddALutEntry addr size).map fun r ↦ r.2.1).getD []
  | .del i k => match s.live[i]? with
    | none => []
    | some m => ((s.xdev.plxDelALutEntry (m.addrOut + k)).map Prod.snd).getD []

/-- Fewer than 65534 mappings live in any one block. -/
def Uncrowded (_ : Sys) (_ : Label) (s' : Sys) : Prop :=
  ∀ h, users (s'.live.map Mapping.placed) h < 65534

/-! ## The invariant -/

/-- The hardware follows the software: the slots of the block at `h` are open and re-map to the
addresses from the block's value on. -/
structure Follows (xdev : PlxDevice) (n h : ℕ) : Prop where
  value_lt : (xdev.aLutManager.entries h).value < 2 ^ 64
  aligned : 2 ^ n ∣ (xdev.aLutManager.entries h).value
  opens : ∀ j < xdev.aLutManager.len h, Opens xdev.mmio xdev.aLutArrayBase (h + j)
    (((xdev.aLutManager.entries h).value + j * 2 ^ n) % 2 ^ 64)

/-- Where a mapping lies in its block. -/
structure Mapped (alm : PlxAlm) (n : ℕ) (m : Mapping) : Prop where
  addr_eq : m.addr / 2 ^ n * 2 ^ n =
    (alm.entries m.placed.block).value + (m.placed.segmentId - m.placed.block) * 2 ^ n
  addrOut_eq : m.addrOut = m.placed.segmentId * 2 ^ n + m.addr % 2 ^ n
  fits : m.addr % 2 ^ n + m.size ≤ m.placed.segmentsNum * 2 ^ n

structure Inv (n : ℕ) (s : Sys) : Prop where
  sized : Sized s.xdev.aLutManager n
  users : Users s.xdev.aLutManager (s.live.map Mapping.placed)
  follows : ∀ h, (s.xdev.aLutManager.entries h).counter ≠ 0 → Follows s.xdev n h
  mapped : ∀ m ∈ s.live, Mapped s.xdev.aLutManager n m
  alive : s.crashed = false

theorem Opens.reMap_eq {mmio : ℕ → ℕ} {base i v : ℕ} (h : Opens mmio base i v) (hv : v < 2 ^ 64) :
    mmio (higherReg base i) * 2 ^ 32 + mmio (lowerReg base i) = v := by
  rw [h.higher, h.lower]
  omega

/-- **A mapping in a block that the hardware follows translates.** -/
theorem Mapped.translates {xdev : PlxDevice} {n : ℕ} {m : Mapping}
    (hm : Mapped xdev.aLutManager n m) (hsize : xdev.aLutManager.segmentSize = 2 ^ n)
    (hf : Follows xdev n m.placed.block) (hle : m.placed.block ≤ m.placed.segmentId)
    (hlt : m.placed.segmentId + m.placed.segmentsNum ≤
      m.placed.block + xdev.aLutManager.len m.placed.block) : Translates xdev m := by
  intro k hk
  have hpos := Nat.two_pow_pos n
  have hfits := hm.fits
  -- The byte lies `(addr % 2 ^ n + k) / 2 ^ n` slots behind the first one.
  have hslot : (m.addrOut + k) / 2 ^ n = m.placed.segmentId + (m.addr % 2 ^ n + k) / 2 ^ n := by
    rw [hm.addrOut_eq, Nat.add_assoc, Nat.mul_comm, Nat.mul_add_div hpos]
  have hbyte : (m.addrOut + k) % 2 ^ n = (m.addr % 2 ^ n + k) % 2 ^ n := by
    rw [hm.addrOut_eq, Nat.add_assoc, Nat.mul_comm, Nat.mul_add_mod]
  have hlast : (m.addr % 2 ^ n + k) / 2 ^ n < m.placed.segmentsNum := by
    rw [Nat.div_lt_iff_lt_mul hpos]
    omega
  have hopen := hf.opens (m.placed.segmentId - m.placed.block + (m.addr % 2 ^ n + k) / 2 ^ n)
    (by omega)
  rw [show m.placed.block + (m.placed.segmentId - m.placed.block + (m.addr % 2 ^ n + k) / 2 ^ n) =
    m.placed.segmentId + (m.addr % 2 ^ n + k) / 2 ^ n by omega, ← hslot] at hopen
  rw [hsize]
  refine ⟨hopen.permission, ?_⟩
  rw [PlxDevice.reMap, Opens.reMap_eq hopen (Nat.mod_lt _ (by decide)), Nat.mod_add_mod, hbyte]
  congr 1
  have haddr := Nat.div_add_mod' m.addr (2 ^ n)
  have hoff := Nat.div_add_mod' (m.addr % 2 ^ n + k) (2 ^ n)
  have heq := hm.addr_eq
  rw [Nat.add_mul]
  omega

variable {s s' : Sys} {n addr size : ℕ}

theorem Inv.translates (h : Inv n s) {m : Mapping} (hm : m ∈ s.live) : Translates s.xdev m := by
  have hp : m.placed ∈ s.live.map Mapping.placed := List.mem_map_of_mem hm
  have hin := h.users.within _ hp
  exact (h.mapped m hm).translates h.sized.size (h.follows _ (h.users.used _ hp)) hin.1 hin.2

theorem Inv.released {alm : PlxAlm} (h : Inv n s) (hr : s.xdev.aLutManager.Released alm) :
    Inv n { s with xdev := { s.xdev with aLutManager := alm } } := by
  refine ⟨⟨hr.segmentSize.trans h.sized.size, ?_, ?_⟩, h.users.released hr, fun h' hc ↦ ?_,
    fun m hm ↦ ?_, h.alive⟩
  · exact hr.segmentsNum ▸ h.sized.num
  · exact hr.segmentsNum ▸ h.sized.aper
  · have heq := hr.sub h' hc
    dsimp only at hc
    rw [heq] at hc
    have hf := h.follows h' hc
    exact ⟨by rw [heq]; exact hf.value_lt, by rw [heq]; exact hf.aligned, fun j hj ↦ by
      dsimp only at hj ⊢
      rw [len, heq, ← len] at hj
      rw [heq]
      exact hf.opens j hj⟩
  · have heq := hr.keep m.placed.block (h.users.two_le (List.mem_map_of_mem hm))
    have hmap := h.mapped m hm
    exact ⟨by rw [heq]; exact hmap.addr_eq, hmap.addrOut_eq, hmap.fits⟩

theorem Inv.reuse {alm : PlxAlm} {live : List Mapping} (h : Inv n s)
    (hnum : alm.segmentsNum = s.xdev.aLutManager.segmentsNum)
    (hsize : alm.segmentSize = s.xdev.aLutManager.segmentSize)
    (hlen : alm.len = s.xdev.aLutManager.len)
    (hvalue : ∀ h, (alm.entries h).value = (s.xdev.aLutManager.entries h).value)
    (hu : Users alm (live.map Mapping.placed))
    (hm : ∀ m ∈ live, Mapped s.xdev.aLutManager n m) :
    Inv n { s with xdev := { s.xdev with aLutManager := alm }, live := live } := by
  refine ⟨⟨hsize.trans h.sized.size, hnum ▸ h.sized.num, hnum ▸ h.sized.aper⟩, hu, fun h' hc ↦ ?_,
    fun m hmem ↦ ?_, h.alive⟩
  · have hpos := hu.wf.len_pos hc
    rw [hlen] at hpos
    have hf := h.follows h' (counter_ne_zero (by omega))
    exact ⟨by rw [hvalue]; exact hf.value_lt, by rw [hvalue]; exact hf.aligned, fun j hj ↦ by
      dsimp only at hj ⊢
      rw [hlen] at hj
      rw [hvalue]
      exact hf.opens j hj⟩
  · have := hm m hmem
    exact ⟨by rw [hvalue]; exact this.addr_eq, this.addrOut_eq, this.fits⟩

theorem Sized.addrOut {alm : PlxAlm} {seg : ℕ} (h : Sized alm n) (hseg : seg < alm.segmentsNum) :
    (seg * alm.segmentSize + alm.offsetInSegment addr) % 2 ^ 64 = seg * 2 ^ n + addr % 2 ^ n := by
  have hpos := Nat.two_pow_pos n
  have hoff : addr % 2 ^ n < 2 ^ n := Nat.mod_lt _ hpos
  have haper := h.aper
  have hle : (seg + 1) * 2 ^ n ≤ alm.segmentsNum * 2 ^ n := Nat.mul_le_mul_right _ hseg
  rw [Nat.add_mul, Nat.one_mul, Nat.mul_comm alm.segmentsNum] at hle
  rw [offsetInSegment_eq h.size, h.size, Nat.mod_eq_of_lt (by omega)]

theorem Inv.embed {m idx : ℕ} (h : Inv n s) (haddr : addr < 2 ^ 64)
    (hsize : s.xdev.aLutManager.Accepts size)
    (hcov : s.xdev.aLutManager.Covers (s.xdev.aLutManager.addrMasked addr)
      (s.xdev.aLutManager.segmentsOf addr size) m idx)
    (hlt : (s.xdev.aLutManager.entries m).counter + 1 < 2 ^ 16) :
    Inv n { s with
      xdev := { s.xdev with aLutManager := { s.xdev.aLutManager with
        entries := update s.xdev.aLutManager.entries m { s.xdev.aLutManager.entries m with
          counter := ((s.xdev.aLutManager.entries m).counter + 1) % 2 ^ 16 } } }
      live := s.live ++ [⟨⟨m, (m + idx) % 2 ^ 32, s.xdev.aLutManager.segmentsOf addr size⟩, addr, size,
        ((m + idx) % 2 ^ 32 * s.xdev.aLutManager.segmentSize +
          s.xdev.aLutManager.offsetInSegment addr) % 2 ^ 64⟩] } := by
  have hpos := Nat.two_pow_pos n
  have hf := h.follows m hcov.used
  have hcovers : 0 < s.xdev.aLutManager.segmentsOf addr size ∧ _ := h.sized.covers hsize
  have hlen := len_of_counter hcov.used
  have hfits := h.users.wf.tiled.fits m (h.users.wf.len_pos hcov.used)
  have hle := hcov.le_len
  have hnum := h.users.num_lt
  have hmod : (m + idx) % 2 ^ 32 = m + idx := Nat.mod_eq_of_lt (by omega)
  refine h.reuse rfl rfl (h.users.wf.set_counter hcov.used ?_).2 (fun h' ↦ ?_) ?_ fun m' hm' ↦ ?_
  · rw [Nat.mod_eq_of_lt hlt]
    exact Nat.succ_ne_zero _
  · by_cases hh : h' = m
    · subst hh
      simp
    · simp [Function.update_of_ne hh]
  · rw [List.map_append]
    exact h.users.embed hcov hlt
  · rcases List.mem_append.mp hm' with hm' | hm'
    · exact h.mapped m' hm'
    · rw [List.mem_singleton.mp hm', hmod, Sized.addrOut h.sized (by omega)]
      refine ⟨?_, rfl, hcovers.2⟩
      -- Both addresses are multiples of the segment size, so the division is exact.
      obtain ⟨v, hv⟩ := hf.aligned
      have hvle := hcov.value_le
      have hidx := hcov.idx_eq
      rw [addrMasked_eq h.sized.size (by have := h.sized.le; omega) haddr] at hvle hidx
      rw [h.sized.size, hv, Nat.mul_comm _ (2 ^ n), ← Nat.mul_sub, Nat.mul_div_cancel_left _ hpos]
        at hidx
      rw [hv, Nat.mul_comm (addr / 2 ^ n)] at hvle
      have hle' := Nat.le_of_mul_le_mul_left hvle hpos
      dsimp only
      rw [hv, Nat.add_sub_cancel_left, hidx, Nat.mul_comm _ (2 ^ n), Nat.mul_comm _ (2 ^ n),
        ← Nat.mul_add, Nat.add_sub_cancel' hle']

theorem Sized.num_le {alm : PlxAlm} (h : Sized alm n) : alm.segmentsNum ≤ plxAlutSegmentsNum := by
  rw [plxAlutSegmentsNum]
  rcases h.num with hnum | hnum <;> omega

theorem Inv.write_free {m segments : ℕ} {ws : Writes} (h : Inv n s)
    (hrun : s.xdev.aLutManager.FreeRun segments m)
    (hws : Confined s.xdev.aLutArrayBase m segments ws) :
    Inv n { s with xdev := { s.xdev with mmio := mmioWrites s.xdev.mmio ws } } := by
  refine ⟨h.sized, h.users, fun h' hc ↦ ?_, h.mapped, h.alive⟩
  have hf := h.follows h' hc
  have hle := Sized.num_le h.sized
  have hfits := hrun.fits
  have hblock := h.users.wf.tiled.fits h' (h.users.wf.len_pos hc)
  refine ⟨hf.value_lt, hf.aligned, fun j hj ↦ (hf.opens j hj).congr fun r hr ↦ ?_⟩
  dsimp only at hj
  exact hws.mmioWrites_eq (by omega) (by omega) (hrun.disjoint hj) hr

theorem Inv.place {m : ℕ} (h : Inv n s) (haddr : addr < 2 ^ 64)
    (hsize : s.xdev.aLutManager.Accepts size)
    (hrun : s.xdev.aLutManager.FreeRun (s.xdev.aLutManager.segmentsOf addr size) m) :
    Inv n { s with
      xdev := { s.xdev with
        aLutManager := (s.xdev.aLutManager.plxAlmPlace m (s.xdev.aLutManager.addrMasked addr)
          (s.xdev.aLutManager.segmentsOf addr size)).2
        mmio := mmioWrites s.xdev.mmio (PlxDevice.programWrites s.xdev.aLutArrayBase
          s.xdev.aLutManager.segmentSize (s.xdev.aLutManager.segmentsOf addr size) m
          (s.xdev.aLutManager.addrMasked addr)) }
      live := s.live ++ [⟨⟨m, m % 2 ^ 32, s.xdev.aLutManager.segmentsOf addr size⟩, addr, size,
        (m * s.xdev.aLutManager.segmentSize + s.xdev.aLutManager.offsetInSegment addr) %
          2 ^ 64⟩] } := by
  have hpos := Nat.two_pow_pos n
  have hnum := h.users.num_lt
  have hfits := hrun.fits
  have hle := Sized.num_le h.sized
  have hspos := hrun.pos
  have hmod : m % 2 ^ 32 = m := Nat.mod_eq_of_lt (by omega)
  have hmask := addrMasked_eq h.sized.size (by have := h.sized.le; omega) haddr
  have hmask_lt : s.xdev.aLutManager.addrMasked addr < 2 ^ 64 :=
    hmask ▸ (Nat.div_mul_le_self addr (2 ^ n)).trans_lt haddr
  have hentries (i : ℕ) : (s.xdev.aLutManager.plxAlmPlace m (s.xdev.aLutManager.addrMasked addr)
    (s.xdev.aLutManager.segmentsOf addr size)).2.entries i = _ :=
    h.users.wf.place_entries hrun hnum i
  have hlen : (s.xdev.aLutManager.plxAlmPlace m (s.xdev.aLutManager.addrMasked addr)
    (s.xdev.aLutManager.segmentsOf addr size)).2.len = _ := h.users.wf.place_len hrun hnum
  -- An old block lies outside the run: its entries stay, and its slots are not written to.
  have hold : ∀ h', (s.xdev.aLutManager.entries h').counter ≠ 0 →
      h' ≠ m ∧ ¬ (m ≤ h' ∧ h' < m + s.xdev.aLutManager.segmentsOf addr size) := fun h' hc ↦ by
    have hout := hrun.disjoint (j := 0) (h.users.wf.len_pos hc)
    exact ⟨fun heq ↦ hout ⟨heq.ge, by omega⟩, hout⟩
  refine ⟨⟨?_, ?_, ?_⟩, ?_, fun h' hc ↦ ?_, fun m' hm' ↦ ?_, h.alive⟩
  · rw [place_segmentSize, h.sized.size]
  · rw [place_segmentsNum]
    exact h.sized.num
  · rw [place_segmentsNum]
    exact h.sized.aper
  · rw [List.map_append]
    exact h.users.place hrun
  · dsimp only at hc
    by_cases hhm : h' = m
    · subst hhm
      refine ⟨?_, ?_, fun j hj ↦ ?_⟩
      · rw [hentries, if_pos rfl]
        exact hmask_lt
      · rw [hentries, if_pos rfl, hmask]
        exact Nat.dvd_mul_left _ _
      · dsimp only at hj ⊢
        rw [hlen, Function.update_self] at hj
        rw [hentries, if_pos rfl, h.sized.size]
        exact programWrites_opens (by omega) hmask_lt hj
    · rw [hentries, if_neg hhm] at hc
      split at hc
      · exact absurd rfl hc
      · rename_i hout
        have hws : Confined _ m _ (PlxDevice.programWrites s.xdev.aLutArrayBase
          s.xdev.aLutManager.segmentSize (s.xdev.aLutManager.segmentsOf addr size) m
          (s.xdev.aLutManager.addrMasked addr)) := programWrites_confined
        have hf := (h.write_free hrun hws).follows h' hc
        refine ⟨?_, ?_, fun j hj ↦ ?_⟩
        · rw [hentries, if_neg hhm, if_neg hout]
          exact hf.value_lt
        · rw [hentries, if_neg hhm, if_neg hout]
          exact hf.aligned
        · dsimp only at hj ⊢
          rw [hlen, Function.update_of_ne hhm] at hj
          rw [hentries, if_neg hhm, if_neg hout]
          exact hf.opens j hj
  · rcases List.mem_append.mp hm' with hm' | hm'
    · have hmap := h.mapped m' hm'
      obtain ⟨hne, hout⟩ := hold _ (h.users.used _ (List.mem_map_of_mem hm'))
      refine ⟨?_, hmap.addrOut_eq, hmap.fits⟩
      rw [hentries, if_neg hne, if_neg hout]
      exact hmap.addr_eq
    · rw [List.mem_singleton.mp hm', hmod, Sized.addrOut h.sized (by omega)]
      refine ⟨?_, rfl, (h.sized.covers hsize).2⟩
      dsimp only
      rw [hentries, if_pos rfl, hmask, Nat.sub_self, Nat.zero_mul, Nat.add_zero]

/-! ## The calls -/

/-- What an addition returns, and which registers it writes to. -/
inductive AddCall (xdev : PlxDevice) (addr size : ℕ) (alm : PlxAlm) :
    PlxAlm → Writes → Option (Placed × ℕ) → Prop
  | refused : AddCall xdev addr size alm alm [] none
  | embedded {m idx : ℕ} (hsize : alm.Accepts size)
      (hfind : alm.plxAlmFind (alm.addrMasked addr) (alm.segmentsOf addr size) alm.segmentsNum 0 0
        none = some (m, idx))
      (h : alm.Covers (alm.addrMasked addr) (alm.segmentsOf addr size) m idx) :
      AddCall xdev addr size alm
        { alm with entries := update alm.entries m { alm.entries m with
          counter := ((alm.entries m).counter + 1) % 2 ^ 16 } } []
        (some (⟨m, (m + idx) % 2 ^ 32, alm.segmentsOf addr size⟩,
          ((m + idx) % 2 ^ 32 * alm.segmentSize + alm.offsetInSegment addr) % 2 ^ 64))
  | fresh {m : ℕ} (hsize : alm.Accepts size) (h : alm.FreeRun (alm.segmentsOf addr size) m) :
      AddCall xdev addr size alm
        (alm.plxAlmPlace m (alm.addrMasked addr) (alm.segmentsOf addr size)).2
        (PlxDevice.programWrites xdev.aLutArrayBase alm.segmentSize (alm.segmentsOf addr size) m
          (alm.addrMasked addr))
        (some (⟨m, m % 2 ^ 32, alm.segmentsOf addr size⟩,
          (m * alm.segmentSize + alm.offsetInSegment addr) % 2 ^ 64))

/-- **An addition in the hardware**: a cleanup if one is needed, and then one of the three. -/
theorem add_call (xdev : PlxDevice) (hwf : xdev.aLutManager.WF)
    (hnum : xdev.aLutManager.segmentsNum < 2 ^ 16) :
    ∃ alm₁ alm' ws out, xdev.plxAddALutEntry addr size = some (alm', ws, out) ∧
      xdev.aLutManager.Released alm₁ ∧
      (alm₁ = xdev.aLutManager ∨ xdev.aLutManager.NeedsCleanup addr size) ∧
      AddCall xdev addr size alm₁ alm' ws out := by
  obtain ⟨alm₁, rc, alm', out, heq, hr, hneed, hadd⟩ : ∃ alm₁ rc alm' out, _ ∧ _ ∧ _ ∧ _ := hwf.add
  have hmask : xdev.aLutManager.addrMasked addr = alm₁.addrMasked addr := by
    rw [addrMasked, addrMasked, translationMask, translationMask, hr.segmentSize]
  have hoff : xdev.aLutManager.offsetInSegment addr = alm₁.offsetInSegment addr := by
    rw [offsetInSegment, offsetInSegment, translationMask, translationMask, hr.segmentSize]
  rw [PlxDevice.plxAddALutEntry, heq, hmask, hoff]
  cases hadd with
  | refused => exact ⟨alm₁, _, _, _, rfl, hr, hneed, .refused⟩
  | embedded hsize hfind hcov =>
    have hrc : ¬ (-eexist ≠ 0 ∧ -eexist ≠ -eexist) := by decide
    dsimp only
    rw [if_neg hrc, if_neg (by decide)]
    exact ⟨alm₁, _, _, _, rfl, hr, hneed, .embedded hsize hfind hcov⟩
  | @fresh m hsize hrun =>
    have hfits := hrun.fits
    rw [hr.segmentsNum] at hfits
    have hmod : m % 2 ^ 32 = m := Nat.mod_eq_of_lt (by omega)
    have hfresh : AddCall xdev addr size alm₁ _ _ _ := .fresh hsize hrun
    have hrc : ¬ ((0 : ℤ) ≠ 0 ∧ (0 : ℤ) ≠ -eexist) := by decide
    dsimp only
    rw [if_neg hrc, if_pos rfl, place_segmentSize, hmod]
    rw [hmod] at hfresh
    exact ⟨alm₁, _, _, _, rfl, hr, hneed, hfresh⟩

/-- A call between the slots of a live mapping deletes nothing but this mapping. -/
theorem Inv.del_call {i k : ℕ} {m : Mapping} (h : Inv n s) (hi : s.live[i]? = some m)
    (hk : k < m.size) :
    ∃ alm, s.xdev.plxDelALutEntry (m.addrOut + k) = some (alm, []) ∧
      Inv n { s with xdev := { s.xdev with aLutManager := alm }, live := s.live.eraseIdx i } := by
  have hpos := Nat.two_pow_pos n
  have hm : m ∈ s.live := List.mem_of_getElem? hi
  have hmap := h.mapped m hm
  have hp : (s.live.map Mapping.placed)[i]? = some m.placed := by simp [hi]
  have hin := h.users.within _ (List.mem_map_of_mem hm)
  have hused := h.users.used _ (List.mem_map_of_mem hm)
  have hfits := h.users.wf.tiled.fits _ (h.users.wf.len_pos hused)
  have haper := h.sized.aper
  have hnum := h.users.num_lt
  -- The byte lies in a slot of the mapping, so the slot is in the table.
  have hoff := hmap.fits
  have hslot : (m.addrOut + k) / 2 ^ n = m.placed.segmentId + (m.addr % 2 ^ n + k) / 2 ^ n := by
    rw [hmap.addrOut_eq, Nat.add_assoc, Nat.mul_comm, Nat.mul_add_div hpos]
  have hlast : (m.addr % 2 ^ n + k) / 2 ^ n < m.placed.segmentsNum := by
    rw [Nat.div_lt_iff_lt_mul hpos]
    omega
  have hlt : m.addrOut + k < s.xdev.aLutManager.segmentsNum * 2 ^ n := by
    rw [← Nat.div_lt_iff_lt_mul hpos]
    omega
  have hmod : (m.addrOut + k) / 2 ^ n % 2 ^ 32 = (m.addrOut + k) / 2 ^ n :=
    Nat.mod_eq_of_lt (by omega)
  have hge : m.placed.segmentId ≤ (m.addrOut + k) / 2 ^ n := hslot ▸ Nat.le_add_right _ _
  obtain ⟨alm, hdel, hu, hnum', hsize', hlen, hvalue⟩ := h.users.del hp hge (by omega)
  refine ⟨alm, ?_, h.reuse hnum' hsize' hlen (fun h' ↦ (hvalue h').1) ?_ fun m' hm' ↦ ?_⟩
  · rw [Nat.mul_comm] at haper
    rw [PlxDevice.plxDelALutEntry, h.sized.size, Nat.mod_eq_of_lt haper, if_neg (by omega), hmod, hdel]
  · rw [← List.eraseIdx_map]
    exact hu
  · exact h.mapped m' (List.mem_of_mem_eraseIdx hm')

theorem Inv.add_step (h : Inv n s) (hP : ∀ h, PlxAlm.users (s'.live.map Mapping.placed) h < 65534)
    (hs : Translation.step s (.add addr size) = some s') :
    Inv n s' ∧ ∀ ws, ws <+: writes s (.add addr size) →
      ∀ m ∈ s.live, Translates { s.xdev with mmio := mmioWrites s.xdev.mmio ws } m := by
  obtain ⟨alm₁, alm', ws, out, heq, hr, -, hadd⟩ : ∃ alm₁ alm' ws out, _ ∧ _ ∧ _ ∧ _ :=
    add_call s.xdev h.users.wf h.users.num_lt
  rw [Translation.step] at hs
  split at hs
  · cases hs
  rename_i hlt
  rw [not_or, not_or, not_le, not_le] at hlt
  rw [heq] at hs
  rw [writes, heq, Option.map_some, Option.getD_some]
  have h₁ := h.released hr
  -- Cleanup does not change the size of a segment, which is all that a translation needs to know.
  have htrans : ∀ mmio, Inv n { s with xdev := { s.xdev with aLutManager := alm₁, mmio := mmio } } →
      ∀ m ∈ s.live, Translates { s.xdev with mmio := mmio } m := fun mmio hinv m hm ↦ by
    have := hinv.translates hm
    rw [Translates] at this ⊢
    simp only [hr.segmentSize] at this
    exact this
  cases hadd with
  | refused =>
    cases hs
    refine ⟨by simpa [mmioWrites] using h₁, fun ws hws ↦ ?_⟩
    rw [List.prefix_nil.mp hws]
    exact htrans _ h₁
  | @embedded m idx hsize _ hcov =>
    cases hs
    -- The block has one user more than before, and that is fewer than 65534.
    have hcount := h₁.users.counter m hcov.used
    have hm := hP m
    simp only [Option.toList_some, List.map_append, List.map_cons, List.map_nil] at hm
    rw [users_snoc, if_pos rfl] at hm
    dsimp only at hcount
    refine ⟨h₁.embed hlt.2.1 hsize hcov (by dsimp only; omega), fun ws hws ↦ ?_⟩
    rw [List.prefix_nil.mp hws]
    exact htrans _ h₁
  | @fresh m hsize hrun =>
    cases hs
    refine ⟨h₁.place hlt.2.1 hsize hrun, fun ws hws ↦ htrans _ ?_⟩
    exact h₁.write_free hrun (programWrites_confined.sublist hws.subset)

theorem Inv.step {l : Label} (h : Inv n s) (hP : Uncrowded s l s')
    (hs : Translation.step s l = some s') :
    Inv n s' ∧ ∀ ws, ws <+: writes s l →
      ∀ m ∈ s.live, Translates { s.xdev with mmio := mmioWrites s.xdev.mmio ws } m := by
  cases l with
  | add addr size => exact h.add_step hP hs
  | del i k =>
    rw [Translation.step] at hs
    split at hs
    · cases hs
    rename_i m hi
    split at hs
    · cases hs
    rename_i hk
    rw [not_or, not_le] at hk
    obtain ⟨alm, hdel, hinv⟩ := h.del_call hi hk.2
    rw [hdel] at hs
    cases hs
    refine ⟨hinv, fun ws hws m' hm' ↦ ?_⟩
    rw [writes, hi] at hws
    dsimp only at hws
    rw [hdel, Option.map_some, Option.getD_some] at hws
    rw [List.prefix_nil.mp hws]
    exact h.translates hm'

theorem alutPorts_eq (val : ℕ) : PlxDevice.alutPorts val = 1 ∨ PlxDevice.alutPorts val = 2 := by
  rw [PlxDevice.alutPorts]
  split <;> split <;> simp

theorem Inv.init {xdev xdev₀ : PlxDevice} {device val aperLen : ℕ}
    (hinit : xdev₀.plxHwInit device val aperLen = some xdev) (haper : aperLen < 2 ^ 64)
    (hsize : xdev.aLutManager.segmentSize = 2 ^ n) : Inv n (start xdev) := by
  obtain ⟨ports, hports, hmgr⟩ : ∃ ports, (ports = 1 ∨ ports = 2) ∧
      xdev.aLutManager = plxAlmInit (plxAlutSegmentsNum / ports) aperLen := by
    rw [PlxDevice.plxHwInit] at hinit
    split at hinit
    · cases hinit
    · cases hinit
      exact ⟨PlxDevice.alutPorts val, alutPorts_eq val, rfl⟩
  have hnum : xdev.aLutManager.segmentsNum = 256 ∨ xdev.aLutManager.segmentsNum = 128 := by
    rw [hmgr]
    rcases hports with rfl | rfl
    · exact .inl rfl
    · exact .inr rfl
  have hle : 2 ^ n * xdev.aLutManager.segmentsNum ≤ aperLen := by
    rw [← hsize, hmgr]
    exact Nat.div_mul_le_self _ _
  refine ⟨⟨hsize, hnum, hle.trans_lt haper⟩, .of_zero ?_ fun i ↦ ?_, fun h hc ↦ ?_, by simp [start],
    rfl⟩
  · rw [start]
    dsimp only
    omega
  · rw [start, hmgr]
    rfl
  · rw [start, hmgr] at hc
    exact absurd rfl hc

/-- **Live mappings translate exactly**, in every sequence of calls, after every call and at every
moment between two register writes of the next one. -/
theorem live_mappings_translate {mmio : ℕ → ℕ} {device val aperLen : ℕ} {xdev : PlxDevice}
    {ls : List Label}
    (hinit : (plxDeviceCreate mmio).plxHwInit device val aperLen = some xdev)
    (haper : aperLen < 2 ^ 64) (hsize : ∃ n, xdev.aLutManager.segmentSize = 2 ^ n)
    (hP : Along Uncrowded step (start xdev) ls) (h : exec step (start xdev) ls = some s) :
    s.crashed = false ∧ (∀ m ∈ s.live, Translates s.xdev m) ∧
      ∀ l s', step s l = some s' → Uncrowded s l s' → ∀ ws, ws <+: writes s l →
        ∀ m ∈ s.live, Translates { s.xdev with mmio := mmioWrites s.xdev.mmio ws } m := by
  obtain ⟨n, hn⟩ := hsize
  have hinv : Inv n s := exec_invariant (P := Uncrowded) (fun hi hp hs ↦ (Inv.step hi hp hs).1) hP
    (Inv.init hinit haper hn) h
  exact ⟨hinv.alive, fun m hm ↦ hinv.translates hm, fun l s' hs hu ↦ (hinv.step hu hs).2⟩

theorem live_length_step {l : Label} (hs : step s l = some s') :
    s'.live.length ≤ s.live.length + 1 := by
  cases l with
  | add addr size =>
    rw [step] at hs
    split at hs
    · cases hs
    · split at hs <;> cases hs
      · exact Nat.le_succ _
      · rename_i out _
        cases out <;> simp
  | del i k =>
    rw [step] at hs
    split at hs
    · cases hs
    · split at hs
      · cases hs
      · split at hs <;> cases hs
        · exact Nat.le_succ _
        · exact (List.length_eraseIdx_le _ _).trans (Nat.le_succ _)

/-- A short sequence of calls cannot crowd a block. -/
theorem uncrowded_of_short {ls : List Label} (hlen : s.live.length + ls.length < 65534) :
    Along Uncrowded step s ls := by
  induction ls generalizing s with
  | nil => trivial
  | cons l ls ih =>
    intro s' hs'
    have hstep := live_length_step hs'
    rw [List.length_cons] at hlen
    refine ⟨fun h ↦ ?_, ih (by omega)⟩
    have hle : users (s'.live.map Mapping.placed) h ≤ s'.live.length := by
      rw [← List.length_map (f := Mapping.placed)]
      exact List.countP_le_length
    omega

/-- Two mappings, the second embedded into the block of the first, and the deletion of the first
through an address in its window. -/
theorem embedded_mapping_translates :
    ∃ xdev s, (plxDeviceCreate fun _ ↦ 0).plxHwInit 0x2954 0 524288 = some xdev ∧
      exec step (start xdev) [.add 0x10001234 8192, .add 0x10002000 100, .del 0 8000] = some s ∧
      s.live = [⟨⟨0, 1, 1⟩, 0x10002000, 100, 4096⟩] ∧ ∀ m ∈ s.live, Translates s.xdev m := by
  have hrun : ∃ xdev s, (plxDeviceCreate fun _ ↦ 0).plxHwInit 0x2954 0 524288 = some xdev ∧
      exec step (start xdev) [.add 0x10001234 8192, .add 0x10002000 100, .del 0 8000] = some s ∧
      s.live = [⟨⟨0, 1, 1⟩, 0x10002000, 100, 4096⟩] ∧ xdev.aLutManager.segmentSize = 2 ^ 12 :=
    ⟨_, _, rfl, rfl, rfl, rfl⟩
  obtain ⟨xdev, s, hinit, hs, hlive, hsize⟩ := hrun
  have hP : Along Uncrowded step (start xdev)
      [.add 0x10001234 8192, .add 0x10002000 100, .del 0 8000] := uncrowded_of_short (by simp [start])
  exact ⟨xdev, s, hinit, hs, hlive,
    (live_mappings_translate hinit (by decide) ⟨12, hsize⟩ hP hs).2.1⟩

end Translation

end Vcass.Plx
