import Vcass.Lib.Bits
import Vcass.PlxDma.Invariant

/-!
# PLX DMA: what the descriptors say

A descriptor is four 32-bit words. The size of a transfer stands in the low bits of the first one, beside the flags;
the two 48-bit addresses have their low words for themselves and share the second word for what is above.
`plx_dma_prog_memcpy_desc` cuts a copy into transfers of at most `max_xfer_size` bytes.

## Reading back

The code writes the words with shifts and masks. The lemmas on a single descriptor turn these into quotients and
remainders, so that the loop is about numbers only.

## The ring

What the loop writes is a list of descriptors, which the ring has from `head` on. The engine starts with a descriptor
as soon as it is valid; it does not come past the last one before the submission.
-/

namespace Vcass.PlxDma

open Bits RingCounter
open Function (update)

/-! ## Words -/

/-- `struct plx_dma_desc`. -/
structure Words where
  dw0 : UInt32
  dw1 : UInt32
  dw2 : UInt32
  dw3 : UInt32
  deriving DecidableEq, Repr

def plxDescValid : UInt32 := 0x80000000

def plxDescIntrEnable : UInt32 := 0x40000000

def plxDescSizeMask : UInt32 := 0x07FFFFFF

/-- An `int`, which is extended with its sign. -/
def plxDescHalfHighMask : UInt64 := 0xFFFFFFFFFFFF0000

def plxDescDwordMask : UInt64 := 0xFFFFFFFF

namespace Words

/-- What the hardware reads. -/
def size (d : Words) : ℕ := (d.dw0 &&& plxDescSizeMask).toNat

def dst (d : Words) : ℕ := (d.dw2.toUInt64 ||| (d.dw1 &&& 0xFFFF).toUInt64 <<< 32).toNat

def src (d : Words) : ℕ := (d.dw3.toUInt64 ||| (d.dw1 >>> 16).toUInt64 <<< 32).toNat

def valid (d : Words) : Bool := d.dw0 &&& plxDescValid ≠ 0

def intr (d : Words) : Bool := d.dw0 &&& plxDescIntrEnable ≠ 0

end Words

def plxDmaMemcpyDesc (srcPhys dstPhys size : UInt64) (flags : UInt32) (descValid : Bool) : Words where
  dw0 := (size &&& plxDescSizeMask.toUInt64).toUInt32 ||| (if descValid then plxDescValid else 0) |||
    (if flags ≠ 0 then plxDescIntrEnable else 0)
  dw1 := (((srcPhys >>> 16) &&& plxDescHalfHighMask) ||| (dstPhys >>> 32)).toUInt32
  dw2 := (dstPhys &&& plxDescDwordMask).toUInt32
  dw3 := (srcPhys &&& plxDescDwordMask).toUInt32

def plxDmaValidDesc (d : Words) : Words := { d with dw0 := d.dw0 ||| plxDescValid }

/-! ## The channel -/

/-- The ring, with the descriptors that were not cleaned up between `lastTail` and `head`. -/
structure Chan where
  head : ℕ
  lastTail : ℕ
  descRing : ℕ → Words
  head_lt : head < ringSize
  lastTail_lt : lastTail < ringSize

namespace Chan

def setDesc (ch : Chan) (d : Words) : Chan := { ch with descRing := update ch.descRing ch.head d }

def incHead (ch : Chan) : Chan :=
  { ch with
    head := ringInc ch.head
    head_lt := Nat.mod_lt _ (by decide) }

/-- `plx_dma_cleanup` leaves `last_tail` where it has come to. -/
def cleanup (ch : Chan) (lastTail : Fin ringSize) : Chan :=
  { ch with
    lastTail := lastTail
    lastTail_lt := lastTail.isLt }

def ringCount (ch : Chan) : ℕ := plxDmaRingCount ch.head ch.lastTail

end Chan

def enomem : ℤ := 12

def plxDmaAvailDescRingSpace (ch : Chan) (lastTail : Fin ringSize) (required : BitVec 32) : ℤ × Chan :=
  if (ch.ringCount : ℤ) < required.toInt then
    if ((ch.cleanup lastTail).ringCount : ℤ) < required.toInt then (-enomem, ch.cleanup lastTail)
    else ((ch.cleanup lastTail).ringCount, ch.cleanup lastTail)
  else (ch.ringCount, ch)

/-- The loop of `plx_dma_prog_memcpy_desc`. -/
def progLoop (flags : UInt32) : (numDesc : ℕ) → (src dst len : UInt64) → Chan → Chan
  | 0, _, _, _, ch => ch
  | numDesc + 1, src, dst, len, ch =>
    let sendLen := min len maxXferSize
    -- the last descriptor is made valid at the submission if there are flags
    let validDescr := numDesc ≠ 0 ∨ flags = 0
    let ch := ch.setDesc
      (plxDmaMemcpyDesc src dst sendLen (if numDesc ≠ 0 then 0 else flags) (decide validDescr))
    progLoop flags numDesc (src + sendLen) (dst + sendLen) (len - sendLen) (if validDescr then ch.incHead else ch)

def plxDmaProgMemcpyDesc (ch : Chan) (lastTail : Fin ringSize) (src dst len : UInt64) (flags : UInt32) : ℤ × Chan :=
  let space := plxDmaAvailDescRingSpace ch lastTail (numDesc len)
  if space.1 ≤ 0 then space else (0, progLoop flags (numDesc len).toNat src dst len space.2)

/-- `plx_dma_tx_submit_unlock`: what it does to the ring. -/
def plxDmaTxSubmitUnlock (ch : Chan) (flags : UInt32) : Chan :=
  if flags ≠ 0 then (ch.setDesc (plxDmaValidDesc (ch.descRing ch.head))).incHead else ch

/-! ## What is written -/

/-- The descriptors of a copy. -/
def memcpyDescs (flags : UInt32) : (numDesc : ℕ) → (src dst len : UInt64) → List Words
  | 0, _, _, _ => []
  | numDesc + 1, src, dst, len =>
    let sendLen := min len maxXferSize
    plxDmaMemcpyDesc src dst sendLen (if numDesc ≠ 0 then 0 else flags) (decide (numDesc ≠ 0 ∨ flags = 0)) ::
      memcpyDescs flags numDesc (src + sendLen) (dst + sendLen) (len - sendLen)

/-- The transfers copy a range in order, without gap or overlap. -/
def Tiles : (ds : List Words) → (src dst len : ℕ) → Prop
  | [], _, _, len => len = 0
  | d :: ds, src, dst, len =>
    d.src = src ∧ d.dst = dst ∧ d.size ≤ len ∧ d.size ≤ maxXferSize.toNat ∧
      Tiles ds (src + d.size) (dst + d.size) (len - d.size)

/-- Descriptors stand in the ring from where `head` was on, and the others are as they were. -/
structure Written (ch ch' : Chan) (ds : List Words) : Prop where
  descRing : ∀ (i : ℕ) (hi : i < ds.length), ch'.descRing (slot ringSize (ch.head + i)) = ds[i]
  others : ∀ j, (∀ i < ds.length, j ≠ slot ringSize (ch.head + i)) → ch'.descRing j = ch.descRing j

/-- The last descriptor of a copy with flags. -/
def IsLast (ds : List Words) (flags : UInt32) (i : ℕ) : Prop := i + 1 = ds.length ∧ flags ≠ 0

/-- The number of descriptors that a length needs. -/
def divRoundUp (len : ℕ) : ℕ := (len + maxXferSize.toNat - 1) / maxXferSize.toNat

/-- The descriptors of a copy, before and after it is submitted. -/
structure Copy (src dst len : ℕ) (flags : UInt32) (ds : List Words) : Prop where
  tiles : Tiles ds src dst len
  intr : ∀ (i : ℕ) (hi : i < ds.length), ds[i].intr ↔ IsLast ds flags i
  valid : ∀ (i : ℕ) (hi : i < ds.length), ds[i].valid ↔ ¬IsLast ds flags i
  tiles_submitted : Tiles (ds.map plxDmaValidDesc) src dst len
  valid_submitted : ∀ d ∈ ds.map plxDmaValidDesc, d.valid

/-! ## Reading back -/

section Words

variable {srcPhys dstPhys size : UInt64} {flags : UInt32} {descValid : Bool}

/-- The upper parts of both addresses share a word. -/
theorem dw1_toNat (size : UInt64) (flags : UInt32) (descValid : Bool) (hsrc : srcPhys.toNat < 2 ^ 48)
    (hdst : dstPhys.toNat < 2 ^ 48) :
    (plxDmaMemcpyDesc srcPhys dstPhys size flags descValid).dw1.toNat =
      2 ^ 16 * (srcPhys.toNat / 2 ^ 32) + dstPhys.toNat / 2 ^ 32 := by
  have hhigh : dstPhys.toNat / 2 ^ 32 < 2 ^ 16 := by omega
  have hmask : 4294901760 = 2 ^ 16 * (2 ^ 16 - 1) := by decide
  have hdiv : srcPhys.toNat / 2 ^ 16 % 4294967296 / 2 ^ 16 % 2 ^ 16 = srcPhys.toNat / 2 ^ 32 := by omega
  have hmod : dstPhys.toNat / 2 ^ 32 % 4294967296 = dstPhys.toNat / 2 ^ 32 := by omega
  rw [Nat.two_pow_add_eq_or_of_lt hhigh]
  simp only [plxDmaMemcpyDesc, plxDescHalfHighMask, UInt64.toUInt32_or, UInt64.toUInt32_and, UInt32.toNat_or,
    UInt32.toNat_and, UInt64.toNat_toUInt32, UInt64.toNat_shiftRight]
  change (srcPhys.toNat >>> 16 % 4294967296 &&& 4294901760) ||| dstPhys.toNat >>> 32 % 4294967296 = _
  rw [hmask, and_two_pow_mul, Nat.shiftRight_eq_div_pow, Nat.shiftRight_eq_div_pow, hdiv, hmod]

theorem low_toNat (a : UInt64) : (a &&& plxDescDwordMask).toUInt32.toNat = a.toNat % 2 ^ 32 := by
  have hmask : plxDescDwordMask.toNat = 2 ^ 32 - 1 := by decide
  rw [UInt64.toNat_toUInt32, UInt64.toNat_and, hmask, Nat.and_two_pow_sub_one_eq_mod, Nat.mod_mod]

/-- A word with sixteen bits above it. -/
theorem toNat_or_shiftLeft (low high : UInt32) (h : high.toNat < 2 ^ 16) :
    (low.toUInt64 ||| high.toUInt64 <<< 32).toNat = 2 ^ 32 * high.toNat + low.toNat := by
  have hlow := low.toNat_lt
  rw [Nat.two_pow_add_eq_or_of_lt hlow, Nat.or_comm]
  simp only [UInt64.toNat_or, UInt64.toNat_shiftLeft, UInt32.toNat_toUInt64]
  change low.toNat ||| high.toNat <<< 32 % 2 ^ 64 = _
  rw [Nat.shiftLeft_eq, Nat.mod_eq_of_lt (by omega), Nat.mul_comm]

@[simp] theorem dst_plxDmaMemcpyDesc (hsrc : srcPhys.toNat < 2 ^ 48) (hdst : dstPhys.toNat < 2 ^ 48) :
    (plxDmaMemcpyDesc srcPhys dstPhys size flags descValid).dst = dstPhys.toNat := by
  have hdw1 := dw1_toNat size flags descValid hsrc hdst
  have hhalf : ((plxDmaMemcpyDesc srcPhys dstPhys size flags descValid).dw1 &&& 0xFFFF).toNat =
      dstPhys.toNat / 2 ^ 32 := by
    rw [UInt32.toNat_and, hdw1]
    change _ &&& (2 ^ 16 - 1) = _
    rw [Nat.and_two_pow_sub_one_eq_mod]
    omega
  rw [Words.dst, toNat_or_shiftLeft _ _ (by omega), hhalf]
  change _ + (dstPhys &&& plxDescDwordMask).toUInt32.toNat = _
  rw [low_toNat]
  omega

@[simp] theorem src_plxDmaMemcpyDesc (hsrc : srcPhys.toNat < 2 ^ 48) (hdst : dstPhys.toNat < 2 ^ 48) :
    (plxDmaMemcpyDesc srcPhys dstPhys size flags descValid).src = srcPhys.toNat := by
  have hdw1 := dw1_toNat size flags descValid hsrc hdst
  have hhalf : ((plxDmaMemcpyDesc srcPhys dstPhys size flags descValid).dw1 >>> 16).toNat =
      srcPhys.toNat / 2 ^ 32 := by
    rw [UInt32.toNat_shiftRight, hdw1]
    change _ >>> 16 = _
    rw [Nat.shiftRight_eq_div_pow]
    omega
  rw [Words.src, toNat_or_shiftLeft _ _ (by omega), hhalf]
  change _ + (srcPhys &&& plxDescDwordMask).toUInt32.toNat = _
  rw [low_toNat]
  omega

/-- The size, with the flags beside it. -/
theorem dw0_toNat (srcPhys dstPhys size : UInt64) (flags : UInt32) (descValid : Bool) :
    (plxDmaMemcpyDesc srcPhys dstPhys size flags descValid).dw0.toNat =
      size.toNat % 2 ^ 27 ||| (if descValid then 2 ^ 31 else 0) ||| (if flags ≠ 0 then 2 ^ 30 else 0) := by
  have hmask : plxDescSizeMask.toUInt64.toNat = 2 ^ 27 - 1 := by decide
  have hmod : size.toNat % 2 ^ 27 % 2 ^ 32 = size.toNat % 2 ^ 27 := by omega
  simp only [plxDmaMemcpyDesc, UInt32.toNat_or, UInt64.toNat_toUInt32, UInt64.toNat_and, hmask,
    Nat.and_two_pow_sub_one_eq_mod, hmod]
  split_ifs <;> rfl

@[simp] theorem size_plxDmaMemcpyDesc (hsize : size ≤ maxXferSize) :
    (plxDmaMemcpyDesc srcPhys dstPhys size flags descValid).size = size.toNat := by
  have hlt : size.toNat ≤ 2 ^ 27 - 1 := UInt64.le_iff_toNat_le.mp hsize
  rw [Words.size, UInt32.toNat_and, dw0_toNat]
  change _ &&& (2 ^ 27 - 1) = _
  rw [Nat.and_two_pow_sub_one_eq_mod, Nat.or_mod_two_pow, Nat.or_mod_two_pow]
  split_ifs <;> simp <;> omega

/-- A flag is a bit of the first word. -/
theorem and_ne_zero_iff (dw0 : UInt32) {flag : UInt32} {i : ℕ} (hflag : flag.toNat = 2 ^ i) :
    dw0 &&& flag ≠ 0 ↔ dw0.toNat.testBit i := by
  rw [ne_eq, ← UInt32.toNat_inj, UInt32.toNat_and, hflag]
  exact and_two_pow_ne_zero_iff dw0.toNat i

theorem valid_eq_testBit (d : Words) : d.valid = d.dw0.toNat.testBit 31 := by
  rw [Bool.eq_iff_iff, Words.valid, decide_eq_true_eq, and_ne_zero_iff _ (i := 31) (by decide)]

theorem intr_eq_testBit (d : Words) : d.intr = d.dw0.toNat.testBit 30 := by
  rw [Bool.eq_iff_iff, Words.intr, decide_eq_true_eq, and_ne_zero_iff _ (i := 30) (by decide)]

@[simp] theorem valid_plxDmaMemcpyDesc : (plxDmaMemcpyDesc srcPhys dstPhys size flags descValid).valid = descValid := by
  rw [valid_eq_testBit, dw0_toNat, Nat.testBit_or, Nat.testBit_or, Nat.testBit_mod_two_pow, testBit_ite, testBit_ite]
  simp

@[simp] theorem intr_plxDmaMemcpyDesc :
    (plxDmaMemcpyDesc srcPhys dstPhys size flags descValid).intr = decide (flags ≠ 0) := by
  rw [intr_eq_testBit, dw0_toNat, Nat.testBit_or, Nat.testBit_or, Nat.testBit_mod_two_pow, testBit_ite, testBit_ite]
  simp

end Words

section ValidDesc

variable (d : Words)

theorem dw0_plxDmaValidDesc : (plxDmaValidDesc d).dw0.toNat = d.dw0.toNat ||| 2 ^ 31 := UInt32.toNat_or ..

@[simp] theorem src_plxDmaValidDesc : (plxDmaValidDesc d).src = d.src := rfl

@[simp] theorem dst_plxDmaValidDesc : (plxDmaValidDesc d).dst = d.dst := rfl

@[simp] theorem size_plxDmaValidDesc : (plxDmaValidDesc d).size = d.size := by
  rw [Words.size, Words.size, UInt32.toNat_and, UInt32.toNat_and, dw0_plxDmaValidDesc]
  change _ &&& (2 ^ 27 - 1) = _ &&& (2 ^ 27 - 1)
  rw [Nat.and_two_pow_sub_one_eq_mod, Nat.and_two_pow_sub_one_eq_mod, Nat.or_mod_two_pow]
  simp

@[simp] theorem valid_plxDmaValidDesc : (plxDmaValidDesc d).valid = true := by
  rw [valid_eq_testBit, dw0_plxDmaValidDesc, Nat.testBit_or, Nat.testBit_two_pow_self, Bool.or_true]

@[simp] theorem intr_plxDmaValidDesc : (plxDmaValidDesc d).intr = d.intr := by
  rw [intr_eq_testBit, intr_eq_testBit, dw0_plxDmaValidDesc, Nat.testBit_or, Nat.testBit_two_pow_of_ne (by decide),
    Bool.or_false]

/-- A descriptor that is valid is not changed. -/
theorem plxDmaValidDesc_of_valid (h : d.valid = true) : plxDmaValidDesc d = d := by
  have hdw0 : d.dw0.toNat ||| 2 ^ 31 = d.dw0.toNat := by
    apply Nat.eq_of_testBit_eq
    intro i
    rw [Nat.testBit_or, Nat.testBit_two_pow]
    by_cases hi : 31 = i
    · rw [← hi, ← valid_eq_testBit, h, Bool.true_or]
    · rw [decide_eq_false hi, Bool.or_false]
  have hword : d.dw0 ||| plxDescValid = d.dw0 := UInt32.toNat_inj.mp ((dw0_plxDmaValidDesc d).trans hdw0)
  rw [plxDmaValidDesc, hword]

end ValidDesc

/-! ## The loop -/

variable {ch ch' : Chan} {d : Words} {ds : List Words} {flags : UInt32} {src dst len : UInt64}

theorem Chan.slot_head (ch : Chan) : slot ringSize ch.head = ch.head := Nat.mod_eq_of_lt ch.head_lt

theorem Chan.incHead_head (ch : Chan) : ch.incHead.head = slot ringSize (ch.head + 1) := rfl

theorem slot_slot_add (a b : ℕ) : slot ringSize (slot ringSize a + b) = slot ringSize (a + b) := Nat.mod_add_mod ..

theorem Written.nil (ch : Chan) : Written ch ch [] := ⟨nofun, fun _ _ ↦ rfl⟩

theorem Written.cons (h : Written (ch.setDesc d).incHead ch' ds) (hlength : ds.length < ringSize) :
    Written ch ch' (d :: ds) := by
  have hslot : ∀ i, slot ringSize (((ch.setDesc d).incHead).head + i) = slot ringSize (ch.head + (i + 1)) := by
    intro i
    rw [Chan.incHead_head, slot_slot_add]
    exact congrArg _ (by simp only [Chan.setDesc]; omega)
  have hne : ∀ i < ds.length, ch.head ≠ slot ringSize (((ch.setDesc d).incHead).head + i) := by
    intro i hi
    rw [hslot]
    nth_rewrite 1 [← ch.slot_head]
    exact slot_ne (by omega) (by omega)
  constructor
  · intro i hi
    cases i with
    | zero =>
      rw [Nat.add_zero, ch.slot_head, h.others _ hne]
      exact Function.update_self ..
    | succ i =>
      rw [← hslot]
      exact h.descRing i (Nat.lt_of_succ_lt_succ hi)
  · intro j hj
    rw [h.others j fun i hi ↦ hslot i ▸ hj (i + 1) (Nat.succ_lt_succ hi)]
    refine Function.update_of_ne ?_ ..
    have hzero := hj 0 (Nat.zero_lt_succ _)
    rwa [Nat.add_zero, ch.slot_head] at hzero

theorem Written.last (ch : Chan) (d : Words) : Written ch (ch.setDesc d) [d] := by
  constructor
  · intro i hi
    obtain rfl : i = 0 := Nat.lt_one_iff.mp hi
    rw [Nat.add_zero, ch.slot_head]
    exact Function.update_self ..
  · intro j hj
    have hzero := hj 0 Nat.one_pos
    rw [Nat.add_zero, ch.slot_head] at hzero
    exact Function.update_of_ne hzero ..

@[simp] theorem length_memcpyDescs (flags : UInt32) (n : ℕ) (src dst len : UInt64) :
    (memcpyDescs flags n src dst len).length = n := by
  induction n generalizing src dst len with
  | zero => rfl
  | succ n ih => rw [memcpyDescs, List.length_cons, ih]

/-- How far `head` is moved by the loop. -/
def valids (flags : UInt32) (n : ℕ) : ℕ := if flags = 0 then n else n - 1

theorem progLoop_spec (flags : UInt32) {n : ℕ} (hn : n ≤ ringSize) (src dst len : UInt64) (ch : Chan) :
    Written ch (progLoop flags n src dst len ch) (memcpyDescs flags n src dst len) ∧
      (progLoop flags n src dst len ch).head = slot ringSize (ch.head + valids flags n) := by
  induction n generalizing src dst len ch with
  | zero =>
    refine ⟨Written.nil ch, ?_⟩
    unfold valids
    split_ifs <;> exact ch.slot_head.symm
  | succ n ih =>
    rw [progLoop, memcpyDescs]
    by_cases hvalid : n ≠ 0 ∨ flags = 0
    · simp only [hvalid, if_true, decide_true]
      obtain ⟨hwritten, hhead⟩ := ih (by omega) (src + min len maxXferSize) (dst + min len maxXferSize)
        (len - min len maxXferSize) (ch.setDesc (plxDmaMemcpyDesc src dst (min len maxXferSize)
          (if n ≠ 0 then 0 else flags) true)).incHead
      refine ⟨hwritten.cons (by rw [length_memcpyDescs]; omega), ?_⟩
      rw [hhead, Chan.incHead_head, slot_slot_add]
      refine congrArg _ ?_
      simp only [Chan.setDesc, valids]
      split_ifs with hflags
      · omega
      · have hne := hvalid.resolve_right hflags
        omega
    · -- the last one, with flags
      obtain ⟨hzero, hflags⟩ := not_or.mp hvalid
      obtain rfl : n = 0 := Decidable.not_not.mp hzero
      simp only [hvalid, if_false, decide_false]
      refine ⟨Written.last ch _, ?_⟩
      rw [valids, if_neg hflags]
      exact ch.slot_head.symm

/-! ## The copy -/

theorem toNat_min (len : UInt64) : (min len maxXferSize).toNat = min len.toNat maxXferSize.toNat := by
  change (if len ≤ maxXferSize then len else maxXferSize).toNat = _
  rw [min_def]
  simp only [UInt64.le_iff_toNat_le]
  split_ifs <;> rfl

theorem tiles_memcpyDescs (flags : UInt32) {n : ℕ} (hle : len.toNat ≤ n * maxXferSize.toNat)
    (hlt : 1 < n → (n - 1) * maxXferSize.toNat < len.toNat) (hbase : n ≠ 0 → src.toNat < 2 ^ 48 ∧ dst.toNat < 2 ^ 48)
    (hsrc : src.toNat + len.toNat ≤ 2 ^ 48) (hdst : dst.toNat + len.toNat ≤ 2 ^ 48) :
    Tiles (memcpyDescs flags n src dst len) src.toNat dst.toNat len.toNat := by
  induction n generalizing src dst len with
  | zero => exact Nat.eq_zero_of_le_zero (Nat.zero_mul _ ▸ hle)
  | succ n ih =>
    obtain ⟨hsrcLt, hdstLt⟩ := hbase n.succ_ne_zero
    have hmin := toNat_min len
    have hmax : min len maxXferSize ≤ maxXferSize := UInt64.le_iff_toNat_le.mpr (hmin ▸ min_le_right _ _)
    have hlen : min len maxXferSize ≤ len := UInt64.le_iff_toNat_le.mpr (hmin ▸ min_le_left _ _)
    have hsub := UInt64.toNat_sub_of_le _ _ hlen
    have hsrcAdd : (src + min len maxXferSize).toNat = src.toNat + (min len maxXferSize).toNat := by
      rw [UInt64.toNat_add]
      omega
    have hdstAdd : (dst + min len maxXferSize).toNat = dst.toNat + (min len maxXferSize).toNat := by
      rw [UInt64.toNat_add]
      omega
    rw [memcpyDescs, Tiles, src_plxDmaMemcpyDesc hsrcLt hdstLt, dst_plxDmaMemcpyDesc hsrcLt hdstLt,
      size_plxDmaMemcpyDesc hmax, ← hsrcAdd, ← hdstAdd, ← hsub]
    refine ⟨rfl, rfl, UInt64.le_iff_toNat_le.mp hlen, UInt64.le_iff_toNat_le.mp hmax, ?_⟩
    rw [Nat.add_mul, Nat.one_mul] at hle
    rw [Nat.add_sub_cancel] at hlt
    -- all transfers but the last one have the full size
    apply ih
    · omega
    · intro hn
      have hfull := hlt (by omega)
      have hmul : maxXferSize.toNat ≤ n * maxXferSize.toNat := Nat.le_mul_of_pos_left _ (by omega)
      rw [Nat.sub_mul, Nat.one_mul]
      omega
    · intro hn
      have hfull := hlt (by omega)
      have hmul : maxXferSize.toNat ≤ n * maxXferSize.toNat := Nat.le_mul_of_pos_left _ (by omega)
      omega
    · omega
    · omega

theorem flags_memcpyDescs (flags : UInt32) {n : ℕ} (src dst len : UInt64) {i : ℕ} (hi : i < n) :
    ∃ src' dst' len', (memcpyDescs flags n src dst len)[i]? = some (plxDmaMemcpyDesc src' dst' len'
      (if i + 1 ≠ n then 0 else flags) (decide (i + 1 ≠ n ∨ flags = 0))) := by
  induction n generalizing src dst len i with
  | zero => exact absurd hi (Nat.not_lt_zero i)
  | succ n ih =>
    rw [memcpyDescs]
    cases i with
    | zero =>
      have hiff : n ≠ 0 ↔ 0 + 1 ≠ n + 1 := by omega
      simp only [hiff]
      exact ⟨_, _, _, rfl⟩
    | succ i =>
      obtain ⟨src', dst', len', hget⟩ := ih (src + min len maxXferSize) (dst + min len maxXferSize)
        (len - min len maxXferSize) (Nat.lt_of_succ_lt_succ hi)
      have hiff : i + 1 ≠ n ↔ i + 1 + 1 ≠ n + 1 := by omega
      simp only [hiff] at hget
      exact ⟨src', dst', len', hget⟩

theorem valid_memcpyDescs (flags : UInt32) (n : ℕ) (src dst len : UInt64) (i : ℕ)
    (hi : i < (memcpyDescs flags n src dst len).length) :
    (memcpyDescs flags n src dst len)[i].valid ↔ ¬IsLast (memcpyDescs flags n src dst len) flags i := by
  have hlength := length_memcpyDescs flags n src dst len
  obtain ⟨_, _, _, hget⟩ := flags_memcpyDescs flags src dst len (hlength ▸ hi)
  rw [(List.getElem?_eq_some_iff.mp hget).2, valid_plxDmaMemcpyDesc, decide_eq_true_eq, IsLast, hlength]
  tauto

theorem intr_memcpyDescs (flags : UInt32) (n : ℕ) (src dst len : UInt64) (i : ℕ)
    (hi : i < (memcpyDescs flags n src dst len).length) :
    (memcpyDescs flags n src dst len)[i].intr ↔ IsLast (memcpyDescs flags n src dst len) flags i := by
  have hlength := length_memcpyDescs flags n src dst len
  obtain ⟨_, _, _, hget⟩ := flags_memcpyDescs flags src dst len (hlength ▸ hi)
  rw [(List.getElem?_eq_some_iff.mp hget).2, intr_plxDmaMemcpyDesc, decide_eq_true_eq, IsLast, hlength]
  by_cases hlast : i + 1 = n <;> simp [hlast]

theorem Tiles.map_plxDmaValidDesc {ds : List Words} {src dst len : ℕ} (h : Tiles ds src dst len) :
    Tiles (ds.map plxDmaValidDesc) src dst len := by
  induction ds generalizing src dst len with
  | nil => exact h
  | cons d ds ih =>
    obtain ⟨hsrc, hdst, hlen, hmax, hrest⟩ := h
    rw [List.map_cons, Tiles, src_plxDmaValidDesc, dst_plxDmaValidDesc, size_plxDmaValidDesc]
    exact ⟨hsrc, hdst, hlen, hmax, ih hrest⟩

theorem Written.submit (flags : UInt32) (h : Written ch ch' ds)
    (hhead : ch'.head = slot ringSize (ch.head + valids flags ds.length))
    (hvalid : ∀ (i : ℕ) (hi : i < ds.length), ds[i].valid ↔ ¬IsLast ds flags i) (hne : ds ≠ [])
    (hlength : ds.length ≤ ringSize) :
    Written ch (plxDmaTxSubmitUnlock ch' flags) (ds.map plxDmaValidDesc) := by
  have hpos := List.length_pos_iff.mpr hne
  rw [plxDmaTxSubmitUnlock]
  split_ifs with hflags
  · have hlast : valids flags ds.length = ds.length - 1 := if_neg hflags
    rw [hlast] at hhead
    have hsucc : ds.length - 1 + 1 = ds.length := by omega
    constructor
    · intro i hi
      rw [List.length_map] at hi
      rw [List.getElem_map]
      change update ch'.descRing ch'.head (plxDmaValidDesc (ch'.descRing ch'.head)) _ = _
      by_cases hi' : i + 1 = ds.length
      · obtain rfl : i = ds.length - 1 := by omega
        rw [← hhead, Function.update_self, hhead, h.descRing _ hi]
      · have hslot : slot ringSize (ch.head + i) ≠ ch'.head := hhead ▸ slot_ne (by omega) (by omega)
        rw [Function.update_of_ne hslot, h.descRing i hi,
          plxDmaValidDesc_of_valid _ ((hvalid i hi).mpr fun hlast ↦ hi' hlast.1)]
    · intro j hj
      rw [List.length_map] at hj
      rw [← h.others j hj]
      exact Function.update_of_ne (hhead ▸ hj (ds.length - 1) (by omega)) ..
  · constructor
    · intro i hi
      rw [List.length_map] at hi
      rw [List.getElem_map, h.descRing i hi,
        plxDmaValidDesc_of_valid _ ((hvalid i hi).mpr fun hlast ↦ hflags hlast.2)]
    · intro j hj
      rw [List.length_map] at hj
      exact h.others j hj

/-! ## Space in the ring -/

theorem numDesc_toNat (hlen : len.toNat ≤ 2 ^ 48) :
    (numDesc len).toNat = if len = 0 then 1 else divRoundUp len.toNat := by
  have hmax : maxXferSize.toNat = 2 ^ 27 - 1 := by decide
  unfold numDesc divRoundUp
  split_ifs with hzero
  · rfl
  · have hpos : len.toNat ≠ 0 := fun h ↦ hzero (UInt64.toNat_inj.mp h)
    have hadd : (len + maxXferSize).toNat = len.toNat + maxXferSize.toNat := by
      rw [UInt64.toNat_add]
      omega
    have hsub : (len + maxXferSize - 1).toNat = len.toNat + maxXferSize.toNat - 1 := by
      rw [UInt64.toNat_sub_of_le, hadd]
      · rfl
      · rw [UInt64.le_iff_toNat_le, hadd]
        change 1 ≤ _
        omega
    rw [BitVec.toNat_ofNat, UInt64.toNat_div, hsub, hmax]
    omega

theorem numDesc_toInt (hlen : len.toNat ≤ 2 ^ 48) : (numDesc len).toInt = (numDesc len).toNat := by
  have hmax : maxXferSize.toNat = 2 ^ 27 - 1 := by decide
  apply BitVec.toInt_eq_toNat_of_lt
  rw [numDesc_toNat hlen, divRoundUp, hmax]
  split_ifs <;> omega

theorem numDesc_pos (hlen : len.toNat ≤ 2 ^ 48) : 0 < (numDesc len).toNat := by
  have hmax : maxXferSize.toNat = 2 ^ 27 - 1 := by decide
  rw [numDesc_toNat hlen, divRoundUp, hmax]
  split_ifs with hzero
  · decide
  · have hpos : len.toNat ≠ 0 := fun h ↦ hzero (UInt64.toNat_inj.mp h)
    omega

/-- The transfers have room for the copy, and none of them is needless. -/
theorem numDesc_mul (len : UInt64) (hlen : len.toNat ≤ 2 ^ 48) :
    len.toNat ≤ (numDesc len).toNat * maxXferSize.toNat ∧
      (1 < (numDesc len).toNat → ((numDesc len).toNat - 1) * maxXferSize.toNat < len.toNat) := by
  have hmax : maxXferSize.toNat = 2 ^ 27 - 1 := by decide
  rw [numDesc_toNat hlen, divRoundUp, hmax]
  split_ifs with hzero
  · rw [hzero]
    exact ⟨by decide, fun h ↦ absurd h (by decide)⟩
  · constructor <;> omega

theorem Chan.ringCount_lt (ch : Chan) : ch.ringCount < ringSize := by
  have hhead := ch.head_lt
  have htail := ch.lastTail_lt
  unfold Chan.ringCount plxDmaRingCount
  split_ifs <;> omega

theorem plxDmaAvailDescRingSpace_cases (ch : Chan) (lastTail : Fin ringSize) {required : BitVec 32}
    (hrequired : required.toInt = required.toNat) :
    (plxDmaAvailDescRingSpace ch lastTail required = (-enomem, ch.cleanup lastTail) ∧
      ch.ringCount < required.toNat ∧ (ch.cleanup lastTail).ringCount < required.toNat) ∨
    ∃ ch₀, (ch₀ = ch ∨ ch₀ = ch.cleanup lastTail) ∧ required.toNat ≤ ch₀.ringCount ∧
      plxDmaAvailDescRingSpace ch lastTail required = (↑ch₀.ringCount, ch₀) := by
  unfold plxDmaAvailDescRingSpace
  rw [hrequired]
  split_ifs with hcount hcleaned
  · exact .inl ⟨rfl, Int.ofNat_lt.mp hcount, Int.ofNat_lt.mp hcleaned⟩
  · exact .inr ⟨_, .inr rfl, Nat.le_of_not_lt fun h ↦ hcleaned (Int.ofNat_lt.mpr h), rfl⟩
  · exact .inr ⟨_, .inl rfl, Nat.le_of_not_lt fun h ↦ hcount (Int.ofNat_lt.mpr h), rfl⟩

/-! ## The copy as a whole -/

theorem copy_nil (src dst : ℕ) (flags : UInt32) : Copy src dst 0 flags [] := ⟨rfl, nofun, nofun, rfl, nofun⟩

theorem copy_memcpyDescs (flags : UInt32) (hsrc : src.toNat < 2 ^ 48) (hdst : dst.toNat < 2 ^ 48)
    (hsrcEnd : src.toNat + len.toNat ≤ 2 ^ 48) (hdstEnd : dst.toNat + len.toNat ≤ 2 ^ 48) :
    Copy src.toNat dst.toNat len.toNat flags (memcpyDescs flags (numDesc len).toNat src dst len) := by
  obtain ⟨hle, hlt⟩ := numDesc_mul len (by omega)
  have htiles := tiles_memcpyDescs flags hle hlt (fun _ ↦ ⟨hsrc, hdst⟩) hsrcEnd hdstEnd
  refine ⟨htiles, intr_memcpyDescs flags _ src dst len, valid_memcpyDescs flags _ src dst len,
    htiles.map_plxDmaValidDesc, ?_⟩
  intro d hd
  obtain ⟨d, -, rfl⟩ := List.mem_map.mp hd
  exact valid_plxDmaValidDesc d

/-- If the descriptors fit, they are in the ring, and the submission makes the last one valid. In a full ring the
empty copy has no descriptor. -/
theorem plxDmaProgMemcpyDesc_copy (ch : Chan) (lastTail : Fin ringSize) (src dst len : UInt64) (flags : UInt32)
    (hsrc : src.toNat < 2 ^ 48) (hdst : dst.toNat < 2 ^ 48) (hsrcEnd : src.toNat + len.toNat ≤ 2 ^ 48)
    (hdstEnd : dst.toNat + len.toNat ≤ 2 ^ 48)
    (hfits : divRoundUp len.toNat ≤ ch.ringCount ∨ divRoundUp len.toNat ≤ (ch.cleanup lastTail).ringCount) :
    ∃ ds, Copy src.toNat dst.toNat len.toNat flags ds ∧
      Written ch (plxDmaProgMemcpyDesc ch lastTail src dst len flags).2 ds ∧
      (len ≠ 0 → (plxDmaProgMemcpyDesc ch lastTail src dst len flags).1 = 0) ∧
      ((plxDmaProgMemcpyDesc ch lastTail src dst len flags).1 = 0 →
        Written ch (plxDmaTxSubmitUnlock (plxDmaProgMemcpyDesc ch lastTail src dst len flags).2 flags)
          (ds.map plxDmaValidDesc)) := by
  have hlen : len.toNat ≤ 2 ^ 48 := by omega
  have hpos := numDesc_pos hlen
  rw [plxDmaProgMemcpyDesc]
  obtain ⟨hspace, hcount, hcleaned⟩ | ⟨ch₀, hch₀, hroom, hspace⟩ :=
    plxDmaAvailDescRingSpace_cases ch lastTail (numDesc_toInt hlen)
  · -- only the empty copy needs a descriptor that is not counted
    have hzero : len = 0 := by
      by_contra hne
      rw [numDesc_toNat hlen, if_neg hne] at hcount hcleaned
      omega
    have hneg : -enomem ≤ 0 := by decide
    simp only [hspace, hneg, if_true]
    refine ⟨[], hzero ▸ copy_nil .., ⟨nofun, fun _ _ ↦ rfl⟩, fun h ↦ absurd hzero h, fun h ↦ ?_⟩
    exact absurd h (by decide)
  · have hlt := ch₀.ringCount_lt
    have hcount : ¬(ch₀.ringCount : ℤ) ≤ 0 := by omega
    simp only [hspace, hcount, if_false]
    obtain ⟨hwritten, hhead⟩ := progLoop_spec flags (n := (numDesc len).toNat) (by omega) src dst len ch₀
    have hcopy := copy_memcpyDescs flags hsrc hdst hsrcEnd hdstEnd
    have hlength := length_memcpyDescs flags (numDesc len).toNat src dst len
    have hne : memcpyDescs flags (numDesc len).toNat src dst len ≠ [] :=
      List.ne_nil_of_length_pos (hlength.symm ▸ hpos)
    have hsubmit := hwritten.submit flags (hlength.symm ▸ hhead) hcopy.valid hne (by omega)
    refine ⟨_, hcopy, ?_, fun _ ↦ trivial, fun _ ↦ ?_⟩
    · rcases hch₀ with rfl | rfl
      · exact hwritten
      · exact ⟨hwritten.descRing, hwritten.others⟩
    · rcases hch₀ with rfl | rfl
      · exact hsubmit
      · exact ⟨hsubmit.descRing, hsubmit.others⟩

/-- An empty ring at its end. -/
def emptyChan : Chan := ⟨2046, 2046, fun _ ↦ ⟨0, 0, 0, 0⟩, by decide, by decide⟩

/-- Four descriptors, two of them at the beginning of the ring. -/
theorem plxDmaProgMemcpyDesc_copy_wrap : ∃ ds, Copy 0x123456780000 0x7FFF0000FFC0 0x18000000 1 ds ∧
    Written emptyChan
      (plxDmaProgMemcpyDesc emptyChan ⟨2046, by decide⟩ 0x123456780000 0x7FFF0000FFC0 0x18000000 1).2 ds := by
  obtain ⟨ds, hcopy, hwritten, -⟩ := plxDmaProgMemcpyDesc_copy emptyChan ⟨2046, by decide⟩ 0x123456780000
    0x7FFF0000FFC0 0x18000000 1 (by decide) (by decide) (by decide) (by decide) (.inl (by decide))
  exact ⟨ds, hcopy, hwritten⟩

end Vcass.PlxDma
