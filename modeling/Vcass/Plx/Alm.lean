import Mathlib.Data.Nat.Bitwise
import Mathlib.Logic.Function.Basic

/-!
# The A-LUT manager: the code

The functions of `plx_alm.c`, which keep the software table behind the address lookup table of the
NTB. The table has `segments_num` entries; a mapping occupies a run of them, a *block*, whose first
entry carries the block's address, its length and the number of its users. Unmapping is lazy: a block
nobody uses keeps a counter of 1 and its entries, until room is needed.

The entries are a function of the index, zero outside the table. Their fields and the locals of the
functions are numbers; a store into a 16-bit field and the 32- and 64-bit arithmetic are reduced as
the machine does. The `match` of the source, an index or `-1`, is an `Option`. A result of `none` is a
`BUG_ON`.
-/

namespace Vcass.Plx

open Function (update)

def enomem : ℤ := 12

def eexist : ℤ := 17

/-- `struct plx_alm_arr_entry`. -/
structure PlxAlmArrEntry where
  value : ℕ
  counter : ℕ
  segmentsCount : ℕ
  start : ℕ
  deriving DecidableEq, Repr

/-- A zeroed entry. -/
def zeroEntry : PlxAlmArrEntry := ⟨0, 0, 0, 0⟩

/-- `struct plx_alm`. -/
structure PlxAlm where
  segmentsNum : ℕ
  segmentSize : ℕ
  entries : ℕ → PlxAlmArrEntry

def plxAlmInit (segmentsNum aperLen : ℕ) : PlxAlm :=
  ⟨segmentsNum, aperLen / segmentsNum, fun _ ↦ zeroEntry⟩

def clearEntries (entries : ℕ → PlxAlmArrEntry) (idBegin num : ℕ) : ℕ → PlxAlmArrEntry := fun i ↦
  if idBegin ≤ i ∧ i < idBegin + num then zeroEntry else entries i

namespace PlxAlm

variable (alm : PlxAlm)

def plxAlmReset : PlxAlm := { alm with entries := clearEntries alm.entries 0 alm.segmentsNum }

/-! ## The check -/

/-- The inner loop: all entries of the block at `i` point back to it. -/
def checkBlock (i segments : ℕ) : Bool :=
  (List.range segments).all fun k ↦
    (alm.entries (i + k)).start == i &&
      (k == 0 || (alm.entries (i + k)).counter == 0 && (alm.entries (i + k)).segmentsCount == 0)

/-- The `while` loop of `plx_alm_check`, which tells whether `err` stays 0. Every round advances `i`,
so the size of the table bounds the number of rounds. -/
def plxAlmCheckLoop : (fuel i : ℕ) → Bool
  | 0, _ => true
  | fuel + 1, i =>
    if i < alm.segmentsNum then
      let entry := alm.entries i
      if entry.counter = 0 then
        (entry.segmentsCount == 0 && entry.start == 0 && entry.value == 0) &&
          plxAlmCheckLoop fuel (i + 1)
      else if entry.segmentsCount = 0 then false
      else if alm.segmentsNum < entry.segmentsCount + i then false
      else alm.checkBlock i entry.segmentsCount && plxAlmCheckLoop fuel (i + entry.segmentsCount)
    else true

/-- The predicate that `plx_alm_check` tests. -/
def plxAlmCheck : Bool := alm.plxAlmCheckLoop alm.segmentsNum 0

/-! ## Deletion -/

/-- The manager and, if the block is gone, its first segment and its length. -/
def plxAlmDelEntry (segmentId : ℕ) : Option (PlxAlm × Option (ℕ × ℕ)) :=
  let startId := (alm.entries segmentId).start
  let entry := alm.entries startId
  if entry.counter = 0 then none
  else if entry.counter - 1 = 0 then
    some ({ alm with entries := clearEntries alm.entries startId entry.segmentsCount },
      some (startId, entry.segmentsCount))
  else
    some ({ alm with entries := update alm.entries startId { entry with
      counter := entry.counter - 1 } }, none)

/-- The loop of `plx_alm_cleanup_unused_entry`; the number counts the blocks released. -/
def plxAlmCleanupLoop : (fuel i nums : ℕ) → PlxAlm → Option (PlxAlm × ℕ)
  | 0, _, nums, alm => some (alm, nums)
  | fuel + 1, i, nums, alm =>
    if (alm.entries i).counter = 1 then
      match alm.plxAlmDelEntry i with
      | none => none
      | some (alm, _) => plxAlmCleanupLoop fuel (i + 1) (nums + 1) alm
    else plxAlmCleanupLoop fuel (i + 1) nums alm

def plxAlmCleanupUnusedEntry : Option (PlxAlm × ℕ) := plxAlmCleanupLoop alm.segmentsNum 0 0 alm

/-! ## Addition -/

def translationMask : ℕ := alm.segmentSize - 1

/-- `addr & ~translation_mask`, in 64 bits. -/
def addrMasked (addr : ℕ) : ℕ := addr &&& (2 ^ 64 - 1 - alm.translationMask)

def offsetInSegment (addr : ℕ) : ℕ := addr &&& alm.translationMask

/-- The number of segments a mapping needs; `DIV_ROUND_UP` in 64 bits, then cut to 32. -/
def segmentsOf (addr size : ℕ) : ℕ :=
  (alm.offsetInSegment addr + size + alm.segmentSize - 1) % 2 ^ 64 / alm.segmentSize % 2 ^ 32

/-- The search loop of `plx_alm_add_entry`: `match` and `idx` at its end. The first free run that is
long enough is remembered, and a block that covers the request is taken at once. -/
def plxAlmFind (addrMasked segments : ℕ) :
    (fuel i freeSlots : ℕ) → Option ℕ → Option (ℕ × ℕ)
  | 0, _, _, found => found.map (·, 0)
  | fuel + 1, i, freeSlots, found =>
    if i < alm.segmentsNum then
      let entry := alm.entries i
      if entry.counter = 0 then
        match found with
        | none => plxAlmFind addrMasked segments fuel (i + 1) (freeSlots + 1)
            (if freeSlots + 1 = segments then some (i + 1 - segments) else none)
        | some m => plxAlmFind addrMasked segments fuel (i + 1) freeSlots (some m)
      else
        let idx := (addrMasked - entry.value) / alm.segmentSize
        if entry.value ≤ addrMasked ∧ idx < alm.segmentsNum ∧
            idx + segments ≤ entry.segmentsCount then
          some (i, idx)
        else plxAlmFind addrMasked segments fuel (i + entry.segmentsCount) 0 found
    else found.map (·, 0)

/-- What happens to the entries once `match` is found: a new block, or one more user of a block. -/
def plxAlmPlace (m addrMasked segments : ℕ) : ℤ × PlxAlm :=
  let entry := alm.entries m
  if entry.counter = 0 then
    let entries := update alm.entries m
      { entry with value := addrMasked, segmentsCount := segments % 2 ^ 16, counter := 2 }
    (0, { alm with entries := fun i ↦
      if m ≤ i ∧ i < m + segments then { entries i with start := m % 2 ^ 16 } else entries i })
  else
    (-eexist, { alm with entries := update alm.entries m { entry with
      counter := (entry.counter + 1) % 2 ^ 16 } })

/-- The segments of a mapping: `*out_segment_id` and `*out_segments_num`, and for the history the
`match` of the source, the block they lie in. -/
structure Placed where
  block : ℕ
  segmentId : ℕ
  segmentsNum : ℕ
  deriving DecidableEq, Repr

/-- `plx_alm_add_entry`: the error code, the manager, and the outputs. The recursion follows a cleanup
that released something; after it no block is unused, so it is not repeated, and `fuel` only has to
allow for one repetition. -/
def plxAlmAddEntryRec (addr size : ℕ) :
    (fuel : ℕ) → PlxAlm → Option (ℤ × PlxAlm × Option Placed)
  | 0, _ => none
  | fuel + 1, alm =>
    let segments := alm.segmentsOf addr size
    if size = 0 ∨ alm.segmentSize * alm.segmentsNum % 2 ^ 64 < size then
      some (-enomem, alm, none)
    else
      match alm.plxAlmFind (alm.addrMasked addr) segments alm.segmentsNum 0 0 none with
      | some (m, idx) =>
        let (rc, alm) := alm.plxAlmPlace m (alm.addrMasked addr) segments
        some (rc, alm, some ⟨m, (m + idx) % 2 ^ 32, segments⟩)
      | none =>
        match alm.plxAlmCleanupUnusedEntry with
        | none => none
        | some (alm, nums) =>
          if nums ≠ 0 then plxAlmAddEntryRec addr size fuel alm else some (-enomem, alm, none)

def plxAlmAddEntry (addr size : ℕ) : Option (ℤ × PlxAlm × Option Placed) :=
  plxAlmAddEntryRec addr size 2 alm

end PlxAlm

end Vcass.Plx
