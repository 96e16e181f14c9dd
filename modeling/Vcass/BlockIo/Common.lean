import Mathlib.Data.Nat.Bitwise
import Vcass.Lib.RingCounter

/-!
# Block I/O: shared definitions

What the card side (the *frontend*, `vcablk`) and the host side (the *backend*, `vcablk_bcknd`) of
the block device agree on: the sector and page sizes, the entries of the request and completion
rings, and the ring macros of `vcablk.h`.

## Counters

The macros work on 16-bit counters kept modulo twice the ring size, masked with `&`; every ring size
of the driver is a power of two. For those sizes they are the residues of `RingCounter`, which is
what the three bridge lemmas at the end say. All ring proofs go through them.

## Error codes

Functions of the driver return `0` or a negated `errno`. The completion ring keeps one byte of that
code, signed for the backend and unsigned for the frontend.
-/

namespace Vcass.BlockIo

/-! ## Sizes -/

def sectorShift : ℕ := 9

def pageSize : ℕ := 4096

/-- Data entries a request part may have (`VCABLK_BIO_SPLIT_SIZE`). -/
def vcablkBioSplitSize : ℕ := 32

/-- Bio contexts, hence unanswered request parts, of one disk (`VCABLK_BIO_CTX_POOL_SIZE`). -/
def vcablkBioCtxPoolSize : ℕ := 32

/-- Entries of the request ring (`VCABLK_QUEUE_REQUESTS_NUMS`). -/
def vcablkQueueRequestsNums : ℕ := 1024

/-- Entries the backend accepts in one request (`VCABLK_MAX_PARTS_PER_REQUEST`). -/
def vcablkMaxPartsPerRequest : ℕ := 256 + 2

/-- Entries of the transfer ring and elements of the transfer buffer pool. -/
def vcablkTransferRingSize : ℕ := 16

/-- Entries of the frontend's software ring of block-layer requests (`REQ_RING_SIZE`). -/
def reqRingSize : ℕ := 2048

/-! ## Error codes -/

def eio : ℤ := 5

def enomem : ℤ := 12

def ebusy : ℤ := 16

def einval : ℤ := 22

/-- The values a kernel function with an error result returns: `0` or a negated code. The codes go up
to `MAX_ERRNO`, so their low byte may be zero, as that of `ERESTARTSYS` (512) is. -/
def isErrno (r : ℤ) : Bool := -4095 ≤ r && r ≤ 0

/-- Conversion to `__s8`, the type of `vcablk_completion.ret`. -/
def s8 (r : ℤ) : ℤ := r.bmod 256

/-- Conversion to `__u8`, the type the completion handler reads `ret` into. -/
def u8 (r : ℤ) : ℕ := (r % 256).toNat

/-! ## Ring entries -/

/-- The values of `vcablk_request.request_type`. -/
inductive RequestType
  | read
  | write
  | sync
  | other (code : ℕ)
  deriving DecidableEq, Repr

/-- One entry of the request ring. -/
structure VcablkRequest where
  physBuff : ℕ
  sector : ℕ
  sectorsNum : ℕ
  cookie : ℕ
  requestType : RequestType
  deriving DecidableEq, Repr

/-- A ring shared by a producer, which owns `lastAdd`, and a consumer, which owns `lastUsed`. -/
structure VcablkRing (α : Type) where
  numElems : ℕ
  lastAdd : ℕ
  lastUsed : ℕ
  elems : ℕ → α

/-! ## Ring macros -/

def vcaRbCounterAdd (cnt val size : ℕ) : ℕ := (cnt + val) &&& ((size <<< 1) - 1)

def vcaRbCounterToIdx (cnt size : ℕ) : ℕ := cnt &&& (size - 1)

def vcaRbBuffEmpty (headCnt tailCnt : ℕ) : Bool := headCnt == tailCnt

def vcaRbBuffFull (headCnt tailCnt size : ℕ) : Bool :=
  !vcaRbBuffEmpty headCnt tailCnt &&
    vcaRbCounterToIdx headCnt size == vcaRbCounterToIdx tailCnt size

section Counters

open RingCounter

variable {k a b : ℕ}

theorem vcaRbCounterAdd_count (k a v : ℕ) :
    vcaRbCounterAdd (count (2 ^ k) a) v (2 ^ k) = count (2 ^ k) (a + v) := by
  have hmask : (2 ^ k) <<< 1 - 1 = 2 ^ (k + 1) - 1 := by
    rw [Nat.shiftLeft_eq, pow_one, pow_succ]
  rw [vcaRbCounterAdd, hmask, Nat.and_two_pow_sub_one_eq_mod, pow_succ, Nat.mul_comm, count_add]

theorem vcaRbCounterToIdx_count (k a : ℕ) :
    vcaRbCounterToIdx (count (2 ^ k) a) (2 ^ k) = slot (2 ^ k) a := by
  rw [vcaRbCounterToIdx, Nat.and_two_pow_sub_one_eq_mod, ← slot_count, slot]

/-- The emptiness test compares positions, provided they are at most the ring size apart. -/
theorem vcaRbBuffEmpty_count (hab : a ≤ b) (hle : b ≤ a + 2 ^ k) :
    vcaRbBuffEmpty (count (2 ^ k) b) (count (2 ^ k) a) = true ↔ b = a := by
  rw [vcaRbBuffEmpty, beq_iff_eq, eq_comm, count_eq_count (Nat.two_pow_pos k) hab hle, eq_comm]

theorem vcaRbBuffFull_count (hab : a ≤ b) (hle : b ≤ a + 2 ^ k) :
    vcaRbBuffFull (count (2 ^ k) b) (count (2 ^ k) a) (2 ^ k) = true ↔ b = a + 2 ^ k := by
  rw [← full_iff (Nat.two_pow_pos k) hab hle, vcaRbBuffFull, Bool.and_eq_true, beq_iff_eq,
    vcaRbCounterToIdx_count, vcaRbCounterToIdx_count, slot_count, slot_count, vcaRbBuffEmpty]
  simp

end Counters

end Vcass.BlockIo
