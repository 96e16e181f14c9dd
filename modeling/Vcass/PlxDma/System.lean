import Mathlib.Data.UInt
import Mathlib.Logic.Function.Basic
import Vcass.Lib.RingCounter
import Vcass.Lib.Run

/-!
# PLX DMA: the descriptor ring

A channel of the DMA engine has a ring of 2048 descriptors. A transaction takes as many of them as its
length needs: `plx_dma_prep_memcpy_lock` writes them behind `head` and makes all but the last one valid,
and `plx_dma_tx_submit_unlock` gives the transaction its cookie and makes the last one valid. The hardware
works through the valid descriptors in the order of the ring and clears the bit when one is done.
`plx_dma_cleanup` follows it from `last_tail` on and calls the callbacks, and the descriptors are free when
it stores `last_tail` at its end.

## Agents

The thread that holds `prep_lock` from the preparation to the submission, the hardware, and the thread
that holds `cleanup_lock`. Each access to what the others also use is a step of its own. The entry of
`tx_array` at the descriptor where a cleanup stands is touched by nobody else, so that it is handled in
one step.

## History

Descriptors and transactions are numbered in the order in which they are written and submitted. An entry
of the ring knows the number of the descriptor in it until the cleanup has passed it.
-/

namespace Vcass.PlxDma

open Conc
open Function (update)

/-! ## Lengths -/

/-- `PLX_DMA_DESC_RX_SIZE`. -/
def ringSize : ℕ := 2 * 1024

/-- `PLX_DESC_SIZE_MASK`, which is `max_xfer_size`. -/
def maxXferSize : UInt64 := 2 ^ 27 - 1

/-- `num_desc` for a length: `DIV_ROUND_UP` is done in 64 bits and stored in an `int`. -/
def numDesc (len : UInt64) : BitVec 32 :=
  if len = 0 then 1 else BitVec.ofNat 32 ((len + maxXferSize - 1) / maxXferSize).toNat

def ringInc (i : ℕ) : ℕ := (i + 1) % ringSize

def plxDmaRingCount (head tail : ℕ) : ℕ :=
  (if tail ≤ head then tail + (ringSize - head) else tail - head) - 1

/-! ## The channel -/

/-- A hardware descriptor. `num` is history: the number of the descriptor, until it is cleaned up. -/
structure Desc where
  valid : Bool
  num : Option ℕ
  deriving DecidableEq, Repr

/-- An entry of `tx_array`. The callback is given by the transaction that it is for; the transaction the
entry belongs to is history. -/
structure Tx where
  cookie : ℕ
  callback : Option ℕ
  trans : Option ℕ
  deriving DecidableEq, Repr

def Tx.free : Tx := ⟨0, none, none⟩

/-- The thread that prepares and submits. -/
inductive Prep
  | idle
  /-- Before the first count of the free descriptors, with `num_desc`. -/
  | space (n : BitVec 32)
  /-- There were too few; `plx_dma_cleanup` is called before the second count. -/
  | full (n : BitVec 32)
  /-- At the loop of `plx_dma_prog_memcpy_desc`. -/
  | program (n : BitVec 32)
  /-- A valid descriptor is written, `head` is not moved. -/
  | advance (n : BitVec 32)
  /-- `plx_dma_prep_memcpy_lock` has returned. -/
  | prepared
  /-- The cookie is stored. -/
  | validate
  /-- The last descriptor is valid. -/
  | incHead
  deriving DecidableEq, Repr

/-- Whether a descriptor is written that `head` has not passed. -/
def Prep.ahead : Prep → ℕ
  | .advance _ | .prepared | .validate | .incHead => 1
  | _ => 0

/-- `plx_dma_cleanup`, with its `last_tail` and `cached_head`. -/
inductive Cleanup
  | idle
  | loop (lastTail cachedHead : ℕ)
  /-- The descriptor was still valid at the first look. -/
  | again (lastTail cachedHead : ℕ)
  /-- It is complete. -/
  | stage (lastTail cachedHead : ℕ)
  /-- Before `ch->last_tail` is stored. -/
  | store (lastTail : ℕ)
  deriving DecidableEq, Repr

/-- A submitted transaction: its last descriptor, its cookie and whether it has a callback. -/
structure Sub where
  last : ℕ
  cookie : ℕ
  callback : Bool
  deriving DecidableEq, Repr

structure Sys where
  head : ℕ
  lastTail : ℕ
  desc : ℕ → Desc
  tx : ℕ → Tx
  /-- `chan->cookie`. -/
  cookie : ℕ
  completedCookie : ℕ
  prep : Prep
  cleanup : Cleanup
  /-- The next descriptor of the hardware. -/
  hw : ℕ
  /-- For each descriptor that was written, the transaction it is part of. -/
  written : List ℕ
  /-- The descriptors that the hardware has done. -/
  completed : List ℕ
  subs : List Sub
  /-- The transactions whose callback stage was passed, and the callbacks that were called. -/
  passed : List ℕ
  called : List ℕ
  /-- How many descriptors the cleanups have passed, and how many of them are free. -/
  passes : ℕ
  freed : ℕ
  /-- How many descriptors were done and submitted when the last cleanup began. -/
  cleanDone : ℕ
  cleanHead : ℕ
  /-- Whether something was written to an entry that was still in use. -/
  clobbered : Bool

inductive Label
  /-- `plx_dma_prep_memcpy_lock` is called, with flags. -/
  | prep (len : UInt64)
  | prepStep
  /-- The caller sets the callback, or leaves it, and submits. -/
  | submit (callback : Bool)
  | submitStep
  /-- The hardware has done a descriptor. -/
  | complete
  | cleanup
  deriving DecidableEq, Repr

/-! ## The code -/

/-- The loop of `plx_dma_prog_memcpy_desc`: all descriptors but the last one are made valid. -/
def program (s : Sys) (n : BitVec 32) : Sys :=
  let last := n - 1 = 0
  { s with
    clobbered := s.clobbered || (s.desc s.head).num.isSome
    desc := update s.desc s.head ⟨!decide last, some s.written.length⟩
    written := s.written ++ [s.subs.length]
    prep := if last then .prepared else .advance (n - 1) }

/-- After `plx_dma_avail_desc_ring_space` has found `count` descriptors, which are enough. A count of 0 is
handed on as the result, which `plx_dma_prep_memcpy_lock` takes for a success. -/
def spaceFound (s : Sys) (n : BitVec 32) (count : ℕ) : Sys :=
  { s with prep := if count = 0 ∨ n = 0 then .prepared else .program n }

def prepStep (s : Sys) : Option Sys :=
  let count := plxDmaRingCount s.head s.lastTail
  match s.prep with
  | .space n =>
    some (if (count : ℤ) < n.toInt then { s with prep := .full n } else spaceFound s n count)
  | .full n =>
    some (if (count : ℤ) < n.toInt then { s with prep := .idle } else spaceFound s n count)
  | .program n => some (program s n)
  | .advance n => some { s with head := ringInc s.head, prep := .program n }
  | _ => none

/-- The next cookie, with the wrap of `dma_cookie_t`. -/
def nextCookie (cookie : ℕ) : ℕ := if cookie + 1 < 2 ^ 31 then cookie + 1 else 1

def submit (s : Sys) (callback : Bool) : Option Sys :=
  match s.prep with
  | .prepared =>
    let cookie := nextCookie s.cookie
    let tx := s.tx s.head
    some { s with
      clobbered := s.clobbered || tx.cookie ≠ 0
      tx := update s.tx s.head
        ⟨cookie, if callback then some s.subs.length else tx.callback, some s.subs.length⟩
      cookie := cookie
      subs := s.subs ++ [⟨s.written.length - 1, cookie, callback⟩]
      prep := .validate }
  | _ => none

def submitStep (s : Sys) : Option Sys :=
  match s.prep with
  | .validate => some { s with
      desc := update s.desc s.head { s.desc s.head with valid := true }
      prep := .incHead }
  | .incHead => some { s with head := ringInc s.head, prep := .idle }
  | _ => none

def complete (s : Sys) : Option Sys :=
  let d := s.desc s.hw
  if d.valid then some { s with
    desc := update s.desc s.hw { d with valid := false }
    hw := ringInc s.hw
    completed := s.completed ++ d.num.toList }
  else none

/-- The callback stage of the descriptor at `i`. Only the last one of a transaction has a cookie. -/
def stage (s : Sys) (i : ℕ) : Sys :=
  let tx := s.tx i
  let found := tx.cookie ≠ 0
  { s with
    completedCookie := if found then tx.cookie else s.completedCookie
    tx := if found then update s.tx i Tx.free else s.tx
    passed := if found then s.passed ++ tx.trans.toList else s.passed
    called := if found then s.called ++ tx.callback.toList else s.called
    desc := update s.desc i { s.desc i with num := none }
    passes := s.passes + 1 }

def cleanup (s : Sys) : Sys :=
  match s.cleanup with
  | .idle => { s with
      cleanup := .loop s.lastTail s.head
      cleanDone := s.completed.length
      cleanHead := s.written.length - s.prep.ahead }
  | .loop i h => { s with
      cleanup := if i = h then .store i else if (s.desc i).valid then .again i h else .stage i h }
  | .again i h => { s with cleanup := if (s.desc i).valid then .store i else .stage i h }
  | .stage i h => { stage s i with cleanup := .loop (ringInc i) h }
  | .store i => { s with lastTail := i, freed := s.passes, cleanup := .idle }

def step (s : Sys) : Label → Option Sys
  | .prep len => if s.prep = .idle then some { s with prep := .space (numDesc len) } else none
  | .prepStep => prepStep s
  | .submit callback => submit s callback
  | .submitStep => submitStep s
  | .complete => complete s
  | .cleanup => some (cleanup s)

/-- `DMA_MIN_COOKIE`. -/
def dmaMinCookie : ℕ := 1

/-- After `plx_dma_alloc_chan_resources`. -/
def init : Sys where
  head := 0
  lastTail := 0
  desc _ := ⟨false, none⟩
  tx _ := Tx.free
  cookie := dmaMinCookie
  completedCookie := dmaMinCookie
  prep := .idle
  cleanup := .idle
  hw := 0
  written := []
  completed := []
  subs := []
  passed := []
  called := []
  passes := 0
  freed := 0
  cleanDone := 0
  cleanHead := 0
  clobbered := false

end Vcass.PlxDma
