import Mathlib.Logic.Function.Basic
import Vcass.Lib.Run
import Vcass.Vop.Kvec

/-!
# VOP: the transmit pipeline

A packet of the transmit queue goes through the ring of 512 items. The read task takes an item, waits
for a chain of the queue, reads it (`transfer_read`) and gets a buffer of the peer for it
(`transfer_wait`); the write (`transfer_write`) is done by the read task itself or, with
`write_in_thread`, by the DMA task; and when the DMA is over `transfer_done_callback` finishes the item
with `transfer_done`, which also ends the items that failed.

## Agents

The read task, the DMA task, the DMA engine and its callback. `transfer_write` up to the DMA, and
`transfer_done`, only touch an item that nobody else does, and are one step; the marks that the callback
looks at (`jiffies`) are set and read in steps of their own. The DMA engine works in the order of
submission and runs one callback at a time.

## History

Items are used over and over. The *turn* of an item is the number of items taken before it, and the
histories `started`, `completed` and `finished` are lists of turns.
-/

namespace Vcass.Vop.Transfer

open Conc
open Function (update)

/-! ## Constants -/

/-- `VOP_RING_SIZE`. -/
def ringSize : ℕ := 1024 / 2

def plxDmaAlignBytes : ℕ := 64

def dmaMaxOffset : ℕ := 127

/-- How the device transfers, as `common_dev_init_mode` and `buffer_dma_ring_init` set it up. -/
structure Mode where
  /-- Whether there is a DMA channel. -/
  dmaDev : Bool
  featureDescAlignment : Bool
  deriving DecidableEq, Repr

def Mode.writeInThread (m : Mode) : Bool :=
  if m.dmaDev then !m.featureDescAlignment else true

def Mode.sendAlignmentOverhead (m : Mode) : ℕ :=
  if m.dmaDev then dmaMaxOffset + plxDmaAlignBytes else 64

/-- Whether the data goes through the buffer of the item. -/
def Mode.intermediate (m : Mode) : Bool := m.dmaDev && !m.featureDescAlignment

/-! ## Items -/

/-- `struct buffer_dma_item`. A head is `none` for `USHRT_MAX`, and a vector is given by its length. -/
structure Item where
  statusReady : Bool
  dataSize : ℕ
  /-- Whether `remapped` is not `NULL`. -/
  remapped : Bool
  /-- Whether `jiffies` is not 0. -/
  jiffies : Bool
  /-- Whether `vringh_tx` is not `NULL`. -/
  vringhTx : Bool
  kFrom : List ℕ
  headFrom : Option ℕ
  bytesRead : ℕ
  /-- The vectors from `kvec_to` on, `none` for `NULL`. -/
  kvecTo : Option (List ℕ)
  numKvecsTo : ℕ
  headTo : Option ℕ
  bytesWritten : ℕ
  /-- Whether `tx` is not `NULL`. -/
  tx : Bool
  turn : ℕ
  deriving DecidableEq, Repr

/-- An item after `buffer_dma_ring_item_reset`. -/
def Item.reset (item : Item) : Item :=
  { statusReady := true, dataSize := 0, remapped := false, jiffies := false, vringhTx := false, kFrom := [],
    headFrom := none, bytesRead := 0, kvecTo := none, numKvecsTo := 0, headTo := none, bytesWritten := 0,
    tx := false, turn := item.turn }

/-! ## The functions -/

/-- `VOP_INT_DMA_BUF_SIZE`. -/
def intDmaBufSize : ℕ := 64 * 1024

section Functions

variable (m : Mode)

/-- `transfer_read` after its check of the number of descriptors; whether it succeeds. -/
def transferRead (item : Item) : Item × Bool :=
  if item.kFrom.length ≠ 2 then (item, false)
  else
    let srcSize := item.kFrom.getD 1 0
    ({ item with
      dataSize := if m.intermediate && srcSize > intDmaBufSize then intDmaBufSize else srcSize
      bytesRead := item.bytesRead + item.kFrom.sum }, true)

/-- What `transfer_wait` returns: the buffer it got, `-EBUSY`, or another error. -/
inductive Wait
  | ok (head : ℕ) (kvecs : List ℕ) (num : ℕ)
  | busy
  | err
  deriving DecidableEq, Repr

/-- `transfer_write` up to the transfer itself; whether it gets there. `remap` says whether
`transfer_ioremap` succeeds. -/
def transferWrite (item : Item) (remap : Bool) : Item × Bool :=
  if item.numKvecsTo ≠ 2 then (item, false)
  else
    let kvecs := item.kvecTo.getD []
    let written := item.bytesWritten + kvecs.getD 0 0
    if kvecs.getD 1 0 < item.dataSize + m.sendAlignmentOverhead then
      ({ item with bytesWritten := 0 }, false)
    else ({ item with bytesWritten := written + item.dataSize, remapped := remap }, remap)

end Functions

/-! ## The system -/

/-- Where the read task stands, with the index of its item. -/
inductive Reader
  | idle
  /-- The item waits for a chain. -/
  | hold (i : ℕ)
  | read (i : ℕ)
  /-- `transfer_read` has failed. -/
  | failed (i : ℕ)
  | wait (i : ℕ)
  /-- Before the item is handed to the DMA task. -/
  | post (i : ℕ)
  /-- In `transfer_write`. -/
  | write (i : ℕ)
  deriving DecidableEq, Repr

/-- Where `transfer_write` stands, in the task that does the writes. -/
inductive Writer
  | idle
  | write (i : ℕ)
  /-- Before `transfer_dma_send`. -/
  | send (i : ℕ)
  /-- In it, with `jiffies` set. -/
  | submit (i : ℕ)
  | failed (i : ℕ)
  deriving DecidableEq, Repr

/-- A DMA that is submitted. -/
structure Dma where
  item : ℕ
  turn : ℕ
  /-- Whether `tx->callback` is still set. -/
  callback : Bool
  deriving DecidableEq, Repr

/-- `transfer_done_callback`, with its local `ind_dma_next` and `ind_dma_end`. -/
structure Callback where
  item : ℕ
  next : ℕ
  stop : ℕ
  /-- It has seen that item `next` is started. -/
  started : Bool
  turn : ℕ
  deriving DecidableEq, Repr

inductive Fault
  /-- A store through `kvec_to`, which is `NULL`. -/
  | nullKvecTo
  /-- `BUG_ON(item->id != (ring->counter_dma_send & VOP_RING_SIZE_MASK))`. -/
  | bugDmaSend
  /-- `BUG_ON(k_from->i >= k_from->used)`. -/
  | bugKFrom
  /-- `BUG_ON(item->tx != 0)`. -/
  | bugTx
  deriving DecidableEq, Repr

structure Sys where
  items : ℕ → Item
  indicatorRcv : ℕ
  counterDmaSend : ℕ
  counterDoneTransfer : ℕ
  /-- The local counter of the DMA task. -/
  counterDmaLast : ℕ
  ready : Bool
  reader : Reader
  writer : Writer
  dma : List Dma
  callback : Option Callback
  fault : Option Fault
  /-- The calls of `vop_kvec_used`: head and length. -/
  used : List (ℕ × ℕ)
  /-- The calls of `put_descriptors`. -/
  put : List (ℕ × ℕ)
  /-- How many items were taken, and how many have left `transfer_write`. -/
  taken : ℕ
  written : ℕ
  /-- The turns whose DMA was submitted, was completed, and was finished by the callback. -/
  started : List ℕ
  completed : List ℕ
  finished : List ℕ

inductive Label
  /-- `buffer_dma_ring_get_read`. -/
  | getRead
  /-- `vop_common_get_descriptors` returns a chain. -/
  | fetch (head : ℕ) (kFrom : List ℕ)
  | read
  | readFailed
  | wait (r : Wait)
  | post
  /-- The DMA task looks for an item. -/
  | pick
  | write (remap : Bool)
  | start
  | submit (ok : Bool)
  | writeFailed
  /-- The oldest DMA is over. -/
  | complete
  | callback
  /-- The device is no longer ready. -/
  | stop
  deriving DecidableEq, Repr

section Code

variable (m : Mode)

/-- `buffer_dma_ring_item_reset`. The callback of a DMA that is not over is disabled. -/
def itemReset (s : Sys) (i : ℕ) : Sys :=
  { s with
    dma := if (s.items i).tx then
        s.dma.map fun d ↦ if d.item = i then { d with callback := false } else d
      else s.dma
    items := update s.items i (s.items i).reset }

/-- The entry that `vop_kvec_used` writes for an item, with its 32-bit length. -/
def Item.usedEntry (item : Item) : Option (ℕ × ℕ) :=
  item.headTo.map fun head ↦ (head, item.bytesWritten % 2 ^ 32)

def transferDone (s : Sys) (i : ℕ) : Sys :=
  let item := s.items i
  let s := if item.statusReady then s else { s with
    used := s.used ++ item.usedEntry.toList
    put := if item.vringhTx then
        s.put ++ (item.headFrom.map fun head ↦ (head, item.bytesRead)).toList
      else s.put }
  match item.kvecTo with
  | none => { s with fault := some .nullKvecTo }
  | some _ => itemReset s i

/-- The end of `transfer_read`: with the intermediate buffers the chain is given back at once. -/
def putRead (s : Sys) (i : ℕ) : Sys :=
  let item := s.items i
  if m.intermediate && item.vringhTx then
    { s with
      put := s.put ++ (item.headFrom.map fun head ↦ (head, item.bytesRead)).toList
      items := update s.items i { item with headFrom := none } }
  else s

/-- The task that did the write goes on. -/
def leaveWrite (s : Sys) : Sys :=
  if m.writeInThread then
    { s with writer := .idle, counterDmaLast := u16 (s.counterDmaLast + 1), written := s.written + 1 }
  else { s with writer := .idle, reader := .idle, written := s.written + 1 }

def readerStep (s : Sys) : Option Sys :=
  match s.reader with
  | .read i =>
    if (s.items i).kFrom = [] then some { s with fault := some .bugKFrom }
    else
      let res := transferRead m (s.items i)
      let s := putRead m { s with items := update s.items i res.1 } i
      some { s with reader := if res.2 then .wait i else .failed i }
  | _ => none

def waitStep (s : Sys) (r : Wait) : Option Sys :=
  match s.reader, r with
  | .wait _, .busy => some s
  | .wait _, .err => some { s with reader := .idle }
  | .wait i, .ok head kvecs num =>
    let s := { s with items := update s.items i { s.items i with
      headTo := some head, kvecTo := some kvecs, numKvecsTo := num } }
    if m.writeInThread then some { s with reader := .post i }
    else some { s with reader := .write i, writer := .write i }
  | _, _ => none

def pickStep (s : Sys) : Option Sys :=
  if m.writeInThread ∧ s.ready ∧ s.writer = .idle ∧ s.counterDmaLast ≠ s.counterDmaSend then
    let i := s.counterDmaLast % ringSize
    if (s.items i).statusReady then some { s with counterDmaLast := u16 (s.counterDmaLast + 1) }
    else some { s with writer := .write i }
  else none

def writeStep (s : Sys) (remap : Bool) : Option Sys :=
  match s.writer with
  | .write i =>
    let res := transferWrite m (s.items i) remap
    let s := { s with items := update s.items i res.1 }
    if res.2 then
      if m.dmaDev then some { s with writer := .send i }
      else some (leaveWrite m (transferDone s i))
    else some { s with writer := .failed i }
  | _ => none

def submitStep (s : Sys) (ok : Bool) : Option Sys :=
  match s.writer with
  | .submit i =>
    let item := s.items i
    if item.tx then some { s with fault := some .bugTx }
    else if ok then some (leaveWrite m { s with
      items := update s.items i { item with tx := true }
      dma := s.dma ++ [⟨i, item.turn, true⟩]
      started := s.started ++ [item.turn] })
    else some { s with
      items := update s.items i { item with jiffies := false }
      writer := .failed i }
  | _ => none

def completeStep (s : Sys) : Option Sys :=
  match s.dma, s.callback with
  | d :: dma, none =>
    let s := { s with dma := dma, completed := s.completed ++ [d.turn] }
    if d.callback then some { s with
      items := update s.items d.item { s.items d.item with tx := false }
      callback := some ⟨d.item, s.counterDoneTransfer % ringSize, (d.item + 1) % ringSize, false, d.turn⟩ }
    else some s
  | _, _ => none

/-- The end of a turn of the loop in `transfer_done_callback`. -/
def advance (s : Sys) (cb : Callback) : Sys :=
  { s with
    callback := some { cb with next := (cb.next + 1) % ringSize, started := false }
    counterDoneTransfer := u16 (s.counterDoneTransfer + 1) }

def callbackStep (s : Sys) : Option Sys :=
  match s.callback with
  | none => none
  | some cb =>
    let item := s.items cb.next
    if cb.started then
      let s := { s with
        items := update s.items cb.next { item with jiffies := false }
        finished := s.finished ++ [item.turn] }
      some (advance (transferDone s cb.next) cb)
    else if s.ready ∧ cb.next ≠ cb.stop then
      if item.jiffies then some { s with callback := some { cb with started := true } }
      else some (advance s cb)
    else some { s with callback := none }

def step (s : Sys) (l : Label) : Option Sys :=
  if s.fault.isSome then none
  else match l with
  | .getRead =>
    if s.ready ∧ s.reader = .idle then
      let i := s.indicatorRcv % ringSize
      if (s.items i).statusReady then some { s with
        items := update s.items i { s.items i with statusReady := false, turn := s.taken }
        indicatorRcv := u16 (s.indicatorRcv + 1)
        reader := .hold i
        taken := s.taken + 1 }
      else some s
    else none
  | .fetch head kFrom =>
    match s.reader with
    | .hold i =>
      if s.ready then some { s with
        items := update s.items i { s.items i with headFrom := some head, kFrom := kFrom, vringhTx := true }
        reader := .read i }
      else some { s with reader := .idle }
    | _ => none
  | .read => readerStep m s
  | .readFailed =>
    match s.reader with
    | .failed i => some { transferDone s i with reader := .idle }
    | _ => none
  | .wait r => waitStep m s r
  | .post =>
    match s.reader with
    | .post i =>
      if i ≠ s.counterDmaSend % ringSize then some { s with fault := some .bugDmaSend }
      else some { s with counterDmaSend := u16 (s.counterDmaSend + 1), reader := .idle }
    | _ => none
  | .pick => pickStep m s
  | .write remap => writeStep m s remap
  | .start =>
    match s.writer with
    | .send i => some { s with
        items := update s.items i { s.items i with jiffies := true }
        writer := .submit i }
    | _ => none
  | .submit ok => submitStep m s ok
  | .writeFailed =>
    match s.writer with
    | .failed i => some (leaveWrite m (transferDone s i))
    | _ => none
  | .complete => completeStep s
  | .callback => callbackStep s
  | .stop => some { s with ready := false }

end Code

/-- The ring after `buffer_dma_ring_init`, with the turn of an item as it will be taken first. -/
def init : Sys where
  items i := ⟨true, 0, false, false, false, [], none, 0, none, 0, none, 0, false, i⟩
  indicatorRcv := 0
  counterDmaSend := 0
  counterDoneTransfer := 0
  counterDmaLast := 0
  ready := true
  reader := .idle
  writer := .idle
  dma := []
  callback := none
  fault := none
  used := []
  put := []
  taken := 0
  written := 0
  started := []
  completed := []
  finished := []

end Vcass.Vop.Transfer
