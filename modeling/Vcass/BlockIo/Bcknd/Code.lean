import Vcass.Lib.Prog
import Vcass.BlockIo.Common

/-!
# Block I/O backend: the code

The functions of `vcablk_bcknd_disk.c` that serve a request group, in the configuration with a DMA
channel. Each is a program of atomic operations on the state that the request thread, the DMA
callback and the transfer thread share; loops over the entries of a group and over the chunks of an
entry are recursions on the list of entries and on the number of sectors left.

Waiting inside an operation (for a buffer of the pool, for a non-empty transfer ring, for an I/O
mapping) is part of the operation: it is performed when the wait is over.

## What the operations stand for

* `getTransferParam`, `poolPush` — `vcablk_pool_pop` and `vcablk_pool_push` on
  `transfer_buffer_pool`, the former with the `BUG_ON(result->tx)` behind it;
* `setParam` — the stores into `callback_param` of a buffer that the thread owns;
* `dmaAsync` — `BUG_ON(tx)` and `vcablk_bcknd_dma_async`, answering the `dma_cookie`;
* `mediaTransfer`, `mediaSync` — the calls through `struct vcablk_media`;
* `ioremap`, `iounmap` — the window onto a page of the frontend;
* the `ring…` operations — single accesses to `transfer_ring`.

`mediaSync` and `sendResponse` name the buffer on whose behalf they are called, if any; the argument
only serves the history.
-/

namespace Vcass.BlockIo.Bcknd

open Conc

/-- An I/O mapping of frontend memory; every successful `ioremap` makes a new one. -/
structure Window where
  id : ℕ
  phys : ℕ
  deriving DecidableEq, Repr

/-- `callback_param_t`. A `responseCookie` of `-1` means that the chunk sends no response. -/
structure CallbackParam where
  sector : ℕ
  nsec : ℕ
  remapped : Option Window
  responseCookie : ℤ
  isWrite : Bool
  doFlush : Bool
  deriving DecidableEq, Repr

/-- The atomic operations. -/
inductive Op
  | ioremap (physBuff len : ℕ)
  | iounmap (w : Window)
  | getTransferParam
  | poolPush (b : ℕ)
  | setParam (b : ℕ) (p : CallbackParam)
  | clearTx (b : ℕ)
  | mediaTransfer (sector nsec b : ℕ) (write : Bool)
  | mediaSync (onBehalf : Option ℕ)
  | dmaAsync (b : ℕ) (w : Window) (off bytes : ℕ) (write : Bool)
  | sendResponse (onBehalf : Option ℕ) (cookie : ℕ) (ret : ℤ)
  | ringLastAdd
  | ringLastUsed
  | ringPut (idx b : ℕ)
  | ringSetLastAdd (cnt : ℕ)
  | ringWait (lastUsed : ℕ)
  | ringGet (idx : ℕ)
  | ringSetLastUsed (cnt : ℕ)

/-- What each operation answers. -/
abbrev Res : Op → Type
  | .ioremap _ _ => Option Window
  | .getTransferParam => ℕ
  | .mediaTransfer _ _ _ _ => ℤ
  | .mediaSync _ => ℤ
  | .dmaAsync _ _ _ _ _ => ℤ
  | .ringLastAdd => ℕ
  | .ringLastUsed => ℕ
  | .ringGet _ => ℕ × CallbackParam
  | _ => Unit

abbrev BProg := Prog Op Res

/-- Perform one operation. -/
abbrev call (o : Op) : BProg (Res o) := Prog.perform o

/-! ## Completion of a chunk -/

def vcaBckndCompleteTransfer (b : ℕ) (data : CallbackParam) : BProg Unit := do
  call (.clearTx b)
  let err ← if data.isWrite then call (.mediaTransfer data.sector data.nsec b true) else pure 0
  if 0 ≤ data.responseCookie then
    let err ← if err = 0 ∧ data.doFlush then call (.mediaSync (some b)) else pure err
    call (.sendResponse (some b) data.responseCookie.toNat err)
    call (.poolPush b)
  else
    call (.poolPush b)

/-- A full ring loses the buffer, as the source's message says. -/
def vcaBckndCallbackDma (b : ℕ) (data : CallbackParam) : BProg Unit := do
  match data.remapped with
  | some w =>
    call (.iounmap w)
    call (.setParam b { data with remapped := none })
  | none => pure ()
  let lastAdd ← call .ringLastAdd
  let lastUsed ← call .ringLastUsed
  if vcaRbBuffFull lastAdd lastUsed vcablkTransferRingSize then
    pure ()
  else
    call (.ringPut (vcaRbCounterToIdx lastAdd vcablkTransferRingSize) b)
    call (.ringSetLastAdd (vcaRbCounterAdd lastAdd 1 vcablkTransferRingSize))

/-- One round of the transfer thread's loop, from its `last_used` to the next. -/
def vcablkBckndDiskMakeTransferThread (lastUsed : ℕ) : BProg ℕ := do
  call (.ringWait lastUsed)
  let (b, data) ← call (.ringGet (vcaRbCounterToIdx lastUsed vcablkTransferRingSize))
  vcaBckndCompleteTransfer b data
  call (.ringSetLastUsed (vcaRbCounterAdd lastUsed 1 vcablkTransferRingSize))
  pure (vcaRbCounterAdd lastUsed 1 vcablkTransferRingSize)

/-! ## Transfer of an entry -/

def vcablkBckndTransferDevice (b : ℕ) (w : Window) (off bytes : ℕ) (write : Bool) : BProg ℤ := do
  let dmaCookie ← call (.dmaAsync b w off bytes write)
  pure (if dmaCookie < 0 then -enomem else 0)

/-- The `while (sectors_num)` loop of `vcablk_bcknd_transfer`. Every round serves at least one
sector, so the number of sectors bounds the number of rounds and is passed as `fuel`. -/
def vcablkBckndTransferLoop (w : Window) (write : Bool) (responseCookie : ℤ) (doFlush : Bool) :
    (fuel sectorsNum sector off : ℕ) → BProg ℤ
  | 0, _, _, _ => pure 0
  | fuel + 1, sectorsNum, sector, off =>
    if sectorsNum = 0 then pure 0 else do
      let b ← call .getTransferParam
      let nsec := min sectorsNum (pageSize >>> sectorShift)
      let bytes := nsec <<< sectorShift
      let left := sectorsNum - nsec
      call (.setParam b
        { sector := sector
          nsec := nsec
          remapped := if left = 0 then some w else none
          responseCookie := if left = 0 then responseCookie else -1
          isWrite := write
          doFlush := if left = 0 then doFlush else false })
      let ret ← if write then pure 0 else call (.mediaTransfer sector nsec b false)
      if ret ≠ 0 then pure ret else do
        let ret ← vcablkBckndTransferDevice b w off bytes write
        if ret ≠ 0 then pure ret else
          vcablkBckndTransferLoop w write responseCookie doFlush fuel left (sector + nsec)
            (off + bytes)

def vcablkBckndTransfer (sector sectorsNum physBuff : ℕ) (write : Bool) (responseCookie : ℤ)
    (doFlush : Bool) : BProg ℤ := do
  match ← call (.ioremap physBuff (sectorsNum <<< sectorShift)) with
  | none => pure (-eio)
  | some w =>
    let ret ← vcablkBckndTransferLoop w write responseCookie doFlush sectorsNum sectorsNum sector 0
    if ret ≠ 0 then
      call (.iounmap w)
      pure ret
    else
      pure ret

/-! ## Serving a group -/

/-- The results of `vcablk_bcknd_disk_request_get_info`. -/
structure RequestInfo where
  cookie : ℕ
  type : RequestType
  sector : ℕ
  sectorsNum : ℕ
  syncBefore : Bool
  syncAfter : Bool
  deriving DecidableEq, Repr

/-- The consistency check: one cookie, one type, adjacent sectors. A SYNC entry is exempt in the
first and in the last place. Returns the error and the number of sectors seen. -/
def checkConsistency (cookie : ℕ) (type : RequestType) (size : ℕ) :
    (id checkSector sectorsNum : ℕ) → List VcablkRequest → ℤ × ℕ
  | _, _, sectorsNum, [] => (0, sectorsNum)
  | id, checkSector, sectorsNum, request :: rest =>
    if cookie ≠ request.cookie then (-eio, sectorsNum)
    else if request.requestType = .sync ∧ (id = 0 ∨ id + 1 = size) then
      checkConsistency cookie type size (id + 1) checkSector sectorsNum rest
    else if type ≠ request.requestType then (-eio, sectorsNum)
    else if checkSector ≠ request.sector then (-eio, sectorsNum)
    else checkConsistency cookie type size (id + 1) (checkSector + request.sectorsNum)
      (sectorsNum + request.sectorsNum) rest

/-- `vcablk_bcknd_disk_request_get_info`. A group of one SYNC entry is reported with `syncBefore`
unset. -/
def vcablkBckndDiskRequestGetInfo (requestBuff : List VcablkRequest) : ℤ × RequestInfo :=
  match requestBuff with
  | [] => (-eio, ⟨0, .other 0, 0, 0, false, false⟩)
  | request :: rest =>
    let cookie := request.cookie
    let syncAfter := (rest.getLastD request).requestType == .sync
    let check (request : VcablkRequest) (syncBefore : Bool) : ℤ × RequestInfo :=
      match request.requestType with
      | .other _ => (-eio, ⟨cookie, request.requestType, request.sector, 0, syncBefore, syncAfter⟩)
      | type =>
        let result := checkConsistency cookie type requestBuff.length 0 request.sector 0 requestBuff
        (result.1, ⟨cookie, type, request.sector, result.2, syncBefore, syncAfter⟩)
    if request.requestType = .sync then
      match rest with
      | [] => (0, ⟨cookie, .sync, 0, 0, false, syncAfter⟩)
      | next :: _ => check next true
    else check request false

/-- The loop over the data entries. Only the last one carries the cookie and the flush flag. -/
def vcablkBckndDiskRequestLoop (write : Bool) (reqCookie : ℕ) (syncAfter : Bool) :
    List VcablkRequest → BProg ℤ
  | [] => pure 0
  | request :: rest => do
    let err ← vcablkBckndTransfer request.sector request.sectorsNum request.physBuff write
      (if rest = [] then (reqCookie : ℤ) else -1) (if rest = [] then syncAfter else false)
    if err ≠ 0 then pure err else vcablkBckndDiskRequestLoop write reqCookie syncAfter rest

/-- The tail of `vcablk_bcknd_disk_request`: `id` and `end_id` cut off the SYNC entries, and an error
is answered at once. -/
def vcablkBckndDiskRequestEntries (requestBuff : List VcablkRequest) (info : RequestInfo)
    (id : ℕ) : BProg ℤ := do
  let endId := if info.syncAfter then requestBuff.length - 1 else requestBuff.length
  let err ← vcablkBckndDiskRequestLoop (info.type = .write) info.cookie info.syncAfter
    ((requestBuff.take endId).drop id)
  if err ≠ 0 then
    call (.sendResponse none info.cookie err)
    pure err
  else
    pure err

def vcablkBckndDiskRequest (requestBuff : List VcablkRequest) : BProg ℤ := do
  let (err, info) := vcablkBckndDiskRequestGetInfo requestBuff
  if err ≠ 0 then
    call (.sendResponse none info.cookie err)
    pure err
  else if info.syncBefore then
    let err ← call (.mediaSync none)
    if err ≠ 0 ∨ requestBuff.length = 1 then
      call (.sendResponse none info.cookie err)
      pure err
    else
      vcablkBckndDiskRequestEntries requestBuff info 1
  else
    vcablkBckndDiskRequestEntries requestBuff info 0

end Vcass.BlockIo.Bcknd
