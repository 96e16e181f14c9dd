import Vcass.Lib.Prog
import Vcass.BlockIo.Common

/-!
# Block I/O frontend: the code

The functions of `vcablk_disk.c` through which a request of the block layer passes: the request
thread cuts it into *parts* of at most `VCABLK_BIO_SPLIT_SIZE` data entries, gives each part a bio
context and publishes it in the request ring; the completion handler takes the backend's answers and
ends the request. On the other side of the ring stands `vcablk_bcknd_disk_get_next_request`, with
which the backend takes a part out.

## Operations

A function is a program of atomic operations on what the two sides share. Accesses to memory that
only the acting thread can reach (a bio context it holds, the slots behind `last_add`) belong to the
operation next to them. Waiting is part of an operation; a wait that is broken off because the thread
is being stopped is a choice of the environment.

* `getBioContext` — `vcablk_disk_get_bio_context`;
* `allocNext` — `vcablk_disk_request_alloc_next`, answering a slot of the request ring;
* `putEntry` — what `vcablk_disk_request_step` does with the slot, `vcablk_disk_map_page` included;
* `requestStart` — `vcablk_disk_request_start`, the publication of the part;
* `resetAlloc` — the first half of `vcablk_disk_request_break`;
* `unmapPages`, `poolPush` — the two halves of `vcablk_disk_request_clean`;
* `takeReq` — reading and clearing the `req` pointer of a context;
* `requestEnd` — `vcablk_disk_request_end`.

`requestStart` names the request, and `requestEnd` the cookie on whose behalf it is called, if any;
these arguments only serve the history.
-/

namespace Vcass.BlockIo.Disk

open Conc

/-! ## Requests of the block layer -/

def reqOpMask : ℕ := 1 <<< 8 - 1

def reqOpFlush : ℕ := 2

def reqSync : ℕ := 1 <<< 11

def reqFua : ℕ := 1 <<< 17

def reqPreflush : ℕ := 1 <<< 18

/-- A request: its operation and flags, its first sector and the lengths of its segments. -/
structure Request where
  cmdFlags : ℕ
  sector : ℕ
  segments : List ℕ
  deriving DecidableEq, Repr

/-- The operation, without the flags. -/
def Request.reqOp (req : Request) : ℕ := req.cmdFlags &&& reqOpMask

def Request.rqDataDir (req : Request) : Bool := req.reqOp &&& 1 != 0

/-- The test with which `vcablk_disk_async_request` sets `do_sync`. -/
def Request.doSync (req : Request) : Bool :=
  req.reqOp &&& (reqOpFlush ||| reqSync ||| reqPreflush ||| reqFua) != 0

def Request.type (req : Request) : RequestType := if req.rqDataDir then .write else .read

/-! ## Operations -/

/-- A segment to be put into an entry. -/
structure BioVec where
  sector : ℕ
  sectorsNum : ℕ
  len : ℕ
  deriving DecidableEq, Repr

inductive Op
  | getBioContext
  | allocNext
  | putEntry (slot c : ℕ) (type : RequestType) (bvec : Option BioVec)
  | bvecCtxsIdx (c : ℕ)
  | requestStart (r : ℕ)
  | setReq (c r : ℕ)
  | resetAlloc
  | unmapPages (c : ℕ)
  | poolPush (c : ℕ)
  | requestEnd (onBehalf : Option ℕ) (r ret : ℕ)
  | getById (idx : ℕ)
  | takeReq (c : ℕ)
  | splitRequestError
  | setSplitRequestError (err : ℕ)
  | lastAdd
  | readEntry (idx : ℕ)
  | setLastUsed (cnt : ℕ)

abbrev Res : Op → Type
  | .getBioContext => Option ℕ
  | .allocNext => Option ℕ
  | .putEntry _ _ _ _ => ℤ
  | .bvecCtxsIdx _ => ℕ
  | .requestStart _ => ℤ
  | .getById _ => Option ℕ
  | .takeReq _ => Option ℕ
  | .splitRequestError => ℕ
  | .lastAdd => ℕ
  | .readEntry _ => VcablkRequest
  | _ => Unit

abbrev FProg := Prog Op Res

abbrev call (o : Op) : FProg (Res o) := Prog.perform o

/-! ## The request thread -/

def vcablkDiskRequestStep (c : ℕ) (type : RequestType) (bvec : Option BioVec) : FProg ℤ := do
  match ← call .allocNext with
  | none => pure (-ebusy)
  | some slot => call (.putEntry slot c type bvec)

def vcablkDiskRequestClean (c : ℕ) : FProg Unit := do
  call (.unmapPages c)
  call (.poolPush c)

def vcablkDiskRequestBreak (bioContext : Option ℕ) : FProg Unit := do
  call .resetAlloc
  match bioContext with
  | some c => vcablkDiskRequestClean c
  | none => pure ()

/-- Where `vcablk_disk_async_request` stands when it leaves its loop: the return code, the previous
context and the current one. -/
structure LoopResult where
  ret : ℤ
  previous : Option ℕ
  context : Option ℕ

/-- The head of the loop: a full part is published and a new context taken. -/
def vcablkDiskRequestSplit (r : ℕ) (previous : Option ℕ) (c : ℕ) : FProg LoopResult := do
  let idx ← call (.bvecCtxsIdx c)
  if vcablkBioSplitSize ≤ idx then
    let ret ← call (.requestStart r)
    if ret ≠ 0 then
      pure ⟨-eio, previous, some c⟩
    else
      match ← call .getBioContext with
      | none => pure ⟨-eio, some c, none⟩
      | some c' => pure ⟨0, some c, some c'⟩
  else
    pure ⟨0, previous, some c⟩

/-- The loop `rq_for_each_segment`. -/
def vcablkDiskRequestLoop (r : ℕ) (type : RequestType) :
    (segments : List ℕ) → (sector : ℕ) → (previous : Option ℕ) → (c : ℕ) → FProg LoopResult
  | [], _, previous, c => pure ⟨0, previous, some c⟩
  | len :: segments, sector, previous, c => do
    let split ← vcablkDiskRequestSplit r previous c
    match split.context with
    | none => pure split
    | some c =>
      if split.ret ≠ 0 then
        pure split
      else
        let sectorsNum := len >>> sectorShift
        let ret ← vcablkDiskRequestStep c type (some ⟨sector, sectorsNum, len⟩)
        if ret ≠ 0 then
          pure ⟨ret, split.previous, some c⟩
        else
          vcablkDiskRequestLoop r type segments (sector + sectorsNum) split.previous c

/-- The SYNC entry before and after the data. -/
def vcablkDiskRequestSync (doSync : Bool) (c : ℕ) : FProg ℤ := do
  if doSync then
    let ret ← vcablkDiskRequestStep c .sync none
    pure (if ret ≠ 0 then -eio else 0)
  else
    pure 0

/-- `vcablk_disk_async_request` for request number `r`. After an error the context of the previous
part, if there is one, is what the loop behind the label `end` waits for; it is returned. -/
def vcablkDiskAsyncRequest (r : ℕ) (req : Request) : FProg (Option ℕ) := do
  match ← call .getBioContext with
  | none =>
    vcablkDiskRequestBreak none
    pure none
  | some c =>
    let ret ← vcablkDiskRequestSync req.doSync c
    if ret ≠ 0 then
      vcablkDiskRequestBreak (some c)
      pure none
    else
      let loop ← vcablkDiskRequestLoop r req.type req.segments req.sector none c
      match loop.context with
      | none =>
        vcablkDiskRequestBreak none
        pure loop.previous
      | some c =>
        if loop.ret ≠ 0 then
          vcablkDiskRequestBreak (some c)
          pure loop.previous
        else
          let ret ← vcablkDiskRequestSync req.doSync c
          if ret ≠ 0 then
            vcablkDiskRequestBreak (some c)
            pure loop.previous
          else
            call (.setReq c r)
            let ret ← call (.requestStart r)
            if ret ≠ 0 then
              vcablkDiskRequestBreak (some c)
              pure loop.previous
            else
              pure none

/-- One round of the loop behind the label `end`:
`while (bio_context_previous && bio_context_previous->bvec_ctxs_idx)`. The statement after the
commented-out body is the body of the loop. Returns the context to go on waiting for. -/
def vcablkDiskRequestEndLoop (r previous : ℕ) : FProg (Option ℕ) := do
  let idx ← call (.bvecCtxsIdx previous)
  if idx ≠ 0 then
    call (.requestEnd none r (u8 (-eio)))
    pure (some previous)
  else
    pure none

/-! ## The completion handler -/

/-- `vcablk_disk_request_done`. -/
def vcablkDiskRequestDone (id ret : ℕ) : FProg Unit := do
  if id ≠ 0 then
    match ← call (.getById (id - 1)) with
    | some c =>
      let req ← call (.takeReq c)
      vcablkDiskRequestClean c
      match req with
      | some r =>
        let err ← call .splitRequestError
        if err ≠ 0 then
          call (.setSplitRequestError 0)
          call (.requestEnd (some id) r err)
        else
          call (.requestEnd (some id) r ret)
      | none =>
        if ret ≠ 0 then call (.setSplitRequestError ret) else pure ()
    | none => pure ()
  else
    pure ()

/-! ## The backend's side of the request ring -/

/-- The loop of `vcablk_bcknd_disk_get_next_request`, from `last_used` on. The counters take
`2 * VCABLK_QUEUE_REQUESTS_NUMS` values, which bounds the number of rounds. -/
def vcablkBckndDiskGetNextLoop (lastAdd : ℕ) :
    (fuel lastUsed cookie : ℕ) → (requestBuff : List VcablkRequest) →
      FProg (List VcablkRequest × ℕ)
  | 0, lastUsed, _, requestBuff => pure (requestBuff, lastUsed)
  | fuel + 1, lastUsed, cookie, requestBuff =>
    if lastUsed = lastAdd ∨ vcablkMaxPartsPerRequest ≤ requestBuff.length then
      pure (requestBuff, lastUsed)
    else do
      let request ← call (.readEntry (vcaRbCounterToIdx lastUsed vcablkQueueRequestsNums))
      let next := vcaRbCounterAdd lastUsed 1 vcablkQueueRequestsNums
      let newCookie := if cookie = 0 then request.cookie else cookie
      if newCookie = 0 then
        vcablkBckndDiskGetNextLoop lastAdd fuel next 0 requestBuff
      else if newCookie ≠ request.cookie then
        pure (requestBuff, lastUsed)
      else
        vcablkBckndDiskGetNextLoop lastAdd fuel next newCookie (requestBuff ++ [request])

/-- `vcablk_bcknd_disk_get_next_request`: the part and the new `request_last_used`. -/
def vcablkBckndDiskGetNextRequest (requestLastUsed : ℕ) : FProg (List VcablkRequest × ℕ) := do
  let lastAdd ← call .lastAdd
  if requestLastUsed = lastAdd then
    pure ([], requestLastUsed)
  else
    let (requestBuff, lastUsed) ← vcablkBckndDiskGetNextLoop lastAdd (2 * vcablkQueueRequestsNums)
      requestLastUsed 0 []
    call (.setLastUsed lastUsed)
    pure (requestBuff, lastUsed)

end Vcass.BlockIo.Disk
