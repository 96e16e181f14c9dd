import Mathlib.Tactic.Simps.Basic
import Vcass.Lib.Run
import Vcass.BlockIo.Disk.Code
import Vcass.BlockIo.Pool

/-!
# Block I/O frontend: the concurrent system

The block layer, the request thread and the completion handler of one disk, together with the
thread of the backend that takes the published parts out of the request ring. The backend is open
otherwise: a part it has taken may be answered at any time and with any result, once.

## Two block layers

`vcablk_disk_request_fn` exists for the multi-queue block layer and for the single-queue one. Both
put the request into the software ring `req_ring`. When that is full, the latter ends the request
itself, with an error; the former drops it and reports `BLK_STS_OK` all the same.

## History

`requests` are the requests reported as accepted; a request is named by its place in this list, a
part by its place in `parts`. The remaining history fields say who holds what: the context (`hand`),
the unpublished entries (`pend`) and the request (`cur`) of the request thread, the part being
answered (`handling`) with its context and its request, and the published parts that are not
answered (`live`). No operation depends on them; the answers do on `live` and `taken`, which is how
the backend is known to answer only what it has taken, and once.
-/

namespace Vcass.BlockIo.Disk

open Conc
open Function (update)

structure BioContext where
  id : ℕ
  req : Option ℕ
  bvecCtxsIdx : ℕ

/-- The software ring of requests, under `req_ring_lock`. -/
structure RequestRing where
  head : ℕ
  tail : ℕ
  ring : ℕ → ℕ

/-- A published part of a request. -/
structure Part where
  req : ℕ
  ctx : ℕ
  entries : List VcablkRequest
  final : Bool

/-- What the backend answers a part with. -/
def Part.cookie (p : Part) : ℕ := p.ctx + 1

/-- A call of `vcablk_disk_request_end`. -/
structure End where
  req : ℕ
  status : ℕ
  onBehalf : Option ℕ
  deriving DecidableEq, Repr

/-- What can go wrong on the way of a request. -/
inductive Fault
  /-- `req_ring` is full. -/
  | dropped
  | noContext
  | noSlot
  | noMapping
  deriving DecidableEq, Repr

structure Shared where
  reqRing : RequestRing
  ring : VcablkRing VcablkRequest
  requestRingAlloc : ℕ
  pool : VcablkPool
  ctx : ℕ → BioContext
  splitRequestError : ℕ
  requests : List Request
  queue : List ℕ
  hand : Option ℕ
  pend : List VcablkRequest
  cur : Option ℕ
  parts : List Part
  taken : ℕ
  live : List ℕ
  handling : Option ℕ
  handlingCtx : Option ℕ
  handlingReq : Option ℕ
  arrivals : List (ℕ × ℕ)
  ends : List End
  faults : List Fault

namespace Shared

variable (s : Shared)

@[simps] def fault (f : Fault) : Shared := { s with faults := s.faults ++ [f] }

@[simps] def getBioContext (c : ℕ) (pool : VcablkPool) : Shared :=
  { s with
    pool := pool
    ctx := update s.ctx c ⟨c + 1, none, 0⟩
    hand := some c }

/-- The slot keeps its old contents until it is filled. -/
@[simps] def allocNext : Shared :=
  { s with
    requestRingAlloc := vcaRbCounterAdd s.requestRingAlloc 1 vcablkQueueRequestsNums
    pend := s.pend ++ [s.ring.elems (vcaRbCounterToIdx s.requestRingAlloc vcablkQueueRequestsNums)] }

@[simps] def writeSlot (slot : ℕ) (e : VcablkRequest) : Shared :=
  { s with
    ring := { s.ring with elems := update s.ring.elems slot e }
    pend := s.pend.dropLast ++ [e] }

/-- `vcablk_disk_map_page` adds a mapping to the context. -/
@[simps] def mapPage (c : ℕ) : Shared :=
  { s with ctx := update s.ctx c { s.ctx c with bvecCtxsIdx := (s.ctx c).bvecCtxsIdx + 1 } }

/-- The part that is published next, for request `r`. -/
def nextPart (r : ℕ) : Part where
  req := r
  ctx := s.hand.getD 0
  entries := s.pend
  final := (s.ctx (s.hand.getD 0)).req.isSome

@[simps] def publish (r : ℕ) : Shared :=
  { s with
    ring := { s.ring with lastAdd := s.requestRingAlloc }
    parts := s.parts ++ [s.nextPart r]
    live := s.live ++ [s.parts.length]
    cur := if (s.nextPart r).final then none else s.cur
    hand := none
    pend := [] }

@[simps] def setReq (c : ℕ) (r : Option ℕ) : Shared :=
  { s with ctx := update s.ctx c { s.ctx c with req := r } }

@[simps] def resetAlloc : Shared :=
  { s with requestRingAlloc := s.ring.lastAdd, pend := [] }

@[simps] def unmapPages (c : ℕ) : Shared :=
  { s with ctx := update s.ctx c { s.ctx c with bvecCtxsIdx := 0 } }

@[simps] def poolPush (c : ℕ) (pool : VcablkPool) : Shared :=
  { s with
    pool := pool
    hand := if s.hand = some c then none else s.hand
    handlingCtx := if s.handlingCtx = some c then none else s.handlingCtx }

@[simps] def requestEnd (onBehalf : Option ℕ) (r ret : ℕ) : Shared :=
  { s with
    ends := s.ends ++ [⟨r, ret, onBehalf⟩]
    handlingReq := if onBehalf = none then s.handlingReq else none }

@[simps] def setLastUsed (cnt : ℕ) : Shared :=
  { s with ring := { s.ring with lastUsed := cnt }, taken := s.taken + 1 }

/-- The answer to part `k` reaches the completion handler. -/
@[simps] def answer (k ret : ℕ) (p : Part) : Shared :=
  { s with
    live := s.live.erase k
    handling := some k
    handlingCtx := some p.ctx
    handlingReq := if p.final then some p.req else none
    arrivals := s.arrivals ++ [(k, ret)] }

end Shared

/-- What `vcablk_disk_request_step` does with its slot. A page may be mapped to address 0, which is
taken for a failure. -/
def putEntry (s : Shared) (slot c : ℕ) (type : RequestType) (bvec : Option BioVec) (choice : ℤ) :
    ℤ × Shared :=
  let entry := { s.ring.elems slot with requestType := type, cookie := (s.ctx c).id }
  match bvec with
  | none => (0, s.writeSlot slot entry)
  | some v =>
    if vcablkBioSplitSize ≤ (s.ctx c).bvecCtxsIdx then
      (-enomem, s.writeSlot slot entry)
    else if choice < 0 then
      (-enomem, (s.writeSlot slot entry).fault .noMapping)
    else if choice = 0 then
      (-enomem, ((s.writeSlot slot entry).mapPage c).fault .noMapping)
    else
      (0, (s.writeSlot slot { entry with
        sectorsNum := v.sectorsNum
        sector := v.sector
        physBuff := choice.toNat }).mapPage c)

/-- What an operation answers and does. A negative choice breaks off a wait. -/
def sem (s : Shared) : (o : Op) → ℤ → Option (Res o × Shared)
  | .getBioContext, c =>
    match s.pool.vcablkPoolPop with
    | some (i, pool) => some (some i, s.getBioContext i pool)
    | none => if c < 0 then some (none, s.fault .noContext) else none
  | .allocNext, c =>
    if vcaRbBuffFull s.requestRingAlloc s.ring.lastUsed vcablkQueueRequestsNums then
      if c < 0 then some (none, s.fault .noSlot) else none
    else
      some (some (vcaRbCounterToIdx s.requestRingAlloc vcablkQueueRequestsNums), s.allocNext)
  | .putEntry slot c type bvec, choice => some (putEntry s slot c type bvec choice)
  | .bvecCtxsIdx c, _ => some ((s.ctx c).bvecCtxsIdx, s)
  | .requestStart r, _ =>
    if s.ring.lastAdd = s.requestRingAlloc then some (-einval, s) else some (0, s.publish r)
  | .setReq c r, _ => some ((), s.setReq c (some r))
  | .resetAlloc, _ => some ((), s.resetAlloc)
  | .unmapPages c, _ => some ((), s.unmapPages c)
  | .poolPush c, _ =>
    match s.pool.vcablkPoolPush c with
    | none => none
    | some pool => some ((), s.poolPush c pool)
  | .requestEnd onBehalf r ret, _ => some ((), s.requestEnd onBehalf r ret)
  | .getById idx, _ => some (s.pool.vcablkPoolGetById idx, s)
  | .takeReq c, _ => some ((s.ctx c).req, s.setReq c none)
  | .splitRequestError, _ => some (s.splitRequestError, s)
  | .setSplitRequestError err, _ => some ((), { s with splitRequestError := err })
  | .lastAdd, _ => some (s.ring.lastAdd, s)
  | .readEntry idx, _ => some (s.ring.elems idx, s)
  | .setLastUsed cnt, _ => some ((), s.setLastUsed cnt)

/-- The backend's request thread: waiting for requests, at the head of its inner loop with the
snapshot of `last_add`, or inside `vcablk_bcknd_disk_get_next_request`. -/
inductive Fetcher
  | waiting (lastUsed : ℕ)
  | inner (snapshot lastUsed : ℕ)
  | fetching (snapshot : ℕ) (p : FProg (List VcablkRequest × ℕ))

/-- `fetched` are the parts the backend has got, and `target` is how many were published when it took
its snapshot of `last_add`; both are history. -/
structure Sys where
  shared : Shared
  thread : Option (ℕ × FProg (Option ℕ))
  handler : Option (FProg Unit)
  fetcher : Fetcher
  fetched : List (List VcablkRequest)
  target : ℕ

inductive Label
  | requestFn (req : Request)
  /-- The request thread takes the oldest request. -/
  | dequeue
  | thread (c : ℤ)
  /-- The backend's answer to part `k` arrives. -/
  | answer (k ret : ℕ)
  | handler (c : ℤ)
  | fetch (c : ℤ)

def advance {α : Type} (s : Shared) (p : FProg α) (c : ℤ) : Option (Shared × FProg α) :=
  match p with
  | .ret _ => none
  | .act o k => (sem s o c).map fun r ↦ (r.2, k r.1)

/-- `vcablk_disk_request_fn`, for the multi-queue block layer (`mq`) and for the single-queue one. -/
def vcablkDiskRequestFn (mq : Bool) (s : Shared) (req : Request) : Shared :=
  let newHead := (s.reqRing.head + 1) &&& (reqRingSize - 1)
  if newHead = s.reqRing.tail then
    if mq then { s with requests := s.requests ++ [req], faults := s.faults ++ [.dropped] } else s
  else
    { s with
      requests := s.requests ++ [req]
      queue := s.queue ++ [s.requests.length]
      reqRing :=
        { s.reqRing with
          ring := update s.reqRing.ring s.reqRing.head s.requests.length
          head := newHead } }

/-- One step of the system. -/
def step (mq : Bool) (s : Sys) : Label → Option Sys
  | .requestFn req => some { s with shared := vcablkDiskRequestFn mq s.shared req }
  | .dequeue =>
    if s.thread.isSome ∨ s.shared.reqRing.head = s.shared.reqRing.tail then none
    else
      let r := s.shared.reqRing.ring s.shared.reqRing.tail
      match s.shared.requests[r]? with
      | none => none
      | some req => some { s with
          shared := { s.shared with
            reqRing := { s.shared.reqRing with
              tail := (s.shared.reqRing.tail + 1) &&& (reqRingSize - 1) }
            queue := s.shared.queue.tail
            cur := some r }
          thread := some (r, vcablkDiskAsyncRequest r req) }
  | .thread c =>
    match s.thread with
    | none => none
    | some (_, .ret none) => some { s with
        shared := { s.shared with cur := none }
        thread := none }
    | some (r, .ret (some previous)) =>
      some { s with thread := some (r, vcablkDiskRequestEndLoop r previous) }
    | some (r, p) => (advance s.shared p c).map fun x ↦
        { s with shared := x.1, thread := some (r, x.2) }
  | .answer k ret =>
    match s.handler, s.shared.parts[k]? with
    | none, some p =>
      if k ∈ s.shared.live ∧ k < s.shared.taken then some { s with
        shared := s.shared.answer k ret p
        handler := some (vcablkDiskRequestDone p.cookie ret) }
      else none
    | _, _ => none
  | .handler c =>
    match s.handler with
    | none => none
    | some (.ret _) => some { s with
        shared := { s.shared with handling := none }
        handler := none }
    | some p => (advance s.shared p c).map fun x ↦ { s with shared := x.1, handler := some x.2 }
  | .fetch c =>
    match s.fetcher with
    | .waiting lastUsed =>
      if s.shared.ring.lastAdd = lastUsed then none
      else some { s with
        fetcher := .inner s.shared.ring.lastAdd lastUsed
        target := s.shared.parts.length }
    | .inner snapshot lastUsed =>
      if snapshot = lastUsed then some { s with fetcher := .waiting lastUsed }
      else some { s with fetcher := .fetching snapshot (vcablkBckndDiskGetNextRequest lastUsed) }
    | .fetching snapshot (.ret (g, lastUsed)) => some { s with
        fetched := if g = [] then s.fetched else s.fetched ++ [g]
        fetcher := .inner snapshot lastUsed }
    | .fetching snapshot p => (advance s.shared p c).map fun x ↦
        { s with shared := x.1, fetcher := .fetching snapshot x.2 }

/-- The disk right after its creation. -/
def init : Sys where
  shared :=
    { reqRing := ⟨0, 0, fun _ ↦ 0⟩
      ring := ⟨vcablkQueueRequestsNums, 0, 0, fun _ ↦ ⟨0, 0, 0, 0, .other 0⟩⟩
      requestRingAlloc := 0
      pool := vcablkPoolClear (vcablkBioCtxPoolSize + 1)
      ctx := fun _ ↦ ⟨0, none, 0⟩
      splitRequestError := 0
      requests := []
      queue := []
      hand := none
      pend := []
      cur := none
      parts := []
      taken := 0
      live := []
      handling := none
      handlingCtx := none
      handlingReq := none
      arrivals := []
      ends := []
      faults := [] }
  thread := none
  handler := none
  fetcher := .waiting 0
  fetched := []
  target := 0

end Vcass.BlockIo.Disk
