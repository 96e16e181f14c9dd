import Mathlib.Algebra.Order.Ring.Nat
import Mathlib.Logic.Function.Basic
import Vcass.Lib.Run

/-!
# The driver's side of a virtqueue

`virtqueue_add` puts a buffer, which is a list of scatterlist entries, on a chain of descriptors and the head of the
chain into the available ring. `vca_virtqueue_get_buf` takes a head from the used ring, gives the descriptors of
its chain back and returns the token of the buffer. The free descriptors are linked by the `next` fields that also
make the chains; `free_head` and `num_free` say where they start and how many there are.

If the host knows indirect tables a buffer with more than one entry takes one descriptor, which points to a table
from `kmalloc`.

## What is not the driver's

The other side writes the used ring, so what the driver reads from it are arguments here: the `used` of
`vcaVirtqueueGetBuf`, and the event index and the flags of `vcaVirtqueueKickPrepare`. Whether `kmalloc`, the mapping
for DMA and `vq->notify` succeed is an argument as well.

## Scatterlists

A list of entries is what `sg_next` goes through. A buffer that is mapped for DMA should have one list, as the buffers
of `vca_virtqueue_add_outbuf` and `vca_virtqueue_add_inbuf`. If there are more, and one to be read or one to be
written, `vring_map_sg` moves the end marks (see `MapSg`), and what is behind the first list is not known.
-/

namespace Vcass.Virtio.Virtqueue

open Function (update)

/-! ## Data -/

/-- `struct vring_desc`. -/
structure Desc where
  addr : ℕ
  len : ℕ
  flags : ℕ
  next : ℕ
  deriving DecidableEq, Repr

/-- `VRING_DESC_F_NEXT`. -/
def descFNext : ℕ := 1

/-- `VRING_DESC_F_WRITE`. -/
def descFWrite : ℕ := 2

/-- `VRING_DESC_F_INDIRECT`. -/
def descFIndirect : ℕ := 4

/-- `VRING_AVAIL_F_NO_INTERRUPT`. -/
def availFNoInterrupt : ℕ := 1

/-- `VRING_USED_F_NO_NOTIFY`. -/
def usedFNoNotify : ℕ := 1

/-- `~flag` on sixteen bits. -/
def clearFlag (flags flag : ℕ) : ℕ := flags &&& (2 ^ 16 - 1 - flag)

/-- `struct vring_used_elem`. -/
structure UsedElem where
  id : ℕ
  len : ℕ
  deriving DecidableEq, Repr

/-- A scatterlist entry, with the address that it has in memory and the one that it gets for DMA. -/
structure Sg where
  phys : ℕ
  dmaAddress : ℕ
  length : ℕ
  deriving DecidableEq, Repr

/-- An entry of a buffer, and whether the device may write to it. -/
structure Entry where
  sg : Sg
  write : Bool
  deriving DecidableEq, Repr

/-- The arguments of `dma_unmap_single`. -/
structure Mapping where
  addr : ℕ
  len : ℕ
  fromDevice : Bool
  deriving DecidableEq, Repr

/-- What stays as it was when the queue was made: the number of descriptors, and whether indirect tables are used and
entries are mapped for DMA. -/
structure Params where
  num : ℕ
  indirect : Bool
  dmaMap : Bool
  deriving DecidableEq

/-- What `struct vring_virtqueue` says about free descriptors and buffers that are out. `tables` are the indirect
tables that are allocated, by their physical address; `maps` and `unmaps` are the entries of accepted buffers that were
mapped for DMA, and the calls of `dma_unmap_single` for them. -/
structure Books (τ : Type) extends Params where
  desc : ℕ → Desc
  freeHead : ℕ
  numFree : ℕ
  data : ℕ → Option τ
  tables : ℕ → Option (ℕ → Desc)
  maps : List Mapping
  unmaps : List Mapping

/-- `struct vring_virtqueue` with the parts of `struct virtqueue` and `struct vring` that the driver writes. `notified`
counts the calls of `vq->notify`; `failedMaps` and `failedUnmaps` are the mappings that `vring_map_sg` made and undid
where it failed. -/
structure VringVirtqueue (τ : Type) extends Books τ where
  availFlags : ℕ
  availIdx : ℕ
  availRing : ℕ → ℕ
  usedEvent : ℕ
  broken : Bool
  event : Bool
  numAdded : ℕ
  lastUsedIdx : ℕ
  notified : ℕ
  failedMaps : List Mapping
  failedUnmaps : List Mapping

inductive AddResult
  | ok
  | eio
  | enospc
  | enomem
  /-- One of the calls of `BUG_ON` stops the kernel. -/
  | bug
  /-- An end mark was moved behind the first list. -/
  | overrun
  deriving DecidableEq, Repr

/-- What `virtqueue_add` meets: the memory that `kmalloc` finds for a table, with its physical address and what was
there, whether there is a device to map for and which calls of `dma_map_single` fail, and what `vca_virtqueue_kick`
meets. -/
structure AddEnv where
  table : Option (ℕ × (ℕ → Desc))
  hasParent : Bool
  mapFails : ℕ → Bool
  notifyOk : Bool
  availEvent : ℕ
  usedFlags : ℕ

variable {τ : Type}

/-! ## Notifications -/

/-- `vring_need_event`, on sixteen bits. -/
def vringNeedEvent (eventIdx newIdx old : ℕ) : Bool :=
  decide ((newIdx + 2 * 2 ^ 16 - eventIdx - 1) % 2 ^ 16 < (newIdx + 2 ^ 16 - old) % 2 ^ 16)

/-- `vca_virtqueue_kick_prepare`. -/
def vcaVirtqueueKickPrepare (vq : VringVirtqueue τ) (availEvent usedFlags : ℕ) : Bool × VringVirtqueue τ :=
  let old := (vq.availIdx + 2 ^ 32 - vq.numAdded) % 2 ^ 16
  let needsKick :=
    if vq.event then vringNeedEvent availEvent vq.availIdx old else decide (usedFlags &&& usedFNoNotify = 0)
  (needsKick, { vq with numAdded := 0 })

/-- `vca_virtqueue_notify`. -/
def vcaVirtqueueNotify (vq : VringVirtqueue τ) (notifyOk : Bool) : Bool × VringVirtqueue τ :=
  if vq.broken then (false, vq)
  else if notifyOk then (true, { vq with notified := vq.notified + 1 })
  else (false, { vq with notified := vq.notified + 1, broken := true })

/-- `vca_virtqueue_kick`. -/
def vcaVirtqueueKick (vq : VringVirtqueue τ) (notifyOk : Bool) (availEvent usedFlags : ℕ) :
    Bool × VringVirtqueue τ :=
  let (needsKick, vq) := vcaVirtqueueKickPrepare vq availEvent usedFlags
  if needsKick then vcaVirtqueueNotify vq notifyOk else (true, vq)

/-! ## Adding a buffer -/

/-- The entries of a buffer, those to be read first. -/
def entriesOf (outSgs inSgs : List (List Sg)) : List Entry :=
  outSgs.flatten.map (⟨·, false⟩) ++ inSgs.flatten.map (⟨·, true⟩)

/-- The flags that an entry's descriptor gets while there may be another one. -/
def Entry.flags (e : Entry) : ℕ := if e.write then descFNext ||| descFWrite else descFNext

def Entry.addr (dmaMap : Bool) (e : Entry) : ℕ := if dmaMap then e.sg.dmaAddress else e.sg.phys

/-- A table, the index of the next descriptor in it, and the descriptor that was written last. -/
structure Cursor where
  desc : ℕ → Desc
  i : ℕ
  prev : Option ℕ

/-- A round of the loops over the entries. -/
def addRound (dmaMap : Bool) (c : Cursor) (e : Entry) : Cursor where
  desc := update c.desc c.i { c.desc c.i with flags := e.flags, addr := e.addr dmaMap, len := e.sg.length }
  i := (c.desc c.i).next
  prev := some c.i

/-- The last one doesn't continue. -/
def Cursor.finish (c : Cursor) : ℕ → Desc :=
  match c.prev with
  | none => c.desc
  | some p => update c.desc p { c.desc p with flags := clearFlag (c.desc p).flags descFNext }

/-- The loops over the entries. -/
def addEntries (dmaMap : Bool) (desc : ℕ → Desc) (i : ℕ) (entries : List Entry) : Cursor :=
  entries.foldl (addRound dmaMap) ⟨desc, i, none⟩

/-- `alloc_indirect`, where `desc` is what the memory held. -/
def allocIndirect (totalSg : ℕ) (desc : ℕ → Desc) : ℕ → Desc :=
  fun i ↦ if i < totalSg then { desc i with next := i + 1 } else desc i

def mappingOf (e : Entry) : Mapping := ⟨e.sg.dmaAddress, e.sg.length, e.write⟩

/-- The lists of a buffer, those to be read first. -/
def listsOf (outSgs inSgs : List (List Sg)) : List (List Entry) :=
  outSgs.map (·.map (⟨·, false⟩)) ++ inSgs.map (·.map (⟨·, true⟩))

/-- `sg_terminate_arr` is called for the first list as if it had all entries, and has not. -/
def EndsMoved (outSgs inSgs : List (List Sg)) : Prop :=
  (outSgs.length = 1 ∨ inSgs.length = 1) ∧ outSgs.length + inSgs.length ≠ 1

instance (outSgs inSgs : List (List Sg)) : Decidable (EndsMoved outSgs inSgs) := inferInstanceAs (Decidable (_ ∧ _))

/-- `_dma_map_sg`, if a mapping of the list fails: what it maps and what it unmaps. The rounds go on behind a failure,
and a failure unmaps what the entries before have for an address. -/
def failedSg (fails : ℕ → Bool) (sgs : List Entry) : List Mapping × List Mapping :=
  (sgs.zipIdx.filterMap fun (e, i) ↦ if fails i then none else some (mappingOf e),
    sgs.zipIdx.flatMap fun (_, i) ↦ if fails i then
      (sgs.take i).zipIdx.map fun (e, j) ↦ if fails j then { mappingOf e with addr := 0 } else mappingOf e
    else [])

/-- The loop of `vring_map_sg`, where `done` are the entries of the lists before. `none` is success; else it gives what
was mapped and what was unmapped. -/
def mapLists (fails : ℕ → Bool) : (done : List Entry) → List (List Entry) → Option (List Mapping × List Mapping)
  | _, [] => none
  | done, sgs :: rest =>
    let fails' := fun i ↦ fails (done.length + i)
    if (List.range sgs.length).any fails' then
      some (done.map mappingOf ++ (failedSg fails' sgs).1, (failedSg fails' sgs).2 ++ done.map mappingOf)
    else mapLists fails (done ++ sgs) rest

/-- `vring_map_sg`, behind the end marks. -/
def vringMapSg (env : AddEnv) (outSgs inSgs : List (List Sg)) : Option (List Mapping × List Mapping) :=
  if env.hasParent then mapLists env.mapFails [] (listsOf outSgs inSgs) else some ([], [])

/-- The buffer gets its descriptors, and is mapped. -/
def reserve (vq : VringVirtqueue τ) (descsUsed : ℕ) (entries : List Entry) : VringVirtqueue τ :=
  { vq with
    numFree := vq.numFree - descsUsed
    maps := if vq.dmaMap then vq.maps ++ entries.map mappingOf else vq.maps }

/-- The loops over the entries, in the indirect table or in the ring's own, and the new `free_head`. -/
def place (vq : VringVirtqueue τ) (entries : List Entry) : Option (ℕ × (ℕ → Desc)) → VringVirtqueue τ
  | some (a, desc) => { vq with
      tables := update vq.tables a (some (addEntries vq.dmaMap desc 0 entries).finish)
      freeHead := (vq.desc vq.freeHead).next }
  | none => { vq with
      desc := (addEntries vq.dmaMap vq.desc vq.freeHead entries).finish
      freeHead := (addEntries vq.dmaMap vq.desc vq.freeHead entries).i }

/-- The token is set, and the head goes into the available ring. -/
def expose (vq : VringVirtqueue τ) (head : ℕ) (data : τ) : VringVirtqueue τ :=
  { vq with
    data := update vq.data head (some data)
    availRing := update vq.availRing (vq.availIdx &&& (vq.num - 1)) head
    availIdx := (vq.availIdx + 1) % 2 ^ 16
    numAdded := vq.numAdded + 1 }

/-- Kick just in case. -/
def kickJustInCase (vq : VringVirtqueue τ) (env : AddEnv) : VringVirtqueue τ :=
  if vq.numAdded = 2 ^ 16 - 1 then (vcaVirtqueueKick vq env.notifyOk env.availEvent env.usedFlags).2 else vq

/-- `virtqueue_add` from the test for room on. `table` is the indirect table, and `descsUsed` what the buffer takes. -/
def addTail (vq : VringVirtqueue τ) (outSgs inSgs : List (List Sg)) (data : τ) (env : AddEnv)
    (table : Option (ℕ × (ℕ → Desc))) (descsUsed : ℕ) : AddResult × VringVirtqueue τ :=
  let entries := entriesOf outSgs inSgs
  if vq.numFree < descsUsed then
    (.enospc, if outSgs = [] then vq else { vq with notified := vq.notified + 1 })
  else if vq.dmaMap ∧ EndsMoved outSgs inSgs then (.overrun, vq)
  else
    match (if vq.dmaMap then vringMapSg env outSgs inSgs else none) with
    | some (made, undone) => (.enomem, { vq with
        failedMaps := vq.failedMaps ++ made
        failedUnmaps := vq.failedUnmaps ++ undone })
    | none =>
      (.ok, kickJustInCase (expose (place (reserve vq descsUsed entries) entries table) vq.freeHead data) env)

/-- The first descriptor points to the indirect table. -/
def pointTo (vq : VringVirtqueue τ) (a totalSg : ℕ) (table : ℕ → Desc) : VringVirtqueue τ :=
  { vq with
    desc := update vq.desc vq.freeHead
      { vq.desc vq.freeHead with flags := descFIndirect, addr := a, len := totalSg * 16 % 2 ^ 32 }
    tables := update vq.tables a (some table) }

/-- `virtqueue_add`, with a token that is not `NULL`. -/
def virtqueueAdd (vq : VringVirtqueue τ) (outSgs inSgs : List (List Sg)) (totalSg : ℕ) (data : τ) (env : AddEnv) :
    AddResult × VringVirtqueue τ :=
  if vq.broken then (.eio, vq)
  else if vq.num < totalSg ∨ totalSg = 0 then (.bug, vq)
  else
    match (if vq.indirect ∧ 1 < totalSg ∧ vq.numFree ≠ 0 then env.table else none) with
    | some (a, desc) =>
      let table := allocIndirect totalSg desc
      addTail (pointTo vq a totalSg table) outSgs inSgs data env (some (a, table)) 1
    | none => addTail vq outSgs inSgs data env none totalSg

/-- `vca_virtqueue_add_sgs`. -/
def vcaVirtqueueAddSgs (vq : VringVirtqueue τ) (outSgs inSgs : List (List Sg)) (data : τ) (env : AddEnv) :
    AddResult × VringVirtqueue τ :=
  virtqueueAdd vq outSgs inSgs (entriesOf outSgs inSgs).length data env

/-! ## Getting a buffer back -/

/-- `__unmap_single`. -/
def unmapSingle (d : Desc) : Mapping := ⟨d.addr, d.len, decide (d.flags &&& descFWrite ≠ 0)⟩

/-- The loop of `detach_buf` at descriptor `i`, and the descriptor at which it ends. `none` is a loop that has not
ended after `fuel` rounds. -/
def detachLoop (dmaMap : Bool) (desc : ℕ → Desc) :
    (fuel i numFree : ℕ) → List Mapping → Option (ℕ × ℕ × List Mapping)
  | 0, _, _, _ => none
  | fuel + 1, i, numFree, unmaps =>
    if (desc i).flags &&& descFNext ≠ 0 then
      detachLoop dmaMap desc fuel (desc i).next (numFree + 1)
        (if dmaMap then unmaps ++ [unmapSingle (desc i)] else unmaps)
    else some (i, numFree, unmaps)

/-- `detach_buf`. A chain has at most `num` descriptors. -/
def detachBuf (vq : VringVirtqueue τ) (head : ℕ) : Option (VringVirtqueue τ) :=
  let tables :=
    if (vq.desc head).flags &&& descFIndirect ≠ 0 then update vq.tables (vq.desc head).addr none else vq.tables
  (detachLoop vq.dmaMap vq.desc vq.num head vq.numFree vq.unmaps).map fun (i, numFree, unmaps) ↦ { vq with
    data := update vq.data head none
    tables := tables
    desc := update vq.desc i { vq.desc i with next := vq.freeHead }
    freeHead := head
    numFree := numFree + 1
    unmaps := if vq.dmaMap then unmaps ++ [unmapSingle (vq.desc i)] else unmaps }

/-- What the driver reads from the used ring: the index, and the element at a slot. -/
structure Used where
  idx : ℕ
  ring : ℕ → UsedElem

/-- `more_used`. -/
def moreUsed (vq : VringVirtqueue τ) (used : Used) : Bool := decide (vq.lastUsedIdx ≠ used.idx)

/-- `vca_virtqueue_get_buf` behind `detach_buf`: the next element is expected, with an interrupt if callbacks are not
disabled. -/
def advance (vq : VringVirtqueue τ) : VringVirtqueue τ :=
  let lastUsedIdx := (vq.lastUsedIdx + 1) % 2 ^ 16
  { vq with
    lastUsedIdx := lastUsedIdx
    usedEvent := if vq.availFlags &&& availFNoInterrupt = 0 then lastUsedIdx else vq.usedEvent }

/-- `vca_virtqueue_get_buf`. The outer `none` is a loop of `detach_buf` that does not end, the inner one is `NULL`. -/
def vcaVirtqueueGetBuf (vq : VringVirtqueue τ) (used : Used) : Option (Option (τ × ℕ) × VringVirtqueue τ) :=
  if vq.broken then some (none, vq)
  else if !moreUsed vq used then some (none, vq)
  else
    let elem := used.ring (vq.lastUsedIdx &&& (vq.num - 1))
    if vq.num ≤ elem.id then some (none, { vq with broken := true })
    else
      match vq.data elem.id with
      | none => some (none, { vq with broken := true })
      | some data => (detachBuf vq elem.id).map fun vq ↦ (some (data, elem.len), advance vq)

/-- The first buffer that has a token, at `i` or behind. -/
def firstUnused (data : ℕ → Option τ) : (n i : ℕ) → Option (ℕ × τ)
  | 0, _ => none
  | n + 1, i =>
    match data i with
    | none => firstUnused data n (i + 1)
    | some t => some (i, t)

inductive Detached (τ : Type)
  | buf (data : τ) (vq : VringVirtqueue τ)
  | null (vq : VringVirtqueue τ)
  /-- `BUG_ON(vq->vq.num_free != vq->vring.num)`. -/
  | bug

/-- `vca_virtqueue_detach_unused_buf`. -/
def vcaVirtqueueDetachUnusedBuf (vq : VringVirtqueue τ) : Option (Detached τ) :=
  match firstUnused vq.data vq.num 0 with
  | some (i, buf) => (detachBuf vq i).map fun vq ↦ .buf buf { vq with availIdx := (vq.availIdx + 2 ^ 16 - 1) % 2 ^ 16 }
  | none => some (if vq.numFree = vq.num then .null vq else .bug)

/-! ## Callbacks -/

/-- `vca_virtqueue_disable_cb`. -/
def vcaVirtqueueDisableCb (vq : VringVirtqueue τ) : VringVirtqueue τ :=
  { vq with availFlags := vq.availFlags ||| availFNoInterrupt }

/-- `vca_virtqueue_enable_cb_prepare`. -/
def vcaVirtqueueEnableCbPrepare (vq : VringVirtqueue τ) : ℕ × VringVirtqueue τ :=
  (vq.lastUsedIdx,
    { vq with availFlags := clearFlag vq.availFlags availFNoInterrupt, usedEvent := vq.lastUsedIdx })

/-- `vca_virtqueue_poll`. -/
def vcaVirtqueuePoll (lastUsedIdx usedIdx : ℕ) : Bool := decide (lastUsedIdx % 2 ^ 16 ≠ usedIdx)

/-- `vca_virtqueue_enable_cb_delayed`. -/
def vcaVirtqueueEnableCbDelayed (vq : VringVirtqueue τ) (usedIdx : ℕ) : Bool × VringVirtqueue τ :=
  let bufs := (vq.availIdx + 2 ^ 16 - vq.lastUsedIdx) % 2 ^ 16 * 3 / 4 % 2 ^ 16
  (decide ((usedIdx + 2 ^ 16 - vq.lastUsedIdx) % 2 ^ 16 ≤ bufs), { vq with
    availFlags := clearFlag vq.availFlags availFNoInterrupt
    usedEvent := (vq.lastUsedIdx + bufs) % 2 ^ 16 })

/-! ## A new queue -/

/-- `vca_vring_new_virtqueue`, on pages that are zero. -/
def vcaVringNewVirtqueue (num : ℕ) (callback indirect event dmaMap : Bool) : Option (VringVirtqueue τ) :=
  if num &&& (num - 1) ≠ 0 then none
  else some {
    num := num
    desc := fun i ↦ ⟨0, 0, 0, if i < num - 1 then i + 1 else 0⟩
    availFlags := if callback then 0 else availFNoInterrupt
    availIdx := 0
    availRing := fun _ ↦ 0
    usedEvent := 0
    broken := false
    indirect := indirect
    event := event
    dmaMap := dmaMap
    freeHead := 0
    numFree := num
    numAdded := 0
    lastUsedIdx := 0
    data := fun _ ↦ none
    tables := fun _ ↦ none
    maps := []
    unmaps := []
    notified := 0
    failedMaps := []
    failedUnmaps := [] }

end Vcass.Virtio.Virtqueue
