import Mathlib.Tactic.Simps.Basic
import Vcass.Lib.Overlay
import Vcass.Lib.Run
import Vcass.BlockIo.Bcknd.Code
import Vcass.BlockIo.Pool

/-!
# Block I/O backend: the concurrent system

The request thread, the DMA engine, the DMA callback and the transfer thread of one disk, as an
open system: the groups the request thread serves come from outside, in any number and of any shape.

A DMA descriptor moves its data when the engine reaches it, in the order of submission. Its callback
runs some time later; callbacks run one at a time and in the same order. The request thread, the
running callback and the transfer thread each hold the rest of their program.

## Choices

A step is labelled with the agent that moves and, for a thread, with a number `c` that stands for
whatever the environment decides in the operation performed: the error code of a media operation,
the DMA cookie, whether an `ioremap` succeeds. Operations without a choice ignore it.

## History

`log` records what happened, oldest first. `groups` numbers the groups served, and `group` remembers
for which of them a buffer was last taken; both are history as well and no step depends on them.
-/

namespace Vcass.BlockIo.Bcknd

open Conc Overlay
open Function (update)

/-- A submitted DMA transfer between buffer `buf` and the frontend memory behind `win`. -/
structure DmaDesc where
  buf : ℕ
  win : Window
  off : ℕ
  bytes : ℕ
  write : Bool
  deriving DecidableEq, Repr

/-- The frontend address a descriptor names. -/
def DmaDesc.addr (d : DmaDesc) : ℕ := d.win.phys + d.off

inductive Event
  | fetch (gid : ℕ)
  | remap (gid : ℕ) (w : Option Window)
  | unmap (w : Window)
  | pop (b : ℕ)
  | push (gid b : ℕ)
  | load (gid b : ℕ) (p : CallbackParam) (ret : ℤ) (bytes : List UInt8)
  | submit (gid : ℕ) (p : CallbackParam) (d : DmaDesc) (cookie : ℤ)
  | moved (gid : ℕ) (p : CallbackParam) (d : DmaDesc) (bytes : List UInt8)
  | store (gid b : ℕ) (p : CallbackParam) (ret : ℤ) (bytes : List UInt8)
  | sync (gid : ℕ) (leading : Bool) (ret : ℤ)
  | response (gid cookie : ℕ) (ret : ℤ)
  deriving DecidableEq

/-- The part of a log that `f` is about. -/
def history {α : Type} (f : Event → Option α) (log : List Event) : List α := log.filterMap f

@[simp] theorem history_nil {α : Type} (f : Event → Option α) : history f [] = [] := rfl

@[simp] theorem history_snoc {α : Type} (f : Event → Option α) (log : List Event) (e : Event) :
    history f (log ++ [e]) = history f log ++ (f e).toList := by
  rw [history, List.filterMap_append, ← history]
  cases h : f e <;> simp [h]

/-- The part of the state that no queue or counter represents. -/
structure Core where
  param : ℕ → CallbackParam
  tx : ℕ → Bool
  data : ℕ → ℕ → UInt8
  group : ℕ → ℕ
  dma : List DmaDesc
  done : List ℕ
  media : ℕ → UInt8
  mem : ℕ → UInt8
  nextWin : ℕ
  groups : List (List VcablkRequest)
  log : List Event

namespace Core

variable (k : Core)

/-- The number of the group being served. -/
def cur : ℕ := k.groups.length - 1

@[simps] def emit (e : Event) : Core := { k with log := k.log ++ [e] }

/-- The group on whose behalf an operation is performed. -/
def gidOf : Option ℕ → ℕ
  | some b => k.group b
  | none => k.cur

@[simps] def fetch (g : List VcablkRequest) : Core :=
  { k with groups := k.groups ++ [g], log := k.log ++ [.fetch k.groups.length] }

@[simps] def remap (phys : ℕ) : Core :=
  { k with nextWin := k.nextWin + 1, log := k.log ++ [.remap k.cur (some ⟨k.nextWin, phys⟩)] }

@[simps] def taken (b : ℕ) : Core :=
  { k with group := update k.group b k.cur, log := k.log ++ [.pop b] }

@[simps] def setParam (b : ℕ) (p : CallbackParam) : Core := { k with param := update k.param b p }

@[simps] def clearTx (b : ℕ) : Core := { k with tx := update k.tx b false }

/-- A media read into the buffer, performed by the request thread. -/
@[simps] def load (sector nsec b : ℕ) (ret : ℤ) : Core :=
  let bytes := slice k.media (sector <<< sectorShift) (nsec <<< sectorShift)
  { k with
    data := if ret = 0 then update k.data b (overlay (k.data b) 0 bytes) else k.data
    log := k.log ++ [.load (k.group b) b (k.param b) ret bytes] }

/-- A media write from the buffer, performed by the transfer thread. -/
@[simps] def store (sector nsec b : ℕ) (ret : ℤ) : Core :=
  let bytes := slice (k.data b) 0 (nsec <<< sectorShift)
  { k with
    media := if ret = 0 then overlay k.media (sector <<< sectorShift) bytes else k.media
    log := k.log ++ [.store (k.group b) b (k.param b) ret bytes] }

/-- A DMA submission; a negative cookie is a failed one. -/
@[simps] def submit (d : DmaDesc) (cookie : ℤ) : Core :=
  { k with
    tx := if cookie < 0 then k.tx else update k.tx d.buf true
    dma := if cookie < 0 then k.dma else k.dma ++ [d]
    log := k.log ++ [.submit (k.group d.buf) (k.param d.buf) d cookie] }

/-- The engine finishes descriptor `d`, leaving `rest` to do. -/
@[simps] def move (d : DmaDesc) (rest : List DmaDesc) : Core :=
  let bytes := if d.write then slice k.mem d.addr d.bytes else slice (k.data d.buf) 0 d.bytes
  { k with
    data := if d.write then update k.data d.buf (overlay (k.data d.buf) 0 bytes) else k.data
    mem := if d.write then k.mem else overlay k.mem d.addr bytes
    dma := rest
    done := k.done ++ [d.buf]
    log := k.log ++ [.moved (k.group d.buf) (k.param d.buf) d bytes] }

section Cur

variable (b : ℕ) (d : DmaDesc) (r : ℤ)

@[simp] theorem emit_cur (e : Event) : (k.emit e).cur = k.cur := rfl
@[simp] theorem remap_cur (phys : ℕ) : (k.remap phys).cur = k.cur := rfl
@[simp] theorem taken_cur : (k.taken b).cur = k.cur := rfl
@[simp] theorem setParam_cur (p : CallbackParam) : (k.setParam b p).cur = k.cur := rfl
@[simp] theorem clearTx_cur : (k.clearTx b).cur = k.cur := rfl
@[simp] theorem load_cur (sector nsec : ℕ) : (k.load sector nsec b r).cur = k.cur := rfl
@[simp] theorem store_cur (sector nsec : ℕ) : (k.store sector nsec b r).cur = k.cur := rfl
@[simp] theorem submit_cur : (k.submit d r).cur = k.cur := rfl
@[simp] theorem move_cur (rest : List DmaDesc) : (k.move d rest).cur = k.cur := rfl
@[simp] theorem fetch_cur (g : List VcablkRequest) : (k.fetch g).cur = k.groups.length := by
  simp [cur]

end Cur

end Core

/-- The state that the threads share. -/
structure Shared where
  core : Core
  pool : VcablkPool
  ring : VcablkRing ℕ

/-- What an operation answers and does, given the environment's choice. -/
def sem (s : Shared) : (o : Op) → ℤ → Option (Res o × Shared)
  | .ioremap phys _, c =>
    if c = 0 then some (none, { s with core := s.core.emit (.remap s.core.cur none) })
    else some (some ⟨s.core.nextWin, phys⟩, { s with core := s.core.remap phys })
  | .iounmap w, _ => some ((), { s with core := s.core.emit (.unmap w) })
  | .getTransferParam, _ =>
    match s.pool.vcablkPoolPop with
    | none => none
    | some (b, pool) =>
      if s.core.tx b then none else some (b, { s with core := s.core.taken b, pool := pool })
  | .poolPush b, _ =>
    match s.pool.vcablkPoolPush b with
    | none => none
    | some pool => some ((), { s with core := s.core.emit (.push (s.core.group b) b), pool := pool })
  | .setParam b p, _ => some ((), { s with core := s.core.setParam b p })
  | .clearTx b, _ => some ((), { s with core := s.core.clearTx b })
  | .mediaTransfer sector nsec b write, c =>
    if isErrno c then
      some (c, { s with
        core := if write then s.core.store sector nsec b c else s.core.load sector nsec b c })
    else none
  | .mediaSync who, c =>
    if isErrno c then
      some (c, { s with core := s.core.emit (.sync (s.core.gidOf who) who.isNone c) })
    else none
  | .dmaAsync b w off bytes write, c =>
    if s.core.tx b then none
    else some (c, { s with core := s.core.submit ⟨b, w, off, bytes, write⟩ c })
  | .sendResponse who cookie ret, _ =>
    some ((), { s with core := s.core.emit (.response (s.core.gidOf who) cookie (s8 ret)) })
  | .ringLastAdd, _ => some (s.ring.lastAdd, s)
  | .ringLastUsed, _ => some (s.ring.lastUsed, s)
  | .ringPut idx b, _ =>
    some ((), { s with ring := { s.ring with elems := update s.ring.elems idx b } })
  | .ringSetLastAdd cnt, _ => some ((), { s with ring := { s.ring with lastAdd := cnt } })
  | .ringWait lastUsed, _ =>
    if vcaRbBuffEmpty s.ring.lastAdd lastUsed then none else some ((), s)
  | .ringGet idx, _ => some ((s.ring.elems idx, s.core.param (s.ring.elems idx)), s)
  | .ringSetLastUsed cnt, _ => some ((), { s with ring := { s.ring with lastUsed := cnt } })

/-- The system: the shared state and what is left of the program of each thread. -/
structure Sys where
  shared : Shared
  req : Option (BProg ℤ)
  cb : Option (BProg Unit)
  xf : BProg ℕ

inductive Label
  /-- The request thread receives a group. -/
  | fetch (g : List VcablkRequest)
  | request (c : ℤ)
  /-- The DMA engine finishes its oldest descriptor. -/
  | dma
  /-- The callback of the oldest finished descriptor starts. -/
  | callbackStart
  | callback (c : ℤ)
  | transfer (c : ℤ)

/-- One step of a thread: perform the first operation of its program. -/
def advance {α : Type} (s : Shared) (p : BProg α) (c : ℤ) : Option (Shared × BProg α) :=
  match p with
  | .ret _ => none
  | .act o k => (sem s o c).map fun r ↦ (r.2, k r.1)

/-- One step of the system. A thread whose program is finished goes back to the head of its loop. -/
def step (s : Sys) : Label → Option Sys
  | .fetch g =>
    match s.req with
    | none => some { s with
        shared := { s.shared with core := s.shared.core.fetch g }
        req := some (vcablkBckndDiskRequest g) }
    | some _ => none
  | .request c =>
    match s.req with
    | none => none
    | some (.ret _) => some { s with req := none }
    | some p => (advance s.shared p c).map fun r ↦ { s with shared := r.1, req := some r.2 }
  | .dma =>
    match s.shared.core.dma with
    | [] => none
    | d :: rest => some { s with shared := { s.shared with core := s.shared.core.move d rest } }
  | .callbackStart =>
    match s.cb, s.shared.core.done with
    | none, b :: rest => some { s with
        shared := { s.shared with core := { s.shared.core with done := rest } }
        cb := some (vcaBckndCallbackDma b (s.shared.core.param b)) }
    | _, _ => none
  | .callback c =>
    match s.cb with
    | none => none
    | some (.ret _) => some { s with cb := none }
    | some p => (advance s.shared p c).map fun r ↦ { s with shared := r.1, cb := some r.2 }
  | .transfer c =>
    match s.xf with
    | .ret lastUsed => some { s with xf := vcablkBckndDiskMakeTransferThread lastUsed }
    | p => (advance s.shared p c).map fun r ↦ { s with shared := r.1, xf := r.2 }

/-- The disk right after `vcablk_bcknd_disk_start`, with arbitrary contents of media and memory. -/
def init (media mem : ℕ → UInt8) : Sys where
  shared :=
    { core :=
        { param := fun _ ↦ ⟨0, 0, none, 0, false, false⟩
          tx := fun _ ↦ false
          data := fun _ _ ↦ 0
          group := fun _ ↦ 0
          dma := []
          done := []
          media := media
          mem := mem
          nextWin := 0
          groups := []
          log := [] }
      pool := vcablkPoolClear vcablkTransferRingSize
      ring := ⟨vcablkTransferRingSize, 0, 0, fun _ ↦ 0⟩ }
  req := none
  cb := none
  xf := vcablkBckndDiskMakeTransferThread 0

/-- One sector of data, to be written from frontend address 4096 to sector 3. -/
def writeEntry : VcablkRequest := ⟨4096, 3, 1, 1, .write⟩

/-- The labels with which a group of one write entry is served from reception to completion. -/
def writeRun : List Label :=
  [.fetch [writeEntry], .request 1, .request 0, .request 0, .request 1, .request 0, .dma,
    .callbackStart, .callback 0, .callback 0, .callback 0, .callback 0, .callback 0, .callback 0,
    .callback 0, .transfer 0, .transfer 0, .transfer 0, .transfer 0, .transfer 0, .transfer 0,
    .transfer 0]

/-- The history of a state. -/
def Sys.log (s : Sys) : List Event := s.shared.core.log

end Vcass.BlockIo.Bcknd
