import Mathlib.Logic.Function.Basic
import Vcass.Lib.Prog
import Vcass.Lib.Run
import Vcass.BlockIo.Common

/-!
# Block I/O: the device page

For every disk the device page has a `command`, which the backend writes for the frontend, and a response with a
`status` and a `command_ack`, which the frontend writes for the backend. Both are a single byte. The frontend runs
`vcablk_probe_work` over all disks; the backend writes commands from its ioctl, one call at a time under a mutex, and
from `vcablk_bcknd_ftb_work`, which does not take that mutex.

Every access to a command, a status or an acknowledgement is a step of its own. Any of the three threads may start at
any time, since an interrupt may be late or be meant for another disk. What a task of the frontend or an operation on
a disk of the backend returns is a choice of the environment, and so is why the backend closes the page or opens it
again. The page itself is the same throughout.

## History

Commands are numbered in the order in which they are written. `current` is the number of the command in the byte,
`serving` the one `vcablk_handle_task` was called for, `ackOf` the one whose acknowledgement stands in the page, and
`waiting` the one for which the ioctl waits. A command is `handled` once `vcablk_handle_task` has returned; the next
thing the frontend does is to write the status. A command that leaves the byte before that goes to `lost`, and
`accepted` pairs the command of a wait with the one that was acknowledged. No operation depends on these.
-/

namespace Vcass.BlockIo.Mailbox

open Conc
open Function (update)

def enodev : ℤ := 19

def enospc : ℤ := 28

/-! ## The page -/

/-- `CMD_NONE` to `CMD_DESTROY`. -/
inductive Command
  | none
  | create
  | run
  | stopNormal
  | stopForce
  | destroy
  | other (code : ℕ)
  deriving DecidableEq, Repr

/-- The backend waits for the acknowledgement of these. -/
def Command.awaited : Command → Bool
  | stopNormal => true
  | stopForce => true
  | destroy => true
  | _ => false

structure DeviceCtrl where
  command : Command
  status : ℤ
  commandAck : Command
  deriving DecidableEq, Repr

/-- `DISK_STATE_CREATE` and `DISK_STATE_OPEN`. -/
inductive DiskState
  | create
  | opened
  deriving DecidableEq, Repr

/-- How `wait_event_interruptible_timeout` ends. The callers take a signal for a success. -/
inductive WaitResult
  | timeout
  | signal
  | done
  deriving DecidableEq, Repr

/-! ## Operations -/

/-- What `vcablk_bcknd_ftb_work` finds out about the page, besides the commands. -/
inductive Query
  /-- Whether `get_dp_addr` returns an address. -/
  | address
  /-- Whether the address has changed, the page is invalid, or the frontend asks to destroy it. -/
  | close
  /-- Whether the page is still the one that is open, and `reinit_dev_page` is not set. -/
  | same
  /-- Whether `vcablk_bcknd_open_dev_page` can map the page and finds it in order. -/
  | usable
  deriving DecidableEq, Repr

inductive Op
  | readCommand (i : ℕ)
  /-- The `switch` of `vcablk_handle_task`. -/
  | switchCommand (i : ℕ)
  /-- What the frontend does for a command. -/
  | task (i : ℕ) (command : Command)
  | writeCommand (i : ℕ) (command : Command)
  | readStatus (i : ℕ)
  | writeStatus (i : ℕ) (err : ℤ)
  /-- The frontend writes what `vcablk_handle_task` returned. -/
  | report (i : ℕ) (err : ℤ)
  | readAck (i : ℕ)
  | writeAck (i : ℕ) (ack : Command)
  | waitAck (i n : ℕ)
  /-- Whether `dev_pages_remapped` is set. -/
  | pages
  | ask (q : Query)
  | setPages (mapped : Bool)
  | diskState (i : ℕ)
  | diskCreate (i : ℕ)
  | diskStart (i : ℕ)
  | diskStop (i : ℕ)
  | diskDestroy (i : ℕ)
  deriving DecidableEq

abbrev Res : Op → Type
  | .readCommand _ => Command
  | .switchCommand _ => Command
  | .task _ _ => ℤ
  | .writeCommand _ _ => ℕ
  | .readStatus _ => ℤ
  | .readAck _ => Command
  | .waitAck _ _ => WaitResult
  | .pages => Bool
  | .ask _ => Bool
  | .diskState _ => Option DiskState
  | .diskCreate _ => ℤ
  | .diskStart _ => ℤ
  | _ => Unit

abbrev MProg := Prog Op Res

abbrev call (o : Op) : MProg (Res o) := Prog.perform o

/-! ## The frontend -/

/-- The first read of the command is for a message. -/
def vcablkHandleTask (i : ℕ) : MProg ℤ := do
  let _ ← call (.readCommand i)
  match ← call (.switchCommand i) with
  | .create => call (.task i .create)
  | .run => call (.task i .run)
  | .stopNormal | .stopForce => do
    let command ← call (.readCommand i)
    call (.task i (if command = .stopForce then .stopForce else .stopNormal))
  | .destroy => call (.task i .destroy)
  | .none | .other _ => pure (-eio)

/-- The loop of `vcablk_probe_work`. -/
def vcablkProbeWork : List ℕ → MProg Unit
  | [] => pure ()
  | i :: rest => do
    let command ← call (.readCommand i)
    if command ≠ .none then
      let task ← call (.readCommand i)
      let err ← vcablkHandleTask i
      call (.report i err)
      call (.writeAck i task)
      let _ ← call (.writeCommand i .none)
      vcablkProbeWork rest
    else
      vcablkProbeWork rest

/-! ## The backend -/

/-- `maxDev` is the module parameter `vcablk_bcknd_max_dev`, `numDevices` the field of the page. -/
structure Limits where
  frontendMaxDev : ℕ
  numDevices : ℕ
  maxDev : ℕ

/-- The first read of the command is for a message. -/
def vcablkBckndAddToDevpage (lim : Limits) (i : ℕ) : MProg ℤ := do
  if lim.numDevices ≤ i then
    pure (-enospc)
  else
    let _ ← call (.readCommand i)
    match ← call (.diskState i) with
    | some .create =>
      let _ ← call (.writeCommand i .create)
      pure 0
    | _ => pure (-eio)

/-- The wait for the acknowledgement of command `n`, and what follows it. -/
def vcablkBckndWait (i n : ℕ) : MProg ℤ := do
  match ← call (.waitAck i n) with
  | .timeout => pure (-enodev)
  | _ =>
    let err ← call (.readStatus i)
    call (.writeAck i .none)
    pure err

def vcablkBckndTryStopFrontend (i : ℕ) (force : Bool) : MProg ℤ := do
  match ← call (.diskState i) with
  | none => pure (-enodev)
  | some .create => pure 0
  | some .opened =>
    if ← call .pages then
      let _ ← call (.readCommand i)
      call (.writeStatus i 0)
      let n ← call (.writeCommand i (if force then .stopForce else .stopNormal))
      vcablkBckndWait i n
    else
      pure 0

def vcablkBckndTryDestroyFrontend (i : ℕ) : MProg ℤ := do
  match ← call (.diskState i) with
  | none => pure (-enodev)
  | some _ =>
    if ← call .pages then
      let _ ← call (.readCommand i)
      call (.writeStatus i 0)
      call (.writeAck i .none)
      let n ← call (.writeCommand i .destroy)
      let err ← vcablkBckndWait i n
      let state ← call (.diskState i)
      pure (if state ≠ some .create then -eio else err)
    else
      pure 0

def vcablkBckndDestroy (i : ℕ) (force : Bool) : MProg ℤ := do
  match ← call (.diskState i) with
  | none => pure (-enodev)
  | some state =>
    let err ← if state = .opened then vcablkBckndTryStopFrontend i force else pure 0
    if force = false ∧ err = -ebusy then
      pure err
    else
      let _ ← vcablkBckndTryDestroyFrontend i
      call (.diskDestroy i)
      pure 0

def vcablkBckndCreate (lim : Limits) (i : ℕ) : MProg ℤ := do
  if lim.maxDev ≤ i then
    pure (-einval)
  else
    match ← call (.diskState i) with
    | some _ => pure (-ebusy)
    | none =>
      let err ← call (.diskCreate i)
      if err ≠ 0 then
        pure err
      else if ← call .pages then
        vcablkBckndAddToDevpage lim i
      else
        pure 0

/-- The end of `vcablk_bcknd_open_dev_page`. -/
def vcablkBckndAddWaiting (lim : Limits) : List ℕ → MProg Unit
  | [] => pure ()
  | i :: rest => do
    match ← call (.diskState i) with
    | some .create =>
      let _ ← vcablkBckndAddToDevpage lim i
      vcablkBckndAddWaiting lim rest
    | _ => vcablkBckndAddWaiting lim rest

/-- The reaction of `vcablk_bcknd_ftb_work` to an acknowledgement that came with `err`. For STOP and DESTROY it wakes up
the ioctl, whose wait looks at the page itself. -/
def vcablkBckndAck (i : ℕ) (err : ℤ) : MProg Unit := do
  match ← call (.readAck i) with
  | .create =>
    call (.writeAck i .none)
    let err ← if err = 0 then call (.diskStart i) else pure err
    if err = 0 then
      let _ ← call (.writeCommand i .run)
      pure ()
    else
      pure ()
  | .run => call (.writeAck i .none)
  | .stopNormal | .stopForce | .destroy => pure ()
  | .none | .other _ => call (.writeAck i .none)

/-- The loop of `vcablk_bcknd_ftb_work`. -/
def vcablkBckndFtbLoop : List ℕ → MProg Unit
  | [] => pure ()
  | i :: rest => do
    let ack ← call (.readAck i)
    if ack ≠ .none then
      let err ← call (.readStatus i)
      match ← call (.diskState i) with
      | some _ =>
        vcablkBckndAck i err
        vcablkBckndFtbLoop rest
      | none => vcablkBckndFtbLoop rest
    else
      vcablkBckndFtbLoop rest

/-- The loop of `vcablk_bcknd_close_dev_page`. -/
def vcablkBckndStopOpen : List ℕ → MProg Unit
  | [] => pure ()
  | i :: rest => do
    match ← call (.diskState i) with
    | some .opened =>
      call (.diskStop i)
      vcablkBckndStopOpen rest
    | _ => vcablkBckndStopOpen rest

def vcablkBckndCloseDevPage (lim : Limits) : MProg Unit := do
  call (.setPages false)
  vcablkBckndStopOpen (List.range lim.maxDev)

def vcablkBckndOpenDevPage (lim : Limits) : MProg Bool := do
  if ← call (.ask .usable) then
    vcablkBckndAddWaiting lim (List.range (min lim.numDevices lim.maxDev))
    pure true
  else
    pure false

/-- For an address that is not zero. -/
def vcablkBckndSetDevPage (lim : Limits) : MProg Unit := do
  if ← call .pages then
    if ← call (.ask .same) then
      pure ()
    else
      vcablkBckndCloseDevPage lim
      call (.setPages (← vcablkBckndOpenDevPage lim))
  else
    call (.setPages (← vcablkBckndOpenDevPage lim))

def vcablkBckndFtbWork (lim : Limits) : MProg Unit := do
  let address ← call (.ask .address)
  if ← call .pages then
    if ← call (.ask .close) then
      vcablkBckndCloseDevPage lim
  if address then
    vcablkBckndSetDevPage lim
  if ← call .pages then
    vcablkBckndFtbLoop (List.range (min lim.numDevices lim.maxDev))
  else
    pure ()

/-! ## The system -/

structure Shared where
  devs : ℕ → DeviceCtrl
  pagesOpen : Bool
  deviceArray : ℕ → Option DiskState
  issued : ℕ
  current : ℕ → Option ℕ
  serving : ℕ → Option ℕ
  ackOf : ℕ → Option ℕ
  waiting : ℕ → Option ℕ
  handled : List ℕ
  lost : List ℕ
  accepted : List (ℕ × Option ℕ)

namespace Shared

variable (s : Shared)

/-- The command in the byte of disk `i`, if it was not handled. -/
def unhandled (i : ℕ) : List ℕ := (s.current i).toList.filter (· ∉ s.handled)

/-- `vcablk_handle_task` is called for the command in the byte. -/
def serve (i : ℕ) : Shared := { s with serving := update s.serving i (s.current i) }

def writeCommand (i : ℕ) (command : Command) : Shared :=
  { s with
    devs := update s.devs i { s.devs i with command := command }
    issued := s.issued + 1
    current := update s.current i (if command = .none then none else some s.issued)
    serving := update s.serving i none
    waiting := if command.awaited then update s.waiting i (some s.issued) else s.waiting
    lost := s.lost ++ s.unhandled i }

def writeStatus (i : ℕ) (err : ℤ) : Shared :=
  { s with devs := update s.devs i { s.devs i with status := err } }

def report (i : ℕ) (err : ℤ) : Shared :=
  { s.writeStatus i err with handled := s.handled ++ (s.serving i).toList }

def writeAck (i : ℕ) (ack : Command) : Shared :=
  { s with
    devs := update s.devs i { s.devs i with commandAck := ack }
    ackOf := update s.ackOf i (if ack = .none then none else s.serving i) }

def endWait (i : ℕ) : Shared := { s with waiting := update s.waiting i none }

def accept (i n : ℕ) : Shared :=
  { s with
    waiting := update s.waiting i none
    accepted := s.accepted ++ [(n, s.ackOf i)] }

def setDisk (i : ℕ) (state : Option DiskState) : Shared :=
  { s with deviceArray := update s.deviceArray i state }

end Shared

/-- What an operation answers and does. For a wait, choice `1` is the timeout and choice `2` a signal. -/
def sem (s : Shared) : (o : Op) → ℤ → Option (Res o × Shared)
  | .readCommand i, _ => some ((s.devs i).command, s)
  | .switchCommand i, _ => some ((s.devs i).command, s.serve i)
  | .task _ _, c => some (c, s)
  | .writeCommand i command, _ => some (s.issued, s.writeCommand i command)
  | .readStatus i, _ => some ((s.devs i).status, s)
  | .writeStatus i err, _ => some ((), s.writeStatus i err)
  | .report i err, _ => some ((), s.report i err)
  | .readAck i, _ => some ((s.devs i).commandAck, s)
  | .writeAck i ack, _ => some ((), s.writeAck i ack)
  | .waitAck i n, c =>
    if (s.devs i).commandAck ≠ .none then some (.done, s.accept i n)
    else if c = 1 then some (.timeout, s.endWait i)
    else if c = 2 then some (.signal, s.endWait i)
    else none
  | .pages, _ => some (s.pagesOpen, s)
  | .ask _, c => some (c ≠ 0, s)
  | .setPages mapped, _ => some ((), { s with pagesOpen := mapped })
  | .diskState i, _ => some (s.deviceArray i, s)
  | .diskCreate i, c => if c = 0 then some (0, s.setDisk i (some .create)) else some (c, s)
  | .diskStart i, c =>
    if s.deviceArray i ≠ some .create then some (-eio, s)
    else if c = 0 then some (0, s.setDisk i (some .opened))
    else some (c, s)
  | .diskStop i, _ => some ((), s.setDisk i (some .create))
  | .diskDestroy i, _ => some ((), s.setDisk i none)

structure Sys where
  shared : Shared
  ioctl : Option (MProg ℤ)
  ftb : Option (MProg Unit)
  probe : Option (MProg Unit)

inductive Label
  /-- `VCA_BLK_OPEN_DISC`. -/
  | create (i : ℕ)
  /-- `VCA_BLK_CLOSE_DISC`, or the end of the module, which is forced. -/
  | destroy (i : ℕ) (force : Bool)
  | ioctl (c : ℤ)
  | startFtb
  | ftb (c : ℤ)
  | startProbe
  | probe (c : ℤ)
  deriving DecidableEq, Repr

/-- A thread that has returned is idle again. -/
def advance {α : Type} (s : Shared) (c : ℤ) : Option (MProg α) → Option (Shared × Option (MProg α))
  | none => none
  | some (.ret _) => some (s, none)
  | some (.act o k) => (sem s o c).map fun r ↦ (r.2, some (k r.1))

/-- One step of the system. -/
def step (lim : Limits) (s : Sys) : Label → Option Sys
  | .create i => if s.ioctl.isSome then none else some { s with ioctl := some (vcablkBckndCreate lim i) }
  | .destroy i force => if s.ioctl.isSome then none else some { s with ioctl := some (vcablkBckndDestroy i force) }
  | .ioctl c => (advance s.shared c s.ioctl).map fun x ↦ { s with shared := x.1, ioctl := x.2 }
  | .startFtb => if s.ftb.isSome then none else some { s with ftb := some (vcablkBckndFtbWork lim) }
  | .ftb c => (advance s.shared c s.ftb).map fun x ↦ { s with shared := x.1, ftb := x.2 }
  | .startProbe =>
    if s.probe.isSome then none else some { s with probe := some (vcablkProbeWork (List.range lim.frontendMaxDev)) }
  | .probe c => (advance s.shared c s.probe).map fun x ↦ { s with shared := x.1, probe := x.2 }

/-- An empty page that the backend has not opened. -/
def init : Sys where
  shared :=
    { devs := fun _ ↦ ⟨.none, 0, .none⟩
      pagesOpen := false
      deviceArray := fun _ ↦ none
      issued := 0
      current := fun _ ↦ none
      serving := fun _ ↦ none
      ackOf := fun _ ↦ none
      waiting := fun _ ↦ none
      handled := []
      lost := []
      accepted := [] }
  ioctl := none
  ftb := none
  probe := none

end Vcass.BlockIo.Mailbox
