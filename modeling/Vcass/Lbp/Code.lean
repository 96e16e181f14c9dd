import Mathlib.Algebra.Order.Ring.Nat
import Mathlib.Data.List.Basic

/-!
# The leveraged boot protocol: boot and flash commands

The host boots a card, or has its flash written, through the scratch pads of the switch. It places a command
in one of them and polls another, the ready register, until the card has set one of the bits that are waited
for. Some commands need an image, which is sent before: the card maps a ramdisk, and the host copies the
image into it chunk by chunk, each one through a remapping of its own.

## The environment

What the card, the DMA and the kernel answer is given in advance: the values of the ready register in the
order in which they are read, and the outcomes of each chunk by its number. A function of the driver takes
the environment and a state and returns a value and a state.

## Error codes

One `int` carries negative error codes, the ready bits on which a wait has ended and the result.
-/

namespace Vcass.Lbp

/-! ## Registers and codes -/

/-- The scratch pads that the host writes. -/
inductive Spad
  | i7Cmd
  | dataLow
  | dataHigh
  deriving DecidableEq, Repr

def i7Ready : UInt32 := (1 : UInt32) <<< 1

def i7Booting : UInt32 := (1 : UInt32) <<< 3

def i7Flashing : UInt32 := (1 : UInt32) <<< 4

def i7Done : UInt32 := (1 : UInt32) <<< 5

def i7UefiError : UInt32 := (1 : UInt32) <<< 6

def i7GeneralError : UInt32 := (1 : UInt32) <<< 7

def i7OsReady : UInt32 := (1 : UInt32) <<< 8

def i7BootingBlockIo : UInt32 := (1 : UInt32) <<< 17

def i7AnyError : UInt32 := i7UefiError ||| i7GeneralError

/-- The field `ready` of the ready register. -/
def readyBits (value : UInt32) : UInt32 := value &&& 0xffffff

/-- `struct plx_lbp_i7_cmd`. -/
def i7Cmd (cmd param : UInt32) : UInt32 := cmd ||| param <<< 16

def cmdBootLoader : UInt32 := 1

def cmdMapRamdisk : UInt32 := 2

def cmdBootRamdisk : UInt32 := 4

def cmdFlashFw : UInt32 := 5

def cmdFlashBios : UInt32 := 6

def cmdBootBlockIo : UInt32 := 13

def paramBar23 : UInt32 := 1

def lbpStateOk : Int32 := 0

def lbpAllocTimeout : Int32 := 3

def lbpCmdTimeout : Int32 := 4

def lbpInternalError : Int32 := 7

def etime : Int32 := 62

def enomem : Int32 := 12

def ebusy : Int32 := 16

/-- An image of the user; its size is a `size_t`. -/
structure Image where
  bytes : List UInt8
  lt : bytes.length < 2 ^ 64

/-! ## The environment and the state -/

/-- How the DMA of a chunk goes. -/
structure Dma where
  /-- A descriptor was to be had. -/
  prep : Bool
  cookie : Int32
  /-- The status with which `dma_sync_wait` returns. -/
  status : Int32
  /-- How much was written if the status is not zero. -/
  written : ℕ

structure Env where
  /-- The values of the ready register, by the number of the read. -/
  ready : ℕ → UInt32
  dataLow : UInt32
  dataHigh : UInt32
  /-- There is a channel to be had for a device that has none. -/
  requestDmaChan : Bool
  /-- The result of `plx_program_rid_lut_for_node`. -/
  programRidLut : Int32
  /-- Whether there are pages for a buffer of the given size. -/
  getFreePages : ℕ → Bool
  dmaMappingError : Bool
  /-- How many bytes of a chunk could not be copied from the user. -/
  copyFromUser : ℕ → ℕ
  /-- Where the A-LUT maps a chunk. -/
  aLutEntry : ℕ → Option UInt64
  dma : ℕ → Dma

structure PlxDevice where
  aLut : Bool
  dmaCh : Bool
  /-- The bus address of the aperture. -/
  aperPa : UInt64
  i7AllocTimeoutMs : ℕ
  i7CmdTimeoutMs : ℕ

/-- What can be observed. -/
inductive Event
  | writeSpad (reg : Spad) (value : UInt32)
  /-- A wait has ended on this ready word. -/
  | waited (ready : UInt32)
  /-- A byte was written to the memory of the card. -/
  | wrote (addr : UInt64) (byte : UInt8)
  deriving DecidableEq, Repr

/-- A range of the aperture that stands for a range of the memory of the card. -/
structure Mapping where
  out : UInt64
  pa : UInt64
  len : ℕ
  deriving DecidableEq, Repr

structure Sys where
  /-- How often the ready register was read. -/
  reads : ℕ
  mappings : List Mapping
  /-- The field of the boot parameters, once it is set. -/
  blockioDp : Option UInt64
  log : List Event

def Sys.init : Sys := ⟨0, [], none, []⟩

def Sys.record (s : Sys) (es : List Event) : Sys := { s with log := s.log ++ es }

def Sys.writeSpad (s : Sys) (reg : Spad) (value : UInt32) : Sys := s.record [.writeSpad reg value]

/-- The address on the card behind an offset of the aperture. -/
def cardAddr (mappings : List Mapping) (offset : UInt64) : Option UInt64 :=
  (mappings.find? fun m ↦ decide ((offset - m.out).toNat < m.len)).map fun m ↦ m.pa + (offset - m.out)

/-- Bytes are written to the aperture. -/
def writeAperture (mappings : List Mapping) (offset : UInt64) (bytes : List UInt8) : List Event :=
  bytes.zipIdx.filterMap fun b ↦ (cardAddr mappings (offset + UInt64.ofNat b.2)).map fun a ↦ .wrote a b.1

section Code

variable (env : Env) (xdev : PlxDevice)

/-! ## Waiting -/

/-- The value of the ready register and its `ready` bits. -/
def plxLbpGetI7Status (s : Sys) : UInt32 × Sys :=
  (readyBits (env.ready s.reads), { s with reads := s.reads + 1 })

/-- The condition of a wait. -/
def inState (state ready : UInt32) : Bool := if state = 0 then ready = state else ready &&& state ≠ 0

/-- `lbp_wait_event`. -/
def lbpWaitEvent (state : UInt32) : (timeout : ℕ) → Sys → Option UInt32 × Sys
  | 0, s => (none, s)
  | timeout + 1, s =>
    let (ready, s) := plxLbpGetI7Status env s
    if inState state ready then (some ready, s) else lbpWaitEvent state timeout s

def plxLbpWaitForI7State (state : UInt32) (timeout : ℕ) (s : Sys) : Int32 × Sys :=
  match lbpWaitEvent env state timeout s with
  | (none, s) => (-etime, s)
  | (some ready, s) => (ready.toInt32, s.record [.waited ready])

/-- The error bits of a ready word that came as an `int`. -/
def anyError (err : Int32) : Bool := err &&& i7AnyError.toInt32 ≠ 0

/-- What the functions do at their label `exit`. -/
def exitCode (err : Int32) : Int32 :=
  if err < 0 then -err
  else if anyError err then lbpInternalError
  else lbpStateOk

/-! ## Sending an image -/

def plxIoremap (k : ℕ) (pa : UInt64) (len : ℕ) (s : Sys) : Option UInt64 × Sys :=
  match if xdev.aLut then env.aLutEntry k else some pa with
  | none => (none, s)
  | some out => (some out, { s with mappings := ⟨out, pa, len⟩ :: s.mappings })

def plxIounmap (out : UInt64) (s : Sys) : Sys :=
  { s with mappings := s.mappings.eraseP fun m ↦ m.out = out }

def vcaLbpSyncDma (dma : Dma) (dst : UInt64) (bytes : List UInt8) (s : Sys) : Int32 × Sys :=
  if !xdev.dmaCh then (-ebusy, s)
  else if !dma.prep then (-enomem, s)
  else if dma.cookie < 0 then (-enomem, s)
  else
    let written := if dma.status = 0 then bytes else bytes.take dma.written
    (dma.status, s.record (writeAperture s.mappings (dst - xdev.aperPa) written))

/-- A chunk goes from the intermediate buffer to the ramdisk, by DMA if there is a channel. -/
def copyChunk (dma : Dma) (remapped : UInt64) (tempBuff : List UInt8) (s : Sys) : Int32 × Sys :=
  if xdev.dmaCh then
    let chunkDst := xdev.aperPa + remapped
    vcaLbpSyncDma xdev dma chunkDst tempBuff s
  else (0, s.record (writeAperture s.mappings remapped tempBuff))

/-- The loop over the chunks; `fuel` bounds how often it goes round and `k` counts it. -/
def sendChunks (img : List UInt8) (ramdiskPh : UInt64) :
    (fuel offset chunkSize k : ℕ) → (err : Int32) → Sys → Int32 × Sys
  | 0, _, _, _, err, s => (err, s)
  | fuel + 1, offset, chunkSize, k, err, s =>
    if offset < img.length then
      let chunkSize := if img.length - offset < chunkSize then img.length - offset else chunkSize
      if env.copyFromUser k ≠ 0 then (-lbpInternalError, s)
      else
        let tempBuff := (img.drop offset).take chunkSize
        match plxIoremap env xdev k (ramdiskPh + UInt64.ofNat offset) chunkSize s with
        | (none, s) => (-lbpInternalError, s)
        | (some remapped, s) =>
          let (err, s) := copyChunk xdev (env.dma k) remapped tempBuff s
          let s := plxIounmap remapped s
          if err ≠ 0 then (-lbpInternalError, s)
          else sendChunks img ramdiskPh fuel (offset + chunkSize) chunkSize (k + 1) err s
    else (err, s)

def lbpDmaBufferSize : ℕ := 1024 * 1024

def pageSize : ℕ := 4096

/-- The size of the intermediate buffer, if there is memory for one. -/
def tempBuffSize : Option ℕ :=
  if env.getFreePages lbpDmaBufferSize then some lbpDmaBufferSize
  else if env.getFreePages pageSize then some pageSize
  else none

/-- The address of the ramdisk, as it is read from the scratch pads. -/
def ramdiskPh : UInt64 := env.dataHigh.toUInt64 <<< 32 + env.dataLow.toUInt64

def plxLbpSendRamdisk (img : Image) (s : Sys) : Int32 × Sys :=
  let (ready, s) := plxLbpGetI7Status env s
  if ready ≠ i7Ready then (exitCode (-lbpInternalError), s)
  else
    match tempBuffSize env with
    | none => (exitCode (-lbpInternalError), s)
    | some tempBuffSize =>
      if xdev.dmaCh && env.dmaMappingError then (exitCode (-lbpInternalError), s)
      else
        let allocSize := (UInt64.ofNat img.bytes.length + (1024 * 1024 - 1)) / (1024 * 1024)
        let s := s.writeSpad .dataLow allocSize.toUInt32
        let s := s.writeSpad .dataHigh 0
        let s := s.writeSpad .i7Cmd (i7Cmd cmdMapRamdisk paramBar23)
        let (err, s) := plxLbpWaitForI7State env (i7Done ||| i7AnyError) xdev.i7AllocTimeoutMs s
        if err < 0 then
          -- The ready word is read once more, for the message.
          let (_, s) := plxLbpGetI7Status env s
          (exitCode (-lbpAllocTimeout), s)
        else if anyError err then (exitCode err, s)
        else
          let (err, s) := sendChunks env xdev img.bytes (ramdiskPh env) (img.bytes.length + 1) 0 tempBuffSize 0 err s
          (exitCode err, s)

/-! ## The commands -/

/-- A command is placed, and the card is waited for. -/
def request (cmd state : UInt32) (timeout : ℕ) (s : Sys) : Int32 × Sys :=
  plxLbpWaitForI7State env state timeout (s.writeSpad .i7Cmd cmd)

/-- A device without a channel asks for one. -/
def plxRequestDmaChan : PlxDevice := { xdev with dmaCh := xdev.dmaCh || env.requestDmaChan }

def plxLbpBootRamdisk (img : Image) (s : Sys) : Int32 × Sys :=
  let xdev := plxRequestDmaChan env xdev
  if env.programRidLut ≠ 0 then (lbpInternalError, s)
  else
    let (err, s) := plxLbpSendRamdisk env xdev img s
    if err ≠ lbpStateOk then (err, s)
    else
      let (err, s) :=
        request env (i7Cmd cmdBootRamdisk 0) (i7Booting ||| i7OsReady ||| i7AnyError) xdev.i7CmdTimeoutMs s
      if err < 0 then (exitCode (-lbpCmdTimeout), s)
      else (exitCode err, s)

/-- The scratch pads hold the address of the device page now. -/
def plxLbpBlkioSetDevpage (s : Sys) : Sys := { s with blockioDp := some (ramdiskPh env) }

def plxLbpBootBlkdisk (s : Sys) : Int32 × Sys :=
  let xdev := plxRequestDmaChan env xdev
  if env.programRidLut ≠ 0 then (lbpInternalError, s)
  else
    let (ready, s) := plxLbpGetI7Status env s
    if ready ≠ i7Ready then (-lbpInternalError, s)
    else
      let (err, s) :=
        request env (i7Cmd cmdBootBlockIo 0) (i7BootingBlockIo ||| i7OsReady ||| i7AnyError) xdev.i7CmdTimeoutMs s
      if err < 0 then (exitCode (-lbpCmdTimeout), s)
      else if anyError err then (exitCode err, s)
      else (lbpStateOk, plxLbpBlkioSetDevpage env s)

/-- The second wait of a flash command; the BIOS takes its time. -/
def flashTimeoutMs : ℕ := 300000

def plxLbpFlash (cmd : UInt32) (img : Image) (s : Sys) : Int32 × Sys :=
  let (err, s) := plxLbpSendRamdisk env xdev img s
  if err ≠ lbpStateOk then (err, s)
  else
    let (err, s) := request env cmd (i7Flashing ||| i7AnyError) xdev.i7CmdTimeoutMs s
    if err < 0 then (exitCode (-lbpCmdTimeout), s)
    else if anyError err then (exitCode err, s)
    else
      let (err, s) := plxLbpWaitForI7State env (i7Done ||| i7AnyError) flashTimeoutMs s
      if err < 0 then (exitCode (-lbpCmdTimeout), s)
      else (exitCode err, s)

def plxLbpFlashBios (img : Image) (s : Sys) : Int32 × Sys := plxLbpFlash env xdev (i7Cmd cmdFlashBios 0) img s

def plxLbpClearSmbEventLog (img : Image) (s : Sys) : Int32 × Sys :=
  plxLbpFlash env xdev (i7Cmd cmdFlashBios 0) img s

def plxLbpUpdateMacAddr (img : Image) (s : Sys) : Int32 × Sys := plxLbpFlash env xdev (i7Cmd cmdFlashFw 0) img s

def plxLbpSetSerialNumber (img : Image) (s : Sys) : Int32 × Sys := plxLbpFlash env xdev (i7Cmd cmdFlashFw 0) img s

/-- The one command that looks only at the sign of what its wait returns. -/
def plxLbpBootFromUsb (s : Sys) : Int32 × Sys :=
  let xdev := plxRequestDmaChan env xdev
  if env.programRidLut ≠ 0 then (lbpInternalError, s)
  else
    let (err, s) := request env (i7Cmd cmdBootLoader 0) (i7Booting ||| i7AnyError) xdev.i7CmdTimeoutMs s
    if err < 0 then (lbpCmdTimeout, s) else (lbpStateOk, s)

end Code

/-- The commands. -/
inductive Command
  | bootRamdisk (img : Image)
  | bootBlkdisk
  | flashBios (img : Image)
  | clearSmbEventLog (img : Image)
  | updateMacAddr (img : Image)
  | setSerialNumber (img : Image)
  | bootFromUsb

def run (env : Env) (xdev : PlxDevice) : Command → Int32 × Sys
  | .bootRamdisk img => plxLbpBootRamdisk env xdev img .init
  | .bootBlkdisk => plxLbpBootBlkdisk env xdev .init
  | .flashBios img => plxLbpFlashBios env xdev img .init
  | .clearSmbEventLog img => plxLbpClearSmbEventLog env xdev img .init
  | .updateMacAddr img => plxLbpUpdateMacAddr env xdev img .init
  | .setSerialNumber img => plxLbpSetSerialNumber env xdev img .init
  | .bootFromUsb => plxLbpBootFromUsb env xdev .init

end Vcass.Lbp
