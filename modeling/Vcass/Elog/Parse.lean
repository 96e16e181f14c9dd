import Mathlib.Data.Nat.Digits.Defs
import Vcass.Lib.Walk

/-!
# The SMBIOS event log

`vca_elog.py` prints the events of the log that the BIOS of a node keeps. It reads the log where it lies in
`/dev/mem`, or, with `-i`, a file to which `-d` has saved the log.

A record begins with its type and its length, a time and a format byte. The format says what comes next, and the
type what comes after that; each parser takes from `CurShift` what it has read, so that what is left of it at the
end leads to the next record. `0xff` in place of a type ends the log. Nothing else does: at the end of the file
`ord` or `struct.unpack` raises, and the script dies.
-/

namespace Vcass.Elog

/-! ## The file -/

/-- The position of `fp`, and the global `CurShift`. -/
structure Cursor where
  pos : ℕ
  curShift : ℤ

inductive Stop
  /-- The loop is left at a type `0xff`. -/
  | endOfLog
  /-- `ord` of no byte, or `struct.unpack` of too few. -/
  | endOfData
  /-- `biosdata[2]` of the empty tuple. -/
  | indexError
  /-- A seek before the file. -/
  | ioError
  /-- The loop of `parse_evt_cnt` has gone on for longer than it can. -/
  | stuck
  deriving DecidableEq, Repr

/-- A function that reads `fp` and moves it and `CurShift`. -/
abbrev Parser (α : Type) := ReaderT (List UInt8) (StateT Cursor (Except Stop)) α

def fail {α : Type} (e : Stop) : Parser α := fun _ _ ↦ .error e

/-- `fp.read(n)`, which gives less at the end of the file. -/
def read (n : ℕ) : Parser (List UInt8) := fun file c ↦
  .ok ((file.drop c.pos).take n, { c with pos := c.pos + ((file.drop c.pos).take n).length })

/-- `ord(fp.read(1))` -/
def ord : Parser ℕ := do
  match ← read 1 with
  | [b] => return b.toNat
  | _ => fail .endOfData

/-- `struct.unpack` of a number of `n` bytes. -/
def unpack (n : ℕ) : Parser ℕ := do
  let data ← read n
  if data.length = n then return Nat.ofDigits 256 (data.map UInt8.toNat) else fail .endOfData

/-- `fp.seek(off, 1)`, which may go behind the end of the file. -/
def seek (off : ℤ) : Parser Unit := fun _ c ↦
  if 0 ≤ c.pos + off then .ok ((), { c with pos := (c.pos + off).toNat }) else .error .ioError

def setCurShift (n : ℤ) : Parser Unit := fun _ c ↦ .ok ((), { c with curShift := n })

/-- `CurShift -= n` -/
def takeCurShift (n : ℤ) : Parser Unit := fun _ c ↦ .ok ((), { c with curShift := c.curShift - n })

/-- `fp.seek(CurShift, 1)` -/
def seekCurShift : Parser Unit := fun file c ↦ seek c.curShift file c

/-! ## The time -/

structure DateTime where
  year : ℕ
  month : ℕ
  day : ℕ
  hour : ℕ
  min : ℕ
  sec : ℕ
  deriving DecidableEq, Repr

def isLeap (year : ℕ) : Bool := year % 4 = 0 && (year % 100 ≠ 0 || year % 400 = 0)

def daysInMonth (year month : ℕ) : ℕ :=
  if month = 2 then (if isLeap year then 29 else 28)
  else if month ∈ [4, 6, 9, 11] then 30 else 31

/-- `datetime.datetime`, which raises for what is not a time. -/
def datetime (year month day hour min sec : ℕ) : Option DateTime :=
  if 1 ≤ month ∧ month ≤ 12 ∧ 1 ≤ day ∧ day ≤ daysInMonth year month ∧ hour < 24 ∧ min < 60 ∧ sec < 60 then
    some ⟨year, month, day, hour, min, sec⟩ else none

def bcdLoop (par res curMul : ℕ) : ℕ :=
  if par = 0 then res else bcdLoop (par / 16) (res + curMul * (par % 16)) (curMul * 10)
termination_by par

def bcdToBin (par : ℕ) : ℕ := bcdLoop par 0 1

def parseTime : Parser DateTime := do
  let year ← ord
  let month ← ord
  let day ← ord
  let hour ← ord
  let min ← ord
  let sec ← ord
  let tm := datetime (bcdToBin year + 2000) (bcdToBin month) (bcdToBin day) (bcdToBin hour) (bcdToBin min)
    (bcdToBin sec)
  takeCurShift 6
  return tm.getD ⟨2000, 1, 1, 0, 0, 0⟩

/-! ## The data of the format -/

def parseBiosHandle : Parser ℕ := do
  let biosHandle ← unpack 2
  takeCurShift 2
  return biosHandle

/-- The loop of `parse_evt_cnt`, which shifts ones in until there is nothing else. -/
def evtCntLoop : ℕ → BitVec 32 → ℕ → Option ℕ
  | fuel, evnCnt, locCnt =>
    if evnCnt = 0xffffffff#32 then some locCnt
    else match fuel with
      | 0 => none
      | fuel + 1 => evtCntLoop fuel (evnCnt >>> 1 ||| 0x80000000#32) (locCnt + 1)

def parseEvtCnt : Parser ℕ := do
  let evnCnt ← unpack 4
  takeCurShift 4
  match evtCntLoop 32 (BitVec.ofNat 32 evnCnt) 1 with
  | some locCnt => return locCnt
  | none => fail .stuck

def parseDword : Parser ℕ := do
  let dword ← unpack 4
  takeCurShift 4
  return dword

/-- The data of a format, whose values are for debug output only; none is an unknown format. -/
def parseFormat : ℕ → Option (Parser Unit)
  | 1 => some (discard parseBiosHandle)
  | 2 => some (discard parseEvtCnt)
  | 3 => some (do discard parseBiosHandle; discard parseEvtCnt)
  | 4 => some (discard parseDword)
  | 5 => some (discard parseDword)
  | 6 => some (do discard parseDword; discard parseEvtCnt)
  | evtLogFrm => if 0x80 ≤ evtLogFrm ∧ evtLogFrm ≤ 0xff then some (pure ()) else none

/-! ## The data of the event -/

/-- What `GetBIOSInformation` returns; the version numbers are the number 0 where there is no text. -/
structure BiosVersion where
  known : Bool
  name : List Char
  major : Option (List Char)
  minor : Option (List Char)
  deriving DecidableEq, Repr

/-- The order of Python 2, where a number comes before every text. -/
def before (major : Option (List Char)) (text : List Char) : Bool := major.all (· < text)

def parseEccErrorData : Parser (List ℕ) := do
  takeCurShift 3
  let a ← ord
  let b ← ord
  let c ← ord
  return [a, b, c]

/-- `biosdata` is the empty tuple when a file is read. -/
def parsePciErrorData (biosdata : Option BiosVersion) : Parser (List ℕ) :=
  match biosdata with
  | none => fail .indexError
  | some bios =>
    if before bios.major "012".toList then return [0xff, 0xff, 0xff]
    else do
      takeCurShift 6
      seek 3
      let a ← ord
      let b ← ord
      let c ← ord
      return [a, b, c]

/-- The functions that `EventDatas` names. -/
inductive ErrParser
  | emptyParser
  | parseEccErrorData
  | parsePciErrorData
  deriving DecidableEq, Repr

def ErrParser.run (biosdata : Option BiosVersion) : ErrParser → Parser (List ℕ)
  | emptyParser => return []
  | parseEccErrorData => Elog.parseEccErrorData
  | parsePciErrorData => Elog.parsePciErrorData biosdata

structure EventData where
  name : String
  template : String
  parser : ErrParser
  deriving DecidableEq, Repr

def eventDatas : List (ℕ × EventData) := [
  (0x01, ⟨"Single Bit ECC Memory Error", "S%x:C%x:D%x", .parseEccErrorData⟩),
  (0x02, ⟨"Multi Bit ECC Memory Error", "S%x:C%x:D%x", .parseEccErrorData⟩),
  (0x03, ⟨"Parity Memory Error", "", .emptyParser⟩),
  (0x04, ⟨"Bus Time Out", "", .emptyParser⟩),
  (0x05, ⟨"I/O Channel Check", "", .emptyParser⟩),
  (0x06, ⟨"Software NMI", "", .emptyParser⟩),
  (0x07, ⟨"POST Memory Resize", "", .emptyParser⟩),
  (0x08, ⟨"POST Errors", "", .emptyParser⟩),
  (0x09, ⟨"PCI Parity Error", "B%x:D%x:F%x", .parsePciErrorData⟩),
  (0x0A, ⟨"PCI System Error", "B%x:D%x:F%x", .parsePciErrorData⟩),
  (0x0B, ⟨"CPU Failure", "", .emptyParser⟩),
  (0x0C, ⟨"EISA Failsafe Timer Timeout", "", .emptyParser⟩),
  (0x0D, ⟨"Correctable Memory Log Disabled", "", .emptyParser⟩),
  (0x0E, ⟨"Logging Disabled for Event Type", "", .emptyParser⟩),
  (0x10, ⟨"System Limit Exceeded", "", .emptyParser⟩),
  (0x11, ⟨"Asyn HW Timer Expired", "", .emptyParser⟩),
  (0x12, ⟨"System Configuration Information", "", .emptyParser⟩),
  (0x13, ⟨"Hard Disk Information", "", .emptyParser⟩),
  (0x14, ⟨"System Reconfigured", "", .emptyParser⟩),
  (0x15, ⟨"Uncorrectable CPU Complex Error", "", .emptyParser⟩),
  (0x16, ⟨"Log Area Reset", "", .emptyParser⟩),
  (0x17, ⟨"System Boot", "", .emptyParser⟩),
  (0xE0, ⟨"OEM0", "", .emptyParser⟩),
  (0xE1, ⟨"OEM1", "", .emptyParser⟩),
  (0xE2, ⟨"OEM2", "", .emptyParser⟩)]

/-! ## The records -/

/-- An event of a known type. -/
structure Event where
  typeEvt : ℕ
  data : EventData
  curTm : DateTime
  errInfo : List ℕ
  deriving DecidableEq, Repr

/-- The data behind the header of a record, and the event if its type is known. -/
def parseData (biosdata : Option BiosVersion) (typeEvt evtLogFrm : ℕ) (curTm : DateTime) : Parser (Option Event) :=
  match parseFormat evtLogFrm with
  | none => return none
  | some parse => do
    parse
    match eventDatas.lookup typeEvt with
    | none => return none
    | some data =>
      let errInfo ← data.parser.run biosdata
      return some ⟨typeEvt, data, curTm, errInfo⟩

/-- One round of the loop of `print_events`, and the event it counts; a seek ends it, whatever was read. -/
def parseRecord (biosdata : Option BiosVersion) : Parser (Option Event) := do
  let typeEvt ← ord
  if typeEvt = 0xff then fail .endOfLog
  else
    let length ← ord
    setCurShift (length - 2)
    let curTm ← parseTime
    let evtLogFrm ← ord
    takeCurShift 1
    let event ← parseData biosdata typeEvt evtLogFrm curTm
    seekCurShift
    return event

/-- A round from a position; `CurShift` is set before it is used. -/
def step (biosdata : Option BiosVersion) (file : List UInt8) (p : ℕ) : Except Stop (ℕ × Option Event) :=
  match parseRecord biosdata file ⟨p, 0⟩ with
  | .error e => .error e
  | .ok (event, c) => .ok (c.pos, event)

/-- The loop of `print_events`, from the position where the file stands. -/
def printEvents (biosdata : Option BiosVersion) (file : List UInt8) (fuel start : ℕ) : Walk.Trace Stop (Option Event) :=
  Walk.walk (step biosdata file) fuel start

end Vcass.Elog
