import Mathlib.Data.List.Infix
import Mathlib.Logic.Function.Basic
import Vcass.Elog.Parse

/-!
# What the script prints

Without `-i`, the script asks `dmidecode` for the version of the BIOS, which says where the log is in the memory;
with `-d` it saves `0x10000` bytes from there. With `-i` it reads a file from its start, and the version is not known.
-/

namespace Vcass.Elog

/-! ## The events -/

/-- The arguments that say what to print. -/
structure Parameters where
  errors : Bool
  all : Bool
  types : List ℤ
  statistics : Bool

def errorEvents : List ℕ := [0x01, 0x02, 0x03, 0x04, 0x08, 0x09, 0x0A, 0x0B, 0x0C, 0x15]

def allEvents : List ℕ := eventDatas.map Prod.fst

def oemEvents : List ℕ := [0xE0, 0xE1, 0xE2]

def eventsToPrint (p : Parameters) : List ℤ :=
  if p.types ≠ [] then p.types
  else if p.all then allEvents.map Nat.cast
  else if p.statistics && !p.errors then []
  else errorEvents.map Nat.cast

def padLeft (width : ℕ) (fill : Char) (s : String) : String :=
  String.ofList (List.replicate (width - s.length) fill) ++ s

def padRight (width : ℕ) (s : String) : String := s ++ String.ofList (List.replicate (width - s.length) ' ')

def hex (n : ℕ) : String := String.ofList (Nat.toDigits 16 n)

/-- `template % args`, where each `%x` stands for the next argument. -/
def formatHex : List Char → List ℕ → String
  | '%' :: 'x' :: template, n :: args => hex n ++ formatHex template args
  | c :: template, args => c.toString ++ formatHex template args
  | [], _ => ""

/-- `strftime(u"%Y-%m-%d %H:%M:%S")` -/
def strftime (tm : DateTime) : String :=
  let two (n : ℕ) := padLeft 2 '0' (toString n)
  padLeft 4 '0' (toString tm.year) ++ "-" ++ two tm.month ++ "-" ++ two tm.day ++ " " ++
    two tm.hour ++ ":" ++ two tm.min ++ ":" ++ two tm.sec

def Event.lines (e : Event) : List String :=
  [e.data.name, if e.curTm.year = 2000 then "   Date: <unknown>" else "   Date: " ++ strftime e.curTm] ++
    if e.errInfo = [] then [] else ["   " ++ formatHex e.data.template.toList e.errInfo]

/-- What `print_events` has printed and counted. -/
structure Report where
  lines : List String
  printedEvent : ℕ
  eventStatistics : ℕ → ℕ
  evtCnt : ℕ

def Report.count (toPrint : List ℤ) (r : Report) (e : Event) : Report where
  lines := if (e.typeEvt : ℤ) ∈ toPrint then r.lines ++ e.lines else r.lines
  printedEvent := if (e.typeEvt : ℤ) ∈ toPrint then r.printedEvent + 1 else r.printedEvent
  eventStatistics := Function.update r.eventStatistics e.typeEvt (r.eventStatistics e.typeEvt + 1)
  evtCnt := r.evtCnt + 1

theorem Report.count_eventStatistics (toPrint : List ℤ) (r : Report) (e : Event) (t : ℕ) :
    (r.count toPrint e).eventStatistics t = r.eventStatistics t + if e.typeEvt = t then 1 else 0 := by
  by_cases htype : e.typeEvt = t
  · rw [if_pos htype, ← htype]
    exact Function.update_self _ _ _
  · rw [if_neg htype]
    exact Function.update_of_ne (Ne.symm htype) _ _

def report (p : Parameters) (events : List (Option Event)) : Report :=
  events.reduceOption.foldl (Report.count (eventsToPrint p)) ⟨[], 0, fun _ ↦ 0, 0⟩

def eventClass (s : ℕ) : String :=
  if s ∈ errorEvents then "error" else if s ∈ oemEvents then "oem" else "status"

/-- `print_statics_types` with the numbers of the events. -/
def printStaticsTypes (eventStatistics : ℕ → ℕ) : List String :=
  ["Events statistics:",
    "                                    Type ID ",
    " Name                               dec   hex     Class         Nb",
    "-------------------------------------------------------------------"] ++
  eventDatas.map fun (s, data) ↦
    " " ++ padRight 35 data.name ++ padLeft 3 ' ' (toString s) ++ "  0x" ++ padLeft 2 '0' (hex s) ++
      "     " ++ padRight 10 (eventClass s) ++ padLeft 6 ' ' (toString (eventStatistics s))

/-- The lines of events and statistics, and how the loop has stopped. When it has not come to the end of the log,
there is a traceback instead of what is printed behind the loop. -/
def output (p : Parameters) (trace : Walk.Trace Stop (Option Event)) : Option (List String × Stop) :=
  trace.stop.map fun stop ↦
    let r := report p trace.values
    if stop = .endOfLog then
      (r.lines ++ (if r.printedEvent = 0 ∧ p.statistics = false then ["No events"] else []) ++
        (if p.statistics then
          ["\nSTATISTICS:", "Number of log events: " ++ toString r.evtCnt] ++ printStaticsTypes r.eventStatistics
        else []), stop)
    else (r.lines, stop)

/-! ## The BIOS -/

/-- The text before a separator, and the text behind it if it is there. -/
def cutText (sep : List Char) : List Char → List Char × Option (List Char)
  | [] => ([], none)
  | c :: text =>
    if sep <+: c :: text then ([], some ((c :: text).drop sep.length))
    else (c :: (cutText sep text).1, (cutText sep text).2)

/-- `line.split(u": ")[1]`, which raises where there is one part only. -/
def secondPart (line : List Char) : Option (List Char) :=
  (cutText ": ".toList line).2.map fun rest ↦ (cutText ": ".toList rest).1

def biosNames : List (List Char) := ["VCAA.".toList, "VCGA.".toList, "0ACGC".toList, "0ACIE".toList]

def unknownBios : BiosVersion := ⟨false, [], none, none⟩

/-- `GetBIOSInformation` of what `dmidecode` has printed, unless it raises. -/
def getBIOSInformation (cmdresp : List Char) : Option BiosVersion :=
  match (cmdresp.splitOn '\n').find? fun line ↦ "Version".toList <:+: line with
  | none => some unknownBios
  | some line => (secondPart line).map fun version ↦
    if version.take 5 ∈ biosNames then
      ⟨true, version.take 5, some ((version.drop 5).take 3), some ((version.drop 9).take 4)⟩
    else unknownBios

/-- Where the log is in the memory; none is a BIOS that is not supported. -/
def nvramOffset (bios : BiosVersion) : Option ℕ :=
  let base := 4 * 1024 * 1024 * 1024 - 16 * 1024 * 1024
  if bios.name = "0ACGC".toList then
    if bios.known = false ∨ before bios.major "008".toList then none else some (0xcb0010 + base)
  else if bios.name = "0ACIE".toList then some (0xb60010 + base)
  else if bios.name.take 2 = "VC".toList then some base
  else some (0xb60010 + base)

/-- The BIOS of a node and the place of its log. -/
def node (cmdresp : List Char) : Option (BiosVersion × ℕ) :=
  (getBIOSInformation cmdresp).bind fun bios ↦ (nvramOffset bios).map fun offset ↦ (bios, offset)

/-! ## The script -/

def readMemory (p : Parameters) (cmdresp : List Char) (memory : List UInt8) (fuel : ℕ) :
    Option (List String × Stop) :=
  (node cmdresp).bind fun (bios, offset) ↦ output p (printEvents (some bios) memory fuel offset)

/-- `-d`: what is saved. -/
def downloadNvram (cmdresp : List Char) (memory : List UInt8) : Option (List UInt8) :=
  (node cmdresp).map fun (_, offset) ↦ (memory.drop offset).take 0x10000

/-- `-i` -/
def readFile (p : Parameters) (file : List UInt8) (fuel : ℕ) : Option (List String × Stop) :=
  output p (printEvents none file fuel 0)

end Vcass.Elog
