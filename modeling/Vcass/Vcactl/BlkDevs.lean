import Vcass.Lib.Run
import Vcass.Config.Parser

/-!
# The block devices of the cards and their files

`vcactl blockio open` describes a block device of a node in the configuration and enables it, `blockio close`
disables it, and `boot` opens the devices of a node that are enabled. A device is a RAM disk or a file of the
host, and a file that one node may write to must not be used by another device: `check_blk_path` looks for it
in the configuration.

## Processes

A command runs in a process of its own, which reads the configuration once and is called for one node after
the other. What it changes goes to the file; the configuration in memory follows when the file is read again.
The path that was checked last is kept in a static variable.

A call that fails leaves what it has done so far, in the file as in the process, and the command goes on with the
next node.
-/

namespace Vcass.Vcactl

open Conc Config LastWrite

/-! ## The system -/

/-- A card and a CPU. -/
abbrev Node := ℕ × ℕ

/-- A node and the number of one of its block devices. -/
abbrev Key := Node × ℕ

/-- The fields of a block device in the configuration. -/
structure BlkDev where
  mode : String
  path : String
  ramdiskSizeMb : String
  enabled : String
  deriving DecidableEq, Repr

def blockioModeRo : String := "RO"

def blockioModeRw : String := "RW"

def blockioModeRamdisk : String := "ramdisk"

namespace BlkDev

def blank : BlkDev := ⟨"", "", "", ""⟩

def isEnabled (d : BlkDev) : Bool := d.enabled = "1"

/-- The fields after the configuration was read: an empty text is no value. -/
def load (old new : BlkDev) : BlkDev where
  mode := put "" old.mode new.mode
  path := put "" old.path new.path
  ramdiskSizeMb := put "" old.ramdiskSizeMb new.ramdiskSizeMb
  enabled := put "" old.enabled new.enabled

end BlkDev

/-- What is known of the files of the host. -/
structure FileSystem where
  /-- `realpath`, which gives a canonical name. -/
  realpath : String → Option String
  canon : ∀ {p q}, realpath p = some q → realpath q = some q
  /-- `file_exists`. -/
  fileExists : String → Bool
  exists_nonempty : fileExists "" = false

/-- The cards of the host. -/
structure Cards where
  /-- `card_exists`. -/
  cardExists : ℕ → Bool
  /-- `get_last_cpu`, and one more. -/
  cpus : ℕ → ℕ

namespace Cards

variable (cards : Cards)

def getCardsNum : ℕ := (List.range maxCards).countP cards.cardExists

/-- `validate_node_range`. -/
def validateNodeRange (node : Node) : Bool := node.1 < maxCards && node.2 < cards.cpus node.1

end Cards

/-- The name of a file that does not depend on the spelling. -/
def FileSystem.canonical (fs : FileSystem) (path : String) : String := (fs.realpath path).getD path

/-- The mode and its parameter on the command line. -/
inductive OpenMode
  /-- None is given: the device is opened as it is described in the configuration. -/
  | config
  | ramdisk (size : String)
  | ro (path : String)
  | rw (path : String)
  deriving DecidableEq, Repr

inductive Command
  | blockioOpen (dev : ℕ) (mode : OpenMode)
  | blockioClose (dev : ℕ)
  | boot
  deriving DecidableEq, Repr

structure Process where
  cmd : Command
  config : Key → BlkDev
  exist : Key → Bool
  previousFilePath : String
  /-- The nodes that the command was called for. -/
  called : List Node

structure Sys where
  /-- The elements for block devices in the configuration file. -/
  file : Key → Option BlkDev
  proc : Option Process

/-- What a call meets. -/
structure Env where
  fd : Bool
  /-- The device is there already. -/
  diskExists : Bool
  /-- The element of the device could be added. -/
  add : Bool
  /-- The fields that can be written before one fails. -/
  saves : ℕ
  /-- The devices that are read again, and whether all are. -/
  reread : Key → Bool
  reload : Bool
  enable : Bool
  /-- The device was opened, if the state of the node asks for it. -/
  openDev : Bool
  /-- The device may be closed and was closed. -/
  closeDev : Bool
  /-- All that `boot` does besides the block devices. -/
  boot : Bool

inductive Refusal
  | alreadyOpened
  | other
  deriving DecidableEq, Repr

/-- What a call leaves, and why it failed if it did. -/
structure Outcome where
  refusal : Option Refusal
  file : Key → Option BlkDev
  proc : Process

section Code

variable (fs : FileSystem) (cards : Cards)

/-- The argument parsers. -/
def Command.parses : Command → Bool
  | .blockioOpen dev mode => dev < maxBlkDevs && match mode with
    | .config => true
    | .ramdisk size => isUnsignedNumber size && atoi size ≠ 0
    | .ro path | .rw path => fs.fileExists path
  | .blockioClose dev => dev < maxBlkDevs
  | .boot => true

/-- The file as it is read into fields that are blank. -/
def Process.start (file : Key → Option BlkDev) (cmd : Command) : Process where
  cmd := cmd
  config k := BlkDev.blank.load ((file k).getD .blank)
  exist k := (file k).isSome
  previousFilePath := ""
  called := []

/-- The devices are read again, if not all of them then those that come before the failure. -/
def Process.reload (read : Key → Bool) (file : Key → Option BlkDev) (p : Process) : Process :=
  { p with
    config := fun k ↦ if read k then (p.config k).load ((file k).getD .blank) else p.config k
    exist := fun k ↦ p.exist k || read k && (file k).isSome }

/-- The path that is to be checked, if there is one. -/
def pathToCheck (p : Process) (node : Node) : Option String :=
  match p.cmd with
  | .boot =>
    let d := p.config (node, 0)
    if d.isEnabled && d.mode ≠ blockioModeRamdisk then some d.path else none
  | .blockioOpen _ (.rw path) => some path
  | _ => none

/-- Some device of another node is enabled with the path, on the cards that are counted. -/
def usedElsewhere (p : Process) (node : Node) (path : String) : Bool :=
  (List.range maxBlkDevs).any fun i ↦ (List.range cards.getCardsNum).any fun j ↦ (List.range (cards.cpus j)).any fun k ↦
    (j, k) ≠ node && (p.config ((j, k), i)).mode ≠ blockioModeRamdisk && path = (p.config ((j, k), i)).path &&
      (p.config ((j, k), i)).isEnabled

def checkBlkPath (p : Process) (node : Node) : Except Refusal Process :=
  match pathToCheck p node with
  | none => .ok p
  | some path =>
    if p.previousFilePath = path then .error .alreadyOpened
    else if usedElsewhere cards p node path then .error .alreadyOpened
    else .ok { p with previousFilePath := path }

/-- The element of a device is changed, if it is there. -/
def saveBlk (k : Key) (f : BlkDev → BlkDev) (file : Key → Option BlkDev) : Key → Option BlkDev :=
  Function.update file k ((file k).map f)

/-- `add_blk_dev_fields`. -/
def addBlkDevFields (k : Key) (file : Key → Option BlkDev) : Key → Option BlkDev :=
  Function.update file k (some ((file k).getD .blank))

/-- The fields of the device are written one after the other. -/
def blkFieldSaves (mode size path : String) : List (BlkDev → BlkDev) :=
  [fun d ↦ { d with mode := "" }, fun d ↦ { d with ramdiskSizeMb := "0" }, fun d ↦ { d with path := "" },
    fun d ↦ { d with ramdiskSizeMb := size, path := path }, fun d ↦ { d with mode := mode }]

def saveBlkFields (k : Key) (saves : List (BlkDev → BlkDev)) (file : Key → Option BlkDev) : Key → Option BlkDev :=
  saves.foldl (fun file f ↦ saveBlk k f file) file

/-- `update_blk_config_fields`: the new device, and the configuration read again. -/
def updateBlkConfigFields (env : Env) (k : Key) (mode size path : String) (file : Key → Option BlkDev)
    (p : Process) : Outcome :=
  if !p.exist k && !env.add then ⟨some .other, file, p⟩
  else
    let file := if p.exist k then file else addBlkDevFields k file
    let saves := blkFieldSaves mode size path
    if env.saves < saves.length then ⟨some .other, saveBlkFields k (saves.take env.saves) file, p⟩
    else
      let file := saveBlkFields k saves file
      if env.reload then ⟨none, file, p.reload (fun _ ↦ true) file⟩
      else ⟨some .other, file, p.reload env.reread file⟩

/-- What `get_blk_config_field` accepts. -/
def blkConfigOk (d : BlkDev) : Bool :=
  if d.mode = blockioModeRamdisk then 0 < atoi d.ramdiskSizeMb
  else (d.mode = blockioModeRo || d.mode = blockioModeRw) && fs.fileExists d.path

/-- What the mode on the command line does to the configuration. -/
def describe (env : Env) (k : Key) (mode : OpenMode) (file : Key → Option BlkDev) (p : Process) : Outcome :=
  let resolve (mode path : String) : Outcome :=
    match fs.realpath path with
    | none => ⟨some .other, file, p⟩
    | some resolved =>
      if fs.fileExists resolved then updateBlkConfigFields env k mode "0" resolved file p
      else ⟨some .other, file, p⟩
  match mode with
  | .config => ⟨none, file, p⟩
  | .ramdisk size =>
    if isUnsignedNumber size && atoi size ≠ 0 then updateBlkConfigFields env k blockioModeRamdisk size "" file p
    else ⟨some .other, file, p⟩
  | .ro path => resolve blockioModeRo path
  | .rw path => resolve blockioModeRw path

def enableBlkDev (k : Key) (file : Key → Option BlkDev) : Key → Option BlkDev :=
  saveBlk k (fun d ↦ { d with enabled := "1" }) file

def disableBlkDev (k : Key) (file : Key → Option BlkDev) : Key → Option BlkDev :=
  saveBlk k (fun d ↦ { d with enabled := "0" }) file

def blockioCtlOpen (env : Env) (node : Node) (dev : ℕ) (mode : OpenMode) (file : Key → Option BlkDev)
    (p : Process) : Outcome :=
  if !env.fd || env.diskExists then ⟨some .other, file, p⟩
  else
    match checkBlkPath cards p node with
    | .error e => ⟨some e, file, p⟩
    | .ok p =>
      match describe fs env (node, dev) mode file p with
      | ⟨some e, file, p⟩ => ⟨some e, file, p⟩
      | ⟨none, file, p⟩ =>
        if !p.exist (node, dev) || !blkConfigOk fs (p.config (node, dev)) || !env.enable then ⟨some .other, file, p⟩
        else ⟨if env.openDev then none else some .other, enableBlkDev (node, dev) file, p⟩

def blockioCtlClose (env : Env) (node : Node) (dev : ℕ) (file : Key → Option BlkDev) (p : Process) : Outcome :=
  if !env.fd then ⟨some .other, file, p⟩
  else if !(p.config (node, dev)).isEnabled then ⟨none, file, p⟩
  else if env.closeDev then ⟨none, disableBlkDev (node, dev) file, p⟩
  else ⟨some .other, file, p⟩

/-- `open_enabled_blk_devs`, and the rest of `boot`. -/
def bootNode (env : Env) (node : Node) (file : Key → Option BlkDev) (p : Process) : Outcome :=
  if !env.fd then ⟨some .other, file, p⟩
  else
    match checkBlkPath cards p node with
    | .error e => ⟨some e, file, p⟩
    | .ok p => ⟨if env.openDev && env.boot then none else some .other, file, p⟩

def callNode (env : Env) (node : Node) (file : Key → Option BlkDev) (p : Process) : Outcome :=
  match p.cmd with
  | .blockioOpen dev mode => blockioCtlOpen fs cards env node dev mode file p
  | .blockioClose dev => blockioCtlClose env node dev file p
  | .boot => bootNode cards env node file p

inductive Label
  /-- A new process for a command. -/
  | start (cmd : Command)
  /-- The command of the process is executed for a node. -/
  | call (node : Node) (env : Env)

def step (s : Sys) : Label → Option Sys
  | .start cmd => if cmd.parses fs then some { s with proc := some (.start s.file cmd) } else none
  | .call node env =>
    match s.proc with
    | none => none
    | some p =>
      if cards.validateNodeRange node ∧ node ∉ p.called then
        let o := callNode fs cards env node s.file p
        some ⟨o.file, some { o.proc with called := node :: o.proc.called }⟩
      else none

end Code

end Vcass.Vcactl
