import Mathlib.Algebra.Order.Ring.Nat
import Mathlib.Logic.Function.Basic
import Vcass.Lib.LastWrite
import Vcass.Config.Ptree

/-!
# The configuration: reading it and writing its fields

`vca_config` keeps the fields of the configuration in memory. `get_vca_config_from_file` reads a file into
them; the `save_*_field` functions read the file, change the text of an element and write the file. Neither
uses what the other has computed.

## Names

The two sides find elements in different ways. The writer takes an `id` attribute as a number, in the way
of a stream, and the name of a block device by its spelling; the reader wants digits only, looks at the type
of the card, and scans the name of a block device with `sscanf`.

## What is not part of this module

The file is the tree it is parsed into, that is, writing and reading XML are taken to be inverse to each
other. Whether a value of a field is a number is reported only, so the types of fields are left out.
-/

namespace Vcass.Config

open LastWrite

/-! ## Fields -/

inductive GlobalField
  | autoBoot
  | debugEnabled
  | linkUpTimeoutMs
  | handshakeIrqTimeoutMs
  | allocTimeoutMs
  | cmdTimeoutMs
  | macWriteTimeoutMs
  | defaultDaemonScript
  | waitCmdTimeoutS
  | waitBiosCmdTimeoutS
  | waitBiosCmdFlashingS
  | icmpPingIntervalS
  | icmpResponseTimeoutS
  | vaMinFreeMemoryEnabled
  deriving DecidableEq, Repr

inductive CpuField
  | imgPath
  | lastImgPath
  | scriptPath
  | daemonScript
  | ip
  | mask
  | gateway
  | hostIp
  | hostMask
  | cpuMaxFreqNonTurbo
  | bridgeInterface
  | nodeName
  | nfsServer
  | nfsPath
  | blockDevs
  | vaFreeMem
  deriving DecidableEq, Repr

inductive BlkDevField
  | mode
  | path
  | ramdiskSizeMb
  | enabled
  deriving DecidableEq, Repr

def GlobalField.all : List GlobalField :=
  [.autoBoot, .debugEnabled, .linkUpTimeoutMs, .handshakeIrqTimeoutMs, .allocTimeoutMs, .cmdTimeoutMs,
    .macWriteTimeoutMs, .defaultDaemonScript, .waitCmdTimeoutS, .waitBiosCmdTimeoutS, .waitBiosCmdFlashingS,
    .icmpPingIntervalS, .icmpResponseTimeoutS, .vaMinFreeMemoryEnabled]

def CpuField.all : List CpuField :=
  [.imgPath, .lastImgPath, .scriptPath, .daemonScript, .ip, .mask, .gateway, .hostIp, .hostMask,
    .cpuMaxFreqNonTurbo, .bridgeInterface, .nodeName, .nfsServer, .nfsPath, .blockDevs, .vaFreeMem]

def BlkDevField.all : List BlkDevField := [.mode, .path, .ramdiskSizeMb, .enabled]

/-- The name and the default of a field. -/
structure DataField where
  name : String
  value : String

def GlobalField.dataField : GlobalField → DataField
  | autoBoot => ⟨"auto-boot", "1"⟩
  | debugEnabled => ⟨"debug-enabled", "0"⟩
  | linkUpTimeoutMs => ⟨"link-up-timeout-ms", "2000"⟩
  | handshakeIrqTimeoutMs => ⟨"handshake-irq-timeout-ms", "30000"⟩
  | allocTimeoutMs => ⟨"alloc-timeout-ms", "100"⟩
  | cmdTimeoutMs => ⟨"cmd-timeout-ms", "1000"⟩
  | macWriteTimeoutMs => ⟨"mac-write-timeout-ms", "1000"⟩
  | defaultDaemonScript => ⟨"default-daemon-script", ""⟩
  | waitCmdTimeoutS => ⟨"wait-cmd-timeout-s", "200"⟩
  | waitBiosCmdTimeoutS => ⟨"wait-bios-cmd-timeout-s", "300"⟩
  | waitBiosCmdFlashingS => ⟨"wait-bios-cmd-flashing-s", "1200"⟩
  | icmpPingIntervalS => ⟨"ICMP-ping-inverval-s", "1"⟩
  | icmpResponseTimeoutS => ⟨"ICMP-response-timeout-s", "10"⟩
  | vaMinFreeMemoryEnabled => ⟨"va-min-free-memory-enabled", "1"⟩

def CpuField.dataField : CpuField → DataField
  | imgPath => ⟨"os-image", ""⟩
  | lastImgPath => ⟨"last-os-image", ""⟩
  | scriptPath => ⟨"script", ""⟩
  | daemonScript => ⟨"daemon-script", ""⟩
  | ip => ⟨"ip", ""⟩
  | mask => ⟨"mask", ""⟩
  | gateway => ⟨"gateway", ""⟩
  | hostIp => ⟨"host-ip", ""⟩
  | hostMask => ⟨"host-mask", ""⟩
  | cpuMaxFreqNonTurbo => ⟨"cpu-max-freq-non-turbo", "0"⟩
  | bridgeInterface => ⟨"bridge-interface", ""⟩
  | nodeName => ⟨"node-name", ""⟩
  | nfsServer => ⟨"nfs-server", ""⟩
  | nfsPath => ⟨"nfs-path", ""⟩
  | blockDevs => ⟨"block-devs", ""⟩
  | vaFreeMem => ⟨"va-min-free-memory-enabled-node", "1"⟩

def BlkDevField.dataField : BlkDevField → DataField
  | mode => ⟨"mode", ""⟩
  | path => ⟨"path", ""⟩
  | ramdiskSizeMb => ⟨"ramdisk-size-mb", ""⟩
  | enabled => ⟨"enabled", ""⟩

/-- A field of the configuration, with the card, the CPU and the block device it belongs to. -/
inductive Field
  | global (f : GlobalField)
  | cpu (card cpu : ℕ) (f : CpuField)
  | blk (card cpu dev : ℕ) (f : BlkDevField)
  deriving DecidableEq, Repr

/-- `vca_config`, without its file. -/
structure VcaConfig where
  fields : Field → String
  /-- The block devices that the file has had. -/
  exist : ℕ → ℕ → ℕ → Bool

def VcaConfig.init : VcaConfig where
  fields
    | .global f => f.dataField.value
    | .cpu _ _ f => f.dataField.value
    | .blk _ _ _ f => f.dataField.value
  exist _ _ _ := false

def maxCards : ℕ := 8

def maxCpu : ℕ := 3

def maxBlkDevs : ℕ := 8

/-! ## Numbers -/

def isSpace (c : Char) : Bool := c = ' ' || ('\t' ≤ c && c ≤ '\r')

def digitsVal (cs : List Char) : ℕ := cs.foldl (fun n c ↦ 10 * n + (c.toNat - '0'.toNat)) 0

def isUnsignedNumber (s : String) : Bool := s.toList.all Char.isDigit && s.toList ≠ []

/-- `atoi`, of a text of digits. -/
def atoi (s : String) : ℕ := digitsVal s.toList

/-- An optional sign, and what follows it. -/
def splitSign : List Char → Bool × List Char
  | '-' :: cs => (true, cs)
  | '+' :: cs => (false, cs)
  | cs => (false, cs)

/-- `get<unsigned int>`: the text as an input stream, from which nothing but space may be left. -/
def getUnsigned (s : String) : Option ℕ :=
  let (neg, cs) := splitSign (s.toList.dropWhile isSpace)
  let n := digitsVal (cs.takeWhile Char.isDigit)
  if cs.takeWhile Char.isDigit = [] ∨ (cs.dropWhile Char.isDigit).dropWhile isSpace ≠ [] then none
  else if n < 2 ^ 32 then some (if neg then (2 ^ 32 - n) % 2 ^ 32 else n)
  else none

/-- The conversion `%d` of `sscanf`. -/
def scanInt (cs : List Char) : Option Int :=
  let (neg, cs) := splitSign (cs.dropWhile isSpace)
  let digits := cs.takeWhile Char.isDigit
  if digits = [] then none else some (if neg then -digitsVal digits else digitsVal digits)

def blkConfigName : String := "vcablk"

/-- `sscanf` with the format `vcablk%d`, and the bounds. -/
def extractBlockDevId (name : String) : Option ℕ :=
  if blkConfigName.toList.isPrefixOf name.toList then
    (scanInt (name.toList.drop blkConfigName.toList.length)).bind fun n ↦
      if 0 ≤ n ∧ n < maxBlkDevs then some n.toNat else none
  else none

def getBlockDevNameFromId (dev : ℕ) : String := blkConfigName ++ toString dev

/-! ## Reading -/

/-- What the configuration functions meet outside. -/
structure Env where
  /-- The type of an installed card. -/
  cardType : ℕ → ℕ
  /-- The lock file could be locked. -/
  lock : Bool
  /-- The new file could be written and put in the place of the old one. -/
  write : Bool

def vcaFpga : ℕ := 0x10

def vcaVcaa : ℕ := 0x20

/-- A VCAA card goes by the name of an FPGA card. -/
def fakedCardType (type : ℕ) : ℕ := if type = vcaVcaa then vcaFpga else type

/-- `try_set_data_field`: an empty text is no value. -/
def trySetDataField (val : String) (field : Field) (cfg : VcaConfig) : VcaConfig :=
  { cfg with fields := Function.update cfg.fields field (put "" (cfg.fields field) val) }

/-- The loop over the fields of a kind, for one child: the first one of the name is set. -/
def parseField {φ : Type} (all : List φ) (dataField : φ → DataField) (mk : φ → Field) (c : String × Ptree)
    (cfg : VcaConfig) : VcaConfig :=
  match all.find? fun f ↦ (dataField f).name = c.1 with
  | some f => trySetDataField c.2.data (mk f) cfg
  | none => cfg

def parseGlobalChild (cfg : VcaConfig) (c : String × Ptree) : VcaConfig :=
  parseField GlobalField.all GlobalField.dataField .global c cfg

def parseGlobal (root : Ptree) (cfg : VcaConfig) : VcaConfig × Bool :=
  match root.getChild "global" with
  | none => (cfg, false)
  | some node => (node.children.foldl parseGlobalChild cfg, true)

def parseBlkChild (card cpu dev : ℕ) (cfg : VcaConfig) (c : String × Ptree) : VcaConfig :=
  parseField BlkDevField.all BlkDevField.dataField (.blk card cpu dev) c cfg

/-- One device of `parse_blk_devs`. -/
def parseBlkDev (card cpu : ℕ) (cfg : VcaConfig) (c : String × Ptree) : VcaConfig :=
  match extractBlockDevId c.1 with
  | some dev =>
    let cfg := { cfg with exist := fun i j k ↦ (i = card && j = cpu && k = dev) || cfg.exist i j k }
    c.2.children.foldl (parseBlkChild card cpu dev) cfg
  | none => cfg

/-- It looks for the first `block-devs` of the CPU. -/
def parseBlkDevs (card cpu : ℕ) (node : Ptree) (cfg : VcaConfig) : VcaConfig :=
  match node.getChild CpuField.blockDevs.dataField.name with
  | none => cfg
  | some devs => devs.children.foldl (parseBlkDev card cpu) cfg

/-- The loop of `parse_cpu` over the fields, for one child of a CPU. -/
def parseCpuChild (card cpu : ℕ) (subtree : Ptree) (cfg : VcaConfig) (c : String × Ptree) : VcaConfig :=
  if c.1 = CpuField.blockDevs.dataField.name then parseBlkDevs card cpu subtree cfg
  else parseField CpuField.all CpuField.dataField (.cpu card cpu) c cfg

/-- `parse_cpu`; a CPU without an `id` ends it. -/
def parseCpu (card : ℕ) : List (String × Ptree) → VcaConfig → VcaConfig × Bool
  | [], cfg => (cfg, true)
  | c :: cs, cfg =>
    if c.1 = "cpu" then
      match c.2.attr "id" with
      | none => (cfg, false)
      | some id =>
        if isUnsignedNumber id && atoi id < maxCpu then
          parseCpu card cs (c.2.children.foldl (parseCpuChild card (atoi id) c.2) cfg)
        else parseCpu card cs cfg
    else parseCpu card cs cfg

/-- `parse_card`. What `parse_cpu` returns is not looked at. -/
def parseCard (env : Env) : List (String × Ptree) → VcaConfig → VcaConfig × Bool
  | [], cfg => (cfg, true)
  | c :: cs, cfg =>
    if c.1 = "card" then
      match c.2.attr "id" with
      | none => (cfg, false)
      | some id =>
        if isUnsignedNumber id && atoi id < maxCards then
          match c.2.attr "type" with
          | none => (cfg, false)
          | some type =>
            if type = toString (fakedCardType (env.cardType (atoi id))) then
              parseCard env cs (parseCpu (atoi id) c.2.children cfg).1
            else parseCard env cs cfg
        else parseCard env cs cfg
    else parseCard env cs cfg

def vcaConfigHeader : String := "VCA_CONFIGURATION"

/-- `load_vca_xml`, of the tree that the file is parsed into. -/
def loadVcaXml (file : Ptree) : Option Ptree :=
  (file.getChild vcaConfigHeader).bind fun root ↦ if root.children.isEmpty then none else some root

def getVcaConfigFromFile (env : Env) (file : Ptree) (cfg : VcaConfig) : VcaConfig × Bool :=
  if !env.lock then (cfg, false)
  else
    match loadVcaXml file with
    | none => (cfg, false)
    | some root =>
      match parseGlobal root cfg with
      | (cfg, false) => (cfg, false)
      | (cfg, true) => parseCard env root.children cfg

/-! ## Writing -/

/-- `get<unsigned int>` of the attribute `id`, against a number. -/
def hasId (id : ℕ) (t : Ptree) : Except Fault Bool :=
  match t.attr "id" with
  | none => .error .badPath
  | some s =>
    match getUnsigned s with
    | none => .error .badData
    | some n => .ok (n = id)

/-- The text of the first element of the name is replaced. -/
def setField (name value : String) (t : Ptree) : Ptree :=
  t.withChildren (updFirst name (fun c ↦ c.withData value) t.children)

def setGlobalField (name value : String) (root : Ptree) : Except Fault Ptree :=
  match root.getChild "global" with
  | none => .error .badPath
  | some _ => .ok (root.withChildren (updFirst "global" (setField name value) root.children))

/-- Something is done with every CPU of the number on every card of the number. -/
def forCpus (card cpu : ℕ) (body : Ptree → Except Fault Ptree) (root : Ptree) : Except Fault Ptree :=
  visitChildren "card" (hasId card) (visitChildren "cpu" (hasId cpu) body) root

def setCpuField (card cpu : ℕ) (name value : String) (root : Ptree) : Except Fault Ptree :=
  forCpus card cpu (fun t ↦ .ok (setField name value t)) root

/-- All devices of the name, in every `block-devs` of a CPU. -/
def setBlkDevs (dev : ℕ) (name value : String) (t : Ptree) : Except Fault Ptree :=
  visitChildren "block-devs" (fun _ ↦ .ok true)
    (visitChildren (getBlockDevNameFromId dev) (fun _ ↦ .ok true) fun t ↦ .ok (setField name value t)) t

def setBlkField (card cpu dev : ℕ) (name value : String) (root : Ptree) : Except Fault Ptree :=
  forCpus card cpu (setBlkDevs dev name value) root

/-- `save_vca_xml`. -/
def saveVcaXml (env : Env) (root : Ptree) : Option Ptree :=
  if env.write then some (.node "" [(vcaConfigHeader, root)]) else none

/-- What the `save_*_field` functions share: the file they leave if they return `true`. -/
def saveWith (env : Env) (f : Ptree → Except Fault Ptree) (file : Ptree) : Option Ptree :=
  if !env.lock then none
  else
    match loadVcaXml file with
    | none => none
    | some root =>
      match f root with
      | .error _ => none
      | .ok root => saveVcaXml env root

def saveGlobalField (env : Env) (name value : String) (file : Ptree) : Option Ptree :=
  saveWith env (setGlobalField name value) file

def saveCpuField (env : Env) (card cpu : ℕ) (name value : String) (file : Ptree) : Option Ptree :=
  saveWith env (setCpuField card cpu name value) file

def saveBlkField (env : Env) (card cpu dev : ℕ) (name value : String) (file : Ptree) : Option Ptree :=
  saveWith env (setBlkField card cpu dev name value) file

/-- The function for a field. -/
def saveField (env : Env) (value : String) (file : Ptree) : Field → Option Ptree
  | .global f => saveGlobalField env f.dataField.name value file
  | .cpu card cpu f => saveCpuField env card cpu f.dataField.name value file
  | .blk card cpu dev f => saveBlkField env card cpu dev f.dataField.name value file

end Vcass.Config
