import Vcass.Config.Parser

/-!
# The default configuration

`vcactl config-default` puts the default configuration in the place of the stored one, whatever that is. It is
the way back for programs that have left the file half changed, and does not read the file before: the file may
be broken. But it refuses while a block device of the first CPU of the first card is enabled, and for that the
file is read.

## Types of cards

The default configuration has a `card` for every type and every number, as which card is plugged in is not
known. The types differ in the number of CPUs, and with it in the addresses.
-/

namespace Vcass.Config

def vcaMvFab1 : ℕ := 0x8

def vcaVcga : ℕ := 0x40

def vcaConfigVerString : String := "1.5.2"

def nodesOnCard (type : ℕ) : ℕ :=
  if type = vcaFpga ∨ type = vcaVcaa then 1
  else if type = vcaVcga then 2
  else maxCpu

def ipPrefix (type : ℕ) : String :=
  if type = vcaFpga ∨ type = vcaVcaa then "172.32."
  else if type = vcaVcga then "172.33."
  else "172.31."

def getDefaultCpuIp (card cpu type : ℕ) : String :=
  ipPrefix type ++ toString (1 + card * nodesOnCard type + cpu) ++ ".1"

def getDefaultHostIp (card cpu type : ℕ) : String :=
  ipPrefix type ++ toString (1 + card * nodesOnCard type + cpu) ++ ".254"

def getDefaultNodeName (card cpu type : ℕ) : String :=
  if type = vcaFpga ∨ type = vcaVcaa then "vca_node_" ++ toString card
  else "vca_node_" ++ toString card ++ toString cpu

/-- The text of a field of a CPU. -/
def defaultCpuValue (card cpu type : ℕ) : CpuField → String
  | .scriptPath => ""
  | .ip => getDefaultCpuIp card cpu type
  | .mask => "24"
  | .gateway => getDefaultHostIp card cpu type
  | .hostIp => getDefaultHostIp card cpu type
  | .hostMask => "24"
  | .bridgeInterface => ""
  | .nodeName => getDefaultNodeName card cpu type
  | .nfsServer => getDefaultHostIp card cpu type
  | .nfsPath => "/mnt/%s"
  | f => f.dataField.value

/-- One device, of which every field is empty. -/
def defaultBlockDevs : Ptree :=
  .node "" [(getBlockDevNameFromId 0, .node "" (BlkDevField.all.map fun f ↦ (f.dataField.name, .node "" [])))]

/-- The loop over the fields ends at `block-devs`; a field after it is not written. -/
def defaultCpu (card cpu type : ℕ) : Ptree :=
  .node "" ((Ptree.xmlattr, .node "" [("id", .node (toString cpu) [])]) ::
    ((CpuField.all.takeWhile (· ≠ .blockDevs)).map fun f ↦
      (f.dataField.name, .node (defaultCpuValue card cpu type f) [])) ++
    [(CpuField.blockDevs.dataField.name, defaultBlockDevs)])

def defaultCard (type card : ℕ) : Ptree :=
  .node "" ((Ptree.xmlattr, .node "" [("type", .node (toString type) []), ("id", .node (toString card) [])]) ::
    (List.range (nodesOnCard type)).map fun cpu ↦ ("cpu", defaultCpu card cpu type))

/-- The tree that `save_default_config` builds. -/
def defaultConfig : Ptree :=
  .node "" (("global", .node "" (GlobalField.all.map fun f ↦ (f.dataField.name, .node f.dataField.value []))) ::
    ([vcaFpga, vcaMvFab1, vcaVcaa, vcaVcga].flatMap fun type ↦
      (List.range maxCards).map fun card ↦ ("card", defaultCard type card)) ++
    [(Ptree.xmlattr, .node "" [("version", .node vcaConfigVerString [])])])

/-- The file with the default configuration. -/
def defaultFile : Ptree := .node "" [(vcaConfigHeader, defaultConfig)]

/-- The file that is left, if `save_default_config` returns `true`. -/
def saveDefaultConfig (env : Env) : Option Ptree := if env.lock then saveVcaXml env defaultConfig else none

/-- The text has to be `1`. What is not in the file is what it was before it was read. -/
def isBlkEnabled (cfg : VcaConfig) (card cpu dev : ℕ) : Bool := cfg.fields (.blk card cpu dev .enabled) = "1"

/-- Whether the file could be read is not asked. -/
def isAnyBlkdevEnabled (env : Env) (file : Ptree) (card cpu : ℕ) : Bool :=
  (List.range maxBlkDevs).any (isBlkEnabled (getVcaConfigFromFile env file .init).1 card cpu)

/-- What `vcactl config-default` meets. -/
structure Host extends Env where
  /-- There are nodes, and all of them get ready. -/
  ready : Bool
  /-- The device for the block devices of the first CPU can be opened. -/
  blkFd : Bool

/-- The file after `vcactl config-default`, which is about the first CPU of the first card. -/
def configDefault (host : Host) (file : Ptree) : Ptree :=
  if !host.ready then file
  else if !host.blkFd || isAnyBlkdevEnabled host.toEnv file 0 0 then file
  else (saveDefaultConfig host.toEnv).getD file

/-- It gets to writing. -/
def Host.Restores (host : Host) (file : Ptree) : Prop :=
  host.ready = true ∧ host.blkFd = true ∧ isAnyBlkdevEnabled host.toEnv file 0 0 = false

instance (host : Host) (file : Ptree) : Decidable (host.Restores file) := inferInstanceAs (Decidable (_ ∧ _ ∧ _))

section Lemmas

variable {host : Host} {file : Ptree}

theorem saveDefaultConfig_eq (hlock : host.lock = true) (hwrite : host.write = true) :
    saveDefaultConfig host.toEnv = some defaultFile := by
  rw [saveDefaultConfig, if_pos hlock, saveVcaXml, if_pos hwrite, defaultFile]

theorem configDefault_of_restores (hlock : host.lock = true) (hwrite : host.write = true)
    (h : host.Restores file) : configDefault host file = defaultFile := by
  obtain ⟨hready, hfd, hblk⟩ := h
  rw [configDefault, hready, hfd, hblk, saveDefaultConfig_eq hlock hwrite]
  rfl

theorem configDefault_of_not_restores (h : ¬ host.Restores file) : configDefault host file = file := by
  rw [configDefault]
  split_ifs with hready hblk
  · rfl
  · rfl
  · rw [Bool.not_eq_true, Bool.not_eq_false'] at hready
    rw [Bool.or_eq_true, not_or, Bool.not_eq_true, Bool.not_eq_true, Bool.not_eq_false'] at hblk
    exact absurd ⟨hready, hblk⟩ h

/-- The default configuration is there if it was written, or if it was there before. -/
theorem configDefault_eq_iff (hlock : host.lock = true) (hwrite : host.write = true) :
    configDefault host file = defaultFile ↔ host.Restores file ∨ file = defaultFile := by
  by_cases h : host.Restores file
  · exact iff_of_true (configDefault_of_restores hlock hwrite h) (.inl h)
  · rw [configDefault_of_not_restores h]
    exact (or_iff_right h).symm

end Lemmas

end Vcass.Config
