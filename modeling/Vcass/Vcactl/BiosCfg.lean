import Mathlib.Data.List.Basic
import Mathlib.Logic.Function.Basic
import Vcass.Lib.Trace
import Vcass.Vcactl.Epoch

/-!
# The settings of the BIOS

`vcactl set-BIOS-cfg` takes pairs of a name and a value. It makes a list of parameters to write, leaving out those
that have their value already, checks that SGX and the aperture of the GPU go together, writes the parameters,
restarts the node and reads them back. The whole is repeated if that fails, up to three times if SGX is changed.

The function is a program whose operations are what it asks of the node. So a run is a list of operations with
their answers, and a node whose BIOS keeps what is written is a server of the program.

## Descriptors of their own

Some names stand for several parameters. All but the last of these are put into the list before the check whether
the last one has its value already.

## What is not part of this module

Descriptors of files are opened without a check, and operations on one that is not open fail. What `reset` asks of
the node is one operation.
-/

namespace Vcass.Vcactl.BiosCfg

open Conc

/-! ## Names and values -/

inductive BiosParam
  | cpuMaxFreqNonTurbo
  | version
  | buildDate
  | sgx
  | epoch0
  | epoch1
  | sgxToFactory
  | sgxOwnerEpochType
  | sgxMem
  | gpuAperture
  | tdp
  | ht
  | gpu
  deriving DecidableEq, Repr

/-- A parameter and its value, `vca_csm_ioctl_bios_param_desc`. -/
structure Desc where
  param : BiosParam
  value : ℕ
  deriving DecidableEq, Repr

/-- The names of `set-BIOS-cfg`. -/
inductive Cfg
  | sgx
  | epoch
  | prm
  | gpuAperture
  | tdp
  | ht
  | gpu
  deriving DecidableEq, Repr

def Cfg.name : Cfg → String
  | sgx => "sgx"
  | epoch => "epoch"
  | prm => "prm"
  | gpuAperture => "gpu-aperture"
  | tdp => "tdp"
  | ht => "ht"
  | gpu => "gpu"

/-- `is_bios_cfg_option`. -/
def biosCfgOption (arg : String) : Option Cfg :=
  [Cfg.sgx, .epoch, .prm, .gpuAperture, .tdp, .ht, .gpu].find? fun cfg ↦ cfg.name = arg

/-- What the BIOS takes for a text of a table. -/
def fromString (table : List (String × ℕ)) (str : String) : Option ℕ :=
  (table.find? fun row ↦ row.1 = str).map Prod.snd

def prmFromString : String → Option ℕ :=
  fromString [("auto", 0x00000000), ("32", 0x02000000), ("64", 0x04000000), ("128", 0x08000000)]

def apertureFromString : String → Option ℕ :=
  fromString [("128", 0x00), ("256", 0x01), ("512", 0x03), ("1024", 0x07), ("2048", 0x0f), ("4096", 0x1f)]

def tdpFromString : String → Option ℕ :=
  fromString [("0", 0), ("1", 1), ("2", 2), ("3", 3), ("4", 4), ("5", 5), ("6", 6), ("7", 7), ("8", 8), ("9", 9),
    ("10", 10), ("11", 11)]

def isSgxSupportedForAperture (aperture : ℕ) : Bool := aperture ≤ 0x03

def isApertureSizeValidOnGen1Card (aperture : ℕ) : Bool := aperture ≤ 0x07

def lowCaseValue (value : String) : String := value.map Char.toLower

def isEnable (value : String) : ℕ := if value = "enable" then 1 else 0

/-! ## The parser -/

/-- The arguments of `set-BIOS-cfg` that have been taken. -/
structure Holder where
  names : List Cfg
  values : List String
  deriving DecidableEq

/-- The check of `requires_bios_cfg_value`. -/
def acceptsValue : Cfg → String → Bool
  | .sgx, arg => arg = "enable" || arg = "disable"
  | .epoch, arg =>
    lowCaseValue arg = "factory-default" || lowCaseValue arg = "random" || (epochFromString arg.toList).isSome
  | .prm, arg => (prmFromString arg).isSome
  | .ht, arg => arg = "enable" || arg = "disable"
  | .gpu, arg => arg = "enable" || arg = "disable"
  | .gpuAperture, arg => (apertureFromString arg).isSome
  | .tdp, arg => (tdpFromString arg).isSome

/-- `requires_bios_cfg_name_and_value_pairs`: a name if every name has a value, else the value of the last name. -/
def parseArg (holder : Holder) (arg : String) : Option Holder :=
  if holder.names.length = holder.values.length then
    (biosCfgOption arg).map fun cfg ↦ { holder with names := holder.names ++ [cfg] }
  else
    holder.names.getLast?.bind fun cfg ↦
      if acceptsValue cfg arg then some { holder with values := holder.values ++ [arg] } else none

/-- There has to be a name. -/
def parseArgs : List String → Option Holder
  | [] => none
  | args => args.foldlM parseArg ⟨[], []⟩

/-! ## The program -/

/-- The states that matter to `set_bios_cfg`. -/
inductive CpuState
  | biosUp
  | biosReady
  | other
  deriving DecidableEq, Repr

/-- What is asked of the node. -/
inductive Op
  | getCpuState
  /-- `set_lbp_param`, of the time that a handshake may take. -/
  | setLbpParam
  | handshake
  | checkForLinkUp
  /-- `LBP_GET_BIOS_PARAM`. -/
  | get (param : BiosParam)
  /-- `LBP_SET_BIOS_PARAM`. -/
  | set (param : BiosParam) (value : ℕ)
  | pressPowerButton (hold : Bool)
  | reset
  | waitBios
  deriving DecidableEq, Repr

/-- Whether it succeeds. What the caller's variable holds after a `get` that fails is not known. -/
def Op.Answer : Op → Type
  | getCpuState => CpuState
  | get _ => Bool × ℕ
  | _ => Bool

abbrev Cmd : Type → Type := Prog Op Op.Answer

def ask (o : Op) : Cmd o.Answer := Prog.perform o

/-! ### The handshake -/

def linkDownResetTries : ℕ := 3

def handshakeResetTries : ℕ := 3

/-- `try_link_up`, with the resets. -/
def tryLinkUp : ℕ → Cmd Bool
  | 0 => pure false
  | n + 1 => do
    let up : Bool ← ask .checkForLinkUp
    if up then pure true
    else
      let _ ← ask .reset
      tryLinkUp n

/-- The loop of `try_handshake`: a node that does not answer is reset. -/
def handshakeLoop : ℕ → Cmd Bool
  | 0 => pure false
  | n + 1 => do
    let ok : Bool ← ask .handshake
    if ok then pure true
    else
      let _ ← ask .reset
      let up ← tryLinkUp linkDownResetTries
      if up then handshakeLoop n else pure false

def tryHandshake : Cmd Bool := handshakeLoop handshakeResetTries

def prepareSpadToReady : Cmd Bool := do
  let ok : Bool ← ask .setLbpParam
  if ok then tryHandshake else pure false

/-! ### The descriptors -/

/-- `get_bios_cfg_for`. -/
def getBiosCfgFor (param : BiosParam) : Cmd (Bool × ℕ) := ask (.get param)

def isSgxEnabled : Cmd Bool := do
  let (ok, value) ← getBiosCfgFor .sgx
  pure (ok && value ≠ 0)

def isEpochDefault : Cmd Bool := do
  let (ok, value) ← getBiosCfgFor .sgxToFactory
  pure (ok && value ≠ 0)

/-- The descriptors of a pair: those that are put into the list at once, and the one that is checked before. -/
abbrev Descs : Type := List Desc × Option Desc

def descsOfSgx (gen1 : Bool) (value : String) : Cmd Descs := do
  -- what a card does not support is reported, and adds nothing
  if gen1 then pure ([], none)
  else if value = "disable" then
    let epochDefault ← isEpochDefault
    pure ([], if epochDefault then some ⟨.sgx, 0⟩ else none)
  -- the first two are in the list before it is known whether SGX is enabled already
  else if value = "enable" then pure ([⟨.sgxToFactory, 1⟩, ⟨.sgxMem, 0⟩], some ⟨.sgx, 1⟩)
  else pure ([], some ⟨.sgx, 0⟩)

/-- The descriptors of an epoch. -/
def epochDescs (value : String) : Descs :=
  if lowCaseValue value = "factory-default" then ([], some ⟨.sgxToFactory, 1⟩)
  else if lowCaseValue value = "random" then ([], some ⟨.sgxOwnerEpochType, 1⟩)
  else
    match epochFromString value.toList with
    | some (upper, lower) => ([⟨.sgxOwnerEpochType, 2⟩, ⟨.epoch0, lower⟩], some ⟨.epoch1, upper⟩)
    | none => ([], none)

def descsOfEpoch (gen1 : Bool) (value : String) : Cmd Descs := do
  if gen1 then pure ([], none)
  else
    let sgxEnabled ← isSgxEnabled
    pure (if sgxEnabled then epochDescs value else ([], none))

def descsOfPrm (gen1 : Bool) (value : String) : Cmd Descs := do
  if gen1 then pure ([], none)
  else
    let sgxEnabled ← isSgxEnabled
    pure ([], if sgxEnabled then (prmFromString value).map (Desc.mk .sgxMem) else none)

/-- The aperture is the one setting of first-generation cards, up to a size. -/
def apertureDesc (gen1 : Bool) (value : String) : Option Desc :=
  (apertureFromString value).bind fun size ↦
    if gen1 && !isApertureSizeValidOnGen1Card size then none else some ⟨.gpuAperture, size⟩

/-- The branches of the loop over the pairs. -/
def descsOf (gen1 : Bool) (value : String) : Cfg → Cmd Descs
  | .sgx => descsOfSgx gen1 value
  | .epoch => descsOfEpoch gen1 value
  | .prm => descsOfPrm gen1 value
  | .ht => pure ([], if gen1 then none else some ⟨.ht, isEnable value⟩)
  | .gpu => pure ([], if gen1 then none else some ⟨.gpu, isEnable value⟩)
  | .gpuAperture => pure ([], apertureDesc gen1 value)
  | .tdp => pure ([], if gen1 then none else (tdpFromString value).map (Desc.mk .tdp))

/-- A descriptor that has its value already is skipped, but the epoch never leaves the node. What is `none` ends
the function. -/
def checkDesc (dsc : Desc) : Cmd (Option (List Desc)) := do
  if dsc.param = .epoch1 ∨ dsc.param = .sgxOwnerEpochType then pure (some [dsc])
  else
    let (ok, current) ← getBiosCfgFor dsc.param
    pure (if !ok then none else if dsc.value = current then some [] else some [dsc])

def checkDescs : Descs → Cmd (Option (List Desc))
  | (pushed, none) => pure (some pushed)
  | (pushed, some dsc) => do
    let checked ← checkDesc dsc
    pure (checked.map fun last ↦ pushed ++ last)

/-- The loop that fills the list. -/
def fillDescs (gen1 : Bool) : List (Cfg × String) → List Desc → Cmd (Option (List Desc))
  | [], desc => pure (some desc)
  | (cfg, value) :: pairs, desc => do
    let dscs ← descsOf gen1 value cfg
    let checked ← checkDescs dscs
    match checked with
    | none => pure none
    | some new => fillDescs gen1 pairs (desc ++ new)

/-- The last descriptor of a parameter, and its place. -/
def lastDesc (param : BiosParam) : List Desc → Option (ℕ × Desc)
  | [] => none
  | dsc :: desc =>
    match lastDesc param desc with
    | some (i, last) => some (i + 1, last)
    | none => if dsc.param = param then some (0, dsc) else none

/-- The check that SGX and the aperture go together. If both are written they are brought into an order. -/
def compatCheck (gen1 : Bool) (desc : List Desc) : Cmd (Option (List Desc)) :=
  match lastDesc .sgx desc, lastDesc .gpuAperture desc with
  | some (i, sgx), some (j, aperture) =>
    if sgx.value ≠ 0 ∧ isSgxSupportedForAperture aperture.value = false then pure none
    -- an aperture is made smaller before SGX is enabled, and larger after it is disabled
    else if (sgx.value ≠ 0 ∧ i < j) ∨ (sgx.value = 0 ∧ j < i) then
      pure (some ((desc.set i aperture).set j sgx))
    else pure (some desc)
  | some (_, sgx), none => do
    let (ok, aperture) ← getBiosCfgFor .gpuAperture
    pure (if !ok || (sgx.value ≠ 0 && !isSgxSupportedForAperture aperture) then none else some desc)
  | none, some (_, aperture) =>
    if gen1 then pure (some desc)
    else do
      let (ok, sgx) ← getBiosCfgFor .sgx
      pure (if !ok || (sgx ≠ 0 && !isSgxSupportedForAperture aperture.value) then none else some desc)
  | none, none => pure (some desc)

/-- `set_bios_cfg_for`, of every descriptor. What it returns is not looked at. -/
def writeDescs : List Desc → Cmd Unit
  | [] => pure ()
  | dsc :: desc => do
    let _ ← ask (.set dsc.param dsc.value)
    writeDescs desc

def restartNode (gen1 : Bool) : Cmd Unit := do
  if gen1 then
    let _ ← ask .reset
    pure ()
  else
    let _ ← ask (.pressPowerButton true)
    let _ ← ask (.pressPowerButton false)
    pure ()

/-- Restart the node and wait for the BIOS. -/
def restartAndWait (gen1 : Bool) : Cmd Bool := do
  restartNode gen1
  let up : Bool ← ask .waitBios
  if up then prepareSpadToReady else pure false

/-- A change of the TDP needs no restart. -/
def makeReady (gen1 onlyTdp : Bool) : Cmd Bool := if onlyTdp then pure true else restartAndWait gen1

/-- The check whether the configuration was changed. -/
def readBack : List Desc → Bool → Cmd Bool
  | [], ret => pure ret
  | dsc :: desc, ret => do
    let (ok, newValue) ← getBiosCfgFor dsc.param
    -- of a read that fails the value is compared, of one that succeeds it is not
    readBack desc (if !ok && newValue = dsc.value then false else ret)

/-- Whether anything but the TDP is changed. -/
def onlyTdpChange (desc : List Desc) : Bool := desc.all fun dsc ↦ dsc.param = .tdp

/-- The loop that applies the changes, with the attempts that are left. -/
def applyDescs (gen1 onlyTdp : Bool) (desc : List Desc) : ℕ → Cmd Bool
  | 0 => pure false
  | attempts + 1 => do
    writeDescs desc
    -- without a node there is no other attempt
    let ready ← makeReady gen1 onlyTdp
    if ready then
      let ret ← readBack desc true
      if ret then pure true else applyDescs gen1 onlyTdp desc attempts
    else pure false

def maxAttempts (desc : List Desc) : ℕ := if (lastDesc .sgx desc).isSome then 3 else 1

/-- `set_bios_cfg` from the list of pairs on. -/
def changeBiosCfg (gen1 : Bool) (pairs : List (Cfg × String)) : Cmd Bool := do
  let filled ← fillDescs gen1 pairs []
  match filled with
  | none => pure false
  | some desc =>
    if desc = [] then pure true
    else
      let checked ← compatCheck gen1 desc
      match checked with
      | none => pure false
      | some ordered => applyDescs gen1 (onlyTdpChange desc) ordered (maxAttempts desc)

def setBiosCfg (gen1 : Bool) (cfgs : List Cfg) (values : List String) : Cmd Bool := do
  let status : CpuState ← ask .getCpuState
  if values.length < cfgs.length then pure false
  else
    match status with
    | .other => pure false
    | .biosReady => changeBiosCfg gen1 (cfgs.zip values)
    | .biosUp => do
      let ready ← prepareSpadToReady
      if ready then changeBiosCfg gen1 (cfgs.zip values) else pure false

/-! ## Runs -/

def Op.isGet : Op → Bool
  | get _ => true
  | _ => false

def Op.isSet : Op → Bool
  | set _ _ => true
  | _ => false

/-- The operations that restart a node. -/
def Op.isRestart : Op → Bool
  | pressPowerButton _ => true
  | reset => true
  | _ => false

/-- The operations by which the settings are found out. -/
def Op.Reads (o : Op) : Prop := o.isGet = true

abbrev Run : Type := List (Event Op Op.Answer)

section Runs

variable {α β : Type} {o : Op} {f : o.Answer → Cmd β} {p : Cmd α} {tr : Run} {b : β} {gen1 : Bool}

theorem performs_ask : (ask o >>= f).Performs tr b ↔ ∃ r tr', tr = ⟨o, r⟩ :: tr' ∧ (f r).Performs tr' b := Iff.rfl

theorem Op.isSet_of_isGet {o : Op} (h : o.isGet = true) : o.isSet = false := by
  cases o with
  | set param value => cases h
  | _ => rfl

theorem performs_pure {a a' : α} : (pure a : Cmd α).Performs tr a' ↔ tr = [] ∧ a = a' := Iff.rfl

theorem reads_get (param : BiosParam) : (getBiosCfgFor param).Only Op.Reads := ⟨rfl, fun _ ↦ trivial⟩

theorem reads_pure (a : α) : (pure a : Cmd α).Only Op.Reads := trivial

/-- Which descriptors are written is found out by reading. -/
theorem reads_descsOf (gen1 : Bool) (value : String) (cfg : Cfg) : (descsOf gen1 value cfg).Only Op.Reads := by
  cases cfg with
  | sgx =>
    rw [descsOf, descsOfSgx]
    split_ifs
    · exact reads_pure _
    · exact Prog.Only.bind (Prog.Only.bind (reads_get _) fun _ ↦ reads_pure _) fun _ ↦ reads_pure _
    · exact reads_pure _
    · exact reads_pure _
  | epoch =>
    rw [descsOf, descsOfEpoch]
    split_ifs
    · exact reads_pure _
    · exact Prog.Only.bind (Prog.Only.bind (reads_get _) fun _ ↦ reads_pure _) fun _ ↦ reads_pure _
  | prm =>
    rw [descsOf, descsOfPrm]
    split_ifs
    · exact reads_pure _
    · exact Prog.Only.bind (Prog.Only.bind (reads_get _) fun _ ↦ reads_pure _) fun _ ↦ reads_pure _
  | gpuAperture => exact reads_pure _
  | tdp => exact reads_pure _
  | ht => exact reads_pure _
  | gpu => exact reads_pure _

theorem reads_checkDescs (dscs : Descs) : (checkDescs dscs).Only Op.Reads := by
  obtain ⟨pushed, dsc⟩ := dscs
  cases dsc with
  | none => exact reads_pure _
  | some dsc =>
    rw [checkDescs, checkDesc]
    split_ifs
    · exact reads_pure _
    · exact Prog.Only.bind (Prog.Only.bind (reads_get _) fun _ ↦ reads_pure _) fun _ ↦ reads_pure _

theorem reads_fillDescs (gen1 : Bool) (pairs : List (Cfg × String)) (desc : List Desc) :
    (fillDescs gen1 pairs desc).Only Op.Reads := by
  induction pairs generalizing desc with
  | nil => exact reads_pure _
  | cons pair pairs ih =>
    apply Prog.Only.bind (reads_descsOf gen1 pair.2 pair.1)
    intro dscs
    apply Prog.Only.bind (reads_checkDescs dscs)
    intro checked
    cases checked with
    | none => exact reads_pure _
    | some new => exact ih _

theorem reads_compatCheck (gen1 : Bool) (desc : List Desc) : (compatCheck gen1 desc).Only Op.Reads := by
  rw [compatCheck]
  split
  · split_ifs
    · exact reads_pure _
    · exact reads_pure _
    · exact reads_pure _
  · exact Prog.Only.bind (reads_get _) fun _ ↦ reads_pure _
  · split_ifs
    · exact reads_pure _
    · exact Prog.Only.bind (reads_get _) fun _ ↦ reads_pure _
  · exact reads_pure _

theorem lastDesc_eq_none {param : BiosParam} {desc : List Desc} :
    lastDesc param desc = none ↔ ∀ dsc ∈ desc, dsc.param ≠ param := by
  induction desc with
  | nil => exact iff_of_true rfl fun dsc hdsc ↦ absurd hdsc List.not_mem_nil
  | cons dsc desc ih =>
    rw [lastDesc, List.forall_mem_cons]
    cases hlast : lastDesc param desc with
    | none =>
      rw [and_iff_left (ih.mp hlast)]
      by_cases hparam : dsc.param = param
      · simp [hparam]
      · simp [hparam]
    | some last =>
      have hsome : ¬∀ dsc ∈ desc, dsc.param ≠ param := by
        rw [← ih, hlast]
        exact Option.some_ne_none _
      exact iff_of_false (Option.some_ne_none _) fun h ↦ hsome h.2

theorem length_of_compatCheck {desc ordered : List Desc} (h : (compatCheck gen1 desc).Performs tr (some ordered)) :
    ordered.length = desc.length := by
  rw [compatCheck] at h
  split at h
  · split_ifs at h
    · obtain ⟨-, hsome⟩ := h
      cases hsome
    · obtain ⟨-, hsome⟩ := h
      rw [← Option.some_inj.mp hsome, List.length_set, List.length_set]
    · obtain ⟨-, hsome⟩ := h
      rw [Option.some_inj.mp hsome]
  · obtain ⟨⟨ok, aperture⟩, tr', rfl, hrest⟩ := performs_ask.mp h
    have hsome := (performs_pure.mp hrest).2
    split_ifs at hsome with hbad
    rw [Option.some_inj.mp hsome]
  · split_ifs at h
    · obtain ⟨-, hsome⟩ := h
      rw [Option.some_inj.mp hsome]
    · obtain ⟨⟨ok, sgx⟩, tr', rfl, hrest⟩ := performs_ask.mp h
      have hsome := (performs_pure.mp hrest).2
      split_ifs at hsome with hbad
      rw [Option.some_inj.mp hsome]
  -- neither SGX nor the aperture is written
  · obtain ⟨-, hsome⟩ := h
    rw [Option.some_inj.mp hsome]

theorem performs_changeBiosCfg {pairs : List (Cfg × String)} {b : Bool}
    (h : (changeBiosCfg gen1 pairs).Performs tr b) :
    (∀ e ∈ tr, e.1.Reads) ∨ ∃ desc ordered tr₁ tr₂, tr = tr₁ ++ tr₂ ∧ ordered ≠ [] ∧ (∀ e ∈ tr₁, e.1.Reads) ∧
      (applyDescs gen1 (onlyTdpChange desc) ordered (maxAttempts desc)).Performs tr₂ b := by
  obtain ⟨filled, tr₁, tr', rfl, hfill, h⟩ := Prog.performs_bind.mp h
  have hquiet : ∀ e ∈ tr₁, e.1.Reads :=
    hfill.only (reads_fillDescs gen1 pairs [])
  cases filled with
  | none =>
    obtain ⟨rfl, -⟩ := h
    left
    rwa [List.append_nil]
  | some desc =>
    dsimp only at h
    split_ifs at h with hnil
    · obtain ⟨rfl, -⟩ := h
      left
      rwa [List.append_nil]
    · obtain ⟨checked, tr₂, tr₃, rfl, hcompat, h⟩ := Prog.performs_bind.mp h
      have hquiet' : ∀ e ∈ tr₂, e.1.Reads :=
        hcompat.only (reads_compatCheck gen1 desc)
      have hboth : ∀ e ∈ tr₁ ++ tr₂, e.1.Reads := List.forall_mem_append.mpr ⟨hquiet, hquiet'⟩
      cases checked with
      | none =>
        obtain ⟨rfl, -⟩ := h
        left
        rwa [List.append_nil]
      | some ordered =>
        right
        have hne : ordered ≠ [] := by
          rw [← List.length_pos_iff, length_of_compatCheck hcompat]
          exact List.length_pos_iff.mpr hnil
        exact ⟨desc, ordered, tr₁ ++ tr₂, tr₃, by rw [List.append_assoc], hne, hboth, h⟩

/-- How the node is made ready: the time cannot be set, or it answers at once, or it is reset. -/
theorem performs_prepareSpadToReady {ready : Bool} (h : prepareSpadToReady.Performs tr ready) :
    (tr = [⟨.setLbpParam, false⟩] ∧ ready = false) ∨ (tr = [⟨.setLbpParam, true⟩, ⟨.handshake, true⟩] ∧ ready = true) ∨
      ((⟨.handshake, false⟩ : Event Op Op.Answer) ∈ tr ∧ ∃ ok, (⟨.reset, ok⟩ : Event Op Op.Answer) ∈ tr) := by
  obtain ⟨set, tr', rfl, hset⟩ := performs_ask.mp h
  cases set with
  | false =>
    obtain ⟨rfl, rfl⟩ := hset
    exact .inl ⟨rfl, rfl⟩
  | true =>
    obtain ⟨shaken, tr'', rfl, hshaken⟩ := performs_ask.mp hset
    right
    cases shaken with
    | true =>
      obtain ⟨rfl, rfl⟩ := hshaken
      exact .inl ⟨rfl, rfl⟩
    | false =>
      obtain ⟨ok, tr₃, rfl, -⟩ := performs_ask.mp hshaken
      exact .inr ⟨by simp, ok, by simp⟩

/-- No parameter is looked at while the node is made ready. -/
def Op.IsLink (o : Op) : Prop := o.isSet = false ∧ o.isGet = false

theorem isLink_tryLinkUp (n : ℕ) : (tryLinkUp n).Only Op.IsLink := by
  induction n with
  | zero => trivial
  | succ n ih =>
    refine ⟨⟨rfl, rfl⟩, fun up ↦ ?_⟩
    cases up with
    | true => trivial
    | false => exact ⟨⟨rfl, rfl⟩, fun _ ↦ ih⟩

theorem isLink_handshakeLoop (n : ℕ) : (handshakeLoop n).Only Op.IsLink := by
  induction n with
  | zero => trivial
  | succ n ih =>
    refine ⟨⟨rfl, rfl⟩, fun ok ↦ ?_⟩
    cases ok with
    | true => trivial
    | false =>
      refine ⟨⟨rfl, rfl⟩, fun _ ↦ ?_⟩
      change Prog.Only Op.IsLink (tryLinkUp linkDownResetTries >>= fun up ↦ if up then handshakeLoop n else pure false)
      apply Prog.Only.bind (isLink_tryLinkUp _)
      intro up
      cases up with
      | true => exact ih
      | false => trivial

theorem isLink_prepareSpadToReady : prepareSpadToReady.Only Op.IsLink := by
  refine ⟨⟨rfl, rfl⟩, fun ok ↦ ?_⟩
  cases ok with
  | true => exact isLink_handshakeLoop _
  | false => trivial

/-- The state of the node is asked, and a node that is up is made ready. -/
theorem setBiosCfg_cases {cfgs : List Cfg} {values : List String} {b : Bool} (hlen : cfgs.length ≤ values.length)
    (h : (setBiosCfg gen1 cfgs values).Performs tr b) :
    tr = [⟨.getCpuState, CpuState.other⟩] ∨
      (∃ tr', tr = ⟨.getCpuState, CpuState.biosReady⟩ :: tr' ∧ (changeBiosCfg gen1 (cfgs.zip values)).Performs tr' b) ∨
      ∃ ready tr₁ tr₂, tr = ⟨.getCpuState, CpuState.biosUp⟩ :: (tr₁ ++ tr₂) ∧ prepareSpadToReady.Performs tr₁ ready ∧
        if ready then (changeBiosCfg gen1 (cfgs.zip values)).Performs tr₂ b else tr₂ = [] := by
  obtain ⟨status, tr', rfl, hrest⟩ := performs_ask.mp h
  rw [if_neg (Nat.not_lt.mpr hlen)] at hrest
  cases status with
  | other =>
    obtain ⟨rfl, -⟩ := hrest
    exact .inl rfl
  | biosReady => exact .inr (.inl ⟨tr', rfl, hrest⟩)
  | biosUp =>
    obtain ⟨ready, tr₁, tr₂, rfl, hready, hchange⟩ := Prog.performs_bind.mp hrest
    refine .inr (.inr ⟨ready, tr₁, tr₂, rfl, hready, ?_⟩)
    cases ready with
    | true => exact hchange
    | false =>
      obtain ⟨rfl, -⟩ := hchange
      rfl

theorem performs_setBiosCfg {cfgs : List Cfg} {values : List String} {b : Bool}
    (h : (setBiosCfg gen1 cfgs values).Performs tr b) :
    (∀ e ∈ tr, e.1.isSet = false) ∨ ∃ tr₁ tr₂, tr = tr₁ ++ tr₂ ∧ (∀ e ∈ tr₁, e.1.isSet = false) ∧
      (changeBiosCfg gen1 (cfgs.zip values)).Performs tr₂ b := by
  by_cases hlen : cfgs.length ≤ values.length
  · rcases setBiosCfg_cases hlen h with rfl | ⟨tr', rfl, hchange⟩ | ⟨ready, tr₁, tr₂, rfl, hready, hchange⟩
    · exact .inl (List.forall_mem_singleton.mpr rfl)
    · exact .inr ⟨[⟨.getCpuState, CpuState.biosReady⟩], tr', rfl, List.forall_mem_singleton.mpr rfl, hchange⟩
    · have hlink : ∀ e ∈ (⟨.getCpuState, CpuState.biosUp⟩ :: tr₁ : Run), e.1.isSet = false :=
        List.forall_mem_cons.mpr ⟨rfl, fun e he ↦ (hready.only isLink_prepareSpadToReady e he).1⟩
      split_ifs at hchange
      · exact .inr ⟨_, tr₂, rfl, hlink, hchange⟩
      · subst hchange
        rw [List.append_nil]
        exact .inl hlink
  · obtain ⟨status, tr', rfl, hrest⟩ := performs_ask.mp h
    rw [if_pos (Nat.lt_of_not_le hlen)] at hrest
    obtain ⟨rfl, -⟩ := hrest
    exact .inl (List.forall_mem_singleton.mpr rfl)

theorem performs_of_biosReady {cfgs : List Cfg} {values : List String} {b : Bool} (hlen : cfgs.length ≤ values.length)
    (h : (changeBiosCfg gen1 (cfgs.zip values)).Performs tr b) :
    (setBiosCfg gen1 cfgs values).Performs (⟨.getCpuState, CpuState.biosReady⟩ :: tr) b := by
  apply performs_ask.mpr
  refine ⟨CpuState.biosReady, tr, rfl, ?_⟩
  rw [if_neg (Nat.not_lt.mpr hlen)]
  exact h

end Runs

/-! ## The steps of the loop -/

section Loop

variable {gen1 onlyTdp : Bool} {desc : List Desc} {w r mid : Run} {b ret : Bool}

theorem isSet_of_writeDescs (h : (writeDescs desc).Performs w ()) : ∀ e ∈ w, e.1.isSet = true := by
  induction desc generalizing w with
  | nil =>
    obtain ⟨rfl, -⟩ := h
    exact fun e he ↦ absurd he List.not_mem_nil
  | cons dsc desc ih =>
    obtain ⟨ok, w', rfl, h'⟩ := performs_ask.mp h
    intro e he
    rcases List.mem_cons.mp he with rfl | he
    · rfl
    · exact ih h' e he

theorem length_of_writeDescs (h : (writeDescs desc).Performs w ()) : w.length = desc.length := by
  induction desc generalizing w with
  | nil =>
    obtain ⟨rfl, -⟩ := h
    rfl
  | cons dsc desc ih =>
    obtain ⟨ok, w', rfl, h'⟩ := performs_ask.mp h
    rw [List.length_cons, List.length_cons, ih h']

theorem isGet_of_readBack (h : (readBack desc ret).Performs r b) : ∀ e ∈ r, e.1.isGet = true := by
  induction desc generalizing r ret with
  | nil =>
    obtain ⟨rfl, -⟩ := h
    exact fun e he ↦ absurd he List.not_mem_nil
  | cons dsc desc ih =>
    obtain ⟨answer, r', rfl, h'⟩ := performs_ask.mp h
    intro e he
    rcases List.mem_cons.mp he with rfl | he
    · rfl
    · exact ih h' e he

theorem length_of_readBack (h : (readBack desc ret).Performs r b) : r.length = desc.length := by
  induction desc generalizing r ret with
  | nil =>
    obtain ⟨rfl, -⟩ := h
    rfl
  | cons dsc desc ih =>
    obtain ⟨answer, r', rfl, h'⟩ := performs_ask.mp h
    rw [List.length_cons, List.length_cons, ih h']

theorem exists_maxAttempts (desc : List Desc) : ∃ attempts, maxAttempts desc = attempts + 1 := by
  rw [maxAttempts]
  split_ifs
  · exact ⟨2, rfl⟩
  · exact ⟨0, rfl⟩

theorem mid_of_makeReady (h : (makeReady gen1 onlyTdp).Performs mid b) :
    ∀ e ∈ mid, e.1.isSet = false ∧ e.1.isGet = false := by
  apply @Prog.Performs.only _ _ _ _ _ _ Op.IsLink h
  rw [makeReady]
  split_ifs
  · trivial
  · have hrestart : (restartNode gen1).Only Op.IsLink := by
      rw [restartNode]
      split_ifs
      · exact ⟨⟨rfl, rfl⟩, fun _ ↦ trivial⟩
      · exact ⟨⟨rfl, rfl⟩, fun _ ↦ ⟨⟨rfl, rfl⟩, fun _ ↦ trivial⟩⟩
    apply Prog.Only.bind hrestart
    intro
    refine ⟨⟨rfl, rfl⟩, fun up ↦ ?_⟩
    cases up with
    | true => exact isLink_prepareSpadToReady
    | false => trivial

end Loop

end Vcass.Vcactl.BiosCfg
