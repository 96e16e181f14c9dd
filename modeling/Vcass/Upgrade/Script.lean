import Vcass.Config.Default
import Vcass.Upgrade.Decision

/-!
# The configuration upgrade

`vca_config_upgrade.sh` runs `make_config.py` on the three configurations. If that ends with an exit code other
than 0, then options may have been merged before, and `vcactl config-default` is to take them back.

## Where the script stops

It stops at an option, after some number of others; or after all of them; or before the first one, when a
configuration cannot be read or a table cannot be built. What is stored there decides whether the default
configuration can be restored.
-/

namespace Vcass.Upgrade

open Vcass.Config

/-- One of the files that the script is called with. -/
inductive XmlFile
  | missing
  | malformed
  | tree (root : Ptree)

/-- What the script is called with, and the orders in which Python goes through dictionaries. -/
structure Setup where
  oldDef : XmlFile
  user : XmlFile
  newDef : XmlFile
  mode : UpdateMode
  debug : Bool
  order : List XmlConfig
  loop : List String → List String

/-- `XmlTree.parse`: a file that cannot be opened is reported, and any other error is not caught. -/
def parseXml : XmlFile → Except ℤ Ptree
  | .missing => .error 3
  | .malformed => .error Raised.uncaught.exitCode
  | .tree root => .ok root

/-- `XMLContainer`. -/
def xmlContainer (setup : Setup) : Except ℤ (XmlConfig → Ptree) := do
  let oldDef ← parseXml setup.oldDef
  let user ← parseXml setup.user
  let newDef ← parseXml setup.newDef
  pure fun
    | .o => oldDef
    | .u => user
    | .n => newDef

/-- Everything before the first option: the options, or an exit code. -/
def prepare (setup : Setup) : Except ℤ (List Job) :=
  match xmlContainer setup with
  | .error code => .error code
  | .ok roots =>
    match allJobs setup.loop setup.order roots with
    | none => .error Raised.uncaught.exitCode
    | some jobs => .ok jobs

/-- `make_config.py`: its exit code, and what is stored after it. -/
def makeConfig (w : World) (setup : Setup) (file : Ptree) : ℤ × Ptree :=
  match prepare setup with
  | .error code => (code, file)
  | .ok jobs => execute w setup.mode setup.debug 0 jobs file

/-- `vca_config_upgrade.sh`. The shell sees eight bits of an exit code, and what `config-default` returns is not
looked at. -/
def vcaConfigUpgrade (host : Host) (w : World) (setup : Setup) (file : Ptree) : ℤ × Ptree :=
  let exitCode := (makeConfig w setup file).1 % 256
  if exitCode = 0 then (0, (makeConfig w setup file).2)
  else (exitCode, configDefault host (makeConfig w setup file).2)

/-! ## Points at which the script stops -/

/-- After so many options of the list, the first of which has number `i`, the script ends with a code and leaves
a file. -/
inductive StopsAt (w : World) (mode : UpdateMode) (debug : Bool) : ℕ → List Job → Ptree → ℕ → ℤ → Ptree → Prop
  | last {i : ℕ} {file : Ptree} : StopsAt w mode debug i [] file 0 ((w.stop i).getD 0) file
  | here {i : ℕ} {job : Job} {jobs : List Job} {file file' : Ptree} {code : ℤ}
      (h : mergeOption w mode debug i job file = ⟨some code, file'⟩) :
      StopsAt w mode debug i (job :: jobs) file 0 code file'
  | later {i : ℕ} {job : Job} {jobs : List Job} {file file' file'' : Ptree} {k : ℕ} {code : ℤ}
      (h : mergeOption w mode debug i job file = ⟨none, file'⟩)
      (rest : StopsAt w mode debug (i + 1) jobs file' k code file'') :
      StopsAt w mode debug i (job :: jobs) file (k + 1) code file''

section StopsAt

variable {w : World} {mode : UpdateMode} {debug : Bool} {i k : ℕ} {jobs : List Job} {file stored : Ptree} {code : ℤ}

theorem execute_eq_of_stopsAt (h : StopsAt w mode debug i jobs file k code stored) :
    execute w mode debug i jobs file = (code, stored) := by
  induction h with
  | last => rfl
  | here h => rw [execute, h]
  | later h rest ih =>
    rw [execute, h]
    exact ih

theorem exists_stopsAt (i : ℕ) (jobs : List Job) (file : Ptree) :
    ∃ k, StopsAt w mode debug i jobs file k (execute w mode debug i jobs file).1
      (execute w mode debug i jobs file).2 := by
  induction jobs generalizing i file with
  | nil => exact ⟨0, .last⟩
  | cons job jobs ih =>
    rw [execute]
    rcases hjob : mergeOption w mode debug i job file with ⟨_ | code, file'⟩
    · obtain ⟨k, hk⟩ := ih (i + 1) file'
      exact ⟨k + 1, .later hjob hk⟩
    · exact ⟨0, .here hjob⟩

/-- Only the options before the point, and the option at the point, have been merged. -/
theorem stored_eq_mergedFile (h : StopsAt w mode debug i jobs file k code stored) :
    stored = mergedFile w mode debug i (jobs.take k) file ∨
      stored = mergedFile w mode debug i (jobs.take (k + 1)) file := by
  induction h with
  | last => exact .inl rfl
  | here h =>
    right
    rw [List.take_succ_cons, List.take_zero, mergedFile, mergedFile, h]
  | later h rest ih =>
    rw [List.take_succ_cons, mergedFile, h, List.take_succ_cons, mergedFile, h]
    exact ih

end StopsAt

/-- `make_config.py` stops with the code and leaves the file: before the first option, or at one, or after all. -/
def Stops (w : World) (setup : Setup) (file : Ptree) (code : ℤ) (stored : Ptree) : Prop :=
  match prepare setup with
  | .error code' => code = code' ∧ stored = file
  | .ok jobs => ∃ k, StopsAt w setup.mode setup.debug 0 jobs file k code stored

section Stops

variable {host : Host} {w : World} {setup : Setup} {file stored : Ptree} {code : ℤ}

theorem makeConfig_eq_of_stops (h : Stops w setup file code stored) : makeConfig w setup file = (code, stored) := by
  rw [Stops] at h
  rw [makeConfig]
  cases hprep : prepare setup with
  | error code' =>
    rw [hprep] at h
    obtain ⟨rfl, rfl⟩ := h
    rfl
  | ok jobs =>
    rw [hprep] at h
    obtain ⟨k, hk⟩ := h
    exact execute_eq_of_stopsAt hk

theorem stops_makeConfig (w : World) (setup : Setup) (file : Ptree) :
    Stops w setup file (makeConfig w setup file).1 (makeConfig w setup file).2 := by
  rw [Stops, makeConfig]
  cases prepare setup with
  | error code' => exact ⟨rfl, rfl⟩
  | ok jobs => exact exists_stopsAt 0 jobs file

theorem vcaConfigUpgrade_of_stops (h : Stops w setup file code stored) (hcode : code % 256 ≠ 0) :
    vcaConfigUpgrade host w setup file = (code % 256, configDefault host stored) := by
  rw [vcaConfigUpgrade, makeConfig_eq_of_stops h]
  exact if_neg hcode

theorem vcaConfigUpgrade_fst (h : Stops w setup file code stored) :
    (vcaConfigUpgrade host w setup file).1 = code % 256 := by
  rw [vcaConfigUpgrade, makeConfig_eq_of_stops h]
  by_cases hcode : code % 256 = 0
  · exact (congrArg Prod.fst (if_pos hcode)).trans hcode.symm
  · exact congrArg Prod.fst (if_neg hcode)

/-- **All or nothing.** Wherever the script stops with an error, the default configuration is what is stored
afterwards if and only if `config-default` could restore it from there, or nothing had to be done. -/
theorem upgrade_restores_iff (hlock : host.lock = true) (hwrite : host.write = true)
    (hstop : Stops w setup file code stored) (hexit : (vcaConfigUpgrade host w setup file).1 ≠ 0) :
    (vcaConfigUpgrade host w setup file).2 = defaultFile ↔ host.Restores stored ∨ stored = defaultFile := by
  rw [vcaConfigUpgrade_fst hstop] at hexit
  rw [vcaConfigUpgrade_of_stops hstop hexit]
  exact configDefault_eq_iff hlock hwrite

end Stops

/-! ## A device that is enabled by the merge -/

/-- What `vcactl config` does with an option whose value it does not check. -/
def vcactlConfig (env : Env) (call : Call) (file : Ptree) : Option ℤ × Ptree :=
  let saved :=
    match call.target with
    | .global => saveGlobalField env call.option call.value file
    | .node card cpu => saveCpuField env card cpu call.option call.value file
    | .blockDev card cpu name =>
      (extractBlockDevId name).bind fun dev ↦ saveBlkField env card cpu dev call.option call.value file
  match saved with
  | some file => (some 0, file)
  | none => (some 11, file)

section Calls

variable {host : Host} {w : World} {setup : Setup} {mode : UpdateMode} {i k : ℕ} {jobs : List Job}
variable {file stored : Ptree} {code : ℤ}

/-- The call of `vcactl` that is made for an option, if there is one. -/
def callFor (w : World) (mode : UpdateMode) (i : ℕ) (job : Job) : Option Call :=
  match w.stop i, choose mode (w.answer i) (w.typed i) job.values with
  | none, .ok value => some ⟨job.target, job.option, value.getD ""⟩
  | _, _ => none

/-- The calls for the options from number `i` on. -/
def callsFor (w : World) (mode : UpdateMode) : ℕ → List Job → List Call
  | _, [] => []
  | i, job :: jobs => (callFor w mode i job).toList ++ callsFor w mode (i + 1) jobs

/-- The configuration after calls of `vcactl config`, whatever they have returned. -/
def configured (env : Env) (calls : List Call) (file : Ptree) : Ptree :=
  calls.foldl (fun file call ↦ (vcactlConfig env call file).2) file

theorem mergeOption_file (hvcactl : ∀ i, w.vcactl i = vcactlConfig host.toEnv) (job : Job) :
    (mergeOption w mode false i job file).file = configured host.toEnv (callFor w mode i job).toList file := by
  rw [mergeOption_eq, callFor]
  cases w.stop i with
  | some code => rfl
  | none =>
    cases choose mode (w.answer i) (w.typed i) job.values with
    | error e => rfl
    | ok value =>
      change (runVcactl w false i job value file).file =
        (vcactlConfig host.toEnv ⟨job.target, job.option, value.getD ""⟩ file).2
      rw [runVcactl, if_neg Bool.false_ne_true, hvcactl]
      rcases vcactlConfig host.toEnv ⟨job.target, job.option, value.getD ""⟩ file with ⟨_ | code, file'⟩
      · rfl
      · dsimp only
        split_ifs <;> rfl

theorem mergedFile_eq_configured (hvcactl : ∀ i, w.vcactl i = vcactlConfig host.toEnv) :
    mergedFile w mode false i jobs file = configured host.toEnv (callsFor w mode i jobs) file := by
  induction jobs generalizing i file with
  | nil => rfl
  | cons job jobs ih =>
    rw [mergedFile, ih, mergeOption_file hvcactl, callsFor, configured, configured, configured, List.foldl_append]

/-- **All or nothing, by the options.** The script has made the calls for the options before the point at which it
stops, and perhaps for the one there. The default configuration is restored if and only if `config-default` accepts
what they have left, or that is the default configuration. -/
theorem upgrade_restores_iff_calls (hvcactl : ∀ i, w.vcactl i = vcactlConfig host.toEnv) (hlock : host.lock = true)
    (hwrite : host.write = true) (hdebug : setup.debug = false) (hprepare : prepare setup = .ok jobs)
    (hexit : (vcaConfigUpgrade host w setup file).1 ≠ 0) :
    ∃ n stored, stored = configured host.toEnv (callsFor w setup.mode 0 (jobs.take n)) file ∧
      ((vcaConfigUpgrade host w setup file).2 = defaultFile ↔ host.Restores stored ∨ stored = defaultFile) := by
  have hstop := stops_makeConfig w setup file
  rw [vcaConfigUpgrade_fst hstop] at hexit
  have hrestored := @configDefault_eq_iff host (makeConfig w setup file).2 hlock hwrite
  have hleft : (vcaConfigUpgrade host w setup file).2 = configDefault host (makeConfig w setup file).2 :=
    congrArg Prod.snd (vcaConfigUpgrade_of_stops hstop hexit)
  rw [← hleft] at hrestored
  rw [Stops, hprepare] at hstop
  obtain ⟨k, hk⟩ := hstop
  rw [hdebug] at hk
  rcases stored_eq_mergedFile hk with hmerged | hmerged
  · exact ⟨k, _, hmerged.trans (mergedFile_eq_configured hvcactl), hrestored⟩
  · exact ⟨k + 1, _, hmerged.trans (mergedFile_eq_configured hvcactl), hrestored⟩

end Calls

/-- One card of three CPUs, and all files and devices are accessible. -/
def workingHost : Host where
  cardType _ := vcaMvFab1
  lock := true
  write := true
  ready := true
  blkFd := true

/-- Nobody types anything, and nothing interrupts the script. -/
def quietWorld : World where
  stop _ := none
  answer _ := .other
  typed _ := none
  vcactl _ := vcactlConfig workingHost.toEnv

/-- A configuration in which the first CPU has a block device, and the second one has an address or not. -/
def smallConfig (enabled : String) (ip : List (String × Ptree)) : Ptree :=
  let id (n : ℕ) : String × Ptree := ("id", .node (toString n) [])
  .node "" (("global", .node "" []) :: (List.range numCards).map fun card ↦
    ("card", .node "" ((Ptree.xmlattr, .node "" [("type", .node "8" []), id card]) ::
      (List.range numCpus).map fun cpu ↦
        ("cpu", .node "" ((Ptree.xmlattr, .node "" [id cpu]) ::
          (if card = 0 ∧ cpu = 1 then ip else []) ++
          [("block-devs", .node "" (if card = 0 ∧ cpu = 0 then
            [("vcablk0", .node "" [("enabled", .node enabled [])])] else []))])))))

def ipOption : List (String × Ptree) := [("ip", .node "172.31.2.1" [])]

/-- The user has enabled the block device, and has deleted the address. -/
def smallSetup (enabled : String) : Setup where
  oldDef := .tree (smallConfig "" ipOption)
  user := .tree (smallConfig enabled [])
  newDef := .tree (smallConfig "" ipOption)
  mode := .fullAuto
  debug := false
  order := [.u, .o, .n]
  loop keys := keys

/-- The new default configuration is stored when the upgrade begins. -/
def storedDefault : Ptree := .node "" [(vcaConfigHeader, smallConfig "" ipOption)]

/-- The user has no block device enabled. The missing address ends the script, and everything is restored. -/
theorem missing_option_restored :
    (vcaConfigUpgrade workingHost quietWorld (smallSetup "") storedDefault).2 = defaultFile := by
  have hexit : (vcaConfigUpgrade workingHost quietWorld (smallSetup "") storedDefault).1 ≠ 0 := by decide +kernel
  have hstop := stops_makeConfig quietWorld (smallSetup "") storedDefault
  exact (upgrade_restores_iff rfl rfl hstop hexit).mpr (.inl (by decide +kernel))

/-- The number of children of the configurations in a file. -/
def configSize (file : Ptree) : ℕ := (file.children.map fun c ↦ c.2.children.length).sum

/-- The device was enabled before the script came to the missing address, and `config-default` refuses. -/
theorem enabled_device_stays :
    (vcaConfigUpgrade workingHost quietWorld (smallSetup "1") storedDefault).1 = 3 ∧
      (vcaConfigUpgrade workingHost quietWorld (smallSetup "1") storedDefault).2 ≠ defaultFile := by
  -- The file that is left has the cards of the small configuration, not those of the default one.
  have hrun : (vcaConfigUpgrade workingHost quietWorld (smallSetup "1") storedDefault).1 = 3 ∧
      configSize (vcaConfigUpgrade workingHost quietWorld (smallSetup "1") storedDefault).2 = numCards + 1 := by
    decide +kernel
  refine ⟨hrun.1, fun hdefault ↦ ?_⟩
  have hsize : configSize defaultFile = 34 := by decide +kernel
  rw [hdefault, hsize] at hrun
  exact absurd hrun.2 (by decide)

end Vcass.Upgrade
