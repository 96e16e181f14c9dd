import Vcass.Vcactl.BlkDevs

/-!
# Exclusive use of the files of block devices

Two devices *conflict* when they are files, the files are the same and one of them may be written to. No two
enabled devices are to conflict, and an open is to be refused only because of an enabled device.

The first rests on `check_blk_path`, which compares the path of a command in RW mode, as it is written, with the
paths of the enabled devices of the other nodes. It holds in every run of calls that succeed in which whatever
conflicts with a device that is opened is among what is compared: a device of another node, on a card that is
counted, with the path of the command for its path.

The second rests on the path that was checked last, which is remembered also if the call failed after the check.
The next node is refused then, and no device need be enabled.

## The invariants

In every run a process has read of the file what it compares, unless the path was checked before. While the calls
succeed, the file says which devices are enabled, and a process has read of the file all that it did not change
itself; the path that was checked last belongs to a device that the process has enabled.
-/

namespace Vcass.Vcactl

open Conc Config LastWrite

/-- The device that a command is about; `boot` has none on the command line and means the first. -/
def Command.dev : Command → ℕ
  | .blockioOpen dev _ => dev
  | .blockioClose dev => dev
  | .boot => 0

variable {fs : FileSystem} {cards : Cards} {file file' : Key → Option BlkDev} {p p' : Process}
  {node : Node} {dev : ℕ} {path : String} {env : Env} {e k : Key} {d d' : BlkDev} {s s' t : Sys} {l : Label}
  {r : Option Refusal}

/-! ## The property -/

/-- The device is described in the file and enabled. -/
def Opened (file : Key → Option BlkDev) (e : Key) (d : BlkDev) : Prop := file e = some d ∧ d.isEnabled = true

/-- Both devices are files of one name, and one of them may be written to. -/
def Conflict (fs : FileSystem) (d d' : BlkDev) : Prop :=
  d.mode ≠ blockioModeRamdisk ∧ d'.mode ≠ blockioModeRamdisk ∧
    (d.mode = blockioModeRw ∨ d'.mode = blockioModeRw) ∧ fs.canonical d.path = fs.canonical d'.path

instance : Decidable (Conflict fs d d') := inferInstanceAs (Decidable (_ ∧ _ ∧ _ ∧ _))

theorem Conflict.symm (h : Conflict fs d d') : Conflict fs d' d :=
  ⟨h.2.1, h.1, h.2.2.1.symm, h.2.2.2.symm⟩

/-- No two enabled devices conflict. -/
def Exclusive (fs : FileSystem) (file : Key → Option BlkDev) : Prop :=
  ∀ ⦃e e' : Key⦄ ⦃d d' : BlkDev⦄, e ≠ e' → Opened file e d → Opened file e' d' → ¬ Conflict fs d d'

/-- Another enabled device is the file with the path. -/
def UsedByOther (fs : FileSystem) (file : Key → Option BlkDev) (k : Key) (path : String) : Prop :=
  ∃ e d, e ≠ k ∧ Opened file e d ∧ d.mode ≠ blockioModeRamdisk ∧ fs.canonical d.path = fs.canonical path

/-- A device is refused as opened already only if another enabled device is the same file. -/
def NeverRefused (fs : FileSystem) (cards : Cards) (s : Sys) : Prop :=
  ∀ ⦃p : Process⦄ ⦃node : Node⦄ (env : Env), s.proc = some p → cards.validateNodeRange node = true → node ∉ p.called →
    (callNode fs cards env node s.file p).refusal = some .alreadyOpened →
      ∃ path, pathToCheck p node = some path ∧ UsedByOther fs s.file (node, p.cmd.dev) path

/-! ## The conditions -/

/-- The call succeeds, if the label is one. -/
def Succeeds (fs : FileSystem) (cards : Cards) (s : Sys) : Label → Prop
  | .start _ => True
  | .call node env => ∀ ⦃p⦄, s.proc = some p → (callNode fs cards env node s.file p).refusal = none

/-- If the path that was checked last is to be checked again, then another enabled device has the file. -/
def Remembered (fs : FileSystem) (cards : Cards) (s : Sys) : Prop :=
  ∀ ⦃p : Process⦄ ⦃node : Node⦄, s.proc = some p → cards.validateNodeRange node = true → node ∉ p.called →
    pathToCheck p node = some p.previousFilePath → UsedByOther fs s.file (node, p.cmd.dev) p.previousFilePath

/-- The device that a call opens: mode and path, as far as they matter. -/
def OpenMode.target (mode : OpenMode) (described : BlkDev) : BlkDev :=
  match mode with
  | .config => described
  | .ramdisk size => ⟨blockioModeRamdisk, "", size, "1"⟩
  | .ro path => ⟨blockioModeRo, path, "0", "1"⟩
  | .rw path => ⟨blockioModeRw, path, "0", "1"⟩

/-- `check_blk_path` compares the device with what is opened. -/
def OpenMode.Compared (cards : Cards) (mode : OpenMode) (node : Node) (e : Key) (d : BlkDev) : Prop :=
  ∃ path, mode = .rw path ∧ e.1 ≠ node ∧ e.1.1 < cards.getCardsNum ∧ d.path = path

/-- Every enabled device that conflicts with one that is opened is compared with it. -/
def Seen (fs : FileSystem) (cards : Cards) (s : Sys) : Label → Prop
  | .start _ => True
  | .call node _ =>
    match s.proc with
    | some ⟨.blockioOpen dev mode, _, _, _, _⟩ =>
      ∀ ⦃e : Key⦄ ⦃d : BlkDev⦄, e ≠ (node, dev) → Opened s.file e d →
        Conflict fs (mode.target ((s.file (node, dev)).getD .blank)) d → mode.Compared cards node e d
    | _ => True

/-! ## The calls -/

theorem FileSystem.canonical_of_realpath {q : String} (h : fs.realpath path = some q) :
    fs.canonical q = fs.canonical path := by
  simp [canonical, h, fs.canon h]

theorem FileSystem.ne_empty_of_exists (h : fs.fileExists path = true) : path ≠ "" := by
  rintro rfl
  rw [fs.exists_nonempty] at h
  exact Bool.noConfusion h

@[simp] theorem BlkDev.load_self (d : BlkDev) : d.load d = d := by
  simp [load, put]

@[simp] theorem BlkDev.load_blank (d : BlkDev) : BlkDev.blank.load d = d := by
  have hput (x : String) : put "" "" x = x := by
    unfold put
    split
    · rename_i h
      exact h.symm
    · rfl
  simp [load, blank, hput]

theorem checkBlkPath_ok (h : checkBlkPath cards p node = .ok p') :
    pathToCheck p node = none ∧ p' = p ∨ ∃ path, pathToCheck p node = some path ∧ p.previousFilePath ≠ path ∧
      usedElsewhere cards p node path = false ∧ p' = { p with previousFilePath := path } := by
  unfold checkBlkPath at h
  split at h
  · exact Or.inl ⟨‹_›, (Except.ok.inj h).symm⟩
  · rename_i path hpath
    split_ifs at h with hprev hused
    exact Or.inr ⟨path, hpath, hprev, Bool.eq_false_iff.mpr hused, (Except.ok.inj h).symm⟩

theorem checkBlkPath_error {r : Refusal} (h : checkBlkPath cards p node = .error r) :
    ∃ path, pathToCheck p node = some path ∧
      (p.previousFilePath = path ∨ usedElsewhere cards p node path = true) := by
  unfold checkBlkPath at h
  split at h
  · cases h
  · rename_i path hpath
    split_ifs at h with hprev hused
    · exact ⟨path, hpath, Or.inl hprev⟩
    · exact ⟨path, hpath, Or.inr hused⟩

theorem usedElsewhere_iff : usedElsewhere cards p node path = true ↔
    ∃ i < maxBlkDevs, ∃ j < cards.getCardsNum, ∃ k < cards.cpus j, (j, k) ≠ node ∧
      (p.config ((j, k), i)).mode ≠ blockioModeRamdisk ∧ path = (p.config ((j, k), i)).path ∧
      (p.config ((j, k), i)).isEnabled = true := by
  simp only [usedElsewhere, List.any_eq_true, List.mem_range, Bool.and_eq_true, decide_eq_true_eq, and_assoc]

@[simp] theorem saveBlk_self (f : BlkDev → BlkDev) : saveBlk k f file k = (file k).map f := by
  simp [saveBlk]

theorem saveBlk_of_ne (f : BlkDev → BlkDev) (h : e ≠ k) : saveBlk k f file e = file e := by
  simp [saveBlk, h]

theorem addBlkDevFields_of_ne (h : e ≠ k) : addBlkDevFields k file e = file e := by
  simp [addBlkDevFields, h]

/-- What a call does to the other devices, and to the process. -/
structure Frame (k : Key) (file file' : Key → Option BlkDev) (p p' : Process) : Prop where
  others : ∀ e, e ≠ k → file' e = file e
  cmd : p'.cmd = p.cmd
  called : p'.called = p.called
  previous : p'.previousFilePath = p.previousFilePath
  config : ∀ e, e ≠ k → p.config e = (file e).getD .blank → p'.config e = p.config e
  exist : (∀ e, p.exist e = true → (file e).isSome = true) → ∀ e, p'.exist e = true → (file' e).isSome = true

theorem Frame.refl : Frame k file file p p := ⟨fun _ _ ↦ rfl, rfl, rfl, rfl, fun _ _ _ ↦ rfl, fun h ↦ h⟩

/-- A description in the file is what the mode asks for. -/
def OpenMode.Written (fs : FileSystem) (mode : OpenMode) (d : BlkDev) : Prop :=
  match mode with
  | .config => True
  | .ramdisk _ => d.mode = blockioModeRamdisk
  | .ro path => d.mode = blockioModeRo ∧ fs.realpath path = some d.path ∧ fs.fileExists d.path = true
  | .rw path => d.mode = blockioModeRw ∧ fs.realpath path = some d.path ∧ fs.fileExists d.path = true

theorem saveBlkFields_of_ne (saves : List (BlkDev → BlkDev)) (h : e ≠ k) : saveBlkFields k saves file e = file e := by
  induction saves generalizing file with
  | nil => rfl
  | cons f saves ih =>
    change saveBlkFields k saves (saveBlk k f file) e = file e
    rw [ih, saveBlk_of_ne f h]

theorem saveBlkFields_blkFieldSaves {mode size : String} : saveBlkFields k (blkFieldSaves mode size path) file k =
    (file k).map fun d ↦ { d with mode := mode, ramdiskSizeMb := size, path := path } := by
  simp [saveBlkFields, blkFieldSaves, Option.map_map, Function.comp_def]

theorem updateBlkConfigFields_ok {mode size : String}
    (h : updateBlkConfigFields env k mode size path file p = ⟨none, file', p'⟩) :
    file' = saveBlkFields k (blkFieldSaves mode size path) (if p.exist k then file else addBlkDevFields k file) ∧
      p' = p.reload (fun _ ↦ true) file' := by
  unfold updateBlkConfigFields at h
  dsimp only at h
  split_ifs at h ⊢
  all_goals simp only [Outcome.mk.injEq, reduceCtorEq, false_and] at h
  all_goals
    obtain ⟨-, rfl, rfl⟩ := h
    exact ⟨rfl, rfl⟩

theorem updateBlkConfigFields_frame {mode size : String}
    (h : updateBlkConfigFields env k mode size path file p = ⟨none, file', p'⟩) : Frame k file file' p p' := by
  obtain ⟨hfile', rfl⟩ := updateBlkConfigFields_ok h
  have hfile (e : Key) (he : e ≠ k) : file' e = file e := by
    rw [hfile', saveBlkFields_of_ne _ he]
    split_ifs
    · rfl
    · exact addBlkDevFields_of_ne he
  refine ⟨hfile, rfl, rfl, rfl, fun e he hconfig ↦ ?_, fun hexist e he ↦ ?_⟩
  · -- what was read of the other devices is read again
    change (p.config e).load ((file' e).getD .blank) = p.config e
    rw [hfile e he, ← hconfig, BlkDev.load_self]
  · have he : (p.exist e || (file' e).isSome) = true := he
    rcases Bool.or_eq_true_iff.mp he with hread | h
    · have hsome : (file e).isSome = true := hexist e hread
      by_cases hek : e = k
      · subst hek
        rw [hfile', saveBlkFields_blkFieldSaves, Option.isSome_map, if_pos hread]
        exact hsome
      · rw [hfile e hek]
        exact hsome
    · exact h

theorem updateBlkConfigFields_self {mode size : String}
    (h : updateBlkConfigFields env k mode size path file p = ⟨none, file', p'⟩) (hd : file' k = some d) :
    d.mode = mode ∧ d.path = path := by
  obtain ⟨rfl, -⟩ := updateBlkConfigFields_ok h
  rw [saveBlkFields_blkFieldSaves, Option.map_eq_some_iff] at hd
  obtain ⟨_, -, rfl⟩ := hd
  exact ⟨rfl, rfl⟩

/-- An update that fails, too, leaves the command and the path that was checked. -/
theorem updateBlkConfigFields_proc {mode size : String} :
    (updateBlkConfigFields env k mode size path file p).proc.cmd = p.cmd ∧
      (updateBlkConfigFields env k mode size path file p).proc.previousFilePath = p.previousFilePath := by
  unfold updateBlkConfigFields
  dsimp only
  split_ifs <;> exact ⟨rfl, rfl⟩

theorem updateBlkConfigFields_refusal {mode size : String} :
    (updateBlkConfigFields env k mode size path file p).refusal ≠ some .alreadyOpened := by
  unfold updateBlkConfigFields
  dsimp only
  split_ifs <;> exact nofun

/-- What is described on the command line: nothing, or a mode with a size or with a file that is there. -/
theorem describe_cases (fs : FileSystem) (env : Env) (k : Key) (file : Key → Option BlkDev) (p : Process)
    (mode : OpenMode) :
    (∃ r, r ≠ some .alreadyOpened ∧ (r = none → mode = .config) ∧ describe fs env k mode file p = ⟨r, file, p⟩) ∨
      ∃ m size path, (∀ d : BlkDev, d.mode = m → d.path = path → mode.Written fs d) ∧ mode ≠ .config ∧
        describe fs env k mode file p = updateBlkConfigFields env k m size path file p := by
  cases mode with
  | config => exact Or.inl ⟨none, nofun, fun _ ↦ rfl, rfl⟩
  | ramdisk size =>
    simp only [describe]
    split_ifs
    · exact Or.inr ⟨_, _, _, fun _ hmode _ ↦ hmode, nofun, rfl⟩
    · exact Or.inl ⟨some .other, nofun, nofun, rfl⟩
  | ro path | rw path =>
    simp only [describe]
    split
    · exact Or.inl ⟨some .other, nofun, nofun, rfl⟩
    · rename_i resolved hresolved
      split_ifs with hexists
      · refine Or.inr ⟨_, _, _, fun d hmode hpath ↦ ?_, nofun, rfl⟩
        exact ⟨hmode, hpath ▸ hresolved, hpath ▸ hexists⟩
      · exact Or.inl ⟨some .other, nofun, nofun, rfl⟩

theorem describe_ok {mode : OpenMode} (h : describe fs env k mode file p = ⟨none, file', p'⟩) :
    Frame k file file' p p' ∧ (mode = .config → file' = file ∧ p' = p) ∧
      ∀ d, file' k = some d → mode.Written fs d := by
  rcases describe_cases fs env k file p mode with
    ⟨r, -, hconfig, hr⟩ | ⟨m, size, path, hwritten, hmode, hupdate⟩
  · rw [hr] at h
    obtain ⟨rfl, rfl, rfl⟩ := Outcome.mk.inj h
    obtain rfl := hconfig rfl
    exact ⟨.refl, fun _ ↦ ⟨rfl, rfl⟩, fun _ _ ↦ trivial⟩
  · rw [hupdate] at h
    refine ⟨updateBlkConfigFields_frame h, fun hc ↦ absurd hc hmode, fun d hd ↦ ?_⟩
    obtain ⟨hm, hpath⟩ := updateBlkConfigFields_self h hd
    exact hwritten d hm hpath

theorem describe_proc {mode : OpenMode} (h : describe fs env k mode file p = ⟨r, file', p'⟩) :
    p'.cmd = p.cmd ∧ p'.previousFilePath = p.previousFilePath := by
  obtain rfl : (describe fs env k mode file p).proc = p' := congrArg Outcome.proc h
  rcases describe_cases fs env k file p mode with ⟨r, -, -, hr⟩ | ⟨m, size, path, -, -, hupdate⟩
  · rw [hr]
    exact ⟨rfl, rfl⟩
  · rw [hupdate]
    exact updateBlkConfigFields_proc

theorem describe_refusal {mode : OpenMode} :
    (describe fs env k mode file p).refusal ≠ some .alreadyOpened := by
  rcases describe_cases fs env k file p mode with
    ⟨r, hne, -, hr⟩ | ⟨m, size, path, -, -, hupdate⟩
  · rw [hr]
    exact hne
  · rw [hupdate]
    exact updateBlkConfigFields_refusal

/-- An open: refused, or the path is checked, and the device is described and then enabled. -/
theorem blockioCtlOpen_cases (mode : OpenMode) (h : blockioCtlOpen fs cards env node dev mode file p = ⟨r, file', p'⟩) :
    (file' = file ∧ p' = p ∧ r ≠ none ∧
        (r = some .alreadyOpened → checkBlkPath cards p node = .error .alreadyOpened)) ∨
      ∃ p₁ r₁ file₁, checkBlkPath cards p node = .ok p₁ ∧
        describe fs env (node, dev) mode file p₁ = ⟨r₁, file₁, p'⟩ ∧ r ≠ some .alreadyOpened ∧
        (r = none → r₁ = none ∧ p'.exist (node, dev) = true ∧ blkConfigOk fs (p'.config (node, dev)) = true ∧
          file' = enableBlkDev (node, dev) file₁) := by
  unfold blockioCtlOpen at h
  split at h
  · obtain ⟨rfl, rfl, rfl⟩ := Outcome.mk.inj h
    exact Or.inl ⟨rfl, rfl, nofun, nofun⟩
  · split at h
    · rename_i e hcheck
      obtain ⟨rfl, rfl, rfl⟩ := Outcome.mk.inj h
      exact Or.inl ⟨rfl, rfl, nofun, fun he ↦ Option.some.inj he ▸ hcheck⟩
    · rename_i p₁ hcheck
      have hne : (describe fs env (node, dev) mode file p₁).refusal ≠ some .alreadyOpened := describe_refusal
      refine Or.inr ⟨p₁, ?_⟩
      split at h
      · rename_i e file₁ p₂ hdescribe
        obtain ⟨rfl, rfl, rfl⟩ := Outcome.mk.inj h
        rw [hdescribe] at hne
        exact ⟨_, _, hcheck, hdescribe, hne, nofun⟩
      · rename_i file₁ p₂ hdescribe
        split_ifs at h with hconfig hopen
        all_goals obtain ⟨rfl, rfl, rfl⟩ := Outcome.mk.inj h
        · exact ⟨_, _, hcheck, hdescribe, nofun, nofun⟩
        · simp only [Bool.or_eq_true, Bool.not_eq_true', not_or, Bool.not_eq_false] at hconfig
          exact ⟨_, _, hcheck, hdescribe, nofun, fun _ ↦ ⟨rfl, hconfig.1.1, hconfig.1.2, rfl⟩⟩
        · exact ⟨_, _, hcheck, hdescribe, nofun, nofun⟩

/-- An open that succeeds: the check, the description, and the device is enabled. -/
theorem blockioCtlOpen_ok {mode : OpenMode} (h : blockioCtlOpen fs cards env node dev mode file p = ⟨none, file', p'⟩) :
    ∃ p₁ file₁, checkBlkPath cards p node = .ok p₁ ∧
      describe fs env (node, dev) mode file p₁ = ⟨none, file₁, p'⟩ ∧ p'.exist (node, dev) = true ∧
      blkConfigOk fs (p'.config (node, dev)) = true ∧ file' = enableBlkDev (node, dev) file₁ := by
  rcases blockioCtlOpen_cases mode h with ⟨-, -, hne, -⟩ | ⟨p₁, r₁, file₁, hcheck, hdescribe, -, hok⟩
  · exact absurd rfl hne
  · obtain ⟨rfl, hexist, hconfig, hfile⟩ := hok rfl
    exact ⟨p₁, file₁, hcheck, hdescribe, hexist, hconfig, hfile⟩

theorem blockioCtlClose_cases (h : blockioCtlClose env node dev file p = ⟨r, file', p'⟩) :
    p' = p ∧ r ≠ some .alreadyOpened ∧ (file' = file ∨ file' = disableBlkDev (node, dev) file) := by
  unfold blockioCtlClose at h
  split_ifs at h
  all_goals obtain ⟨rfl, rfl, rfl⟩ := Outcome.mk.inj h
  · exact ⟨rfl, nofun, Or.inl rfl⟩
  · exact ⟨rfl, nofun, Or.inl rfl⟩
  · exact ⟨rfl, nofun, Or.inr rfl⟩
  · exact ⟨rfl, nofun, Or.inl rfl⟩

theorem bootNode_cases (h : bootNode cards env node file p = ⟨r, file', p'⟩) : file' = file ∧
    (p' = p ∧ r ≠ none ∧ (r = some .alreadyOpened → checkBlkPath cards p node = .error .alreadyOpened) ∨
      checkBlkPath cards p node = .ok p' ∧ r ≠ some .alreadyOpened) := by
  unfold bootNode at h
  split at h
  · obtain ⟨rfl, rfl, rfl⟩ := Outcome.mk.inj h
    exact ⟨rfl, Or.inl ⟨rfl, nofun, nofun⟩⟩
  · split at h
    · rename_i e hcheck
      obtain ⟨rfl, rfl, rfl⟩ := Outcome.mk.inj h
      exact ⟨rfl, Or.inl ⟨rfl, nofun, fun he ↦ Option.some.inj he ▸ hcheck⟩⟩
    · rename_i p₁ hcheck
      obtain ⟨rfl, rfl, rfl⟩ := Outcome.mk.inj h
      refine ⟨rfl, Or.inr ⟨hcheck, ?_⟩⟩
      split_ifs <;> exact nofun

theorem callNode_alreadyOpened (h : (callNode fs cards env node file p).refusal = some .alreadyOpened) :
    checkBlkPath cards p node = .error .alreadyOpened := by
  unfold callNode at h
  split at h
  · rename_i dev mode _
    rcases blockioCtlOpen_cases mode rfl with ⟨-, -, -, hcheck⟩ | ⟨_, _, _, -, -, hne, -⟩
    · exact hcheck h
    · exact absurd h hne
  · exact absurd h (blockioCtlClose_cases rfl).2.1
  · rcases (bootNode_cases rfl).2 with ⟨-, -, hcheck⟩ | ⟨-, hne⟩
    · exact hcheck h
    · exact absurd h hne

/-- A call in which nothing fails. -/
def fine : Env := ⟨true, false, true, 5, fun _ ↦ true, true, true, true, true, true⟩

/-- Nothing comes before the check but what the environment answers. -/
theorem callNode_of_previousFilePath (h : pathToCheck p node = some p.previousFilePath) :
    (callNode fs cards fine node file p).refusal = some .alreadyOpened := by
  have hcheck : checkBlkPath cards p node = .error .alreadyOpened := by
    unfold checkBlkPath
    rw [h]
    exact if_pos rfl
  unfold callNode
  split
  · change (if (!fine.fd || fine.diskExists) = true then _ else _ : Outcome).refusal = _
    rw [if_neg (by decide), hcheck]
  · rename_i dev hcmd
    rw [pathToCheck, hcmd] at h
    cases h
  · change (if (!fine.fd) = true then _ else _ : Outcome).refusal = _
    rw [if_neg (by decide), hcheck]

theorem step_cases (h : step fs cards s l = some s') :
    (∃ cmd, l = .start cmd ∧ cmd.parses fs = true ∧ s' = { s with proc := some (.start s.file cmd) }) ∨
      ∃ node env p r file' p', l = .call node env ∧ s.proc = some p ∧ cards.validateNodeRange node = true ∧
        node ∉ p.called ∧ callNode fs cards env node s.file p = ⟨r, file', p'⟩ ∧
        s' = ⟨file', some { p' with called := node :: p'.called }⟩ := by
  cases l with
  | start cmd =>
    simp only [step] at h
    split_ifs at h with hparses
    exact Or.inl ⟨cmd, rfl, hparses, (Option.some.inj h).symm⟩
  | call node env =>
    simp only [step] at h
    split at h
    · cases h
    · rename_i p hp
      split_ifs at h with hnode
      exact Or.inr ⟨node, env, p, _, _, _, rfl, hp, hnode.1, hnode.2, rfl, (Option.some.inj h).symm⟩

theorem Succeeds.step_cases (hsucceeds : Succeeds fs cards s l) (h : step fs cards s l = some s') :
    (∃ cmd, l = .start cmd ∧ cmd.parses fs = true ∧ s' = { s with proc := some (.start s.file cmd) }) ∨
      ∃ node env p file' p', l = .call node env ∧ s.proc = some p ∧ cards.validateNodeRange node = true ∧
        node ∉ p.called ∧ callNode fs cards env node s.file p = ⟨none, file', p'⟩ ∧
        s' = ⟨file', some { p' with called := node :: p'.called }⟩ := by
  rcases Vcactl.step_cases h with hstart | ⟨node, env, p, r, file', p', rfl, hproc, hnode, hcalled, hcall, rfl⟩
  · exact Or.inl hstart
  · have hr : r = none := by
      have hrefusal := hsucceeds hproc
      rwa [hcall] at hrefusal
    exact Or.inr ⟨node, env, p, file', p', rfl, hproc, hnode, hcalled, hr ▸ hcall, rfl⟩

/-! ## What a process has read -/

/-- The process has read of the file what it compares a path with that was not checked before. -/
structure Reads (file : Key → Option BlkDev) (p : Process) : Prop where
  boot : p.cmd = .boot → ∀ e, p.config e = (file e).getD .blank
  rw : ∀ {dev path}, p.cmd = .blockioOpen dev (.rw path) → p.previousFilePath ≠ path →
    ∀ e, p.config e = (file e).getD .blank

theorem Reads.config (h : Reads file p) (hpath : pathToCheck p node = some path) (hprev : p.previousFilePath ≠ path) :
    p.config e = (file e).getD .blank := by
  unfold pathToCheck at hpath
  split at hpath
  · rename_i hcmd
    exact h.boot hcmd e
  · rename_i dev path' hcmd
    obtain rfl := Option.some.inj hpath
    exact h.rw hcmd hprev e
  · cases hpath

/-- The check leaves the process as it was, but for the path. -/
theorem checkBlkPath_same (h : checkBlkPath cards p node = .ok p') :
    p'.cmd = p.cmd ∧ p'.config = p.config ∧ p'.exist = p.exist ∧ p'.called = p.called := by
  rcases checkBlkPath_ok h with ⟨-, rfl⟩ | ⟨path, -, -, -, rfl⟩
  · exact ⟨rfl, rfl, rfl, rfl⟩
  · exact ⟨rfl, rfl, rfl, rfl⟩

theorem Reads.blockioOpen {mode : OpenMode} (h : Reads file p) (hcmd : p.cmd = .blockioOpen dev mode)
    (ho : blockioCtlOpen fs cards env node dev mode file p = ⟨r, file', p'⟩) : Reads file' p' := by
  rcases blockioCtlOpen_cases mode ho with ⟨rfl, rfl, -, -⟩ | ⟨p₁, r₁, file₁, hcheck, hdescribe, -, -⟩
  · exact h
  · obtain ⟨hcmd', hprev'⟩ := describe_proc hdescribe
    rw [(checkBlkPath_same hcheck).1, hcmd] at hcmd'
    refine ⟨fun hboot ↦ absurd (hcmd'.symm.trans hboot) nofun, fun {dev' path} hrw hne ↦ absurd ?_ hne⟩
    -- the path was checked, and is remembered whatever comes after it
    have hpath : pathToCheck p node = some path := by
      rw [pathToCheck, hcmd, ← hcmd', hrw]
    rcases checkBlkPath_ok hcheck with ⟨hnone, -⟩ | ⟨path', hpath', -, -, rfl⟩
    · exact absurd (hnone.symm.trans hpath) nofun
    · exact hprev'.trans (Option.some.inj (hpath'.symm.trans hpath))

theorem Reads.bootNode (h : Reads file p) (hcmd : p.cmd = .boot)
    (ho : bootNode cards env node file p = ⟨r, file', p'⟩) : Reads file' p' := by
  obtain ⟨rfl, ⟨rfl, -, -⟩ | ⟨hcheck, -⟩⟩ := bootNode_cases ho
  · exact h
  · obtain ⟨hcmd', hconfig, -, -⟩ := checkBlkPath_same hcheck
    exact ⟨fun _ e ↦ hconfig ▸ h.boot hcmd e,
      fun hrw ↦ absurd ((hcmd'.trans hcmd).symm.trans hrw) nofun⟩

theorem Reads.blockioClose (hcmd : p.cmd = .blockioClose dev) : Reads file p :=
  ⟨fun hboot ↦ absurd (hcmd.symm.trans hboot) nofun, fun hrw ↦ absurd (hcmd.symm.trans hrw) nofun⟩

/-- A step keeps what the process has read, whether its call succeeds or not. -/
theorem reads_step (h : ∀ p, s.proc = some p → Reads s.file p) (hs : step fs cards s l = some s') :
    ∀ p, s'.proc = some p → Reads s'.file p := by
  rcases step_cases hs with ⟨cmd, rfl, -, rfl⟩ | ⟨node, env, p, r, file', p', rfl, hproc, -, -, hcall, rfl⟩
  · intro p hp
    obtain rfl := Option.some.inj hp
    exact ⟨fun _ _ ↦ BlkDev.load_blank _, fun _ _ _ ↦ BlkDev.load_blank _⟩
  · intro q hq
    obtain rfl := Option.some.inj hq
    suffices hreads : Reads file' p' from ⟨hreads.boot, hreads.rw⟩
    unfold callNode at hcall
    split at hcall
    · rename_i dev mode hcmd
      exact (h p hproc).blockioOpen hcmd hcall
    · rename_i dev hcmd
      obtain ⟨rfl, -, -⟩ := blockioCtlClose_cases hcall
      exact .blockioClose hcmd
    · rename_i hcmd
      exact (h p hproc).bootNode hcmd hcall

theorem opened_of_isEnabled (h : ((file e).getD .blank).isEnabled = true) :
    Opened file e ((file e).getD .blank) := by
  cases he : file e with
  | none =>
    rw [he] at h
    exact absurd h (by decide)
  | some d =>
    rw [he] at h
    exact ⟨he, h⟩

/-- **Refusals.** A device is refused only because of another enabled device if and only if the path that was
checked last is that of such a device, if it is to be checked again. -/
theorem neverRefused_iff (h : ∀ p, s.proc = some p → Reads s.file p) :
    NeverRefused fs cards s ↔ Remembered fs cards s := by
  constructor
  · intro hnever p node hproc hnode hcalled hpath
    obtain ⟨path, hpath', hused⟩ := hnever fine hproc hnode hcalled (callNode_of_previousFilePath hpath)
    obtain rfl := Option.some.inj (hpath.symm.trans hpath')
    exact hused
  · intro hremembered p node env hproc hnode hcalled hrefused
    obtain ⟨path, hpath, hused⟩ := checkBlkPath_error (callNode_alreadyOpened hrefused)
    refine ⟨path, hpath, ?_⟩
    by_cases hprev : p.previousFilePath = path
    · subst hprev
      exact hremembered hproc hnode hcalled hpath
    · obtain ⟨i, -, j, -, k, -, hne, hmode, heq, henabled⟩ := usedElsewhere_iff.mp (hused.resolve_left hprev)
      have hconfig : p.config ((j, k), i) = (s.file ((j, k), i)).getD .blank := (h p hproc).config hpath hprev
      rw [hconfig] at hmode heq henabled
      refine ⟨((j, k), i), _, ?_, opened_of_isEnabled henabled, hmode, by rw [heq]⟩
      intro hkey
      exact hne (Prod.mk.inj hkey).1

/-! ## The invariant -/

/-- The enabled devices are devices of a node, and those that are files have a name. -/
structure FileInv (cards : Cards) (file : Key → Option BlkDev) : Prop where
  place : ∀ {e d}, Opened file e d → cards.validateNodeRange e.1 = true ∧ e.2 < maxBlkDevs
  path : ∀ {e d}, Opened file e d → d.mode ≠ blockioModeRamdisk → d.path ≠ ""

/-- The process has not changed the device. -/
def Untouched (p : Process) (e : Key) : Prop := e.1 ∈ p.called → e.2 = p.cmd.dev → p.cmd = .boot

structure ProcInv (fs : FileSystem) (file : Key → Option BlkDev) (p : Process) : Prop where
  parses : p.cmd.parses fs = true
  exist : ∀ e, p.exist e = true → (file e).isSome = true
  config : ∀ e, Untouched p e → p.config e = (file e).getD .blank
  /-- The path that was checked last is that of a device that is open. -/
  previous : p.previousFilePath = "" ∨ ∃ n ∈ p.called, ∃ d, Opened file (n, p.cmd.dev) d ∧
    d.mode ≠ blockioModeRamdisk ∧ fs.canonical d.path = fs.canonical p.previousFilePath
  rw : ∀ {dev path}, p.cmd = .blockioOpen dev (.rw path) → p.called ≠ [] → p.previousFilePath = path

def Inv (fs : FileSystem) (cards : Cards) (s : Sys) : Prop :=
  FileInv cards s.file ∧ ∀ p, s.proc = some p → ProcInv fs s.file p

theorem Opened.eq (h : Opened file e d) : (file e).getD .blank = d := by
  rw [h.1, Option.getD_some]

theorem opened_enable (h : Opened (enableBlkDev k file) e d) :
    (e = k ∧ ∃ d₀, file k = some d₀ ∧ d = { d₀ with enabled := "1" }) ∨ (e ≠ k ∧ Opened file e d) := by
  by_cases he : e = k
  · subst he
    have hd := h.1
    rw [enableBlkDev, saveBlk_self, Option.map_eq_some_iff] at hd
    obtain ⟨d₀, hd₀, rfl⟩ := hd
    exact Or.inl ⟨rfl, d₀, hd₀, rfl⟩
  · have hd := h.1
    rw [enableBlkDev, saveBlk_of_ne _ he] at hd
    exact Or.inr ⟨he, hd, h.2⟩

theorem opened_disable (h : Opened (disableBlkDev k file) e d) : e ≠ k ∧ Opened file e d := by
  by_cases he : e = k
  · subst he
    have hd := h.1
    rw [disableBlkDev, saveBlk_self, Option.map_eq_some_iff] at hd
    obtain ⟨d₀, -, rfl⟩ := hd
    exact absurd h.2 (by simp [BlkDev.isEnabled])
  · have hd := h.1
    rw [disableBlkDev, saveBlk_of_ne _ he] at hd
    exact ⟨he, hd, h.2⟩

theorem Opened.of_others (h : Opened file' e d) (hothers : ∀ e, e ≠ k → file' e = file e) (he : e ≠ k) :
    Opened file e d := ⟨hothers e he ▸ h.1, h.2⟩

theorem FileInv.enable (h : FileInv cards file) (hothers : ∀ e, e ≠ k → file' e = file e)
    (hk : cards.validateNodeRange k.1 = true ∧ k.2 < maxBlkDevs)
    (hpath : ∀ d, file' k = some d → d.mode ≠ blockioModeRamdisk → d.path ≠ "") :
    FileInv cards (enableBlkDev k file') := by
  constructor
  · intro e d he
    rcases opened_enable he with ⟨rfl, -⟩ | ⟨hek, ho⟩
    · exact hk
    · exact h.place (ho.of_others hothers hek)
  · intro e d he
    rcases opened_enable he with ⟨rfl, d₀, hd₀, rfl⟩ | ⟨hek, ho⟩
    · exact hpath d₀ hd₀
    · exact h.path (ho.of_others hothers hek)

theorem FileInv.disable (h : FileInv cards file) : FileInv cards (disableBlkDev k file) where
  place he := h.place (opened_disable he).2
  path he := h.path (opened_disable he).2

theorem Exclusive.enable (h : Exclusive fs file) (hothers : ∀ e, e ≠ k → file' e = file e)
    (hnone : ∀ e d d', e ≠ k → Opened file e d → file' k = some d' → ¬ Conflict fs d' d) :
    Exclusive fs (enableBlkDev k file') := by
  intro e e' d d' hne he he' hconflict
  rcases opened_enable he with ⟨rfl, d₀, hd₀, rfl⟩ | ⟨hek, ho⟩ <;>
    rcases opened_enable he' with ⟨hk', d₀', hd₀', rfl⟩ | ⟨hek', ho'⟩
  · exact hne hk'.symm
  · exact hnone e' d' d₀ hek' (ho'.of_others hothers hek') hd₀ hconflict
  · exact hnone e d d₀' hek (ho.of_others hothers hek) hd₀' hconflict.symm
  · exact h hne (ho.of_others hothers hek) (ho'.of_others hothers hek') hconflict

theorem Exclusive.disable (h : Exclusive fs file) : Exclusive fs (disableBlkDev k file) :=
  fun _ _ _ _ hne he he' ↦ h hne (opened_disable he).2 (opened_disable he').2

/-- Nothing was changed yet, if the path of a command in RW mode is still to be checked. -/
theorem ProcInv.untouched (hp : ProcInv fs file p) (h : pathToCheck p node = some path)
    (hprev : p.previousFilePath ≠ path) : Untouched p e := by
  intro hcalled hdev
  unfold pathToCheck at h
  split at h
  · assumption
  · rename_i dev path' hcmd
    obtain rfl := Option.some.inj h
    exact absurd (hp.rw hcmd (List.ne_nil_of_mem hcalled)) hprev
  · cases h

theorem ProcInv.pathToCheck_ne (hf : FileInv cards file) (hp : ProcInv fs file p)
    (h : pathToCheck p node = some path) : path ≠ "" := by
  unfold pathToCheck at h
  split at h
  · rename_i hcmd
    dsimp only at h
    split_ifs at h with hd
    simp only [Bool.and_eq_true, decide_eq_true_eq] at hd
    have hconfig : p.config (node, 0) = (file (node, 0)).getD .blank := hp.config _ fun _ _ ↦ hcmd
    rw [hconfig] at hd h
    rw [← Option.some.inj h]
    exact hf.path (opened_of_isEnabled hd.1) hd.2
  · rename_i dev path' hcmd
    obtain rfl := Option.some.inj h
    have hparses := hp.parses
    rw [hcmd, Command.parses, Bool.and_eq_true] at hparses
    exact fs.ne_empty_of_exists hparses.2
  · cases h

/-- While the calls succeed, the path that was checked last is that of a device that is open. -/
theorem Inv.remembered (h : Inv fs cards s) : Remembered fs cards s := by
  intro p node hproc _ hcalled hpath
  have hp := h.2 p hproc
  rcases hp.previous with hempty | ⟨n, hn, d, hopened, hmode, hcanon⟩
  · exact absurd hempty (hp.pathToCheck_ne h.1 hpath)
  · refine ⟨(n, p.cmd.dev), d, ?_, hopened, hmode, hcanon⟩
    intro heq
    exact hcalled ((Prod.mk.inj heq).1 ▸ hn)

theorem seen_open {mode : OpenMode} (h : Seen fs cards s (.call node env)) (hproc : s.proc = some p)
    (hcmd : p.cmd = .blockioOpen dev mode) (he : e ≠ (node, dev)) (ho : Opened s.file e d)
    (hconflict : Conflict fs (mode.target ((s.file (node, dev)).getD .blank)) d) : mode.Compared cards node e d := by
  obtain ⟨cmd, config, exist, previous, called⟩ := p
  obtain rfl : cmd = .blockioOpen dev mode := hcmd
  simp only [Seen, hproc] at h
  exact h he ho hconflict

/-- What is written conflicts with a device if and only if what is asked for does. -/
theorem OpenMode.Written.conflict_iff {mode : OpenMode} {described : BlkDev} (hwritten : mode.Written fs d)
    (hconfig : mode = .config → described = d) : Conflict fs d d' ↔ Conflict fs (mode.target described) d' := by
  cases mode with
  | config => rw [OpenMode.target, hconfig rfl]
  | ramdisk size => exact iff_of_false (fun h ↦ h.1 hwritten) fun h ↦ h.1 rfl
  | ro path | rw path =>
    obtain ⟨hmode, hpath, -⟩ := hwritten
    simp only [Conflict, OpenMode.target, hmode, fs.canonical_of_realpath hpath]

/-! ## The steps -/

theorem inv_start {cmd : Command} (h : Inv fs cards s) (hparses : cmd.parses fs = true) :
    Inv fs cards { s with proc := some (.start s.file cmd) } := by
  refine ⟨h.1, fun p hp ↦ ?_⟩
  obtain rfl := Option.some.inj hp
  exact {
    parses := hparses
    exist := fun _ he ↦ he
    config := fun e _ ↦ BlkDev.load_blank _
    previous := Or.inl rfl
    rw := fun _ hcalled ↦ absurd rfl hcalled }

/-- A path that was checked is not that of an enabled device of another node. -/
theorem ProcInv.not_compared (hf : FileInv cards file) (hp : ProcInv fs file p)
    (hcheck : checkBlkPath cards p node = .ok p') {mode : OpenMode} (hcmd : p.cmd = .blockioOpen dev mode)
    (ho : Opened file e d) (hfile : d.mode ≠ blockioModeRamdisk) : ¬ mode.Compared cards node e d := by
  rintro ⟨path, rfl, hne, hcounted, hpath⟩
  have hcheckpath : pathToCheck p node = some path := by rw [pathToCheck, hcmd]
  rcases checkBlkPath_ok hcheck with ⟨hnone, -⟩ | ⟨path', hpath', hprev, hunused, -⟩
  · exact absurd (hnone.symm.trans hcheckpath) nofun
  · obtain rfl := Option.some.inj (hcheckpath.symm.trans hpath')
    have hconfig : p.config e = d := (hp.config e (hp.untouched hcheckpath hprev)).trans ho.eq
    obtain ⟨hnode, hdev⟩ := hf.place ho
    simp only [Cards.validateNodeRange, Bool.and_eq_true, decide_eq_true_eq] at hnode
    refine absurd (usedElsewhere_iff.mpr ⟨e.2, hdev, e.1.1, hcounted, e.1.2, hnode.2, hne, ?_⟩)
      (Bool.eq_false_iff.mp hunused)
    change (p.config e).mode ≠ _ ∧ path = (p.config e).path ∧ (p.config e).isEnabled = true
    rw [hconfig]
    exact ⟨hfile, hpath.symm, ho.2⟩

theorem open_fileInv {mode : OpenMode} (hf : FileInv cards file) (hp : ProcInv fs file p)
    (hcmd : p.cmd = .blockioOpen dev mode) (hnode : cards.validateNodeRange node = true) (hcalled : node ∉ p.called)
    (h : blockioCtlOpen fs cards env node dev mode file p = ⟨none, file', p'⟩) : FileInv cards file' := by
  obtain ⟨p₁, file₁, hcheck, hdescribe, hexist, hconfig, rfl⟩ := blockioCtlOpen_ok h
  obtain ⟨hframe, hsame, hwritten⟩ := describe_ok hdescribe
  have hparses := hp.parses
  simp only [hcmd, Command.parses, Bool.and_eq_true, decide_eq_true_eq] at hparses
  refine hf.enable hframe.others ⟨hnode, hparses.1⟩ fun d hd hmode ↦ ?_
  have hw := hwritten d hd
  cases mode with
  | config =>
    -- what is enabled is what was read, and it was looked at
    obtain ⟨rfl, rfl⟩ := hsame rfl
    have hread : p.config (node, dev) = d := by
      rw [hp.config _ fun hnode' ↦ absurd hnode' hcalled, hd, Option.getD_some]
    rw [(checkBlkPath_same hcheck).2.1, hread, blkConfigOk, if_neg hmode, Bool.and_eq_true] at hconfig
    exact fs.ne_empty_of_exists hconfig.2
  | ramdisk size => exact absurd hw hmode
  | ro path | rw path => exact fs.ne_empty_of_exists hw.2.2

/-- What conflicts with the device is compared with it, and the check fails then. -/
theorem open_exclusive {mode : OpenMode} (hexcl : Exclusive fs file) (hf : FileInv cards file)
    (hp : ProcInv fs file p) (hcmd : p.cmd = .blockioOpen dev mode)
    (hseen : ∀ ⦃e d⦄, e ≠ (node, dev) → Opened file e d →
      Conflict fs (mode.target ((file (node, dev)).getD .blank)) d → mode.Compared cards node e d)
    (h : blockioCtlOpen fs cards env node dev mode file p = ⟨none, file', p'⟩) : Exclusive fs file' := by
  obtain ⟨p₁, file₁, hcheck, hdescribe, -, -, rfl⟩ := blockioCtlOpen_ok h
  obtain ⟨hframe, hsame, hwritten⟩ := describe_ok hdescribe
  refine hexcl.enable hframe.others fun e d d' he ho hd' hconflict ↦ ?_
  refine hp.not_compared hf hcheck hcmd ho hconflict.2.1 (hseen he ho ?_)
  refine ((hwritten d' hd').conflict_iff fun hmode ↦ ?_).mp hconflict
  rw [← (hsame hmode).1, hd', Option.getD_some]

/-- A device that was open is open afterwards, if it is not the one that was changed. -/
theorem ProcInv.previous_of_others (hp : ProcInv fs file p) (hcalled : node ∉ p.called)
    (hothers : ∀ e, e ≠ (node, p.cmd.dev) → file' e = file e) :
    p.previousFilePath = "" ∨ ∃ n ∈ node :: p.called, ∃ d, Opened file' (n, p.cmd.dev) d ∧
      d.mode ≠ blockioModeRamdisk ∧ fs.canonical d.path = fs.canonical p.previousFilePath := by
  rcases hp.previous with hempty | ⟨n, hn, d, ho, hrest⟩
  · exact Or.inl hempty
  · have hne : (n, p.cmd.dev) ≠ (node, p.cmd.dev) := by
      intro heq
      exact hcalled ((Prod.mk.inj heq).1 ▸ hn)
    exact Or.inr ⟨n, List.mem_cons_of_mem _ hn, d, ⟨(hothers _ hne).trans ho.1, ho.2⟩, hrest⟩

theorem open_procInv {mode : OpenMode} (hp : ProcInv fs file p) (hcmd : p.cmd = .blockioOpen dev mode)
    (hcalled : node ∉ p.called)
    (h : blockioCtlOpen fs cards env node dev mode file p = ⟨none, file', p'⟩) :
    ProcInv fs file' { p' with called := node :: p'.called } := by
  obtain ⟨p₁, file₁, hcheck, hdescribe, hexist, hconfig, rfl⟩ := blockioCtlOpen_ok h
  obtain ⟨hframe, -, hwritten⟩ := describe_ok hdescribe
  obtain ⟨hcmd₁, hconfig₁, hexist₁, hcalled₁⟩ := checkBlkPath_same hcheck
  have hcmd' : p'.cmd = p.cmd := hframe.cmd.trans hcmd₁
  have hcalled' : p'.called = p.called := hframe.called.trans hcalled₁
  have hdev : p.cmd.dev = dev := by rw [hcmd, Command.dev]
  have hothers : ∀ e, e ≠ (node, dev) → enableBlkDev (node, dev) file₁ e = file e :=
    fun e he ↦ (saveBlk_of_ne _ he).trans (hframe.others e he)
  have hsome : ∀ e, p'.exist e = true → (file₁ e).isSome = true :=
    hframe.exist fun e he ↦ hp.exist e (hexist₁ ▸ he)
  have hexist' : ∀ e, p'.exist e = true → (enableBlkDev (node, dev) file₁ e).isSome = true := by
    intro e he
    by_cases hek : e = (node, dev)
    · subst hek
      rw [enableBlkDev, saveBlk_self, Option.isSome_map]
      exact hsome _ he
    · rw [enableBlkDev, saveBlk_of_ne _ hek]
      exact hsome e he
  have hread : ∀ e, Untouched { p' with called := node :: p'.called } e →
      p'.config e = (enableBlkDev (node, dev) file₁ e).getD .blank := by
    intro e he
    have hnot (hnode : e.1 ∈ node :: p.called) (hdev' : e.2 = dev) : False := by
      have hboot : p'.cmd = .boot := he (hcalled'.symm ▸ hnode) (hdev'.trans (hcmd'.symm ▸ hdev).symm)
      rw [hcmd', hcmd] at hboot
      exact Command.noConfusion hboot
    have hek : e ≠ (node, dev) := by
      rintro rfl
      exact hnot List.mem_cons_self rfl
    have hold : p.config e = (file e).getD .blank :=
      hp.config e fun hnode hdev' ↦ (hnot (List.mem_cons_of_mem _ hnode) (hdev'.trans hdev)).elim
    rw [hothers e hek, hframe.config e hek (hconfig₁ ▸ hold), hconfig₁, hold]
  refine ⟨hcmd'.symm ▸ hp.parses, hexist', hread, ?_, ?_⟩
  · change p'.previousFilePath = "" ∨ ∃ n ∈ node :: p'.called, ∃ d, Opened _ (n, p'.cmd.dev) d ∧ _
    rw [hframe.previous, hcmd', hcalled']
    rcases checkBlkPath_ok hcheck with ⟨-, rfl⟩ | ⟨path, hpath, -, -, rfl⟩
    · exact hp.previous_of_others hcalled (hdev.symm ▸ hothers)
    · -- the device that was opened has the path
      obtain ⟨d, hd⟩ := Option.isSome_iff_exists.mp (hsome _ hexist)
      have hmode : mode = .rw path := by
        rw [pathToCheck, hcmd] at hpath
        cases mode with
        | rw path' => rw [Option.some.inj hpath]
        | config => cases hpath
        | ramdisk size => cases hpath
        | ro path' => cases hpath
      have hw := hwritten d hd
      rw [hmode] at hw
      refine Or.inr ⟨node, List.mem_cons_self, { d with enabled := "1" }, ⟨?_, rfl⟩, ?_, ?_⟩
      · rw [hdev, enableBlkDev, saveBlk_self, hd, Option.map_some]
      · change d.mode ≠ blockioModeRamdisk
        rw [hw.1]
        decide
      · exact fs.canonical_of_realpath hw.2.1
  · intro dev' path hcmd'' _
    change p'.previousFilePath = path
    have hcmd'' : p.cmd = .blockioOpen dev' (.rw path) := hcmd'.symm.trans hcmd''
    have hcheckpath : pathToCheck p node = some path := by rw [pathToCheck, hcmd'']
    rw [hframe.previous]
    rcases checkBlkPath_ok hcheck with ⟨hnone, -⟩ | ⟨path', hpath', -, -, rfl⟩
    · exact absurd (hnone.symm.trans hcheckpath) nofun
    · exact Option.some.inj (hpath'.symm.trans hcheckpath)

theorem close_procInv (hp : ProcInv fs file p) (hcmd : p.cmd = .blockioClose dev) (hcalled : node ∉ p.called)
    (h : blockioCtlClose env node dev file p = ⟨none, file', p'⟩) :
    ProcInv fs file' { p' with called := node :: p'.called } := by
  obtain ⟨rfl, -, hfile⟩ := blockioCtlClose_cases h
  have hdev : p'.cmd.dev = dev := by rw [hcmd, Command.dev]
  have hothers : ∀ e, e ≠ (node, p'.cmd.dev) → file' e = file e := by
    intro e he
    rcases hfile with rfl | rfl
    · rfl
    · exact saveBlk_of_ne _ (hdev ▸ he)
  refine ⟨hp.parses, fun e he ↦ ?_, fun e he ↦ ?_, hp.previous_of_others hcalled hothers, fun hopen _ ↦ ?_⟩
  · have hsome := hp.exist e he
    by_cases hek : e = (node, p'.cmd.dev)
    · rcases hfile with rfl | rfl
      · exact hsome
      · rw [hek, hdev, disableBlkDev, saveBlk_self, Option.isSome_map, ← hdev, ← hek]
        exact hsome
    · rw [hothers e hek]
      exact hsome
  · have hnot : ¬ (e.1 ∈ node :: p'.called ∧ e.2 = p'.cmd.dev) := by
      rintro ⟨hnode, hdev'⟩
      have hboot : p'.cmd = .boot := he hnode hdev'
      rw [hcmd] at hboot
      exact Command.noConfusion hboot
    have hek : e ≠ (node, p'.cmd.dev) := by
      rintro rfl
      exact hnot ⟨List.mem_cons_self, rfl⟩
    rw [hothers e hek]
    exact hp.config e fun hnode hdev' ↦ (hnot ⟨List.mem_cons_of_mem _ hnode, hdev'⟩).elim
  · exact absurd (hcmd.symm.trans hopen) nofun

theorem boot_procInv (hp : ProcInv fs file p) (hcmd : p.cmd = .boot) (hcalled : node ∉ p.called)
    (h : checkBlkPath cards p node = .ok p') : ProcInv fs file { p' with called := node :: p'.called } := by
  obtain ⟨hcmd', hconfig', hexist', hcalled'⟩ := checkBlkPath_same h
  have hread : ∀ e, p'.config e = (file e).getD .blank :=
    fun e ↦ hconfig' ▸ hp.config e fun _ _ ↦ hcmd
  refine ⟨hcmd'.symm ▸ hp.parses, fun e he ↦ hp.exist e (hexist' ▸ he), fun e _ ↦ hread e, ?_, fun hopen _ ↦ ?_⟩
  · change p'.previousFilePath = "" ∨ ∃ n ∈ node :: p'.called, ∃ d, Opened file (n, p'.cmd.dev) d ∧ _
    rw [hcmd', hcalled']
    rcases checkBlkPath_ok h with ⟨-, rfl⟩ | ⟨path, hpath, -, -, rfl⟩
    · exact hp.previous_of_others hcalled fun _ _ ↦ rfl
    · rw [pathToCheck, hcmd] at hpath
      dsimp only at hpath
      split_ifs at hpath with hd
      simp only [Bool.and_eq_true, decide_eq_true_eq, hp.config (node, 0) fun _ _ ↦ hcmd] at hd
      refine Or.inr ⟨node, List.mem_cons_self, _, ?_, hd.2, ?_⟩
      · rw [hcmd]
        exact opened_of_isEnabled hd.1
      · rw [← hp.config (node, 0) fun _ _ ↦ hcmd, Option.some.inj hpath]
  · exact absurd (hcmd'.symm.trans hopen) (hcmd.symm ▸ nofun)

/-- **A step whose call succeeds keeps the invariant.** -/
theorem inv_step (h : Inv fs cards s) (hsucceeds : Succeeds fs cards s l) (hs : step fs cards s l = some s') :
    Inv fs cards s' := by
  rcases hsucceeds.step_cases hs with ⟨cmd, rfl, hparses, rfl⟩ |
    ⟨node, env, p, file', p', rfl, hproc, hnode, hcalled, hcall, rfl⟩
  · exact inv_start h hparses
  · have hf := h.1
    have hp := h.2 p hproc
    suffices FileInv cards file' ∧ ProcInv fs file' { p' with called := node :: p'.called } by
      refine ⟨this.1, fun q hq ↦ ?_⟩
      obtain rfl := Option.some.inj hq
      exact this.2
    unfold callNode at hcall
    split at hcall
    · rename_i dev mode hcmd
      exact ⟨open_fileInv hf hp hcmd hnode hcalled hcall, open_procInv hp hcmd hcalled hcall⟩
    · rename_i dev hcmd
      refine ⟨?_, close_procInv hp hcmd hcalled hcall⟩
      rcases (blockioCtlClose_cases hcall).2.2 with rfl | rfl
      · exact hf
      · exact hf.disable
    · rename_i hcmd
      obtain ⟨rfl, ⟨-, hne, -⟩ | ⟨hcheck, -⟩⟩ := bootNode_cases hcall
      · exact absurd rfl hne
      · exact ⟨hf, boot_procInv hp hcmd hcalled hcheck⟩

/-- The invariant, with what the condition keeps. -/
def ExclusiveInv (fs : FileSystem) (cards : Cards) (s : Sys) : Prop := Inv fs cards s ∧ Exclusive fs s.file

/-- A step that meets the condition keeps the devices exclusive. -/
theorem exclusiveInv_step (hinv : ExclusiveInv fs cards s) (hsucceeds : Succeeds fs cards s l)
    (hseen : Seen fs cards s l) (hs : step fs cards s l = some s') : ExclusiveInv fs cards s' := by
  refine ⟨inv_step hinv.1 hsucceeds hs, ?_⟩
  obtain ⟨h, hexcl⟩ := hinv
  rcases hsucceeds.step_cases hs with ⟨cmd, rfl, -, rfl⟩ |
    ⟨node, env, p, file', p', rfl, hproc, -, -, hcall, rfl⟩
  · exact hexcl
  · unfold callNode at hcall
    split at hcall
    · rename_i dev mode hcmd
      refine open_exclusive hexcl h.1 (h.2 p hproc) hcmd (fun e d he ho hconflict ↦ ?_) hcall
      exact seen_open hseen hproc hcmd he ho hconflict
    · rcases (blockioCtlClose_cases hcall).2.2 with rfl | rfl
      · exact hexcl
      · exact hexcl.disable
    · obtain ⟨rfl, -⟩ := bootNode_cases hcall
      exact hexcl

/-- The condition is needed: a step that leaves the devices exclusive meets it. -/
theorem seen_of_exclusive (hinv : Inv fs cards s) (hsucceeds : Succeeds fs cards s l)
    (hs : step fs cards s l = some s') (hexcl : Exclusive fs s'.file) : Seen fs cards s l := by
  rcases hsucceeds.step_cases hs with ⟨cmd, rfl, -, rfl⟩ |
    ⟨node, env, p, file', p', rfl, hproc, -, -, hcall, rfl⟩
  · exact trivial
  · have hp := hinv.2 p hproc
    obtain ⟨cmd, config, exist, previous, called⟩ := p
    cases cmd with
    | boot => simp only [Seen, hproc]
    | blockioClose dev => simp only [Seen, hproc]
    | blockioOpen dev mode =>
      simp only [Seen, hproc]
      intro e d he ho hconflict
      obtain ⟨p₁, file₁, hcheck, hdescribe, hexist, -, rfl⟩ := blockioCtlOpen_ok hcall
      obtain ⟨hframe, hsame, hwritten⟩ := describe_ok hdescribe
      have hsome := hframe.exist (fun e he ↦ hp.exist e ((checkBlkPath_same hcheck).2.2.1 ▸ he)) _ hexist
      obtain ⟨d', hd'⟩ := Option.isSome_iff_exists.mp hsome
      have hdescribed (hmode : mode = .config) : (s.file (node, dev)).getD .blank = d' := by
        rw [← (hsame hmode).1, hd', Option.getD_some]
      have hopened : Opened (enableBlkDev (node, dev) file₁) (node, dev) { d' with enabled := "1" } := by
        refine ⟨?_, rfl⟩
        rw [enableBlkDev, saveBlk_self, hd', Option.map_some]
      have hother : Opened (enableBlkDev (node, dev) file₁) e d :=
        ⟨(saveBlk_of_ne _ he).trans ((hframe.others e he).trans ho.1), ho.2⟩
      have hnot : ¬ Conflict fs { d' with enabled := "1" } d := hexcl he.symm hopened hother
      exact absurd (((hwritten d' hd').conflict_iff hdescribed).mpr hconflict) hnot

/-! ## Every run -/

/-- A configuration in which no device is enabled, before the first command. -/
def Fresh (s : Sys) : Prop := (∀ e d, ¬ Opened s.file e d) ∧ s.proc = none

theorem inv_fresh (h : Fresh s) : Inv fs cards s := by
  refine ⟨⟨fun he ↦ absurd he (h.1 _ _), fun he ↦ absurd he (h.1 _ _)⟩, fun p hp ↦ ?_⟩
  rw [h.2] at hp
  exact absurd hp nofun

/-- **Exclusive use of files.** In a run of calls that succeed, no two enabled devices conflict in any state if
and only if at each step every enabled device that conflicts with one that is opened is compared with it. And in
every run a device is refused as opened already only because of another if and only if the path that was checked
last is that of an enabled device whenever it is to be checked again, which is so while the calls succeed. -/
theorem files_exclusive_iff {run : List Label} (hfresh : Fresh s) :
    (Along (fun s l _ ↦ Succeeds fs cards s l) (step fs cards) s run →
      (Along (fun _ _ s' ↦ Exclusive fs s'.file) (step fs cards) s run ↔
        Along (fun s l _ ↦ Seen fs cards s l) (step fs cards) s run)) ∧
    ∀ t, exec (step fs cards) s run = some t →
      (NeverRefused fs cards t ↔ Remembered fs cards t) ∧
        (Along (fun s l _ ↦ Succeeds fs cards s l) (step fs cards) s run → Remembered fs cards t) := by
  constructor
  · intro hsucceeds
    have hstart : ExclusiveInv fs cards s := ⟨inv_fresh hfresh, fun e _ d _ _ he ↦ absurd he (hfresh.1 e d)⟩
    have hiff : Along (fun s l s' ↦ Succeeds fs cards s l ∧ Exclusive fs s'.file) (step fs cards) s run ↔
        Along (fun s l _ ↦ Succeeds fs cards s l ∧ Seen fs cards s l) (step fs cards) s run := by
      refine along_congr (fun hinv hs ↦ ⟨and_congr_right fun hsucc ↦ ⟨fun h ↦ ?_, fun h ↦ ?_⟩, fun h ↦ ?_⟩) hstart
      · exact seen_of_exclusive hinv.1 hsucc hs h
      · exact (exclusiveInv_step hinv hsucc h hs).2
      · exact ⟨inv_step hinv.1 h.1 hs, h.2⟩
    constructor
    · intro hexcl
      exact (hiff.mp (hsucceeds.and hexcl)).mono fun _ _ _ h ↦ h.2
    · intro hseen
      exact (hiff.mpr (hsucceeds.and hseen)).mono fun _ _ _ h ↦ h.2
  · intro t hrun
    constructor
    · have hreads : ∀ p, t.proc = some p → Reads t.file p :=
        exec_invariant (P := fun _ _ _ ↦ True) (fun h _ hs ↦ reads_step h hs) (along_of_forall fun _ _ _ ↦ trivial)
          (fun p hp ↦ absurd (hfresh.2.symm.trans hp) nofun) hrun
      exact neverRefused_iff hreads
    · intro hsucceeds
      have hinv : Inv fs cards t := exec_invariant (P := fun s l _ ↦ Succeeds fs cards s l)
        (fun h hsucc hs ↦ inv_step h hsucc hs) hsucceeds (inv_fresh hfresh) hrun
      exact hinv.remembered

/-! ## Three runs -/

/-- One file, which has two spellings. -/
def oneImage : FileSystem where
  realpath p := if p = "/a.img" ∨ p = "./a.img" then some "/a.img" else none
  canon h := by
    split_ifs at h
    obtain rfl := Option.some.inj h
    rfl
  fileExists p := p = "/a.img" ∨ p = "./a.img"
  exists_nonempty := by decide

/-- Two cards with three CPUs each. -/
def twoCards : Cards := ⟨fun card ↦ card < 2, fun card ↦ if card < 2 then 3 else 0⟩

def nothingDescribed : Sys := ⟨fun _ ↦ none, none⟩

theorem fresh_nothingDescribed : Fresh nothingDescribed := ⟨nofun, rfl⟩

def oneOpen : List Label := [.start (.blockioOpen 0 (.rw "/a.img")), .call (0, 0) fine]

theorem oneOpen_exclusive :
    (Along (fun _ _ s' ↦ Exclusive oneImage s'.file) (step oneImage twoCards) nothingDescribed oneOpen) ∧
      ∃ t, exec (step oneImage twoCards) nothingDescribed oneOpen = some t ∧ NeverRefused oneImage twoCards t := by
  obtain ⟨hexcl, hnever⟩ := @files_exclusive_iff oneImage twoCards _ oneOpen fresh_nothingDescribed
  have hsucceeds : Along (fun s l _ ↦ Succeeds oneImage twoCards s l) (step oneImage twoCards) nothingDescribed
      oneOpen := by
    refine fun s hs ↦ ⟨trivial, fun s' _ ↦ ⟨fun p hp ↦ ?_, trivial⟩⟩
    obtain rfl := Option.some.inj hs
    obtain rfl := Option.some.inj hp
    decide
  constructor
  · refine (hexcl hsucceeds).mpr fun s hs ↦ ⟨trivial, fun s' hs' ↦ ⟨?_, trivial⟩⟩
    obtain rfl := Option.some.inj hs
    intro e d he ho
    exact absurd ho.1 nofun
  · obtain ⟨hiff, hremembered⟩ := hnever _ rfl
    exact ⟨_, rfl, hiff.mpr (hremembered hsucceeds)⟩

/-- A node opens the file, and then another node opens it by its other name. -/
def otherSpelling : List Label :=
  oneOpen ++ [.start (.blockioOpen 0 (.rw "./a.img")), .call (1, 0) fine]

/-- Both nodes may write to the file. -/
theorem two_nodes_write_one_file : ∃ t, exec (step oneImage twoCards) nothingDescribed otherSpelling = some t ∧
    ¬ Exclusive oneImage t.file := by
  have hrun : (exec (step oneImage twoCards) nothingDescribed otherSpelling).map
      (fun t ↦ (t.file ((0, 0), 0), t.file ((1, 0), 0))) =
      some (some ⟨"RW", "/a.img", "0", "1"⟩, some ⟨"RW", "/a.img", "0", "1"⟩) := by decide
  obtain ⟨t, ht, hfiles⟩ := Option.map_eq_some_iff.mp hrun
  obtain ⟨h₀, h₁⟩ := Prod.mk.inj hfiles
  refine ⟨t, ht, fun hexcl ↦ ?_⟩
  exact hexcl (by decide : ((0, 0), 0) ≠ ((1, 0), 0)) ⟨h₀, rfl⟩ ⟨h₁, rfl⟩ (by decide)

/-- One command for two CPUs: for the first the device is described, but the configuration cannot be written
once more to enable it. -/
def notEnabled : List Label :=
  [.start (.blockioOpen 0 (.rw "/a.img")), .call (0, 0) { fine with enable := false }]

/-- The second CPU is refused, and no device is enabled. -/
theorem refused_with_nothing_enabled : ∃ t, exec (step oneImage twoCards) nothingDescribed notEnabled = some t ∧
    (∀ e d, ¬ Opened t.file e d) ∧ ¬ NeverRefused oneImage twoCards t := by
  have hrun : (exec (step oneImage twoCards) nothingDescribed notEnabled).map Sys.file =
      some (saveBlkFields ((0, 0), 0) (blkFieldSaves "RW" "0" "/a.img") (addBlkDevFields ((0, 0), 0) fun _ ↦ none)) :=
    rfl
  obtain ⟨t, ht, hfile⟩ := Option.map_eq_some_iff.mp hrun
  have hnone (e : Key) (d : BlkDev) : ¬ Opened t.file e d := by
    rintro ⟨hd, henabled⟩
    rw [hfile] at hd
    by_cases he : e = ((0, 0), 0)
    · subst he
      obtain rfl := Option.some.inj hd
      exact absurd henabled (by decide)
    · rw [saveBlkFields_of_ne _ he, addBlkDevFields_of_ne he] at hd
      cases hd
  refine ⟨t, ht, hnone, fun hnever ↦ ?_⟩
  obtain rfl := Option.some.inj ht
  obtain ⟨_, -, e, d, -, hopened, -⟩ := hnever fine rfl (by decide : twoCards.validateNodeRange (0, 1) = true)
    (by decide) (by decide)
  exact hnone e d hopened

end Vcass.Vcactl
