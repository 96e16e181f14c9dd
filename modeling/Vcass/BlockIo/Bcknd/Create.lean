import Mathlib.Logic.Function.Basic
import Vcass.BlockIo.Media

/-!
# Block I/O backend: the creation of a disk

`VCA_BLK_OPEN_DISC` builds a disk, enters it into the array of the backend device and, if the frontend has already
attached its device page, publishes it there. What the kernel answers on the way is collected in `OpenEnv`.

## Pointers

`ERR_PTR` turns an error code into a pointer, and `IS_ERR` recognises the codes from -4095 to -1. Running out of memory is
passed on by the media as `ERR_PTR(ENOMEM)` with a positive code, which `IS_ERR` takes for a valid pointer; the disk
is then created with it, and reading through it is a crash (`none`).

## What an error leaves behind

Publication is refused when the page has no slot for the disk. The refusal comes after the entry into the array and is
returned without undoing it (`create_atomic_iff`).
-/

namespace Vcass.BlockIo.Bcknd

open Function (update)

def efault : ℤ := 14

def enospc : ℤ := 28

/-- `PATH_MAX`. -/
def pathMax : ℕ := 4096

def vcablkDiskTypeFile : ℕ := 1

def vcablkDiskTypeMemory : ℕ := 2

def vcablkDiskModeReadOnly : ℕ := 1

def cmdCreate : ℕ := 1

/-- `struct vcablk_disk_open_desc`, the path up to its end. -/
structure VcablkDiskOpenDesc where
  diskId : ℕ
  type : ℕ
  mode : ℕ
  size : BitVec 64
  filePath : List UInt8
  deriving DecidableEq

/-- What the kernel answers: whether the descriptor can be copied, the allocations, the result of `filp_open`, and the
doorbell. -/
structure OpenEnv where
  copied : Bool
  diskMemory : Bool
  poolMemory : Bool
  mediaMemory : Bool
  dataMemory : Bool
  filpOpen : ℤ
  buffers : Bool
  nextDb : ℤ
  deriving DecidableEq

/-- A `struct vcablk_media *`: what it points to, or the error code that was made a pointer. -/
inductive MediaPtr
  | null
  | at (media : VcablkMedia)
  | err (code : ℤ)
  deriving DecidableEq

/-- `IS_ERR`. -/
def MediaPtr.isErr : MediaPtr → Bool
  | .err code => -4095 ≤ code && code ≤ -1
  | _ => false

inductive DiskState
  | create
  | open
  deriving DecidableEq

/-- `struct vcablk_bcknd_disk` as far as creation fills it. -/
structure VcablkBckndDisk where
  bckndId : ℕ
  state : DiskState
  sectorsNum : BitVec 32
  media : MediaPtr
  requestDb : ℤ
  deriving DecidableEq

/-- `struct vcablk_device_ctrl`, the part that the backend writes. -/
structure VcablkDeviceCtrl where
  command : ℕ
  sizeBytes : BitVec 64
  readOnly : Bool
  requestDb : ℤ
  deriving DecidableEq

structure VcablkDevPage where
  numDevices : ℕ
  devs : ℕ → VcablkDeviceCtrl

/-- `struct vcablk_bcknd_dev`: the array of disks, and the device page once a frontend is attached. -/
structure VcablkBckndDev where
  deviceArray : ℕ → Option VcablkBckndDisk
  devPagesRemapped : Option VcablkDevPage

section Code

variable (maxDev : ℕ) (bdev : VcablkBckndDev) (desc : VcablkDiskOpenDesc) (env : OpenEnv)

def vcablkMediaCreateFile (sizeBytes : BitVec 64) (filePath : List UInt8) (readOnly : Bool) : MediaPtr :=
  if pathMax ≤ filePath.length + 1 ∨ ¬ env.mediaMemory then .err enomem
  else if (MediaPtr.err env.filpOpen).isErr then .err env.filpOpen
  else .at ⟨.file, sizeBytes, readOnly⟩

def vcablkMediaCreateMemory (sizeBytes : BitVec 64) (filePath : List UInt8) (readOnly : Bool) : MediaPtr :=
  if pathMax ≤ filePath.length + 1 ∨ ¬ env.mediaMemory then .err enomem
  else if ¬ env.dataMemory then .err enomem
  else .at ⟨.memory, sizeBytes, readOnly⟩

/-- The number of sectors is cut to 32 bits. -/
def diskSectorsNum : BitVec 32 := (desc.size / 512).setWidth 32

def diskMedia : MediaPtr :=
  let readOnly := desc.mode == vcablkDiskModeReadOnly
  let sizeBytes := (diskSectorsNum desc).setWidth 64 * 512
  let filePath := desc.filePath.take (pathMax - 1)
  if desc.type = vcablkDiskTypeFile then vcablkMediaCreateFile env sizeBytes filePath readOnly
  else if desc.type = vcablkDiskTypeMemory then vcablkMediaCreateMemory env sizeBytes filePath readOnly
  else .null

/-- Without buffers the media is destroyed again, which reads through its pointer. -/
def vcablkBckndDiskCreate : Option (Except ℤ VcablkBckndDisk) :=
  if ¬ env.diskMemory then some (.error (-enomem))
  else if ¬ env.poolMemory then some (.error (-enomem))
  else
    match diskMedia desc env with
    | .err code =>
      if (MediaPtr.err code).isErr then some (.error code)
      else if ¬ env.buffers then none
      else some (.ok ⟨desc.diskId, .create, diskSectorsNum desc, .err code, -1⟩)
    | media =>
      if ¬ env.buffers then some (.error (-eio))
      else some (.ok ⟨desc.diskId, .create, diskSectorsNum desc, media, -1⟩)

/-- Returns the error with the page and the disk, whose doorbell is set on the way. -/
def vcablkBckndAddToDevpage (page : VcablkDevPage) (bckd : VcablkBckndDisk) :
    Option (ℤ × VcablkDevPage × VcablkBckndDisk) :=
  if page.numDevices ≤ bckd.bckndId then some (-enospc, page, bckd)
  else if bckd.state ≠ .create then some (-eio, page, bckd)
  else
    match bckd.media with
    | .at media =>
      let ctrl : VcablkDeviceCtrl := ⟨cmdCreate, media.sizeBytes, media.readOnly, env.nextDb⟩
      some (0, { page with devs := update page.devs bckd.bckndId ctrl }, { bckd with requestDb := env.nextDb })
    | _ => none

def vcablkBckndCreate : Option (ℤ × VcablkBckndDev) :=
  if maxDev ≤ desc.diskId then some (-einval, bdev)
  else if (bdev.deviceArray desc.diskId).isSome then some (-ebusy, bdev)
  else
    match vcablkBckndDiskCreate desc env with
    | none => none
    | some (.error err) => some (err, bdev)
    | some (.ok bckd) =>
      match bdev.devPagesRemapped with
      | none => some (0, { bdev with deviceArray := update bdev.deviceArray desc.diskId (some bckd) })
      | some page =>
        match vcablkBckndAddToDevpage env page bckd with
        | none => none
        | some (err, page, bckd) =>
          some (err, ⟨update bdev.deviceArray desc.diskId (some bckd), some page⟩)

/-- The `VCA_BLK_OPEN_DISC` case of `vcablk_bcknd_ioctl`. -/
def vcablkBckndIoctlOpenDisc : Option (ℤ × VcablkBckndDev) :=
  if ¬ env.copied then some (-efault, bdev)
  else if maxDev ≤ desc.diskId then some (-einval, bdev)
  else if desc.type = vcablkDiskTypeFile ∨ desc.type = vcablkDiskTypeMemory then vcablkBckndCreate maxDev bdev desc env
  else some (-einval, bdev)

end Code

/-! ## What a failed attempt leaves behind -/

/-- Everything the disk is built from is there. -/
structure Built (desc : VcablkDiskOpenDesc) (env : OpenEnv) : Prop where
  diskMemory : env.diskMemory = true
  poolMemory : env.poolMemory = true
  media : (diskMedia desc env).isErr = false
  buffers : env.buffers = true

/-- A disk that can be built, on a free place of the array, and a device page without a slot for it. -/
structure Stranded (maxDev : ℕ) (bdev : VcablkBckndDev) (desc : VcablkDiskOpenDesc) (env : OpenEnv) : Prop where
  copied : env.copied = true
  id_lt : desc.diskId < maxDev
  type : desc.type = vcablkDiskTypeFile ∨ desc.type = vcablkDiskTypeMemory
  free : bdev.deviceArray desc.diskId = none
  built : Built desc env
  page : ∃ page, bdev.devPagesRemapped = some page ∧ page.numDevices ≤ desc.diskId

/-- An error leaves the array and the page as they were. -/
def Atomic (maxDev : ℕ) (bdev : VcablkBckndDev) (desc : VcablkDiskOpenDesc) (env : OpenEnv) : Prop :=
  ∀ err bdev', vcablkBckndIoctlOpenDisc maxDev bdev desc env = some (err, bdev') → err ≠ 0 →
    bdev'.deviceArray = bdev.deviceArray ∧ bdev'.devPagesRemapped = bdev.devPagesRemapped

variable {maxDev : ℕ} {bdev : VcablkBckndDev} {desc : VcablkDiskOpenDesc} {env : OpenEnv}

theorem MediaPtr.ne_zero_of_isErr {code : ℤ} (h : (MediaPtr.err code).isErr = true) : code ≠ 0 := by
  rintro rfl
  exact absurd h (by decide)

theorem diskCreate_of_built (h : Built desc env) :
    ∃ bckd, vcablkBckndDiskCreate desc env = some (.ok bckd) ∧ bckd.bckndId = desc.diskId ∧ bckd.state = .create := by
  have hmedia := h.media
  rw [vcablkBckndDiskCreate, if_neg (not_not.mpr h.diskMemory), if_neg (not_not.mpr h.poolMemory)]
  generalize diskMedia desc env = media at hmedia ⊢
  cases media with
  | null =>
    simp only [h.buffers, not_true, if_false]
    exact ⟨_, rfl, rfl, rfl⟩
  | «at» media =>
    simp only [h.buffers, not_true, if_false]
    exact ⟨_, rfl, rfl, rfl⟩
  | err code =>
    simp only [hmedia, Bool.false_eq_true, h.buffers, not_true, if_false]
    exact ⟨_, rfl, rfl, rfl⟩

theorem diskCreate_of_not_built (h : ¬ Built desc env) :
    vcablkBckndDiskCreate desc env = none ∨ ∃ err, err ≠ 0 ∧ vcablkBckndDiskCreate desc env = some (.error err) := by
  have heio : -eio ≠ 0 := by decide
  have henomem : -enomem ≠ 0 := by decide
  rw [vcablkBckndDiskCreate]
  by_cases hdisk : env.diskMemory = true
  case neg =>
    rw [if_pos hdisk]
    exact Or.inr ⟨_, henomem, rfl⟩
  rw [if_neg (not_not.mpr hdisk)]
  by_cases hpool : env.poolMemory = true
  case neg =>
    rw [if_pos hpool]
    exact Or.inr ⟨_, henomem, rfl⟩
  rw [if_neg (not_not.mpr hpool)]
  have hnot : (diskMedia desc env).isErr = false → ¬ env.buffers = true := fun hmedia hbuffers ↦
    h ⟨hdisk, hpool, hmedia, hbuffers⟩
  generalize diskMedia desc env = media at hnot ⊢
  cases media with
  | null =>
    dsimp only
    rw [if_pos (hnot rfl)]
    exact Or.inr ⟨_, heio, rfl⟩
  | «at» media =>
    dsimp only
    rw [if_pos (hnot rfl)]
    exact Or.inr ⟨_, heio, rfl⟩
  | err code =>
    dsimp only
    by_cases herr : (MediaPtr.err code).isErr = true
    · rw [if_pos herr]
      exact Or.inr ⟨_, MediaPtr.ne_zero_of_isErr herr, rfl⟩
    · rw [if_neg herr, if_pos (hnot (Bool.eq_false_iff.mpr herr))]
      exact Or.inl rfl

/-- The disk stays in the array although its creation is reported as failed. -/
theorem openDisc_of_stranded (h : Stranded maxDev bdev desc env) :
    ∃ bckd, vcablkBckndIoctlOpenDisc maxDev bdev desc env =
      some (-enospc, { bdev with deviceArray := update bdev.deviceArray desc.diskId (some bckd) }) := by
  obtain ⟨bckd, hcreate, hid, -⟩ := diskCreate_of_built h.built
  obtain ⟨page, hpage, hslots⟩ := h.page
  refine ⟨bckd, ?_⟩
  rw [vcablkBckndIoctlOpenDisc, if_neg (not_not.mpr h.copied), if_neg (not_le.mpr h.id_lt), if_pos h.type,
    vcablkBckndCreate, if_neg (not_le.mpr h.id_lt), h.free, Option.isSome_none, if_neg Bool.false_ne_true, hcreate]
  dsimp only
  rw [hpage]
  dsimp only
  rw [vcablkBckndAddToDevpage, if_pos (hid ▸ hslots)]

/-- A retry finds the disk of the failed attempt, whatever it asks for under that number. -/
theorem retry_refused (h : Stranded maxDev bdev desc env) {bdev' : VcablkBckndDev} {err : ℤ}
    (hopen : vcablkBckndIoctlOpenDisc maxDev bdev desc env = some (err, bdev')) {desc' : VcablkDiskOpenDesc}
    {env' : OpenEnv}
    (hid : desc'.diskId = desc.diskId) (htype : desc'.type = vcablkDiskTypeFile ∨ desc'.type = vcablkDiskTypeMemory)
    (hcopied : env'.copied = true) :
    vcablkBckndIoctlOpenDisc maxDev bdev' desc' env' = some (-ebusy, bdev') := by
  obtain ⟨bckd, hstranded⟩ := openDisc_of_stranded h
  rw [hopen, Option.some_inj, Prod.mk.injEq] at hstranded
  obtain ⟨-, rfl⟩ := hstranded
  have hlt : ¬ maxDev ≤ desc'.diskId := hid ▸ not_le.mpr h.id_lt
  have htaken : (update bdev.deviceArray desc.diskId (some bckd) desc'.diskId).isSome = true := by
    rw [hid, Function.update_self]
    rfl
  rw [vcablkBckndIoctlOpenDisc, if_neg (not_not.mpr hcopied), if_neg hlt, if_pos htype, vcablkBckndCreate, if_neg hlt,
    if_pos htaken]

/-- Past its first checks the call is the creation. -/
theorem openDisc_cases (maxDev : ℕ) (bdev : VcablkBckndDev) (desc : VcablkDiskOpenDesc) (env : OpenEnv) :
    (∃ err, vcablkBckndIoctlOpenDisc maxDev bdev desc env = some (err, bdev)) ∨
      (env.copied = true ∧ desc.diskId < maxDev ∧ bdev.deviceArray desc.diskId = none ∧
        (desc.type = vcablkDiskTypeFile ∨ desc.type = vcablkDiskTypeMemory) ∧
        vcablkBckndIoctlOpenDisc maxDev bdev desc env = vcablkBckndCreate maxDev bdev desc env) := by
  rw [vcablkBckndIoctlOpenDisc]
  by_cases hcopied : env.copied = true
  case neg => exact Or.inl ⟨_, if_pos hcopied⟩
  rw [if_neg (not_not.mpr hcopied)]
  by_cases hid : maxDev ≤ desc.diskId
  case pos => exact Or.inl ⟨_, if_pos hid⟩
  rw [if_neg hid]
  by_cases htype : desc.type = vcablkDiskTypeFile ∨ desc.type = vcablkDiskTypeMemory
  case neg => exact Or.inl ⟨_, if_neg htype⟩
  rw [if_pos htype]
  by_cases hfree : (bdev.deviceArray desc.diskId).isSome = true
  · left
    rw [vcablkBckndCreate, if_neg hid, if_pos hfree]
    exact ⟨_, rfl⟩
  · exact Or.inr ⟨hcopied, not_le.mp hid, Option.not_isSome_iff_eq_none.mp hfree, htype, rfl⟩

/-- A disk that has just been created is published if the page has a slot for it. -/
theorem addToDevpage_eq_zero {page page' : VcablkDevPage} {bckd bckd' : VcablkBckndDisk} {err : ℤ}
    (hslots : ¬ page.numDevices ≤ bckd.bckndId) (hstate : bckd.state = .create)
    (hadd : vcablkBckndAddToDevpage env page bckd = some (err, page', bckd')) : err = 0 := by
  rw [vcablkBckndAddToDevpage, if_neg hslots, if_neg (not_not.mpr hstate)] at hadd
  cases hmedia : bckd.media with
  | «at» media =>
    rw [hmedia] at hadd
    cases hadd
    rfl
  | null =>
    rw [hmedia] at hadd
    cases hadd
  | err code =>
    rw [hmedia] at hadd
    cases hadd

/-- A creation on a free place fails without a trace, or for want of a slot. -/
theorem create_error {err : ℤ} {bdev' : VcablkBckndDev} (hid : desc.diskId < maxDev)
    (hfree : bdev.deviceArray desc.diskId = none)
    (hcreate : vcablkBckndCreate maxDev bdev desc env = some (err, bdev')) (herr : err ≠ 0) :
    bdev' = bdev ∨ Built desc env ∧ ∃ page, bdev.devPagesRemapped = some page ∧ page.numDevices ≤ desc.diskId := by
  rw [vcablkBckndCreate, if_neg (not_le.mpr hid), hfree, Option.isSome_none, if_neg Bool.false_ne_true] at hcreate
  by_cases hbuilt : Built desc env
  case neg =>
    left
    rcases diskCreate_of_not_built hbuilt with hcrash | ⟨code, -, hcode⟩
    · rw [hcrash] at hcreate
      cases hcreate
    · rw [hcode] at hcreate
      cases hcreate
      rfl
  obtain ⟨bckd, hbckd, hbid, hstate⟩ := diskCreate_of_built hbuilt
  rw [hbckd] at hcreate
  dsimp only at hcreate
  cases hpage : bdev.devPagesRemapped with
  | none =>
    rw [hpage] at hcreate
    cases hcreate
    exact absurd rfl herr
  | some page =>
    rw [hpage] at hcreate
    dsimp only at hcreate
    right
    refine ⟨hbuilt, page, rfl, ?_⟩
    by_contra hslots
    cases hadd : vcablkBckndAddToDevpage env page bckd with
    | none =>
      rw [hadd] at hcreate
      cases hcreate
    | some result =>
      obtain ⟨err', page', bckd'⟩ := result
      rw [hadd] at hcreate
      cases hcreate
      exact herr (addToDevpage_eq_zero (hbid ▸ hslots) hstate hadd)

/-- **Creation is atomic** unless the disk can be built on a free place of the array while the attached device page has
no slot for it; then the disk stays, and every further attempt under its number is refused. -/
theorem create_atomic_iff (maxDev : ℕ) (bdev : VcablkBckndDev) (desc : VcablkDiskOpenDesc) (env : OpenEnv) :
    (Atomic maxDev bdev desc env ↔ ¬ Stranded maxDev bdev desc env) ∧
    (Stranded maxDev bdev desc env → ∃ bdev', vcablkBckndIoctlOpenDisc maxDev bdev desc env = some (-enospc, bdev') ∧
      ∀ desc' env', desc'.diskId = desc.diskId →
        (desc'.type = vcablkDiskTypeFile ∨ desc'.type = vcablkDiskTypeMemory) → env'.copied = true →
        vcablkBckndIoctlOpenDisc maxDev bdev' desc' env' = some (-ebusy, bdev')) := by
  refine ⟨⟨fun hatomic h ↦ ?_, fun hnot err bdev' hopen herr ↦ ?_⟩, fun h ↦ ?_⟩
  · obtain ⟨bckd, hopen⟩ := openDisc_of_stranded h
    have harray := congrFun (hatomic _ _ hopen (by decide)).1 desc.diskId
    dsimp only at harray
    rw [Function.update_self, h.free] at harray
    exact absurd harray (Option.some_ne_none bckd)
  · have hsame : bdev' = bdev := by
      rcases openDisc_cases maxDev bdev desc env with ⟨code, hrefused⟩ | ⟨hcopied, hid, hfree, htype, heq⟩
      · rw [hopen, Option.some_inj, Prod.mk.injEq] at hrefused
        exact hrefused.2
      · refine (create_error hid hfree (heq ▸ hopen) herr).resolve_right ?_
        rintro ⟨hbuilt, hpage⟩
        exact hnot ⟨hcopied, hid, htype, hfree, hbuilt, hpage⟩
    rw [hsame]
    exact ⟨rfl, rfl⟩
  · obtain ⟨bckd, hopen⟩ := openDisc_of_stranded h
    exact ⟨_, hopen, fun desc' env' hid htype hcopied ↦ retry_refused h hopen hid htype hcopied⟩

/-- A memory disk of a megabyte with the number 5. -/
def disk5 : VcablkDiskOpenDesc := ⟨5, vcablkDiskTypeMemory, 2, 1048576, []⟩

/-- Nothing fails. -/
def ampleEnv : OpenEnv := ⟨true, true, true, true, true, 0, true, 0⟩

/-- No disks, and a page with four slots attached. -/
def fourSlots : VcablkBckndDev := ⟨fun _ ↦ none, some ⟨4, fun _ ↦ ⟨0, 0, false, -1⟩⟩⟩

/-- The first attempt is refused for want of a slot, the second because the disk exists. -/
theorem refused_disk_stays :
    ∃ bdev', vcablkBckndIoctlOpenDisc 8 fourSlots disk5 ampleEnv = some (-enospc, bdev') ∧
      bdev'.deviceArray 5 ≠ fourSlots.deviceArray 5 ∧
      vcablkBckndIoctlOpenDisc 8 bdev' disk5 ampleEnv = some (-ebusy, bdev') ∧
      ¬ Atomic 8 fourSlots disk5 ampleEnv := by
  have hopen : vcablkBckndIoctlOpenDisc 8 fourSlots disk5 ampleEnv = some (-enospc, _) := rfl
  have harray : (update fourSlots.deviceArray 5
      (some ⟨5, .create, 2048, .at ⟨.memory, 1048576, false⟩, -1⟩)) 5 ≠ fourSlots.deviceArray 5 := by
    rw [Function.update_self]
    exact Option.some_ne_none _
  exact ⟨_, hopen, harray, rfl, fun hatomic ↦ harray (congrFun (hatomic _ _ hopen (by decide)).1 5)⟩

end Vcass.BlockIo.Bcknd
