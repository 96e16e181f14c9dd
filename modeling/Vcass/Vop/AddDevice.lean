import Mathlib.Algebra.Order.Ring.Nat
import Vcass.Vop.DevicePage

/-!
# VOP: the addition of a device that fails

`vop_ioctl` fetches the header of a description from the user, checks its lengths and fetches the whole description.
`vop_setup_virtio_device` puts it into the device page with a type of 0, makes what the device needs and sets the type
at its end.

## Fetches

The user's memory may change between the fetches. The second one goes into an allocation whose size was computed from
the first; what is read behind its end is whatever is there. The description is taken as it comes here, while a
descriptor of the device page is one that has passed the checks.

## Failures

The steps behind `vop_copy_dp_entry` do not undo what it wrote. They all write to the entry, behind its header.
-/

namespace Vcass.Vop.AddDevice

open Records Overlay
open DevicePage (Page Desc vcaDpSize sizeofBootparam sizeofDesc sizeofVqconfig sizeofCtrl vcaVringEntries vcaDescSize
  vcaAlignedDescSize vcaTotalDescSize vcaHostDeviceDesc vqNum view scanFrom vopScanDevices vopInitDeviceCtrl)
open Function (update)

/-! ## Data -/

def vcaMaxVrings : ℕ := 4

def vcaMaxConfigLen : ℕ := 16

def vcaMaxFeatureLen : ℕ := 16

def vcaMaxDescBlkSize : ℕ := 256

/-- `VRING_INDEX_RECV`. -/
def vringIndexRecv : ℕ := 0

inductive Errno
  | eexist
  | efault
  | einval
  | enomem
  /-- The error of a step that calls the kernel. -/
  | other (e : ℤ)
  deriving DecidableEq, Repr

/-- What the steps meet that make a device. -/
structure Steps where
  /-- The address of each ring. -/
  vring : ℕ → Except Errno UInt64
  /-- The address of the buffer of `common_dev_init`. -/
  commonDev : Except Errno UInt64
  confDb : Except Errno UInt8
  availDb : Except Errno UInt8
  usedDb : Except Errno UInt8

/-- A call of `VCA_VIRTIO_ADD_DEVICE`: the user's memory at both fetches and what the allocation held, if they
succeed. -/
structure Call where
  first : Option Page
  heap : Option Page
  second : Option Page
  steps : Steps

/-- The device page, with the memory behind it, and the `virtio_id` of a file handle. -/
structure Dev where
  page : Page
  virtioId : UInt8

/-- An access to the kernel's copy of the description. -/
structure Access where
  off : ℕ
  len : ℕ
  deriving DecidableEq, Repr

/-! ## The fetches -/

/-- The kernel's copy: `n` bytes are fetched. -/
def kernelCopy (heap second : Page) (n : ℕ) : Page := fun a ↦ if a < n then second a else heap a

/-- The checks on the first fetch. -/
def checkHeader (dd : Page) : Except Errno Unit :=
  if vcaMaxVrings < (dd 1).toNat ∨ vcaMaxConfigLen < (dd 3).toNat ∨ vcaMaxFeatureLen < (dd 2).toNat then
    .error .einval
  else if vcaMaxDescBlkSize < vcaAlignedDescSize dd 0 then .error .einval
  else .ok ()

def fetch (call : Call) : Except Errno Page := do
  let first ← call.first.elim (.error .efault) .ok
  checkHeader first
  let heap ← call.heap.elim (.error .enomem) .ok
  let second ← call.second.elim (.error .efault) .ok
  return kernelCopy heap second (vcaDescSize first 0)

/-! ## The device page -/

/-- Where `num` of a queue stands. -/
def vqNumAccess (k : ℕ) : Access := ⟨sizeofDesc + k * sizeofVqconfig + 8, 2⟩

/-- The queues are looked at up to the first that is too long. -/
def checkQueues (argp : Page) : (n i : ℕ) → Bool × List Access
  | 0, _ => (true, [])
  | n + 1, i =>
    if vcaVringEntries < vqNum argp 0 i then (false, [vqNumAccess i])
    else
      let rest := checkQueues argp n (i + 1)
      (rest.1, vqNumAccess i :: rest.2)

/-- `VCA_DP_SIZE - vca_total_desc_size(argp)` is unsigned. -/
def slotLimit (argp : Page) : ℕ := (2 ^ 32 + vcaDpSize - vcaTotalDescSize argp 0) % 2 ^ 32

/-- The first free entry. A step of the search moves on, so that the limit bounds their number. -/
def findSlot (page argp : Page) : Option ℕ := (view page).find (slotLimit argp) (slotLimit argp) sizeofBootparam

/-- Both copies of the description, that of the card without its type. -/
def placeDesc (page argp : Page) (devp : ℕ) : Page :=
  let bytes := slice (update argp 0 0) 0 (vcaDescSize argp 0)
  let page := overlay page devp bytes
  let host := vcaHostDeviceDesc page devp
  update (overlay page host bytes) host (argp 0)

/-- `vop_copy_dp_entry`, with its accesses to the description. -/
def vopCopyDpEntry (page argp : Page) : Except Errno (ℕ × Page) × List Access :=
  let queues := checkQueues argp (argp 1).toNat 0
  let accesses := ⟨0, sizeofDesc⟩ :: queues.2
  if queues.1 then
    match findSlot page argp with
    | none => (.error .einval, accesses)
    | some devp => (.ok (devp, placeDesc page argp devp), accesses ++ [⟨0, vcaDescSize argp 0⟩])
  else (.error .einval, accesses)

/-! ## The steps behind it -/

def le64 (a : UInt64) : List UInt8 := (List.range 8).map fun k ↦ (a >>> (8 * k.toUInt64)).toUInt8

def le32 (n : ℕ) : List UInt8 := (List.range 4).map fun k ↦ (n / 256 ^ k).toUInt8

/-- A step writes to the page and may fail. -/
abbrev Step := Page → Option Errno × Page

def Step.andThen (f g : Step) : Step := fun page ↦
  match f page with
  | (some e, page) => (some e, page)
  | (none, page) => g page

/-- `address` of the queues of the host. -/
def allocateVrings (vring : ℕ → Except Errno UInt64) (host : ℕ) : (n i : ℕ) → Step
  | 0, _ => fun page ↦ (none, page)
  | n + 1, i => fun page ↦
    match vring i with
    | .error e => (some e, page)
    | .ok addr =>
      allocateVrings vring host n (i + 1) (overlay page (host + sizeofDesc + i * sizeofVqconfig) (le64 addr))

def vopAllocateHostVrings (steps : Steps) (host : ℕ) : Step := fun page ↦
  allocateVrings steps.vring host (page (host + 1)).toNat 0
    (vopInitDeviceCtrl page (host + vcaAlignedDescSize page host))

/-- `kvec_buf_address` and `kvec_buf_elems`. -/
def vopCommonDevInit (steps : Steps) (dc host : ℕ) : Step := fun page ↦
  match steps.commonDev with
  | .error e => (some e, page)
  | .ok pa => (none, overlay page (dc + 24) (le64 pa ++ le32 (vqNum page host vringIndexRecv)))

/-- A doorbell for the card. -/
def requestDb (db : Except Errno UInt8) (a : ℕ) : Step := fun page ↦
  match db with
  | .error e => (some e, page)
  | .ok db => (none, update page a db)

def vopSetupIrqs (steps : Steps) (dc : ℕ) : Step :=
  ((requestDb steps.confDb (dc + 13)).andThen (requestDb steps.availDb (dc + 14))).andThen
    (requestDb steps.usedDb (dc + 15))

/-- The first queues of both sides have entries. -/
def checkFirstQueue (dd host : ℕ) : Step := fun page ↦
  (if vqNum page dd 0 = 0 ∨ vqNum page host 0 = 0 then some .einval else none, page)

/-- `vop_setup_virtio_device` between the copy and the type. -/
def makeDevice (steps : Steps) (dd : ℕ) : Step := fun page ↦
  let dc := dd + vcaAlignedDescSize page dd
  let host := vcaHostDeviceDesc page dd
  ((((checkFirstQueue dd host).andThen (vopAllocateHostVrings steps host)).andThen
    (vopCommonDevInit steps dc host)).andThen (vopSetupIrqs steps dc)) (vopInitDeviceCtrl page dc)

def vopSetupVirtioDevice (s : Dev) (argp : Page) (steps : Steps) : Except Errno ℕ × Dev :=
  match (vopCopyDpEntry s.page argp).1 with
  | .error e => (.error e, s)
  | .ok (dd, page) =>
    match makeDevice steps dd page with
    | (some e, page) => (.error e, ⟨page, argp 0⟩)
    | (none, page) => (.ok dd, ⟨update page dd (argp 0), argp 0⟩)

/-- `vop_ioctl`. -/
def vopIoctl (s : Dev) (call : Call) : Except Errno ℕ × Dev :=
  if s.virtioId ≠ 0 then (.error .eexist, s)
  else
    match fetch call with
    | .error e => (.error e, s)
    | .ok argp => vopSetupVirtioDevice s argp call.steps

/-! ## What is asked for -/

/-- How far a call comes: it is refused, or it has a place in the page. -/
def placeOf (s : Dev) (call : Call) : Except Errno ℕ :=
  if s.virtioId ≠ 0 then .error .eexist
  else do
    let argp ← fetch call
    let copied ← (vopCopyDpEntry s.page argp).1
    return copied.1

/-- The card finds the same devices, and later calls get what they would get. -/
structure NoTrace (s s' : Dev) : Prop where
  scan : ∀ p, p ∈ vopScanDevices s'.page ↔ p ∈ vopScanDevices s.page
  later : ∀ call, placeOf s' call = placeOf s call

/-- All queues are short enough. -/
def QueuesFit (argp : Page) : Prop := ∀ k < (argp 1).toNat, vqNum argp 0 k ≤ vcaVringEntries

/-- The lengths that `vop_ioctl` checks. -/
structure Limits (page : Page) (i : ℕ) : Prop where
  numVq : (page (i + 1)).toNat ≤ vcaMaxVrings
  featureLen : (page (i + 2)).toNat ≤ vcaMaxFeatureLen
  configLen : (page (i + 3)).toNat ≤ vcaMaxConfigLen

/-- A description in the page, with that for the host: it keeps the limits and ends inside the page. -/
structure Installed (page : Page) (dd : ℕ) : Prop where
  card : Limits page dd
  host : Limits page (vcaHostDeviceDesc page dd)
  inside : dd + vcaTotalDescSize page dd ≤ vcaDpSize

/-! ## Steps -/

/-- A step leaves what is below `n` alone. -/
def Step.Above (n : ℕ) (f : Step) : Prop := ∀ page, ∀ a < n, (f page).2 a = page a

section Above

variable {n : ℕ} {f g : Step}

theorem Step.Above.andThen (hf : f.Above n) (hg : g.Above n) : (f.andThen g).Above n := by
  intro page a ha
  have hfa := hf page a ha
  rw [Step.andThen]
  split
  case h_1 e page' heq => rwa [heq] at hfa
  case h_2 page' heq =>
    rw [heq] at hfa
    exact (hg page' a ha).trans hfa

theorem above_checkFirstQueue (n dd host : ℕ) : (checkFirstQueue dd host).Above n := fun _ _ _ ↦ rfl

theorem above_allocateVrings (vring : ℕ → Except Errno UInt64) {host : ℕ} (h : n ≤ host) (m i : ℕ) :
    (allocateVrings vring host m i).Above n := by
  induction m generalizing i with
  | zero => exact fun _ _ _ ↦ rfl
  | succ m ih =>
    intro page a ha
    rw [allocateVrings]
    cases vring i with
    | error e => rfl
    | ok addr =>
      rw [ih (i + 1) _ a ha]
      exact overlay_of_lt (by omega)

theorem above_vopAllocateHostVrings (steps : Steps) {host : ℕ} (h : n ≤ host) :
    (vopAllocateHostVrings steps host).Above n := by
  intro page a ha
  rw [vopAllocateHostVrings, above_allocateVrings steps.vring h _ _ _ a ha]
  exact overlay_of_lt (by omega)

theorem above_vopCommonDevInit (steps : Steps) {dc : ℕ} (host : ℕ) (h : n ≤ dc) :
    (vopCommonDevInit steps dc host).Above n := by
  intro page a ha
  rw [vopCommonDevInit]
  cases steps.commonDev with
  | error e => rfl
  | ok pa => exact overlay_of_lt (by omega)

theorem above_requestDb (db : Except Errno UInt8) {c : ℕ} (h : n ≤ c) : (requestDb db c).Above n := by
  intro page a ha
  cases db with
  | error e => rfl
  | ok db => exact Function.update_of_ne (by omega) ..

theorem above_vopSetupIrqs (steps : Steps) {dc : ℕ} (h : n ≤ dc) : (vopSetupIrqs steps dc).Above n :=
  ((above_requestDb _ (by omega)).andThen (above_requestDb _ (by omega))).andThen (above_requestDb _ (by omega))

theorem above_makeDevice (steps : Steps) (dd : ℕ) : (makeDevice steps dd).Above (dd + sizeofDesc) := by
  intro page a ha
  have hsize := DevicePage.eight_le_descSize page dd
  have hle := DevicePage.descSize_le_aligned page dd
  have hdc : dd + sizeofDesc ≤ dd + vcaAlignedDescSize page dd := by
    rw [sizeofDesc]
    omega
  have hhost : dd + sizeofDesc ≤ vcaHostDeviceDesc page dd := by
    rw [vcaHostDeviceDesc]
    omega
  rw [makeDevice, (((above_checkFirstQueue _ dd _).andThen (above_vopAllocateHostVrings steps hhost)).andThen
    (above_vopCommonDevInit steps _ hdc)).andThen (above_vopSetupIrqs steps hdc) _ a ha]
  exact overlay_of_lt (by omega)

end Above

/-! ## The copy -/

section Place

variable {page argp : Page} {devp : ℕ}

theorem host_overlay (page argp : Page) (devp : ℕ) :
    vcaHostDeviceDesc (overlay page devp (slice (update argp 0 0) 0 (vcaDescSize argp 0))) devp =
      devp + (vcaAlignedDescSize argp 0 + sizeofCtrl) := by
  have hsize := DevicePage.eight_le_descSize argp 0
  rw [vcaHostDeviceDesc, DevicePage.alignedDescSize_congr fun k hk hk' ↦ ?_]
  rw [overlay_slice (by omega), Nat.zero_add, Function.update_of_ne (by omega)]

theorem placeDesc_of_lt {a : ℕ} (ha : a < devp) : placeDesc page argp devp a = page a := by
  rw [placeDesc, host_overlay, Function.update_of_ne (by omega), overlay_of_lt (by omega), overlay_of_lt ha]

theorem placeDesc_header {k : ℕ} (hk : k < 4) : placeDesc page argp devp (devp + k) = update argp 0 0 k := by
  have hsize := DevicePage.eight_le_descSize argp 0
  have hle := DevicePage.descSize_le_aligned argp 0
  rw [placeDesc, host_overlay, Function.update_of_ne (by omega), overlay_of_lt (by omega), overlay_slice (by omega),
    Nat.zero_add]

theorem alignedDescSize_placeDesc (page argp : Page) (devp : ℕ) :
    vcaAlignedDescSize (placeDesc page argp devp) devp = vcaAlignedDescSize argp 0 :=
  DevicePage.alignedDescSize_congr fun k hk hk' ↦ by
    rw [placeDesc_header hk', Function.update_of_ne (by omega), Nat.zero_add]

theorem totalDescSize_placeDesc (page argp : Page) (devp : ℕ) :
    vcaTotalDescSize (placeDesc page argp devp) devp = vcaTotalDescSize argp 0 := by
  rw [vcaTotalDescSize, alignedDescSize_placeDesc, vcaTotalDescSize]

theorem host_placeDesc (page argp : Page) (devp : ℕ) :
    vcaHostDeviceDesc (placeDesc page argp devp) devp = devp + (vcaAlignedDescSize argp 0 + sizeofCtrl) := by
  rw [vcaHostDeviceDesc, alignedDescSize_placeDesc]

theorem placeDesc_host_header {k : ℕ} (hk : 0 < k) (hk' : k < 4) :
    placeDesc page argp devp (vcaHostDeviceDesc (placeDesc page argp devp) devp + k) = argp k := by
  have hsize := DevicePage.eight_le_descSize argp 0
  rw [host_placeDesc, placeDesc, host_overlay, Function.update_of_ne (by omega), overlay_slice (by omega),
    Nat.zero_add, Function.update_of_ne (by omega)]

end Place

/-! ## What a failure leaves -/

section Failure

variable {s s' : Dev} {argp : Page} {steps : Steps} {e : Errno} {dd : ℕ}

theorem checkQueues_eq_true_iff (argp : Page) (n i : ℕ) :
    (checkQueues argp n i).1 = true ↔ ∀ k, i ≤ k → k < i + n → vqNum argp 0 k ≤ vcaVringEntries := by
  induction n generalizing i with
  | zero => exact iff_of_true rfl fun k hik hk ↦ absurd hik (by omega)
  | succ n ih =>
    rw [checkQueues]
    split_ifs with hlong
    · refine iff_of_false nofun fun h ↦ ?_
      have hi := h i (Nat.le_refl _) (by omega)
      omega
    · rw [ih]
      constructor
      · intro h k hik hk
        rcases Nat.eq_or_lt_of_le hik with rfl | hlt
        · exact Nat.le_of_not_lt hlong
        · exact h k hlt (by omega)
      · intro h k hik hk
        exact h k (by omega) (by omega)

theorem queuesFit_iff : (checkQueues argp (argp 1).toNat 0).1 = true ↔ QueuesFit argp := by
  rw [checkQueues_eq_true_iff]
  exact ⟨fun h k hk ↦ h k (Nat.zero_le _) (by omega), fun h k _ hk ↦ h k (by omega)⟩

instance (argp : Page) : Decidable (QueuesFit argp) := decidable_of_iff _ queuesFit_iff

/-- `vop_copy_dp_entry` fails exactly for a queue that is too long, or without a place. -/
theorem vopCopyDpEntry_fst (page argp : Page) : (vopCopyDpEntry page argp).1 =
    if QueuesFit argp then
      match findSlot page argp with
      | none => .error .einval
      | some devp => .ok (devp, placeDesc page argp devp)
    else .error .einval := by
  rw [vopCopyDpEntry]
  by_cases hfit : QueuesFit argp
  · rw [if_pos hfit]
    simp only [queuesFit_iff.mpr hfit, if_true]
    cases findSlot page argp <;> rfl
  · have hfalse : (checkQueues argp (argp 1).toNat 0).1 = false :=
      Bool.eq_false_iff.mpr fun h ↦ hfit (queuesFit_iff.mp h)
    rw [if_neg hfit]
    simp only [hfalse, Bool.false_eq_true, if_false]

/-- A failure in `vop_copy_dp_entry` changes nothing; a later one leaves an entry with type 0 and the `virtio_id`. -/
theorem failed_cases (h : vopSetupVirtioDevice s argp steps = (.error e, s')) :
    (¬QueuesFit argp ∨ findSlot s.page argp = none) ∧ s' = s ∨
      ∃ dd, QueuesFit argp ∧ findSlot s.page argp = some dd ∧ (∀ a < dd, s'.page a = s.page a) ∧ s'.page dd = 0 ∧
        s'.virtioId = argp 0 := by
  rw [vopSetupVirtioDevice, vopCopyDpEntry_fst] at h
  by_cases hfit : QueuesFit argp
  · rw [if_pos hfit] at h
    cases hslot : findSlot s.page argp with
    | none =>
      rw [hslot] at h
      exact .inl ⟨.inr rfl, (Prod.mk.inj h).2.symm⟩
    | some dd =>
      have habove := above_makeDevice steps dd (placeDesc s.page argp dd)
      have hsizeof : 0 < sizeofDesc := by decide
      simp only [hslot] at h
      generalize makeDevice steps dd (placeDesc s.page argp dd) = made at h habove
      obtain ⟨_ | err, page⟩ := made
      · cases (Prod.mk.inj h).1
      · obtain rfl := (Prod.mk.inj h).2
        refine .inr ⟨dd, hfit, rfl, fun a ha ↦ ?_, ?_, rfl⟩
        · exact (habove a (by omega)).trans (placeDesc_of_lt ha)
        · exact (habove dd (by omega)).trans (placeDesc_header (Nat.succ_pos 3))
  · rw [if_neg hfit] at h
    exact .inl ⟨.inl hfit, (Prod.mk.inj h).2.symm⟩

theorem view_congr_of_lt {page page' : Page} (h : ∀ a < dd, page' a = page a) {q : ℕ}
    (hq : q + (view page).stride q ≤ dd) :
    (view page').kind q = (view page).kind q ∧ (view page').stride q = (view page).stride q :=
  DevicePage.view_congr_of_le h hq

theorem scan_failed (hslot : findSlot s.page argp = some dd) (hout : ∀ a < dd, s'.page a = s.page a)
    (htype : s'.page dd = 0) :
    (∀ p, p ∈ vopScanDevices s'.page ↔ p ∈ vopScanDevices s.page) ↔ scanFrom s.page dd = [] := by
  obtain ⟨pre, hscan, hscan', hlt⟩ := View.scan_of_find (DevicePage.view_moves _) (DevicePage.view_moves s'.page)
    hslot (fun q hq ↦ view_congr_of_lt hout hq) vcaDpSize
  have hstop : (view s'.page).scan vcaDpSize dd = [] := View.scan_of_stop (if_pos htype)
  rw [hstop, List.append_nil] at hscan'
  simp only [vopScanDevices, scanFrom, hscan, hscan', List.mem_append]
  constructor
  · intro h
    apply List.eq_nil_iff_forall_not_mem.mpr
    intro p hp
    have hle := (View.of_mem_scan (DevicePage.view_moves _) hp).1
    have hp' := hlt p ((h p).mpr (.inr hp))
    omega
  · intro h p
    rw [h]
    simp only [List.not_mem_nil, or_false]

/-- Later searches stop at the entry, as they did before. -/
theorem findSlot_failed (hslot : findSlot s.page argp = some dd) (hout : ∀ a < dd, s'.page a = s.page a)
    (htype : s'.page dd = 0) (argp' : Page) : findSlot s'.page argp' = findSlot s.page argp' := by
  refine View.find_congr hslot (fun q hq ↦ view_congr_of_lt hout hq) ?_ ..
  have hkind : (view s'.page).kind dd = .stop := if_pos htype
  rw [hkind]
  decide

theorem bind_vopCopyDpEntry (page argp : Page) : ((vopCopyDpEntry page argp).1 >>= fun copied ↦ pure copied.1) =
    if QueuesFit argp then (findSlot page argp).elim (Except.error Errno.einval) Except.ok else .error .einval := by
  rw [vopCopyDpEntry_fst]
  split_ifs
  · cases findSlot page argp <;> rfl
  · rfl

theorem placeOf_congr (hid : s'.virtioId = s.virtioId) (h : ∀ argp, findSlot s'.page argp = findSlot s.page argp)
    (call : Call) : placeOf s' call = placeOf s call := by
  rw [placeOf, placeOf, hid]
  split_ifs
  · rfl
  · refine bind_congr fun argp ↦ ?_
    rw [bind_vopCopyDpEntry, bind_vopCopyDpEntry, h]

/-- A failed call leaves no trace exactly if it fails in `vop_copy_dp_entry`, or with a type of 0 where the card finds
nothing from the place on. -/
theorem noTrace_iff (hnew : s.virtioId = 0) (h : vopSetupVirtioDevice s argp steps = (.error e, s')) :
    NoTrace s s' ↔ (¬QueuesFit argp ∨ findSlot s.page argp = none) ∨
      argp 0 = 0 ∧ ∀ dd, findSlot s.page argp = some dd → scanFrom s.page dd = [] := by
  obtain ⟨hcopy, rfl⟩ | ⟨dd, hfit, hslot, hout, htype, hid⟩ := failed_cases h
  · exact iff_of_true ⟨fun _ ↦ Iff.rfl, fun _ ↦ rfl⟩ (.inl hcopy)
  · have hcopied : ¬(¬QueuesFit argp ∨ findSlot s.page argp = none) := by
      rw [hslot]
      exact fun h ↦ h.elim (fun h ↦ h hfit) nofun
    have hscan := scan_failed hslot hout htype
    constructor
    · intro htrace
      refine .inr ⟨?_, fun dd' hdd' ↦ ?_⟩
      · -- a call that faults at once tells whether there is a device
        by_contra hne
        have hlater := htrace.later ⟨none, none, none, steps⟩
        simp only [placeOf, hnew, hid, ne_eq, hne, not_true_eq_false, not_false_eq_true, if_true, if_false] at hlater
        cases hlater
      · obtain rfl := Option.some_inj.mp (hslot.symm.trans hdd')
        exact hscan.mp htrace.scan
    · rintro (hfails | ⟨hzero, hrest⟩)
      · exact absurd hfails hcopied
      · exact ⟨hscan.mpr (hrest dd hslot), placeOf_congr (hid.trans (hzero.trans hnew.symm))
          (findSlot_failed hslot hout htype)⟩

/-- Interrupts cannot be requested. -/
def noIrqs : Steps := ⟨fun _ ↦ .ok 0x10000000, .ok 0x20000000, .error (.other (-16)), .ok 1, .ok 2⟩

/-- A queue of 2048 entries. -/
def longQueue : Page := fun a ↦ if a = 0 then 1 else if a = 1 then 1 else if a = 17 then 8 else 0

theorem noTrace_longQueue : NoTrace ⟨fun _ ↦ 0, 0⟩ (vopSetupVirtioDevice ⟨fun _ ↦ 0, 0⟩ longQueue noIrqs).2 :=
  (noTrace_iff rfl (show vopSetupVirtioDevice ⟨fun _ ↦ 0, 0⟩ longQueue noIrqs = (.error .einval, _) from rfl)).mpr
    (.inl (.inl (by decide)))

/-- The first of two devices was removed. -/
def removedFirst : Dev where
  page := ((Conc.exec DevicePage.step DevicePage.init [.add (DevicePage.plainDesc false),
    .add (DevicePage.plainDesc false), .remove 184]).map DevicePage.Sys.page).getD fun _ ↦ 0
  virtioId := 0

/-- The addition of a device in its place fails: the card does not find the second one any more, and the file handle
takes no other device. -/
theorem failed_addition_hides :
    (vopSetupVirtioDevice removedFirst (DevicePage.plainDesc false).argp noIrqs).1 = .error (.other (-16)) ∧
      vopScanDevices removedFirst.page = [312] ∧
      vopScanDevices (vopSetupVirtioDevice removedFirst (DevicePage.plainDesc false).argp noIrqs).2.page = [] ∧
      ∀ call, (vopIoctl (vopSetupVirtioDevice removedFirst (DevicePage.plainDesc false).argp noIrqs).2 call).1 =
        .error .eexist := by
  have hid : (vopSetupVirtioDevice removedFirst (DevicePage.plainDesc false).argp noIrqs).2.virtioId ≠ 0 := by
    decide +kernel
  refine ⟨by rfl, by decide +kernel, by decide +kernel, fun call ↦ ?_⟩
  rw [vopIoctl, if_pos hid]

end Failure

/-! ## What is installed -/

section Installed

variable {page first heap second argp : Page} {dd : ℕ}

/-- All accesses of `vop_copy_dp_entry` are to the allocation, and a description that it installs is right. -/
def Validates (page argp : Page) (alloc : ℕ) : Prop :=
  (∀ access ∈ (vopCopyDpEntry page argp).2, access.off + access.len ≤ alloc) ∧
    ∀ dd page', (vopCopyDpEntry page argp).1 = .ok (dd, page') → Installed page' dd

/-- The queues that are looked at lie in the first `alloc` bytes. -/
def QueuesInside (argp : Page) (alloc : ℕ) : Prop :=
  ∀ k < (argp 1).toNat, (∀ j < k, vqNum argp 0 j ≤ vcaVringEntries) →
    (vqNumAccess k).off + (vqNumAccess k).len ≤ alloc

theorem mem_checkQueues_iff (argp : Page) (n i : ℕ) (access : Access) :
    access ∈ (checkQueues argp n i).2 ↔
      ∃ k, i ≤ k ∧ k < i + n ∧ (∀ j, i ≤ j → j < k → vqNum argp 0 j ≤ vcaVringEntries) ∧ access = vqNumAccess k := by
  induction n generalizing i with
  | zero =>
    refine iff_of_false List.not_mem_nil ?_
    rintro ⟨k, hik, hk, -⟩
    omega
  | succ n ih =>
    rw [checkQueues]
    split_ifs with hlong
    · rw [List.mem_singleton]
      constructor
      · rintro rfl
        exact ⟨i, Nat.le_refl _, by omega, fun j hij hj ↦ absurd hij (by omega), rfl⟩
      · rintro ⟨k, hik, -, hshort, rfl⟩
        rcases Nat.eq_or_lt_of_le hik with rfl | hlt
        · rfl
        · have hi := hshort i (Nat.le_refl _) hlt
          omega
    · simp only [List.mem_cons, ih]
      constructor
      · rintro (rfl | ⟨k, hik, hk, hshort, rfl⟩)
        · exact ⟨i, Nat.le_refl _, by omega, fun j hij hj ↦ absurd hij (by omega), rfl⟩
        · refine ⟨k, by omega, by omega, fun j hij hj ↦ ?_, rfl⟩
          rcases Nat.eq_or_lt_of_le hij with rfl | hlt
          · exact Nat.le_of_not_lt hlong
          · exact hshort j hlt hj
      · rintro ⟨k, hik, hk, hshort, rfl⟩
        rcases Nat.eq_or_lt_of_le hik with rfl | hlt
        · exact .inl rfl
        · exact .inr ⟨k, hlt, by omega, fun j hij hj ↦ hshort j (by omega) hj, rfl⟩

theorem queuesInside_iff (argp : Page) (alloc : ℕ) :
    (∀ access ∈ (checkQueues argp (argp 1).toNat 0).2, access.off + access.len ≤ alloc) ↔
      QueuesInside argp alloc := by
  simp only [mem_checkQueues_iff]
  constructor
  · intro h k hk hshort
    exact h _ ⟨k, Nat.zero_le k, by omega, fun j _ hj ↦ hshort j hj, rfl⟩
  · rintro h _ ⟨k, -, hk, hshort, rfl⟩
    exact h k (by omega) fun j hj ↦ hshort j (Nat.zero_le j) hj

/-- With its lengths within the limits, a description is small. -/
theorem Limits.total_le (h : Limits argp 0) : vcaTotalDescSize argp 0 ≤ 320 := by
  obtain ⟨hnum, hfeature, hconfig⟩ := h
  rw [vcaMaxVrings] at hnum
  rw [vcaMaxFeatureLen] at hfeature
  rw [vcaMaxConfigLen] at hconfig
  rw [vcaTotalDescSize, vcaAlignedDescSize, vcaDescSize, sizeofDesc, sizeofVqconfig, sizeofCtrl]
  omega

theorem limits_congr {page' : Page} {i j : ℕ} (h : ∀ k, 0 < k → k < 4 → page (i + k) = page' (j + k)) :
    Limits page i ↔ Limits page' j := by
  have hcongr : ∀ k, 0 < k → k < 4 → (page (i + k)).toNat = (page' (j + k)).toNat :=
    fun k hk hk' ↦ congrArg _ (h k hk hk')
  constructor
  · rintro ⟨hnum, hfeature, hconfig⟩
    exact ⟨hcongr 1 (by decide) (by decide) ▸ hnum, hcongr 2 (by decide) (by decide) ▸ hfeature,
      hcongr 3 (by decide) (by decide) ▸ hconfig⟩
  · rintro ⟨hnum, hfeature, hconfig⟩
    exact ⟨hcongr 1 (by decide) (by decide) ▸ hnum, hcongr 2 (by decide) (by decide) ▸ hfeature,
      hcongr 3 (by decide) (by decide) ▸ hconfig⟩

/-- What is installed is right exactly if the description was. -/
theorem installed_placeDesc_iff (hslot : findSlot page argp = some dd) :
    Installed (placeDesc page argp dd) dd ↔ Limits argp 0 := by
  have hcard : Limits (placeDesc page argp dd) dd ↔ Limits argp 0 := limits_congr fun k hk hk' ↦ by
    rw [placeDesc_header hk', Function.update_of_ne (by omega), Nat.zero_add]
  refine ⟨fun h ↦ hcard.mp h.card, fun h ↦ ⟨hcard.mpr h, ?_, ?_⟩⟩
  · exact (limits_congr fun k hk hk' ↦ by rw [placeDesc_host_header hk hk', Nat.zero_add]).mpr h
  · have htotal := h.total_le
    have hlt := (View.of_find (Nat.le_refl _) hslot).2.1
    rw [slotLimit, vcaDpSize] at hlt
    rw [totalDescSize_placeDesc, vcaDpSize]
    omega

theorem vopCopyDpEntry_snd (page argp : Page) : (vopCopyDpEntry page argp).2 =
    ⟨0, sizeofDesc⟩ :: (checkQueues argp (argp 1).toNat 0).2 ++
      if QueuesFit argp ∧ findSlot page argp ≠ none then [⟨0, vcaDescSize argp 0⟩] else [] := by
  rw [vopCopyDpEntry]
  by_cases hfit : QueuesFit argp
  · simp only [queuesFit_iff.mpr hfit, if_true, hfit, true_and]
    cases findSlot page argp <;> simp
  · have hfalse : (checkQueues argp (argp 1).toNat 0).1 = false :=
      Bool.eq_false_iff.mpr fun h ↦ hfit (queuesFit_iff.mp h)
    simp [hfalse, hfit]

theorem validates_iff_argp (page argp : Page) {alloc : ℕ} (halloc : sizeofDesc ≤ alloc) :
    Validates page argp alloc ↔ QueuesInside argp alloc ∧
      (QueuesFit argp → findSlot page argp ≠ none → vcaDescSize argp 0 ≤ alloc ∧ Limits argp 0) := by
  rw [Validates, vopCopyDpEntry_fst, vopCopyDpEntry_snd, ← queuesInside_iff]
  constructor
  · rintro ⟨haccess, hinstalled⟩
    refine ⟨fun access hmem ↦ haccess access (List.mem_append_left _ (List.mem_cons_of_mem _ hmem)), ?_⟩
    intro hfit hslot
    obtain ⟨dd, hdd⟩ := Option.ne_none_iff_exists'.mp hslot
    rw [if_pos hfit, hdd] at hinstalled
    have hcopy := haccess ⟨0, vcaDescSize argp 0⟩
      (List.mem_append_right _ (by rw [if_pos ⟨hfit, hslot⟩]; exact List.mem_singleton_self _))
    rw [Nat.zero_add] at hcopy
    exact ⟨hcopy, (installed_placeDesc_iff hdd).mp (hinstalled dd _ rfl)⟩
  · rintro ⟨hqueues, hcopy⟩
    constructor
    · intro access hmem
      rcases List.mem_append.mp hmem with hmem | hmem
      · rcases List.mem_cons.mp hmem with rfl | hmem
        · rwa [Nat.zero_add]
        · exact hqueues access hmem
      · split_ifs at hmem with hfound
        · obtain rfl := List.mem_singleton.mp hmem
          rw [Nat.zero_add]
          exact (hcopy hfound.1 hfound.2).1
        · cases hmem
    · intro dd page' hok
      split_ifs at hok with hfit
      cases hslot : findSlot page argp with
      | none =>
        rw [hslot] at hok
        cases hok
      | some devp =>
        rw [hslot] at hok
        obtain ⟨rfl, rfl⟩ := Prod.mk.inj (Except.ok.inj hok)
        exact (installed_placeDesc_iff hslot).mpr (hcopy hfit (by rw [hslot]; exact nofun)).2

/-! ## The second fetch -/

theorem QueuesInside.congr {a b : Page} {alloc : ℕ} (hnum : a 1 = b 1)
    (hqueue : ∀ k, (vqNumAccess k).off + (vqNumAccess k).len ≤ alloc → vqNum a 0 k = vqNum b 0 k)
    (h : QueuesInside a alloc) : QueuesInside b alloc := by
  intro k
  induction k using Nat.strongRecOn with
  | ind k ih =>
    intro hk hshort
    rw [← hnum] at hk
    refine h k hk fun j hj ↦ ?_
    rw [hqueue j (ih j hj (by rw [← hnum]; omega) fun i hi ↦ hshort i (by omega))]
    exact hshort j hj

theorem QueuesInside.fit_congr {a b : Page} {alloc : ℕ} (hnum : a 1 = b 1)
    (hqueue : ∀ k, (vqNumAccess k).off + (vqNumAccess k).len ≤ alloc → vqNum a 0 k = vqNum b 0 k)
    (h : QueuesInside a alloc) (hfit : QueuesFit a) : QueuesFit b := by
  intro k hk
  rw [← hnum] at hk
  rw [← hqueue k (h k hk fun j hj ↦ hfit j (by omega))]
  exact hfit k hk

theorem vqNum_kernelCopy {n k : ℕ} (h : (vqNumAccess k).off + (vqNumAccess k).len ≤ n) :
    vqNum (kernelCopy heap second n) 0 k = vqNum second 0 k := by
  simp only [vqNumAccess] at h
  simp only [vqNum, DevicePage.le16, kernelCopy]
  rw [if_pos (by omega), if_pos (by omega)]

theorem findSlot_congr {a b : Page} (h : ∀ k, 0 < k → k < 4 → a (0 + k) = b (0 + k)) :
    findSlot page a = findSlot page b := by
  rw [findSlot, slotLimit, DevicePage.totalDescSize_congr h, findSlot, slotLimit]

theorem kernelCopy_of_fetch {steps : Steps} (h : fetch ⟨some first, some heap, some second, steps⟩ = .ok argp) :
    argp = kernelCopy heap second (vcaDescSize first 0) := by
  change (checkHeader first >>= fun _ ↦ pure (kernelCopy heap second (vcaDescSize first 0))) = .ok argp at h
  cases hcheck : checkHeader first with
  | error e =>
    rw [hcheck] at h
    cases h
  | ok u =>
    rw [hcheck] at h
    exact (Except.ok.inj h).symm

/-- `vop_copy_dp_entry` keeps to the allocation and installs a right description exactly if the second fetch is such
that the queues it looks at lie in the allocation, and, if the description is copied, all of it does and it keeps the
limits. -/
theorem validates_iff {steps : Steps} (page : Page)
    (h : fetch ⟨some first, some heap, some second, steps⟩ = .ok argp) :
    Validates page argp (vcaDescSize first 0) ↔ QueuesInside second (vcaDescSize first 0) ∧
      (QueuesFit second → findSlot page second ≠ none →
        vcaDescSize second 0 ≤ vcaDescSize first 0 ∧ Limits second 0) := by
  have hargp := kernelCopy_of_fetch h
  have hsize := DevicePage.eight_le_descSize first 0
  have hheader : ∀ k, 0 < k → k < 4 → argp (0 + k) = second (0 + k) := fun k _ hk ↦ by
    rw [hargp, kernelCopy, if_pos (by omega)]
  have hqueue : ∀ k, (vqNumAccess k).off + (vqNumAccess k).len ≤ vcaDescSize first 0 →
      vqNum argp 0 k = vqNum second 0 k := fun k hk ↦ hargp ▸ vqNum_kernelCopy hk
  have hnum : argp 1 = second 1 := hheader 1 (by decide) (by decide)
  rw [validates_iff_argp page argp (show sizeofDesc ≤ _ from hsize), DevicePage.descSize_congr hheader,
    findSlot_congr hheader, limits_congr hheader]
  constructor
  · rintro ⟨hinside, hcopy⟩
    have hinside' := hinside.congr hnum hqueue
    exact ⟨hinside', fun hfit ↦
      hcopy (hinside'.fit_congr hnum.symm (fun k hk ↦ (hqueue k hk).symm) hfit)⟩
  · rintro ⟨hinside, hcopy⟩
    have hinside' := hinside.congr hnum.symm fun k hk ↦ (hqueue k hk).symm
    exact ⟨hinside', fun hfit ↦ hcopy (hinside'.fit_congr hnum hqueue hfit)⟩

/-- A user who writes one description before the first fetch and another before the second. -/
def userCall (first second : Page) : Call := ⟨some first, some fun _ ↦ 0, some second, noIrqs⟩

theorem validates_unchanged : ∃ argp,
    fetch (userCall (DevicePage.plainDesc false).argp (DevicePage.plainDesc false).argp) = .ok argp ∧
      Validates (fun _ ↦ 0) argp 24 := by
  refine ⟨_, rfl, (validates_iff (fun _ ↦ 0)
    (show fetch ⟨some (DevicePage.plainDesc false).argp, _, _, noIrqs⟩ = .ok _ from rfl)).mpr
      ⟨?_, fun _ _ ↦ ⟨by decide, by decide, by decide, by decide⟩⟩⟩
  intro k hk _
  obtain rfl : k = 0 := Nat.lt_one_iff.mp hk
  decide

/-- The description gets a long configuration between the fetches. -/
def grownDesc : Page := update (DevicePage.plainDesc false).argp 3 0xFF

/-- All of it is copied, which is more than was allocated. -/
theorem grownDesc_not_validated : ∃ argp,
    fetch (userCall (DevicePage.plainDesc false).argp grownDesc) = .ok argp ∧
      vcaDescSize (DevicePage.plainDesc false).argp 0 = 24 ∧ ⟨0, 279⟩ ∈ (vopCopyDpEntry (fun _ ↦ 0) argp).2 ∧
      ¬Validates (fun _ ↦ 0) argp 24 := by
  refine ⟨_, rfl, by decide, by decide +kernel, fun h ↦ ?_⟩
  have hcopy := (validates_iff_argp (fun _ ↦ 0) (kernelCopy (fun _ ↦ 0) grownDesc 24) (by decide)).mp h
  exact absurd (hcopy.2 (by decide) (by decide +kernel)).1 (by decide)

end Installed

end Vcass.Vop.AddDevice
