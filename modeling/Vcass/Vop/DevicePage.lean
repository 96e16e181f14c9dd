import Mathlib.Data.List.Nodup
import Mathlib.Data.List.Pairwise
import Mathlib.Logic.Function.Basic
import Vcass.Lib.Overlay
import Vcass.Lib.Records
import Vcass.Lib.Run

/-!
# VOP: the device page

The host describes its virtio devices in a page that the card can read. Behind the boot parameters the
page is a sequence of entries, each with a descriptor of its own size, a control block, and the two again
for the device on the host. There is no index: `vop_copy_dp_entry` on the host looks for a place and
`_vop_scan_devices` on the card for devices by walking from entry to entry, with the size that each header
gives. A type of 0 ends the list and a type of -1 marks an entry of a removed device, which is used again.

## What can go wrong

An entry is used again whatever its size was. The walk then goes on where the new entry ends, which need
not be where another one begins. And nobody looks at the type of a new descriptor, which may be one of the
two that are no device's.
-/

namespace Vcass.Vop.DevicePage

open Conc Overlay Records
open Function (update)

/-! ## The layout -/

def vcaDpSize : ℕ := 4096

/-- `sizeof(struct vca_bootparam)`. -/
def sizeofBootparam : ℕ := 184

/-- `sizeof(struct vca_device_desc)`. -/
def sizeofDesc : ℕ := 8

/-- `sizeof(struct vca_vqconfig)`. -/
def sizeofVqconfig : ℕ := 16

/-- `sizeof(struct vca_device_ctrl)`. -/
def sizeofCtrl : ℕ := 40

def vcaVringEntries : ℕ := 1024

/-- The bytes of the page. Type -1 is `0xFF`. -/
abbrev Page := ℕ → UInt8

section Layout

variable (page : Page) (i : ℕ)

/-- The header at `i`: type, number of queues, lengths of features and configuration. -/
def vcaDescSize : ℕ :=
  sizeofDesc + (page (i + 1)).toNat * sizeofVqconfig + (page (i + 2)).toNat * 2 + (page (i + 3)).toNat

def vcaAlignedDescSize : ℕ := (vcaDescSize page i + 7) / 8 * 8

def vcaTotalDescSize : ℕ := 2 * (vcaAlignedDescSize page i + sizeofCtrl)

def vcaHostDeviceDesc : ℕ := i + (vcaAlignedDescSize page i + sizeofCtrl)

def le16 (a : ℕ) : ℕ := (page a).toNat + 256 * (page (a + 1)).toNat

/-- `num` of queue `k` of the descriptor at `i`. -/
def vqNum (k : ℕ) : ℕ := le16 page (i + sizeofDesc + k * sizeofVqconfig + 8)

end Layout

/-- How both sides read the page. -/
def view (page : Page) : View where
  kind i := if page i = 0 then .stop else if page i = 0xFF then .free else .live
  stride := vcaTotalDescSize page

/-- The devices that the walk of the card finds from `i` on. -/
def scanFrom (page : Page) (i : ℕ) : List ℕ := (view page).scan vcaDpSize i

def vopScanDevices (page : Page) : List ℕ := scanFrom page sizeofBootparam

/-! ## The host -/

/-- A descriptor that `vop_ioctl` lets pass. It looks at the sizes, and at the type nowhere. -/
structure Desc where
  argp : Page
  numVq_le : (argp 1).toNat ≤ 4
  featureLen_le : (argp 2).toNat ≤ 16
  configLen_le : (argp 3).toNat ≤ 16
  aligned_le : vcaAlignedDescSize argp 0 ≤ 256

/-- The size of the entry of a device. -/
def Desc.total (d : Desc) : ℕ := vcaTotalDescSize d.argp 0

/-- The place that `vop_copy_dp_entry` finds. Every step of the search moves on, so that the size of the
page bounds their number. -/
def findSlot (page : Page) (d : Desc) : Option ℕ :=
  (view page).find (vcaDpSize - d.total) vcaDpSize sizeofBootparam

def vopCopyDpEntry (page : Page) (d : Desc) : Option (ℕ × Page) :=
  if (List.range (d.argp 1).toNat).all fun k ↦ vqNum d.argp 0 k ≤ vcaVringEntries then
    (findSlot page d).map fun i ↦
      let argp := update d.argp 0 0
      let bytes := slice argp 0 (vcaDescSize argp 0)
      let page := overlay page i bytes
      let host := vcaHostDeviceDesc page i
      let page := overlay page host bytes
      (i, update page host (d.argp 0))
  else none

/-- `config_change` and the fields behind it: five are cleared and six doorbells set to -1. -/
def vopInitDeviceCtrl (page : Page) (dc : ℕ) : Page :=
  overlay page (dc + 8) [0, 0, 0, 0, 0, 0xFF, 0xFF, 0xFF, 0xFF, 0xFF, 0xFF]

/-- `vop_setup_virtio_device`, if it succeeds. What it writes to the entry after this, before it sets the
type, is like the writes to it later. -/
def vopSetupVirtioDevice (page : Page) (d : Desc) : Option (ℕ × Page) :=
  (vopCopyDpEntry page d).bind fun (dd, page) ↦
    let host := vcaHostDeviceDesc page dd
    let page := vopInitDeviceCtrl page (dd + vcaAlignedDescSize page dd)
    if vqNum page dd 0 = 0 ∨ vqNum page host 0 = 0 then none
    else
      let page := vopInitDeviceCtrl page (host + vcaAlignedDescSize page host)
      some (dd, update page dd (d.argp 0))

/-! ## The system -/

/-- The place of a live device. -/
structure Entry where
  pos : ℕ
  size : ℕ
  deriving DecidableEq, Repr

structure Sys where
  page : Page
  /-- The devices that were added and not removed. -/
  live : List Entry

inductive Label
  | add (d : Desc)
  | remove (pos : ℕ)
  /-- A write to the boot parameters or, behind its header, to the entry of a live device. -/
  | write (a : ℕ) (b : UInt8)

def step (s : Sys) : Label → Option Sys
  | .add d => (vopSetupVirtioDevice s.page d).map fun (dd, page) ↦ ⟨page, ⟨dd, d.total⟩ :: s.live⟩
  | .remove pos =>
    if s.live.any fun e ↦ e.pos = pos then
      some ⟨update s.page pos 0xFF, s.live.filter fun e ↦ e.pos ≠ pos⟩
    else none
  | .write a b =>
    if a < sizeofBootparam ∨ s.live.any fun e ↦ e.pos + 4 ≤ a ∧ a < e.pos + e.size then
      some { s with page := update s.page a b }
    else none

def init : Sys := ⟨fun _ ↦ 0, []⟩

/-! ## What both sides should agree on -/

/-- The entries of the live devices are apart, and they are what the card finds. -/
structure Agree (s : Sys) : Prop where
  range : ∀ e ∈ s.live, sizeofBootparam ≤ e.pos ∧ e.pos + e.size ≤ vcaDpSize
  disjoint : s.live.Pairwise fun e f ↦ e.pos + e.size ≤ f.pos ∨ f.pos + f.size ≤ e.pos
  visits : ∀ p, p ∈ vopScanDevices s.page ↔ ∃ e ∈ s.live, e.pos = p
  /-- The card reads the size of an entry as it is. -/
  sizes : ∀ e ∈ s.live, vcaTotalDescSize s.page e.pos = e.size

/-- An addition leaves the bytes of the other devices alone. -/
def Keeps (s : Sys) (l : Label) (s' : Sys) : Prop :=
  match l with
  | .add _ => ∀ e ∈ s.live, ∀ a, e.pos ≤ a → a < e.pos + e.size → s'.page a = s.page a
  | _ => True

/-- The type is that of a device: it neither ends the list nor marks a removed entry. -/
def Desc.Typed (d : Desc) : Prop := d.argp 0 ≠ 0 ∧ d.argp 0 ≠ 0xFF

/-- The walk that goes on behind the new entry finds the devices that the walk from its place found. -/
def Resumes (s : Sys) : Label → Prop
  | .add d => ∀ i, findSlot s.page d = some i →
      ∀ p, p ∈ scanFrom s.page (i + d.total) ↔ p ∈ scanFrom s.page i
  | _ => True

/-- What an addition has to bring: the type of a device, and a walk that goes on as before. -/
def Fits (s : Sys) (l : Label) : Prop :=
  match l with
  | .add d => d.Typed ∧ Resumes s (.add d)
  | _ => True

/-! ## Headers -/

section Headers

variable {page page' : Page} {i j : ℕ} {d : Desc}

theorem descSize_congr (h : ∀ k, 0 < k → k < 4 → page (i + k) = page' (j + k)) :
    vcaDescSize page i = vcaDescSize page' j := by
  rw [vcaDescSize, vcaDescSize, h 1 (by decide) (by decide), h 2 (by decide) (by decide),
    h 3 (by decide) (by decide)]

theorem alignedDescSize_congr (h : ∀ k, 0 < k → k < 4 → page (i + k) = page' (j + k)) :
    vcaAlignedDescSize page i = vcaAlignedDescSize page' j := by
  rw [vcaAlignedDescSize, descSize_congr h, vcaAlignedDescSize]

theorem totalDescSize_congr (h : ∀ k, 0 < k → k < 4 → page (i + k) = page' (j + k)) :
    vcaTotalDescSize page i = vcaTotalDescSize page' j := by
  rw [vcaTotalDescSize, alignedDescSize_congr h, vcaTotalDescSize]

theorem eight_le_descSize (page : Page) (i : ℕ) : 8 ≤ vcaDescSize page i := by
  rw [vcaDescSize, sizeofDesc]
  omega

theorem descSize_le_aligned (page : Page) (i : ℕ) : vcaDescSize page i ≤ vcaAlignedDescSize page i := by
  rw [vcaAlignedDescSize]
  omega

/-- An entry is not smaller than its header. -/
theorem four_le_total (page : Page) (i : ℕ) : 4 ≤ vcaTotalDescSize page i := by
  rw [vcaTotalDescSize, sizeofCtrl]
  omega

theorem view_moves (page : Page) : (view page).Moves := fun i ↦
  Nat.lt_of_lt_of_le (by decide) (four_le_total page i)

theorem view_congr (h : ∀ k < 4, page' (i + k) = page (i + k)) :
    (view page').kind i = (view page).kind i ∧ (view page').stride i = (view page).stride i := by
  refine ⟨?_, totalDescSize_congr fun k _ hk ↦ h k hk⟩
  have htype : page' i = page i := h 0 (by decide)
  simp only [view, htype]

theorem kind_eq_live_iff : (view page).kind i = .live ↔ page i ≠ 0 ∧ page i ≠ 0xFF := by
  simp only [view]
  split_ifs with hzero hfree <;> simp [*]

end Headers

/-! ## An addition -/

section Add

variable {page page' : Page} {i : ℕ} {d : Desc}

theorem total_lt (d : Desc) : d.total < vcaDpSize := by
  have h := d.aligned_le
  rw [Desc.total, vcaTotalDescSize, sizeofCtrl, vcaDpSize]
  omega

theorem overlay_desc_header (argp : Page) {off k : ℕ} (hk : k < 4) :
    overlay page off (slice argp 0 (vcaDescSize argp 0)) (off + k) = argp k := by
  have hsize := eight_le_descSize argp 0
  rw [overlay_slice (by omega), Nat.zero_add]

theorem overlay_desc_of_out {argp : Page} {off a : ℕ} (ha : a < off ∨ off + vcaDescSize argp 0 ≤ a) :
    overlay page off (slice argp 0 (vcaDescSize argp 0)) a = page a := by
  rcases ha with hlt | hge
  · exact overlay_of_lt hlt
  · exact overlay_of_ge (by rwa [length_slice])

theorem initDeviceCtrl_of_out {dc a : ℕ} (h : a < dc ∨ dc + sizeofCtrl ≤ a) :
    vopInitDeviceCtrl page dc a = page a := by
  rw [sizeofCtrl] at h
  rcases h with hlt | hge
  · exact overlay_of_lt (by omega)
  · exact overlay_of_ge (by simp only [List.length_cons, List.length_nil]; omega)

theorem of_copyDpEntry (h : vopCopyDpEntry page d = some (i, page')) :
    findSlot page d = some i ∧ (∀ a, a < i ∨ i + d.total ≤ a → page' a = page a) ∧
      (∀ k, 0 < k → k < 4 → page' (i + k) = d.argp k) ∧
      ∀ k, 0 < k → k < 4 → page' (i + (vcaAlignedDescSize d.argp 0 + sizeofCtrl) + k) = d.argp k := by
  rw [vopCopyDpEntry] at h
  split_ifs at h with hnum
  obtain ⟨slot, hslot, hpage⟩ := Option.map_eq_some_iff.mp h
  obtain ⟨rfl, rfl⟩ := Prod.mk.inj hpage
  set argp := update d.argp 0 0 with hargp
  have hheader : ∀ k, 0 < k → argp k = d.argp k := fun k hk ↦ by
    rw [hargp, Function.update_of_ne (by omega)]
  have hsize : vcaDescSize argp 0 = vcaDescSize d.argp 0 :=
    descSize_congr fun k hk _ ↦ hheader (0 + k) (by omega)
  have hle := descSize_le_aligned d.argp 0
  have height := eight_le_descSize d.argp 0
  set page₁ := overlay page slot (slice argp 0 (vcaDescSize argp 0)) with hpage₁
  have hhost : vcaHostDeviceDesc page₁ slot = slot + (vcaAlignedDescSize d.argp 0 + sizeofCtrl) := by
    rw [vcaHostDeviceDesc, alignedDescSize_congr fun k hk hk' ↦ ?_]
    rw [hpage₁, overlay_desc_header argp hk', hheader k hk, Nat.zero_add]
  rw [hhost]
  refine ⟨hslot, fun a ha ↦ ?_, fun k hk hk' ↦ ?_, fun k hk hk' ↦ ?_⟩
  · rw [Desc.total, vcaTotalDescSize] at ha
    rw [Function.update_of_ne (by omega), overlay_desc_of_out (by omega), hpage₁,
      overlay_desc_of_out (by omega)]
  · rw [Function.update_of_ne (by omega), overlay_desc_of_out (by omega), hpage₁,
      overlay_desc_header argp hk', hheader k hk]
  · rw [Function.update_of_ne (by omega), overlay_desc_header argp hk', hheader k hk]

/-- A new device: its header stands at a free place, and nothing outside the entry is written. -/
theorem of_setupVirtioDevice (h : vopSetupVirtioDevice page d = some (i, page')) :
    findSlot page d = some i ∧ (∀ a, a < i ∨ i + d.total ≤ a → page' a = page a) ∧
      ∀ k < 4, page' (i + k) = d.argp k := by
  obtain ⟨⟨dd, page₁⟩, hcopy, hset⟩ := Option.bind_eq_some_iff.mp h
  obtain ⟨hslot, hout, hcard, hhost⟩ := of_copyDpEntry hcopy
  have hcard' : vcaAlignedDescSize page₁ dd = vcaAlignedDescSize d.argp 0 :=
    alignedDescSize_congr fun k hk hk' ↦ by rw [hcard k hk hk', Nat.zero_add]
  have hle := descSize_le_aligned d.argp 0
  have height := eight_le_descSize d.argp 0
  simp only [vcaHostDeviceDesc, hcard'] at hset
  split_ifs at hset with hnum
  set host := dd + (vcaAlignedDescSize d.argp 0 + sizeofCtrl) with hhostpos
  set page₂ := vopInitDeviceCtrl page₁ (dd + vcaAlignedDescSize d.argp 0) with hpage₂
  have hhost' : vcaAlignedDescSize page₂ host = vcaAlignedDescSize d.argp 0 :=
    alignedDescSize_congr fun k hk hk' ↦ by
      rw [hpage₂, initDeviceCtrl_of_out (by omega), hhost k hk hk', Nat.zero_add]
  rw [hhost'] at hset
  obtain ⟨rfl, rfl⟩ := Prod.mk.inj (Option.some_inj.mp hset)
  refine ⟨hslot, fun a ha ↦ ?_, fun k hk ↦ ?_⟩
  · have ha' := hout a ha
    rw [Desc.total, vcaTotalDescSize] at ha
    rw [Function.update_of_ne (by omega), initDeviceCtrl_of_out (by omega), hpage₂,
      initDeviceCtrl_of_out (by omega), ha']
  · rcases Nat.eq_zero_or_pos k with rfl | hpos
    · exact Function.update_self dd _ _
    · rw [Function.update_of_ne (by omega), initDeviceCtrl_of_out (by omega), hpage₂,
        initDeviceCtrl_of_out (by omega), hcard k hpos hk]

end Add

/-! ## The walk after a change -/

section Walk

variable {page page' : Page} {i p : ℕ} {d : Desc}

theorem view_congr_of_le (hout : ∀ a < i, page' a = page a) {q : ℕ}
    (hq : q + (view page).stride q ≤ i) :
    (view page').kind q = (view page).kind q ∧ (view page').stride q = (view page).stride q := by
  have hfour : 4 ≤ (view page).stride q := four_le_total page q
  exact view_congr fun k hk ↦ hout _ (by omega)

theorem scanFrom_congr (hout : ∀ a, i ≤ a → page' a = page a) : scanFrom page' i = scanFrom page i :=
  View.scan_congr (view_moves page) (view_moves page') fun q hq ↦ view_congr fun k _ ↦ hout _ (by omega)

theorem scan_add (hslot : findSlot page d = some i)
    (hout : ∀ a, a < i ∨ i + d.total ≤ a → page' a = page a) :
    ∃ pre, vopScanDevices page = pre ++ scanFrom page i ∧ vopScanDevices page' = pre ++ scanFrom page' i ∧
      (∀ q ∈ pre, q + vcaTotalDescSize page q ≤ i) := by
  obtain ⟨hreach, -, -⟩ := View.of_find (Nat.sub_le vcaDpSize d.total) hslot
  exact hreach.scan_eq (view_moves page) (view_moves page')
    fun q _ hq ↦ view_congr_of_le (fun a ha ↦ hout a (.inl ha)) hq

/-- It goes through the new entry and on behind it if the type is that of a device. -/
theorem scanFrom_add (hslot : findSlot page d = some i)
    (hout : ∀ a, a < i ∨ i + d.total ≤ a → page' a = page a) (hheader : ∀ k < 4, page' (i + k) = d.argp k)
    (htyped : d.Typed) : scanFrom page' i = i :: scanFrom page (i + d.total) := by
  have hlt := total_lt d
  obtain ⟨-, hi, -⟩ := View.of_find (Nat.sub_le vcaDpSize d.total) hslot
  have hstride : (view page').stride i = d.total :=
    totalDescSize_congr fun k _ hk ↦ by rw [hheader k hk, Nat.zero_add]
  have hlive : (view page').kind i = .live := by
    rw [kind_eq_live_iff, ← Nat.add_zero i, hheader 0 (by decide)]
    exact htyped
  rw [scanFrom, View.scan_of_lt (view_moves page') (by omega) (by rw [hlive]; decide), if_pos hlive, hstride,
    List.singleton_append]
  have hrest : scanFrom page' (i + d.total) = scanFrom page (i + d.total) :=
    scanFrom_congr fun a ha ↦ hout a (.inr ha)
  rw [← hrest, scanFrom]

theorem scan_entry (hp : p ∈ vopScanDevices page)
    (hout : ∀ a, a < p ∨ p + vcaTotalDescSize page p ≤ a → page' a = page a)
    (hheader : ∀ k, 0 < k → k < 4 → page' (p + k) = page (p + k)) (hne : page' p ≠ 0) :
    ∃ pre post, vopScanDevices page = pre ++ p :: post ∧
      vopScanDevices page' = pre ++ ((if page' p = 0xFF then [] else [p]) ++ post) := by
  obtain ⟨hreach, hlt⟩ := View.reaches_of_mem_scan (view_moves page) hp
  obtain ⟨-, hlive⟩ := View.of_mem_scan (view_moves page) hp
  obtain ⟨pre, hscan, hscan', -⟩ := hreach.scan_eq (view_moves page) (view_moves page')
    fun q _ hq ↦ view_congr_of_le (fun a ha ↦ hout a (.inl ha)) hq
  have hstride : (view page').stride p = (view page).stride p := totalDescSize_congr hheader
  have hstop : (view page').kind p ≠ .stop := by
    simp only [view, if_neg hne]
    split_ifs <;> decide
  have hkind : ((view page').kind p = .live) ↔ page' p ≠ 0xFF := by
    rw [kind_eq_live_iff]
    exact ⟨And.right, fun h ↦ ⟨hne, h⟩⟩
  have hrest : scanFrom page' (p + (view page).stride p) = scanFrom page (p + (view page).stride p) :=
    scanFrom_congr fun a ha ↦ hout a (.inr ha)
  refine ⟨pre, scanFrom page (p + (view page).stride p), ?_, ?_⟩
  · rw [vopScanDevices, scanFrom, hscan, View.scan_of_lt (view_moves page) hlt (by rw [hlive]; decide),
      if_pos hlive, List.singleton_append, scanFrom]
  · rw [vopScanDevices, scanFrom, hscan', View.scan_of_lt (view_moves page') hlt hstop, hstride, ← hrest,
      scanFrom, if_congr hkind rfl rfl, ite_not]

theorem scan_nodup (page : Page) : (vopScanDevices page).Nodup :=
  (View.scan_pairwise (view_moves page) vcaDpSize sizeofBootparam).imp fun {p q} h heq ↦ by
    have hmove := view_moves page p
    omega

end Walk

/-! ## Steps -/

section Steps

variable {s s' : Sys}

theorem Agree.mem_scan (h : Agree s) {e : Entry} (he : e ∈ s.live) : e.pos ∈ vopScanDevices s.page :=
  (h.visits e.pos).mpr ⟨e, he, rfl⟩

/-- The bytes of a live entry decide its size. -/
theorem Agree.size_of_same (h : Agree s) {e : Entry} {page' : Page} (he : e ∈ s.live)
    (hsame : ∀ k, 0 < k → k < 4 → page' (e.pos + k) = s.page (e.pos + k)) :
    vcaTotalDescSize page' e.pos = e.size := by
  rw [← h.sizes e he]
  exact totalDescSize_congr hsame

theorem Agree.four_le_size (h : Agree s) {e : Entry} (he : e ∈ s.live) : 4 ≤ e.size := by
  rw [← h.sizes e he]
  exact four_le_total _ _

section Add

variable {d : Desc} {i : ℕ} {page' : Page} {pre : List ℕ}

/-- If the walk goes on with the same devices, the new entry is clear of them. -/
theorem Agree.apart_of_resumes (h : Agree s)
    (hscan : vopScanDevices s.page = pre ++ scanFrom s.page i)
    (hends : ∀ q ∈ pre, q + vcaTotalDescSize s.page q ≤ i)
    (hres : ∀ p, p ∈ scanFrom s.page (i + d.total) ↔ p ∈ scanFrom s.page i) {e : Entry}
    (he : e ∈ s.live) : e.pos + e.size ≤ i ∨ i + d.total ≤ e.pos := by
  have hmem := h.mem_scan he
  rw [hscan, List.mem_append] at hmem
  rcases hmem with hpre | hrest
  · have hend := hends _ hpre
    rw [h.sizes e he] at hend
    exact .inl hend
  · exact .inr (View.of_mem_scan (view_moves _) ((hres _).mpr hrest)).1

theorem Agree.add (h : Agree s) (hstart : sizeofBootparam ≤ i) (hfit : i + d.total ≤ vcaDpSize)
    (hout : ∀ a, a < i ∨ i + d.total ≤ a → page' a = s.page a) (hheader : ∀ k < 4, page' (i + k) = d.argp k)
    (happart : ∀ e ∈ s.live, e.pos + e.size ≤ i ∨ i + d.total ≤ e.pos)
    (hvisits : ∀ p, p ∈ vopScanDevices page' ↔ p = i ∨ p ∈ vopScanDevices s.page) :
    Agree ⟨page', ⟨i, d.total⟩ :: s.live⟩ where
  range e he := by
    rcases List.mem_cons.mp he with rfl | he
    · exact ⟨hstart, hfit⟩
    · exact h.range e he
  disjoint := List.pairwise_cons.mpr ⟨fun e he ↦ (happart e he).symm, h.disjoint⟩
  visits p := by
    rw [hvisits, h.visits p]
    constructor
    · rintro (rfl | ⟨e, he, hp⟩)
      · exact ⟨_, List.mem_cons_self, rfl⟩
      · exact ⟨e, List.mem_cons_of_mem _ he, hp⟩
    · rintro ⟨e, he, rfl⟩
      rcases List.mem_cons.mp he with rfl | he
      · exact .inl rfl
      · exact .inr ⟨e, he, rfl⟩
  sizes e he := by
    rcases List.mem_cons.mp he with rfl | he
    · exact totalDescSize_congr fun k _ hk ↦ (hheader k hk).trans (by rw [Nat.zero_add])
    · have hfour := h.four_le_size he
      refine h.size_of_same he fun k _ hk ↦ hout _ ?_
      rcases happart e he with hle | hge
      · exact .inl (by omega)
      · exact .inr (by omega)

/-- The card finds a new device only if its type is that of a device. -/
theorem Agree.typed (hagree : Agree ⟨page', ⟨i, d.total⟩ :: s.live⟩) (hheader : ∀ k < 4, page' (i + k) = d.argp k) :
    d.Typed := by
  have hmem : i ∈ vopScanDevices page' := (hagree.visits i).mpr ⟨_, List.mem_cons_self, rfl⟩
  have hlive := kind_eq_live_iff.mp (View.of_mem_scan (view_moves page') hmem).2
  rwa [← Nat.add_zero i, hheader 0 (by decide)] at hlive

/-- An addition is right exactly if the type is that of a device and the walk behind it finds what it found before. -/
theorem step_add (h : Agree s) (hs' : step s (.add d) = some s') :
    Agree s' ∧ Keeps s (.add d) s' ↔ Fits s (.add d) := by
  obtain ⟨⟨i, page'⟩, hsetup, rfl⟩ := Option.map_eq_some_iff.mp hs'
  obtain ⟨hslot, hout, hheader⟩ := of_setupVirtioDevice hsetup
  suffices hiff : d.Typed → (Agree ⟨page', ⟨i, d.total⟩ :: s.live⟩ ∧
      Keeps s (.add d) ⟨page', ⟨i, d.total⟩ :: s.live⟩ ↔ Resumes s (.add d)) from
    ⟨fun hagree ↦ ⟨hagree.1.typed hheader, (hiff (hagree.1.typed hheader)).mp hagree⟩,
      fun hfits ↦ (hiff hfits.1).mpr hfits.2⟩
  intro htyped
  obtain ⟨pre, hscan, hscan', hends⟩ := scan_add hslot hout
  rw [scanFrom_add hslot hout hheader htyped] at hscan'
  obtain ⟨hreach, hi, hfree⟩ := View.of_find (Nat.sub_le vcaDpSize d.total) hslot
  have hpre : ∀ q ∈ pre, q < i := fun q hq ↦ by
    have hend := hends q hq
    have hfour := four_le_total s.page q
    omega
  have hrest : ∀ q ∈ scanFrom s.page i, i < q := fun q hq ↦ by
    obtain ⟨hle, hlive⟩ := View.of_mem_scan (view_moves _) hq
    refine Nat.lt_of_le_of_ne hle ?_
    rintro rfl
    exact hfree hlive
  have htotal : 4 ≤ d.total := four_le_total d.argp 0
  have hrest' : ∀ q ∈ scanFrom s.page (i + d.total), i < q := fun q hq ↦ by
    have hle := (View.of_mem_scan (view_moves _) hq).1
    omega
  constructor
  · rintro ⟨hagree, -⟩ j hj p
    obtain rfl := Option.some_inj.mp (hslot.symm.trans hj)
    have hold := h.visits p
    have hnew := hagree.visits p
    rw [hscan, List.mem_append] at hold
    simp only [hscan', List.mem_append, List.mem_cons, exists_eq_or_imp, ← hold] at hnew
    constructor
    · intro hp
      have hlt := hrest' p hp
      rcases hnew.mp (.inr (.inr hp)) with rfl | hp | hp
      · exact absurd hlt (Nat.lt_irrefl _)
      · exact absurd (hpre p hp) (by omega)
      · exact hp
    · intro hp
      have hlt := hrest p hp
      rcases hnew.mpr (.inr (.inr hp)) with hp | rfl | hp
      · exact absurd (hpre p hp) (by omega)
      · exact absurd hlt (Nat.lt_irrefl _)
      · exact hp
  · intro hres
    have hres' := hres i hslot
    have happart := fun e he ↦ h.apart_of_resumes hscan hends hres' (e := e) he
    refine ⟨h.add hreach.le (by omega) hout hheader happart fun p ↦ ?_, fun e he a hea hae ↦ hout a ?_⟩
    · rw [hscan, hscan', List.mem_append, List.mem_append, List.mem_cons, hres', or_left_comm]
    · rcases happart e he with hle | hge
      · exact .inl (by omega)
      · exact .inr (by omega)

end Add

theorem Agree.eq_or_apart (h : Agree s) {e f : Entry} (he : e ∈ s.live) (hf : f ∈ s.live) :
    e = f ∨ e.pos + e.size ≤ f.pos ∨ f.pos + f.size ≤ e.pos := by
  by_cases hef : e = f
  · exact .inl hef
  · have : Std.Symm fun e f : Entry ↦ e.pos + e.size ≤ f.pos ∨ f.pos + f.size ≤ e.pos := ⟨fun _ _ ↦ Or.symm⟩
    exact .inr (h.disjoint.forall he hf hef)

/-- A write to the type of a live entry, or behind its header, leaves all sizes alone. -/
theorem Agree.sizes_update (h : Agree s) {e f : Entry} (he : e ∈ s.live) (hf : f ∈ s.live) {a : ℕ} (b : UInt8)
    (ha : a = e.pos ∨ e.pos + 4 ≤ a) (hlt : a < e.pos + e.size) :
    vcaTotalDescSize (update s.page a b) f.pos = f.size := by
  have hfour := h.four_le_size hf
  refine h.size_of_same hf fun k hk hk' ↦ Function.update_of_ne ?_ _ _
  rcases h.eq_or_apart he hf with rfl | hle | hge
  · omega
  · omega
  · omega

/-- The page of a live entry, for the walk that goes through it. -/
theorem Agree.scan_update (h : Agree s) {e : Entry} (he : e ∈ s.live) {a : ℕ} (b : UInt8)
    (ha : a = e.pos ∨ e.pos + 4 ≤ a) (hlt : a < e.pos + e.size) (hne : update s.page a b e.pos ≠ 0) :
    ∃ pre post, vopScanDevices s.page = pre ++ e.pos :: post ∧
      vopScanDevices (update s.page a b) =
        pre ++ ((if update s.page a b e.pos = 0xFF then [] else [e.pos]) ++ post) := by
  refine scan_entry (h.mem_scan he) (fun c hc ↦ ?_) (fun k hk hk' ↦ ?_) hne
  · rw [h.sizes e he] at hc
    exact Function.update_of_ne (by omega) _ _
  · exact Function.update_of_ne (by omega) _ _

theorem Agree.remove (h : Agree s) {pos : ℕ} (hs' : step s (.remove pos) = some s') : Agree s' := by
  rw [step] at hs'
  split_ifs at hs' with hany
  obtain rfl := Option.some_inj.mp hs'
  obtain ⟨e, he, hpos⟩ := List.any_eq_true.mp hany
  obtain rfl : e.pos = pos := of_decide_eq_true hpos
  have hfour := h.four_le_size he
  obtain ⟨pre, post, hscan, hscan'⟩ := h.scan_update he 0xFF (.inl rfl) (by omega)
    (by rw [Function.update_self]; decide)
  rw [Function.update_self, if_pos rfl, List.nil_append] at hscan'
  have hnodup := scan_nodup s.page
  rw [hscan, List.nodup_middle] at hnodup
  have hvisits : ∀ p, p ∈ pre ++ post ↔ p ∈ vopScanDevices s.page ∧ p ≠ e.pos := fun p ↦ by
    rw [hscan, List.perm_middle.mem_iff, List.mem_cons]
    constructor
    · intro hp
      refine ⟨.inr hp, ?_⟩
      rintro rfl
      exact (List.nodup_cons.mp hnodup).1 hp
    · rintro ⟨rfl | hp, hne⟩
      · exact absurd rfl hne
      · exact hp
  have hlive : ∀ f, f ∈ s.live.filter (fun f ↦ f.pos ≠ e.pos) ↔ f ∈ s.live ∧ f.pos ≠ e.pos := fun f ↦ by
    rw [List.mem_filter, decide_eq_true_iff]
  refine ⟨fun f hf ↦ h.range f ((hlive f).mp hf).1, h.disjoint.filter _, fun p ↦ ?_, fun f hf ↦ ?_⟩
  · rw [hscan', hvisits, h.visits]
    constructor
    · rintro ⟨⟨f, hf, rfl⟩, hne⟩
      exact ⟨f, (hlive f).mpr ⟨hf, hne⟩, rfl⟩
    · rintro ⟨f, hf, rfl⟩
      exact ⟨⟨f, ((hlive f).mp hf).1, rfl⟩, ((hlive f).mp hf).2⟩
  · exact h.sizes_update he ((hlive f).mp hf).1 0xFF (.inl rfl) (by omega)

/-- A write that no walk reads keeps everything. -/
theorem Agree.of_scan_eq {page' : Page} (h : Agree s) (hscan : vopScanDevices page' = vopScanDevices s.page)
    (hsizes : ∀ e ∈ s.live, vcaTotalDescSize page' e.pos = e.size) : Agree { s with page := page' } where
  range := h.range
  disjoint := h.disjoint
  visits p := by
    rw [hscan]
    exact h.visits p
  sizes := hsizes

theorem Agree.write (h : Agree s) {a : ℕ} {b : UInt8} (hs' : step s (.write a b) = some s') :
    Agree s' := by
  rw [step] at hs'
  split_ifs at hs' with hplace
  obtain rfl := Option.some_inj.mp hs'
  rcases hplace with hboot | hany
  · refine h.of_scan_eq (scanFrom_congr fun c hc ↦ Function.update_of_ne (by omega) _ _) fun e he ↦ ?_
    have hrange := (h.range e he).1
    exact h.size_of_same he fun k _ _ ↦ Function.update_of_ne (by omega) _ _
  · obtain ⟨e, he, hin⟩ := List.any_eq_true.mp hany
    obtain ⟨hle, hlt⟩ := of_decide_eq_true hin
    -- The type of the entry is still what the walk took for a device.
    have htype : update s.page a b e.pos = s.page e.pos := Function.update_of_ne (by omega) _ _
    obtain ⟨hne, hfree⟩ := kind_eq_live_iff.mp (View.of_mem_scan (view_moves _) (h.mem_scan he)).2
    obtain ⟨pre, post, hscan, hscan'⟩ := h.scan_update he b (.inr hle) hlt (by rwa [htype])
    rw [htype, if_neg hfree, List.singleton_append, ← hscan] at hscan'
    exact h.of_scan_eq hscan' fun f hf ↦ h.sizes_update he hf b (.inr hle) hlt

end Steps

/-! ## Runs -/

theorem init_agree : Agree init where
  range e he := absurd he List.not_mem_nil
  disjoint := .nil
  visits p := by
    have hnil : vopScanDevices init.page = [] := View.scan_of_stop rfl
    rw [hnil]
    constructor
    · intro hp
      cases hp
    · rintro ⟨e, he, -⟩
      cases he
  sizes e he := absurd he List.not_mem_nil

/-- In a run the two sides agree after every operation, and additions leave the other devices alone,
exactly if each new device has the type of one, and behind its entry the walk goes on as before. -/
theorem device_page_agrees_iff {ls : List Label} :
    Along (fun s l s' ↦ Agree s' ∧ Keeps s l s') step init ls ↔
      Along (fun s l _ ↦ Fits s l) step init ls := by
  refine along_congr (I := Agree) (fun {s l s'} h hs' ↦ ⟨?_, And.left⟩) init_agree
  cases l with
  | add d => exact step_add h hs'
  | remove pos => exact iff_of_true ⟨h.remove hs', trivial⟩ trivial
  | write a b => exact iff_of_true ⟨h.write hs', trivial⟩ trivial

/-- A device with one or two queues of 256 entries, and neither features nor a configuration. -/
def plainDesc (two : Bool) : Desc where
  argp a := if a = 0 then 1 else if a = 1 then (if two then 2 else 1) else if a % 16 = 1 then 1 else 0
  numVq_le := by cases two <;> decide
  featureLen_le := by cases two <;> decide
  configLen_le := by cases two <;> decide
  aligned_le := by cases two <;> decide

/-- The first of two devices is replaced by a larger one. -/
def replaceRun : List Label :=
  [Label.add (plainDesc false), Label.add (plainDesc false), Label.remove 184, Label.add (plainDesc true)]

/-- The new entry reaches into the second device, and the card does not find that any more. -/
theorem replaced_device_overlaps :
    (exec step init replaceRun).map (fun s ↦ (s.live, vopScanDevices s.page)) =
        some ([⟨184, 160⟩, ⟨312, 128⟩], [184]) ∧
      ¬Along (fun s l s' ↦ Agree s' ∧ Keeps s l s') step init replaceRun := by
  have hrun : (exec step init replaceRun).map (fun s ↦ (s.live, vopScanDevices s.page)) =
      some ([⟨184, 160⟩, ⟨312, 128⟩], [184]) := by decide +kernel
  refine ⟨hrun, fun h ↦ ?_⟩
  obtain ⟨s, hs, hlast⟩ := Option.map_eq_some_iff.mp hrun
  obtain ⟨hlive, hscan⟩ := Prod.mk.inj hlast
  have hagree : Agree s := exec_invariant (P := fun s l s' ↦ Agree s' ∧ Keeps s l s')
    (fun _ hP _ ↦ hP.1) h init_agree hs
  have hmem : (312 : ℕ) ∈ vopScanDevices s.page :=
    (hagree.visits 312).mpr ⟨⟨312, 128⟩, by rw [hlive]; decide, rfl⟩
  rw [hscan] at hmem
  exact absurd hmem (by decide)

end Vcass.Vop.DevicePage
