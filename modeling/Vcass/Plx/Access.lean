import Vcass.Plx.Translation

/-!
# The A-LUT in the hardware: access

What the peer can reach is what the permission registers say, and the software should know of all of
it: behind every open slot stands a block of the software table. Deletion revokes the permissions of
the block it removes. Two other ways out of the software table do not: `plx_alm_cleanup_unused_entry`
forgets blocks whose slots stay open, and `plx_hw_init` clears the hardware while the manager still
has no segments, so whatever the registers held before survives. A third, the overflow of a block's
counter, makes a block with 65535 users disappear. In runs without these the hardware grants no more
than the software table says.
-/

namespace Vcass.Plx.Access

open Conc PlxAlm Tiling
open Function (update)
open Translation (AddCall add_call alutPorts_eq)

/-! ## The system -/

/-- The device; `crashed` records a `BUG_ON`. -/
structure Sys where
  xdev : PlxDevice
  crashed : Bool

/-- A call, a deletion by any address at all. -/
inductive Label
  | add (addr size : ℕ)
  | del (addr : ℕ)

def start (xdev : PlxDevice) : Sys := ⟨xdev, false⟩

/-- One call. Addresses and sizes have 64 bits. -/
def step (s : Sys) : Label → Option Sys
  | .add addr size =>
    if s.crashed ∨ 2 ^ 64 ≤ addr ∨ 2 ^ 64 ≤ size then none
    else match s.xdev.plxAddALutEntry addr size with
    | none => some { s with crashed := true }
    | some (alm, ws, _) => some { s with
        xdev := { s.xdev with aLutManager := alm, mmio := mmioWrites s.xdev.mmio ws } }
  | .del addr =>
    if s.crashed ∨ 2 ^ 64 ≤ addr then none
    else match s.xdev.plxDelALutEntry addr with
    | none => some { s with crashed := true }
    | some (alm, ws) => some { s with
        xdev := { s.xdev with aLutManager := alm, mmio := mmioWrites s.xdev.mmio ws } }

/-- The slot belongs to a block of the software table and re-maps to its place in the block. -/
def Granted (xdev : PlxDevice) (i : ℕ) : Prop :=
  ∃ h, (xdev.aLutManager.entries h).counter ≠ 0 ∧ h ≤ i ∧
    i < h + (xdev.aLutManager.entries h).segmentsCount ∧
    xdev.reMap i = ((xdev.aLutManager.entries h).value +
      (i - h) * xdev.aLutManager.segmentSize) % 2 ^ 64

/-- Every open slot of the table is granted by the software. -/
def NoExcess (xdev : PlxDevice) : Prop :=
  ∀ i < xdev.aLutManager.segmentsNum, xdev.permission i ≠ 0 → Granted xdev i

/-- All slots that the device will manage are closed before `plx_hw_init`. -/
def Closed (mmio : ℕ → ℕ) (device val : ℕ) : Prop :=
  ∀ portId linkSide, PlxDevice.portAndSide device = some (portId, linkSide) →
    ∀ i < plxAlutSegmentsNum / PlxDevice.alutPorts val,
      mmio (permissionReg (PlxDevice.arrayBase (PlxDevice.alutPorts val) portId linkSide) i) = 0

/-- An addition that finds its place without a cleanup, and not in a block with 65535 users. -/
def Roomy (s : Sys) (l : Label) (_ : Sys) : Prop :=
  ∀ addr size, l = .add addr size → ¬ s.xdev.aLutManager.NeedsCleanup addr size ∧
    ∀ m idx, s.xdev.aLutManager.plxAlmFind (s.xdev.aLutManager.addrMasked addr)
        (s.xdev.aLutManager.segmentsOf addr size) s.xdev.aLutManager.segmentsNum 0 0 none =
          some (m, idx) →
      (s.xdev.aLutManager.entries m).counter < 65535

/-! ## The invariant -/

structure Inv (s : Sys) : Prop where
  wf : s.xdev.aLutManager.WF
  num_le : s.xdev.aLutManager.segmentsNum ≤ plxAlutSegmentsNum
  noExcess : NoExcess s.xdev

variable {s s' : Sys} {addr size : ℕ} {alm : PlxAlm} {xdev xdev' : PlxDevice}

/-- A slot stays granted while its registers and its block stay. -/
theorem Granted.congr {i : ℕ} (h : Granted xdev i) (hreg : xdev'.reMap i = xdev.reMap i)
    (hsize : xdev'.aLutManager.segmentSize = xdev.aLutManager.segmentSize)
    (hblock : ∀ h, (xdev.aLutManager.entries h).counter ≠ 0 → h ≤ i →
      i < h + (xdev.aLutManager.entries h).segmentsCount →
      (xdev'.aLutManager.entries h).counter ≠ 0 ∧
        (xdev'.aLutManager.entries h).segmentsCount = (xdev.aLutManager.entries h).segmentsCount ∧
        (xdev'.aLutManager.entries h).value = (xdev.aLutManager.entries h).value) :
    Granted xdev' i := by
  obtain ⟨h, hc, hle, hlt, heq⟩ := h
  obtain ⟨hc', hcount, hvalue⟩ := hblock h hc hle hlt
  exact ⟨h, hc', hle, by rwa [hcount], by rw [hreg, hvalue, hsize, heq]⟩

/-- Only the counter of one block changes, and the block stays. -/
theorem Inv.set_counter {m c : ℕ} (h : Inv s) (hc : (s.xdev.aLutManager.entries m).counter ≠ 0)
    (hc' : c ≠ 0) :
    Inv { s with xdev := { s.xdev with aLutManager := { s.xdev.aLutManager with
      entries := update s.xdev.aLutManager.entries m { s.xdev.aLutManager.entries m with
        counter := c } } } } := by
  refine ⟨(h.wf.set_counter hc hc').1, h.num_le, fun i hi hperm ↦ ?_⟩
  refine (h.noExcess i hi hperm).congr rfl rfl fun h' hch' _ _ ↦ ?_
  by_cases hhm : h' = m
  · subst hhm
    simpa using hc'
  · simpa [Function.update_of_ne hhm] using hch'

theorem reMap_of_confined {i m num : ℕ} {ws : Writes} (xdev : PlxDevice) (alm : PlxAlm)
    (hws : Confined xdev.aLutArrayBase m num ws) (hnum : m + num ≤ plxAlutSegmentsNum)
    (hi : i < plxAlutSegmentsNum) (hout : ¬ (m ≤ i ∧ i < m + num)) :
    ({ xdev with aLutManager := alm, mmio := mmioWrites xdev.mmio ws }).reMap i = xdev.reMap i ∧
      ({ xdev with aLutManager := alm, mmio := mmioWrites xdev.mmio ws }).permission i =
        xdev.permission i := by
  have heq : ∀ r ∈ slotRegs xdev.aLutArrayBase i, mmioWrites xdev.mmio ws r = xdev.mmio r :=
    fun r hr ↦ hws.mmioWrites_eq hnum hi hout hr
  constructor
  · rw [PlxDevice.reMap, PlxDevice.reMap]
    dsimp only
    rw [heq _ (by simp [slotRegs]), heq _ (by simp [slotRegs])]
  · exact heq _ (by simp [slotRegs])

/-- **A new block** opens its slots and no others. -/
theorem Inv.place {m segments a : ℕ} (h : Inv s) (ha : a < 2 ^ 64)
    (hrun : s.xdev.aLutManager.FreeRun segments m) :
    Inv { s with xdev := { s.xdev with
      aLutManager := (s.xdev.aLutManager.plxAlmPlace m a segments).2
      mmio := mmioWrites s.xdev.mmio (PlxDevice.programWrites s.xdev.aLutArrayBase
        s.xdev.aLutManager.segmentSize segments m a) } } := by
  have hle := h.num_le
  have hfits := hrun.fits
  have hspos := hrun.pos
  have hnum : s.xdev.aLutManager.segmentsNum < 2 ^ 16 := by
    rw [plxAlutSegmentsNum] at hle
    omega
  have hentries (i : ℕ) : (s.xdev.aLutManager.plxAlmPlace m a segments).2.entries i = _ :=
    h.wf.place_entries hrun hnum i
  refine ⟨h.wf.place hrun hnum, by rwa [place_segmentsNum], fun i hi hperm ↦ ?_⟩
  rw [place_segmentsNum] at hi
  by_cases hin : m ≤ i ∧ i < m + segments
  · have hopen : Opens (mmioWrites s.xdev.mmio (PlxDevice.programWrites s.xdev.aLutArrayBase
        s.xdev.aLutManager.segmentSize segments m a)) s.xdev.aLutArrayBase (m + (i - m)) _ :=
      programWrites_opens (by omega) ha (by omega)
    rw [Nat.add_sub_cancel' hin.1] at hopen
    have hreMap := Translation.Opens.reMap_eq hopen (Nat.mod_lt _ (by decide))
    refine ⟨m, ?_, hin.1, ?_, ?_⟩
    · rw [hentries, if_pos rfl]
      exact Nat.succ_ne_zero 1
    · rw [hentries, if_pos rfl]
      exact hin.2
    · rw [hentries, if_pos rfl, place_segmentSize]
      exact hreMap
  · have hws : Confined s.xdev.aLutArrayBase m segments (PlxDevice.programWrites
        s.xdev.aLutArrayBase s.xdev.aLutManager.segmentSize segments m a) := programWrites_confined
    obtain ⟨hreMap, hsame⟩ := reMap_of_confined s.xdev
      (s.xdev.aLutManager.plxAlmPlace m a segments).2 hws (by omega) (by omega) hin
    refine (h.noExcess i hi (hsame ▸ hperm)).congr hreMap place_segmentSize
      fun h' hc hle' hlt ↦ ?_
    -- The old block lies outside the run.
    have hout := hrun.disjoint (j := 0) (h.wf.len_pos hc)
    rw [Nat.add_zero] at hout
    rw [hentries, if_neg (fun heq ↦ hout ⟨heq.ge, by omega⟩), if_neg hout]
    exact ⟨hc, rfl, rfl⟩

theorem Inv.add (h : Inv s) (hP : Roomy s (.add addr size) s')
    (hs : Access.step s (.add addr size) = some s') : Inv s' := by
  have hle := h.num_le
  rw [plxAlutSegmentsNum] at hle
  obtain ⟨alm₁, alm', ws, out, heq, hr, hclean, hadd⟩ : ∃ alm₁ alm' ws out, _ ∧ _ ∧ _ ∧ _ :=
    add_call s.xdev h.wf (by omega)
  obtain ⟨hneed, hroom⟩ := hP addr size rfl
  obtain rfl : alm₁ = s.xdev.aLutManager := hclean.resolve_right hneed
  rw [Access.step] at hs
  split at hs
  · cases hs
  rename_i hlt
  rw [not_or, not_or, not_le, not_le] at hlt
  rw [heq] at hs
  cases hadd with
  | refused =>
    cases hs
    exact h
  | embedded hsize hfind hcov =>
    cases hs
    have hm := hroom _ _ hfind
    refine h.set_counter hcov.used ?_
    rw [Nat.mod_eq_of_lt (by omega)]
    exact Nat.succ_ne_zero _
  | fresh hsize hrun =>
    cases hs
    exact h.place (Nat.and_le_left.trans_lt hlt.2.1) hrun

/-! ## Deletion by any address -/

/-- The address of a free slot names the block at 0, because free entries are zero. -/
theorem del_cases (hwf : alm.WF) (i : ℕ) :
    alm.plxAlmDelEntry i = none ∨ ∃ h, (alm.entries h).counter ≠ 0 ∧
      alm.plxAlmDelEntry i =
        if (alm.entries h).counter = 1 then some (alm.drop h, some (h, alm.len h))
        else some ({ alm with entries := update alm.entries h { alm.entries h with
          counter := (alm.entries h).counter - 1 } }, none) := by
  by_cases hin : ∃ h, h ≤ i ∧ i < h + alm.len h
  · obtain ⟨h, hle, hlt⟩ := hin
    exact .inr ⟨h, hwf.del hle hlt⟩
  · have hfree : Free alm.len i := by
      refine ⟨?_, fun ⟨h, hhi, hlt⟩ ↦ hin ⟨h, hhi.le, hlt⟩⟩
      by_contra hlen
      exact hin ⟨i, le_rfl, by omega⟩
    by_cases hc : (alm.entries 0).counter = 0
    · left
      rw [plxAlmDelEntry, hwf.free i hfree, zeroEntry]
      exact if_pos hc
    · right
      have hpos := hwf.len_pos hc
      obtain ⟨-, hdel⟩ := hwf.del (Nat.le_refl 0) (by omega)
      refine ⟨0, hc, ?_⟩
      rw [← hdel, plxAlmDelEntry, plxAlmDelEntry, hwf.free i hfree, (hwf.head 0 hc).2, zeroEntry]

theorem revokeWrites_confined {base num i : ℕ} :
    Confined base i num (PlxDevice.revokeWrites base num i) := by
  intro w hw
  rw [PlxDevice.revokeWrites, List.mem_map] at hw
  obtain ⟨k, hk, rfl⟩ := hw
  exact ⟨k, List.mem_range.mp hk, by simp [slotRegs]⟩

theorem permissionReg_ne {base i j : ℕ} (hi : i < plxAlutSegmentsNum) (hj : j < plxAlutSegmentsNum)
    (hij : i ≠ j) : permissionReg base i ≠ permissionReg base j := by
  intro heq
  have hmem : permissionReg base i ∈ slotRegs base i := by simp [slotRegs]
  have hnot : permissionReg base i ∉ slotRegs base j := slotRegs_disjoint hi hj hij _ hmem
  rw [heq] at hnot
  exact hnot (by simp [slotRegs])

/-- **Revocation** closes the slots. -/
theorem revokeWrites_closes {base num i k : ℕ} {mmio : ℕ → ℕ} (hnum : i + num ≤ plxAlutSegmentsNum)
    (hk : k < num) :
    mmioWrites mmio (PlxDevice.revokeWrites base num i) (permissionReg base (i + k)) = 0 := by
  induction num with
  | zero => omega
  | succ num ih =>
    rw [PlxDevice.revokeWrites, List.range_succ, List.map_append, mmioWrites, List.foldl_append]
    by_cases hlast : k = num
    · subst hlast
      rw [List.map_singleton, List.foldl_cons, List.foldl_nil, Function.update_self]
    · rw [List.map_singleton, List.foldl_cons, List.foldl_nil,
        Function.update_of_ne (permissionReg_ne (by omega) (by omega) (by omega))]
      exact ih (by omega) (by omega)

/-- **A block disappears** with the permissions of its slots. -/
theorem Inv.drop {m : ℕ} (h : Inv s) (hc : (s.xdev.aLutManager.entries m).counter ≠ 0) :
    Inv { s with xdev := { s.xdev with
      aLutManager := s.xdev.aLutManager.drop m
      mmio := mmioWrites s.xdev.mmio (PlxDevice.revokeWrites s.xdev.aLutArrayBase
        (s.xdev.aLutManager.len m) m) } } := by
  have hle := h.num_le
  have hfits := h.wf.tiled.fits m (h.wf.len_pos hc)
  refine ⟨h.wf.drop hc, hle, fun i hi hperm ↦ ?_⟩
  have hi' : i < s.xdev.aLutManager.segmentsNum := hi
  by_cases hin : m ≤ i ∧ i < m + s.xdev.aLutManager.len m
  · refine absurd ?_ hperm
    have hclosed : mmioWrites s.xdev.mmio (PlxDevice.revokeWrites s.xdev.aLutArrayBase
        (s.xdev.aLutManager.len m) m) (permissionReg s.xdev.aLutArrayBase (m + (i - m))) = 0 :=
      revokeWrites_closes (by omega) (by omega)
    rwa [Nat.add_sub_cancel' hin.1] at hclosed
  · have hws : Confined s.xdev.aLutArrayBase m (s.xdev.aLutManager.len m)
        (PlxDevice.revokeWrites s.xdev.aLutArrayBase _ m) := revokeWrites_confined
    obtain ⟨hreMap, hsame⟩ := reMap_of_confined s.xdev (s.xdev.aLutManager.drop m) hws (by omega)
      (by omega) hin
    refine (h.noExcess i hi (hsame ▸ hperm)).congr hreMap rfl fun h' hc' hle' hlt ↦ ?_
    rw [← len_of_counter hc'] at hlt
    have hne : h' ≠ m := by
      rintro rfl
      exact hin ⟨hle', hlt⟩
    have hentry := h.wf.drop_of_mem hc hne le_rfl (by omega)
    rw [hentry]
    exact ⟨hc', rfl, rfl⟩

theorem Inv.del (h : Inv s) (hs : Access.step s (.del addr) = some s') : Inv s' := by
  rw [Access.step] at hs
  split at hs
  · cases hs
  split at hs
  · cases hs
    exact ⟨h.wf, h.num_le, h.noExcess⟩
  rename_i alm ws hdel
  cases hs
  rw [PlxDevice.plxDelALutEntry] at hdel
  split at hdel
  · cases hdel
    exact h
  rcases del_cases h.wf (addr / s.xdev.aLutManager.segmentSize % 2 ^ 32) with hcall | ⟨m, hc, hcall⟩
  · rw [hcall] at hdel
    cases hdel
  rw [hcall] at hdel
  by_cases hone : (s.xdev.aLutManager.entries m).counter = 1
  · rw [if_pos hone] at hdel
    cases hdel
    exact h.drop hc
  · rw [if_neg hone] at hdel
    cases hdel
    exact h.set_counter hc (by omega)

theorem Inv.step {l : Label} (h : Inv s) (hP : Roomy s l s')
    (hs : Access.step s l = some s') : Inv s' := by
  cases l with
  | add addr size => exact h.add hP hs
  | del addr => exact h.del hs

/-! ## Initialization -/

/-- The control registers are not among those of the table. -/
theorem permissionReg_ne_control {device portId linkSide val i : ℕ}
    (hport : PlxDevice.portAndSide device = some (portId, linkSide))
    (hi : i < plxAlutSegmentsNum / PlxDevice.alutPorts val) :
    permissionReg (PlxDevice.arrayBase (PlxDevice.alutPorts val) portId linkSide) i ≠
      PlxDevice.plxGetRegBase linkSide portId + plxALutControl := by
  have hport' : portId ≤ 1 := by
    rw [PlxDevice.portAndSide.eq_def] at hport
    split at hport <;> cases hport <;> omega
  have hlt : i < plxAlutSegmentsNum := hi.trans_le (Nat.div_le_self _ _)
  rw [permissionReg, entryOffset_eq hlt, plxALutPermissionSubarrayOffset, plxALutControl,
    PlxDevice.plxGetRegBase, PlxDevice.arrayBase]
  rw [plxAlutSegmentsNum] at hi hlt
  -- A shared table has half the slots, so it can lie 4 KiB higher.
  rcases alutPorts_eq val with hports | hports <;> rw [hports] at hi ⊢
  · rw [if_neg (by decide)]
    split <;> omega
  · rw [if_pos rfl]
    split <;> split <;> omega

theorem Inv.init {mmio : ℕ → ℕ} {device val aperLen : ℕ}
    (hinit : (plxDeviceCreate mmio).plxHwInit device val aperLen = some xdev)
    (hclosed : Closed mmio device val) : Inv (start xdev) := by
  rw [PlxDevice.plxHwInit] at hinit
  split at hinit
  · cases hinit
  rename_i portId linkSide hport
  cases hinit
  refine ⟨.init _ _, Nat.div_le_self _ _, fun i hi hperm ↦ absurd ?_ hperm⟩
  have hne := permissionReg_ne_control hport hi
  have hzero := hclosed portId linkSide hport i hi
  -- Nothing is cleared: the manager has no segments yet.
  have hclear (base : ℕ) : PlxDevice.clearWrites base 0 = [] := rfl
  rw [start, PlxDevice.permission]
  simp only [PlxDevice.plxALutEnable, PlxDevice.plxALutClear, plxDeviceCreate, hclear, mmioWrites,
    List.foldl_nil, Function.update_of_ne hne]
  exact hzero

/-- **No access beyond the software table**, in every sequence of calls on a table that was closed,
if no addition needs a cleanup and none meets a block with 65535 users. -/
theorem no_excess_access {mmio : ℕ → ℕ} {device val aperLen : ℕ} {ls : List Label}
    (hinit : (plxDeviceCreate mmio).plxHwInit device val aperLen = some xdev)
    (hclosed : Closed mmio device val) (hP : Along Roomy step (start xdev) ls)
    (h : exec step (start xdev) ls = some s) : NoExcess s.xdev := by
  have hinv : Inv s := exec_invariant (P := Roomy) (fun hi hp hs ↦ Inv.step hi hp hs) hP
    (Inv.init hinit hclosed) h
  exact hinv.noExcess

theorem roomy_of_find {m idx : ℕ}
    (hfind : s.xdev.aLutManager.plxAlmFind (s.xdev.aLutManager.addrMasked addr)
      (s.xdev.aLutManager.segmentsOf addr size) s.xdev.aLutManager.segmentsNum 0 0 none =
        some (m, idx))
    (hc : (s.xdev.aLutManager.entries m).counter < 65535) : Roomy s (.add addr size) s' := by
  rintro _ _ ⟨⟩
  refine ⟨fun hneed ↦ ?_, fun m' idx' hfind' ↦ ?_⟩
  · have hnone := hneed.2.1
    rw [hfind] at hnone
    cases hnone
  · rw [hfind] at hfind'
    cases hfind'
    exact hc

/-- A device is initialized and goes through some calls; what `f` reads off at the end. -/
def observe {α : Type} (mmio : ℕ → ℕ) (ls : List Label) (f : PlxDevice → α) : Option α :=
  ((plxDeviceCreate mmio).plxHwInit 0x2954 0 524288).bind fun xdev ↦
    (exec step (start xdev) ls).map fun s ↦ f s.xdev

theorem observe_eq_some {α : Type} {mmio : ℕ → ℕ} {ls : List Label} {f : PlxDevice → α} {a : α}
    (h : observe mmio ls f = some a) :
    ∃ xdev s, (plxDeviceCreate mmio).plxHwInit 0x2954 0 524288 = some xdev ∧
      exec step (start xdev) ls = some s ∧ f s.xdev = a := by
  obtain ⟨xdev, hinit, hmap⟩ := Option.bind_eq_some_iff.mp h
  obtain ⟨s, hs, hf⟩ := Option.map_eq_some_iff.mp hmap
  exact ⟨xdev, s, hinit, hs, hf⟩

/-- A mapping comes and goes; its block stays, and its slots stay open. -/
theorem released_mapping_granted :
    ∃ xdev s, (plxDeviceCreate fun _ ↦ 0).plxHwInit 0x2954 0 524288 = some xdev ∧
      exec step (start xdev) [.add 0x10001234 8192, .del 100] = some s ∧
      s.xdev.permission 2 = 3 ∧ NoExcess s.xdev := by
  have hrun : observe (fun _ ↦ 0) [.add 0x10001234 8192, .del 100] (·.permission 2) = some 3 := by
    decide +kernel
  obtain ⟨xdev, s, hinit, hs, hperm⟩ := observe_eq_some hrun
  have hmgr : xdev.aLutManager = plxAlmInit 128 524288 := by
    cases hinit
    rfl
  have hfind : (start xdev).xdev.aLutManager.plxAlmFind
      ((start xdev).xdev.aLutManager.addrMasked 0x10001234)
      ((start xdev).xdev.aLutManager.segmentsOf 0x10001234 8192)
      (start xdev).xdev.aLutManager.segmentsNum 0 0 none = some (0, 0) := by
    rw [start, hmgr, show (plxAlmInit 128 524288).segmentsOf 0x10001234 8192 = 3 by decide]
    exact Manager.find_zero (fun _ ↦ rfl) (by decide) (by decide) (by decide)
  have hP : Along Roomy step (start xdev) [.add 0x10001234 8192, .del 100] := by
    refine fun s' _ ↦ ⟨roomy_of_find hfind ?_, fun s'' _ ↦ ⟨?_, trivial⟩⟩
    · rw [start, hmgr]
      decide
    · rintro addr size ⟨⟩
  exact ⟨xdev, s, hinit, hs, hperm, no_excess_access hinit (fun _ _ _ _ _ ↦ rfl) hP hs⟩

/-- Slot 1 is open, and the table shows nothing behind it. -/
theorem not_noExcess {mmio : ℕ → ℕ} {ls : List Label} {e : PlxAlmArrEntry}
    (h : observe mmio ls (fun xdev ↦ (xdev.aLutManager.segmentsNum, xdev.permission 1,
      xdev.aLutManager.entries 0, xdev.aLutManager.entries 1)) = some (128, 3, e, zeroEntry))
    (he : e.segmentsCount ≤ 1) :
    ∃ xdev s, (plxDeviceCreate mmio).plxHwInit 0x2954 0 524288 = some xdev ∧
      exec step (start xdev) ls = some s ∧ ¬ NoExcess s.xdev := by
  obtain ⟨xdev, s, hinit, hs, hf⟩ := observe_eq_some h
  simp only [Prod.mk.injEq] at hf
  obtain ⟨hnum, hperm, rfl, h1⟩ := hf
  refine ⟨xdev, s, hinit, hs, fun hno ↦ ?_⟩
  obtain ⟨m, hc, hle, hlt, -⟩ := hno 1 (by omega) (by omega)
  rcases Nat.le_one_iff_eq_zero_or_eq_one.mp hle with rfl | rfl
  · omega
  · rw [h1] at hc
    exact hc rfl

/-- A permission that was set before `plx_hw_init` is still set after it; and after a cleanup the slots
of the forgotten block stay open. -/
theorem stale_permissions :
    (∃ xdev s, (plxDeviceCreate fun r ↦ if r = 0x38804 then 3 else 0).plxHwInit 0x2954 0 524288 =
      some xdev ∧ exec step (start xdev) [] = some s ∧ ¬ NoExcess s.xdev) ∧
    ∃ xdev s, (plxDeviceCreate fun _ ↦ 0).plxHwInit 0x2954 0 524288 = some xdev ∧
      exec step (start xdev) [.add 0 524288, .del 0, .add 0x10000000 4096] = some s ∧
      ¬ NoExcess s.xdev := by
  constructor
  · exact not_noExcess (e := zeroEntry) (by decide +kernel) (by decide)
  · exact not_noExcess (e := ⟨0x10000000, 2, 1, 0⟩) (by decide +kernel) (by decide)

end Vcass.Plx.Access
