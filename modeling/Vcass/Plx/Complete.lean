import Vcass.Plx.Translation

/-!
# The A-LUT manager: when there is no room

`plx_alm_add_entry` gives up only if there is really no room. The search walks over the table in one pass and looks for
a block that covers the request and for a free run at the same time; that it finds nothing means that there is
neither. Then the unused blocks are released, and the second pass sees a table in which only blocks in use are
left. Nothing it sees there is released, so there is no third pass.

What is said of the pass holds when it reaches the end of the table, which it does because every round advances.
-/

namespace Vcass.Plx.PlxAlm

open Tiling
open Function (update)

variable {alm alm' : PlxAlm} {addr size addrMasked segments i m fuel freeSlots : ℕ} {out : Option Placed}

/-! ## The search -/

/-- The block at `m` contains the segments of the request. -/
structure Contains (alm : PlxAlm) (addrMasked segments m : ℕ) : Prop where
  used : (alm.entries m).counter ≠ 0
  value_le : (alm.entries m).value ≤ addrMasked
  le : addrMasked + segments * alm.segmentSize ≤
    (alm.entries m).value + (alm.entries m).segmentsCount * alm.segmentSize

theorem WF.covers_of_contains (hwf : alm.WF) (hsize : 0 < alm.segmentSize) (hseg : 0 < segments)
    (h : alm.Contains addrMasked segments m) :
    (alm.entries m).value ≤ addrMasked ∧
      (addrMasked - (alm.entries m).value) / alm.segmentSize < alm.segmentsNum ∧
      (addrMasked - (alm.entries m).value) / alm.segmentSize + segments ≤ (alm.entries m).segmentsCount := by
  have hle := h.le
  have hvalue := h.value_le
  have hfits := hwf.tiled.fits m (hwf.len_pos h.used)
  rw [len_of_counter h.used] at hfits
  have hidx : (addrMasked - (alm.entries m).value) / alm.segmentSize + segments ≤ (alm.entries m).segmentsCount := by
    rw [← Nat.add_mul_div_right _ _ hsize]
    apply Nat.div_le_of_le_mul
    have hcomm := Nat.mul_comm alm.segmentSize (alm.entries m).segmentsCount
    omega
  exact ⟨hvalue, by omega, hidx⟩

theorem WF.find_fuel (hwf : alm.WF) (k : ℕ) {found : Option ℕ} (hfuel : alm.segmentsNum ≤ i + fuel) :
    alm.plxAlmFind addrMasked segments (fuel + k) i freeSlots found =
      alm.plxAlmFind addrMasked segments fuel i freeSlots found := by
  induction fuel generalizing i freeSlots found with
  | zero =>
    cases k with
    | zero => rfl
    | succ k =>
      rw [Nat.zero_add, plxAlmFind.eq_def, plxAlmFind.eq_def]
      dsimp only
      rw [if_neg (by omega)]
  | succ fuel ih =>
    rw [show fuel + 1 + k = fuel + k + 1 by omega, plxAlmFind.eq_def, plxAlmFind.eq_def _ _ _ (fuel + 1)]
    dsimp only
    split
    · by_cases hc : (alm.entries i).counter = 0
      · rw [if_pos hc, if_pos hc]
        cases found with
        | none => exact ih (by omega)
        | some m => exact ih (by omega)
      · have hpos := (hwf.head i hc).1
        rw [if_neg hc, if_neg hc]
        split
        · rfl
        · exact ih (by omega)
    · rfl

theorem find_some_ne_none {m : ℕ} : alm.plxAlmFind addrMasked segments fuel i freeSlots (some m) ≠ none := by
  induction fuel generalizing i freeSlots with
  | zero => exact Option.some_ne_none _
  | succ fuel ih =>
    rw [plxAlmFind.eq_def]
    dsimp only
    split
    · split
      · exact ih
      · split
        · exact Option.some_ne_none _
        · exact ih
    · exact Option.some_ne_none _

/-- What the search has ruled out when it stands before slot `i` without a result: `freeSlots` counts the free slots
before `i`, and they are too few. -/
structure Exhausted (alm : PlxAlm) (addrMasked segments i freeSlots : ℕ) : Prop where
  outside : ¬ Inside alm.len i
  le : freeSlots ≤ i
  few : freeSlots < segments
  ended : freeSlots < i → ¬ Free alm.len (i - freeSlots - 1)
  none_contains : ∀ h < i, ¬ alm.Contains addrMasked segments h
  no_run : ∀ m, m + segments ≤ i → ∃ j, m ≤ j ∧ j < m + segments ∧ ¬ Free alm.len j

theorem Exhausted.free (h : alm.Exhausted addrMasked segments i freeSlots) (hc : (alm.entries i).counter = 0)
    (hfew : freeSlots + 1 ≠ segments) : alm.Exhausted addrMasked segments (i + 1) (freeSlots + 1) where
  outside := not_inside_succ h.outside (len_eq_zero hc)
  le := Nat.succ_le_succ h.le
  few := by
    have := h.few
    omega
  ended hlt := by
    have hsame : i + 1 - (freeSlots + 1) - 1 = i - freeSlots - 1 := by omega
    rw [hsame]
    exact h.ended (by omega)
  none_contains h' hlt := by
    rcases Nat.lt_succ_iff_lt_or_eq.mp hlt with hlt | rfl
    · exact h.none_contains h' hlt
    · exact fun hcontains ↦ hcontains.used hc
  no_run m hm := by
    by_cases hle : m + segments ≤ i
    · exact h.no_run m hle
    · -- the run would begin before the free slots
      have hfew' := h.few
      have hle' := h.le
      exact ⟨i - freeSlots - 1, by omega, by omega, h.ended (by omega)⟩

theorem Exhausted.block (h : alm.Exhausted addrMasked segments i freeSlots) (hwf : alm.WF)
    (hc : (alm.entries i).counter ≠ 0) (hnot : ¬ alm.Contains addrMasked segments i) :
    alm.Exhausted addrMasked segments (i + alm.len i) 0 := by
  have hpos := hwf.len_pos hc
  have hfew := h.few
  have hblock : ∀ j, i ≤ j → j < i + alm.len i → ¬ Free alm.len j := fun j hle hlt hfree ↦ hfree.not_mem ⟨hle, hlt⟩
  refine ⟨hwf.tiled.not_inside_add h.outside, Nat.zero_le _, by omega, fun _ ↦ ?_, fun h' hlt ↦ ?_, fun m hm ↦ ?_⟩
  · exact hblock _ (by omega) (by omega)
  · rcases lt_trichotomy h' i with hlt' | rfl | hgt
    · exact h.none_contains h' hlt'
    · exact hnot
    · -- inside the block there is no other
      intro hcontains
      have hlen := hwf.tiled.apart h' ⟨i, hgt, hlt⟩
      have := hwf.len_pos hcontains.used
      omega
  · by_cases hle : m + segments ≤ i
    · exact h.no_run m hle
    · by_cases hmi : m ≤ i
      · exact ⟨i, hmi, by omega, hblock i le_rfl (by omega)⟩
      · exact ⟨m, le_rfl, by omega, hblock m (by omega) (by omega)⟩

/-- **The search is complete**: it finds nothing only if there is nothing. -/
theorem WF.find_none (hwf : alm.WF) (hsize : 0 < alm.segmentSize) (hfuel : alm.segmentsNum ≤ i + fuel)
    (hs : alm.Exhausted addrMasked segments i freeSlots)
    (hfind : alm.plxAlmFind addrMasked segments fuel i freeSlots none = none) :
    ∃ i' freeSlots', alm.segmentsNum ≤ i' ∧ alm.Exhausted addrMasked segments i' freeSlots' := by
  induction fuel generalizing i freeSlots with
  | zero => exact ⟨i, freeSlots, by omega, hs⟩
  | succ fuel ih =>
    rw [plxAlmFind.eq_def] at hfind
    dsimp only at hfind
    by_cases hi : i < alm.segmentsNum
    · rw [if_pos hi] at hfind
      by_cases hc : (alm.entries i).counter = 0
      · rw [if_pos hc] at hfind
        by_cases hlast : freeSlots + 1 = segments
        · rw [if_pos hlast] at hfind
          exact absurd hfind find_some_ne_none
        · rw [if_neg hlast] at hfind
          exact ih (by omega) (hs.free hc hlast) hfind
      · rw [if_neg hc] at hfind
        split at hfind
        · cases hfind
        · rename_i hnot
          have hfew := hs.few
          have hpos := hwf.len_pos hc
          rw [← len_of_counter hc] at hfind
          refine ih (by omega) (hs.block hwf hc fun hcontains ↦ hnot ?_) hfind
          exact hwf.covers_of_contains hsize (by omega) hcontains
    · exact ⟨i, freeSlots, Nat.le_of_not_lt hi, hs⟩

/-- When the search has found nothing, no block contains the request, and no free run is long enough. -/
theorem WF.no_room (hwf : alm.WF) (hsize : 0 < alm.segmentSize) (hseg : 0 < segments)
    (hfind : alm.plxAlmFind addrMasked segments alm.segmentsNum 0 0 none = none) :
    (∀ h, ¬ alm.Contains addrMasked segments h) ∧
      ∀ m, m + segments ≤ alm.segmentsNum → ∃ j, m ≤ j ∧ j < m + segments ∧ ¬ Free alm.len j := by
  have hstart : alm.Exhausted addrMasked segments 0 0 :=
    ⟨not_inside_zero, le_rfl, hseg, fun h ↦ absurd h (lt_irrefl 0), fun h hlt ↦ absurd hlt (Nat.not_lt_zero h),
      fun m hm ↦ by omega⟩
  obtain ⟨i, freeSlots, hend, hs⟩ := hwf.find_none hsize (by omega) hstart hfind
  refine ⟨fun h hcontains ↦ ?_, fun m hm ↦ hs.no_run m (hm.trans hend)⟩
  exact hs.none_contains h ((hwf.head_lt hcontains.used).trans_le hend) hcontains

/-! ## The number of segments -/

/-- The window behind the table is small enough for the arithmetic of the manager. -/
structure Window (alm : PlxAlm) : Prop where
  pos : 0 < alm.segmentSize
  num : alm.segmentsNum < 2 ^ 16
  fits : alm.segmentSize * (alm.segmentsNum + 2) ≤ 2 ^ 64

/-- The sizes that `plx_hw_init` chooses are small enough. -/
theorem Sized.window {n : ℕ} (h : Sized alm n) : alm.Window := by
  have haper := h.aper_le
  have hpos := Nat.two_pow_pos n
  refine ⟨h.size ▸ hpos, ?_, ?_⟩
  · rcases h.num with hnum | hnum <;> rw [hnum] <;> decide
  · rw [h.size, Nat.mul_add]
    have htwo : 2 ^ n * 2 ≤ 2 ^ 63 := by
      refine (Nat.mul_le_mul_left _ ?_).trans haper
      rcases h.num with hnum | hnum <;> rw [hnum] <;> decide
    exact Nat.add_le_add haper htwo

theorem Window.segments_pos (h : alm.Window) (hsize : size ≠ 0) (hle : size ≤ alm.segmentSize * alm.segmentsNum) :
    0 < alm.segmentsOf addr size := by
  have hpos := h.pos
  have hfits := h.fits
  have hnum := h.num
  have hoff : alm.offsetInSegment addr ≤ alm.segmentSize - 1 := Nat.and_le_right
  rw [Nat.mul_add] at hfits
  have hlt : alm.offsetInSegment addr + size + alm.segmentSize - 1 < 2 ^ 64 := by omega
  have hquot : (alm.offsetInSegment addr + size + alm.segmentSize - 1) / alm.segmentSize < 2 ^ 32 := by
    apply Nat.div_lt_of_lt_mul
    have hbound : alm.segmentSize * (alm.segmentsNum + 2) ≤ alm.segmentSize * 2 ^ 32 :=
      Nat.mul_le_mul_left _ (by omega)
    rw [Nat.mul_add] at hbound
    omega
  rw [segmentsOf, Nat.mod_eq_of_lt hlt, Nat.mod_eq_of_lt hquot]
  exact Nat.div_pos (by omega) hpos

/-! ## The recursion -/

/-- A round that fails: the size was refused, or nothing was found; then the unused blocks are gone, and this is the
end of it or the next round fails. -/
theorem WF.enomem_cases (hwf : alm.WF) (h : plxAlmAddEntryRec addr size (fuel + 1) alm = some (-enomem, alm', out)) :
    (¬ alm.Accepts size ∧ alm' = alm) ∨
    (alm.Accepts size ∧
      alm.plxAlmFind (alm.addrMasked addr) (alm.segmentsOf addr size) alm.segmentsNum 0 0 none = none ∧
      ∃ alm₁, alm.Released alm₁ ∧ (∀ h, (alm₁.entries h).counter ≠ 1) ∧
        (alm' = alm₁ ∧ alm₁ = alm ∨ plxAlmAddEntryRec addr size fuel alm₁ = some (-enomem, alm', out))) := by
  rw [plxAlmAddEntryRec] at h
  by_cases hsize : size = 0 ∨ alm.segmentSize * alm.segmentsNum % 2 ^ 64 < size
  · rw [if_pos hsize] at h
    cases h
    refine Or.inl ⟨fun hacc ↦ ?_, rfl⟩
    rcases hsize with hzero | hlarge
    · exact hacc.1 hzero
    · exact absurd hacc.2 (Nat.not_le_of_lt hlarge)
  have hacc : alm.Accepts size := by
    rw [not_or, not_lt] at hsize
    exact hsize
  rw [if_neg hsize] at h
  cases hfind : alm.plxAlmFind (alm.addrMasked addr) (alm.segmentsOf addr size) alm.segmentsNum 0 0 none with
  | some r =>
    obtain ⟨m, idx⟩ := r
    rw [hfind] at h
    have hrc : (alm.plxAlmPlace m (alm.addrMasked addr) (alm.segmentsOf addr size)).1 ≠ -enomem := by
      have hzero : (0 : ℤ) ≠ -enomem := by decide
      have hexist : -eexist ≠ -enomem := by decide
      rw [plxAlmPlace]
      split
      · exact hzero
      · exact hexist
    exact absurd (congrArg Prod.fst (Option.some_inj.mp h)) hrc
  | none =>
    obtain ⟨alm₁, nums, hclean, hr, hone, hnone, -⟩ := hwf.cleanup
    rw [hfind] at h
    dsimp only at h
    rw [hclean] at h
    dsimp only at h
    refine Or.inr ⟨hacc, rfl, alm₁, hr, hone, ?_⟩
    by_cases hnums : nums = 0
    · rw [if_neg (not_not.mpr hnums)] at h
      cases h
      exact Or.inl ⟨rfl, hnone hnums⟩
    · rw [if_pos hnums] at h
      exact Or.inr h

/-- A slot that would be free if the unused blocks were released. -/
def Available (alm : PlxAlm) (j : ℕ) : Prop :=
  ∀ h, 2 ≤ (alm.entries h).counter → ¬ (h ≤ j ∧ j < h + alm.len h)

theorem Released.free {alm₁ : PlxAlm} {j : ℕ} (hr : alm.Released alm₁) (hone : ∀ h, (alm₁.entries h).counter ≠ 1)
    (hj : alm.Available j) : Free alm₁.len j := by
  have hused : ∀ h, alm₁.len h ≠ 0 → 2 ≤ (alm.entries h).counter ∧ alm.len h = alm₁.len h := by
    intro h hlen
    have hc := counter_ne_zero hlen
    have hne := hone h
    have hsub := hr.sub h hc
    rw [len, len, ← hsub]
    exact ⟨by omega, rfl⟩
  constructor
  · by_contra hlen
    obtain ⟨htwo, heq⟩ := hused j hlen
    exact hj j htwo ⟨le_rfl, by omega⟩
  · rintro ⟨h, hlt, hin⟩
    obtain ⟨htwo, heq⟩ := hused h (by omega)
    exact hj h htwo ⟨hlt.le, by omega⟩

theorem Released.used (hwf : alm.WF) (hr : alm.Released alm') {h j : ℕ} (htwo : 2 ≤ (alm.entries h).counter)
    (hle : h ≤ j) (hlt : j < h + alm.len h) : alm'.entries j = alm.entries j := by
  have hkeep := hr.keep h htwo
  have hlen : alm'.len h = alm.len h := by rw [len, len, hkeep]
  rcases Nat.lt_or_eq_of_le hle with hhj | rfl
  · rw [hwf.inside h j hhj hlt, hr.wf.inside h j hhj (by omega)]
  · exact hkeep

/-- **Completeness.** `plx_alm_add_entry` returns, after one repetition at most, and its search has reached the end of
the table. It fails only for a size that does not fit the window, or when no block contains the request and
there is no run of free slots for it even without the unused blocks; then every block in use is as it was. -/
theorem add_complete (hwf : alm.WF) (hwin : alm.Window) (addr size : ℕ) :
    (∀ addrMasked segments k, alm.plxAlmFind addrMasked segments (alm.segmentsNum + k) 0 0 none =
      alm.plxAlmFind addrMasked segments alm.segmentsNum 0 0 none) ∧
    ∃ rc alm' out, alm.plxAlmAddEntry addr size = some (rc, alm', out) ∧
      (rc = -enomem →
        (size = 0 ∨ alm.segmentSize * alm.segmentsNum < size ∨
          (∀ h, ¬ alm.Contains (alm.addrMasked addr) (alm.segmentsOf addr size) h) ∧
          ¬ ∃ m, m + alm.segmentsOf addr size ≤ alm.segmentsNum ∧
            ∀ j, m ≤ j → j < m + alm.segmentsOf addr size → alm.Available j) ∧
        ∀ h, 2 ≤ (alm.entries h).counter → ∀ j, h ≤ j → j < h + alm.len h → alm'.entries j = alm.entries j) := by
  refine ⟨fun addrMasked segments k ↦ hwf.find_fuel k (by omega), ?_⟩
  obtain ⟨-, rc, alm', out, heq, -, -, -⟩ := @WF.add alm addr size hwf
  refine ⟨rc, alm', out, heq, ?_⟩
  rintro rfl
  have hfits := hwin.fits
  rw [Nat.mul_add] at hfits
  have hwrap : alm.segmentSize * alm.segmentsNum % 2 ^ 64 = alm.segmentSize * alm.segmentsNum :=
    Nat.mod_eq_of_lt (by have := hwin.pos; omega)
  have hrefused : ¬ alm.Accepts size → size = 0 ∨ alm.segmentSize * alm.segmentsNum < size := by
    intro hnot
    by_contra hor
    rw [not_or, not_lt] at hor
    exact hnot ⟨hor.1, hwrap.symm ▸ hor.2⟩
  rw [plxAlmAddEntry] at heq
  rcases hwf.enomem_cases heq with ⟨hnot, rfl⟩ | ⟨hacc, hfind, alm₁, hr, hone, hlast⟩
  · refine ⟨?_, fun h _ j _ _ ↦ rfl⟩
    rcases hrefused hnot with hzero | hlarge
    · exact Or.inl hzero
    · exact Or.inr (Or.inl hlarge)
  have hseg : 0 < alm.segmentsOf addr size := hwin.segments_pos hacc.1 (hwrap ▸ hacc.2)
  obtain ⟨hcontains, hrun⟩ := hwf.no_room hwin.pos hseg hfind
  -- the second search sees only blocks in use
  have hsecond : alm' = alm₁ ∧ ∀ m, m + alm.segmentsOf addr size ≤ alm.segmentsNum →
      ∃ j, m ≤ j ∧ j < m + alm.segmentsOf addr size ∧ ¬ Free alm₁.len j := by
    rcases hlast with ⟨rfl, rfl⟩ | heq₁
    · exact ⟨rfl, hrun⟩
    · have hseg₁ : alm₁.segmentsOf addr size = alm.segmentsOf addr size := by
        rw [segmentsOf, segmentsOf, offsetInSegment, offsetInSegment, translationMask, translationMask,
          hr.segmentSize]
      have hacc₁ : alm₁.Accepts size := by
        rw [Accepts, hr.segmentSize, hr.segmentsNum]
        exact hacc
      rcases hr.wf.enomem_cases heq₁ with ⟨hnot, -⟩ | ⟨-, hfind₁, alm₂, hr₂, -, hlast₂⟩
      · exact absurd hacc₁ hnot
      · obtain ⟨-, hrun₁⟩ := hr.wf.no_room (hr.segmentSize ▸ hwin.pos) (hseg₁ ▸ hseg) hfind₁
        rw [hseg₁, hr.segmentsNum] at hrun₁
        rcases hlast₂ with ⟨rfl, rfl⟩ | heq₂
        · exact ⟨rfl, hrun₁⟩
        · cases heq₂
  obtain ⟨rfl, hrun₁⟩ := hsecond
  refine ⟨Or.inr (Or.inr ⟨hcontains, ?_⟩), fun h htwo j hle hlt ↦ hr.used hwf htwo hle hlt⟩
  rintro ⟨m, hm, hfree⟩
  obtain ⟨j, hle, hlt, hnot⟩ := hrun₁ m hm
  exact hnot (hr.free hone (hfree j hle hlt))

/-- Of three segments the first is in use, and the second has a block that nobody uses. -/
def crowdedTable : PlxAlm :=
  let alm := (((plxAlmInit 3 12288).plxAlmPlace 0 0 1).2.plxAlmPlace 1 8192 1).2
  { alm with entries := Function.update alm.entries 1 { alm.entries 1 with counter := 1 } }

theorem crowdedTable_wf : crowdedTable.WF := by
  have hfirst : (plxAlmInit 3 12288).FreeRun 1 0 := by
    refine ⟨by decide, by decide, fun j _ hlt ↦ ?_⟩
    obtain rfl : j = 0 := by omega
    exact ⟨rfl, not_inside_zero⟩
  have hwf : ((plxAlmInit 3 12288).plxAlmPlace 0 0 1).2.WF := (WF.init 3 12288).place hfirst (by decide)
  have hsecond : ((plxAlmInit 3 12288).plxAlmPlace 0 0 1).2.FreeRun 1 1 := by
    refine ⟨by decide, by decide, fun j hle hlt ↦ ?_⟩
    obtain rfl : j = 1 := by omega
    refine ⟨rfl, ?_⟩
    rintro ⟨h, hlt, hin⟩
    obtain rfl : h = 0 := by omega
    exact absurd hin (by decide)
  exact ((hwf.place hsecond (by decide)).set_counter (by decide) (by decide)).1

/-- The cleanup takes the block without users away, and three segments in a row are still not free. -/
theorem crowdedTable_refuses : ∃ alm', crowdedTable.plxAlmAddEntry 16384 12288 = some (-enomem, alm', none) ∧
    alm'.entries 0 = crowdedTable.entries 0 ∧ alm'.entries 1 = zeroEntry := by
  have hwin : crowdedTable.Window := ⟨by decide, by decide, by decide⟩
  obtain ⟨-, rc, alm', out, heq, hfail⟩ := add_complete crowdedTable_wf hwin 16384 12288
  have hrun : (crowdedTable.plxAlmAddEntry 16384 12288).map (fun r ↦ (r.1, r.2.2, r.2.1.entries 1)) =
      some (-enomem, none, zeroEntry) := by
    decide
  rw [heq] at hrun
  obtain ⟨rfl, hrun⟩ := Prod.mk.inj (Option.some_inj.mp hrun)
  obtain ⟨rfl, hone⟩ := Prod.mk.inj hrun
  exact ⟨alm', heq, (hfail rfl).2 0 (by decide) 0 le_rfl (by decide), hone⟩

end Vcass.Plx.PlxAlm
