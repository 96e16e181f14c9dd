import Vcass.Lib.Tiling
import Vcass.Plx.Alm

/-!
# The A-LUT manager: the table of blocks

The entries of the manager tile the table in the sense of `Tiling`: `WF` says which entries may stand
where. Each function of the manager has one lemma here that says what it does to a well-formed table;
whatever else is proved about the manager goes through these.
-/

namespace Vcass.Plx.PlxAlm

open Tiling
open Function (update)

/-- The length of the block that starts at `i`. -/
def len (alm : PlxAlm) (i : ℕ) : ℕ :=
  if (alm.entries i).counter = 0 then 0 else (alm.entries i).segmentsCount

/-- **A well-formed table.** The first entry of a block carries its counter and its length, the
entries inside it only point back to it, and all others are zero. -/
structure WF (alm : PlxAlm) : Prop where
  tiled : Tiled alm.segmentsNum alm.len
  head : ∀ h, (alm.entries h).counter ≠ 0 →
    0 < (alm.entries h).segmentsCount ∧ (alm.entries h).start = h
  inside : ∀ h i, h < i → i < h + alm.len h → alm.entries i = ⟨0, 0, 0, h⟩
  free : ∀ i, Free alm.len i → alm.entries i = zeroEntry

variable {alm : PlxAlm} {h i m idx segments addrMasked : ℕ}

theorem len_of_counter (hc : (alm.entries h).counter ≠ 0) :
    alm.len h = (alm.entries h).segmentsCount := if_neg hc

theorem len_eq_zero (hc : (alm.entries h).counter = 0) : alm.len h = 0 := if_pos hc

theorem counter_ne_zero (hlen : alm.len h ≠ 0) : (alm.entries h).counter ≠ 0 := fun hc ↦
  hlen (len_eq_zero hc)

theorem WF.len_pos (hwf : alm.WF) (hc : (alm.entries h).counter ≠ 0) : 0 < alm.len h := by
  rw [len_of_counter hc]
  exact (hwf.head h hc).1

theorem WF.head_lt (hwf : alm.WF) (hc : (alm.entries h).counter ≠ 0) : h < alm.segmentsNum := by
  have hpos := hwf.len_pos hc
  have := hwf.tiled.fits h hpos
  omega

theorem WF.start_eq (hwf : alm.WF) (hle : h ≤ i) (hlt : i < h + alm.len h) :
    (alm.entries i).start = h := by
  rcases Nat.lt_or_eq_of_le hle with hhi | rfl
  · rw [hwf.inside h i hhi hlt]
  · exact (hwf.head h (counter_ne_zero (by omega))).2

theorem WF.init (segmentsNum aperLen : ℕ) : (plxAlmInit segmentsNum aperLen).WF where
  tiled := Tiled.empty segmentsNum
  head h hc := absurd rfl hc
  inside h i hhi hlt := absurd hlt (by
    rw [len_eq_zero rfl]
    omega)
  free i _ := rfl

/-! ## The check -/

theorem WF.checkBlock (hwf : alm.WF) (hc : (alm.entries i).counter ≠ 0) :
    alm.checkBlock i (alm.entries i).segmentsCount = true := by
  rw [PlxAlm.checkBlock, List.all_eq_true]
  intro k hk
  rw [List.mem_range, ← len_of_counter hc] at hk
  rw [hwf.start_eq (Nat.le_add_right i k) (by omega)]
  rcases Nat.eq_zero_or_pos k with rfl | hpos
  · simp
  · rw [hwf.inside i (i + k) (by omega) (by omega)]
    simp

/-- A well-formed table passes the check from any slot that is not inside a block. -/
theorem WF.checkLoop (hwf : alm.WF) (fuel : ℕ) (hi : ¬ Inside alm.len i) :
    alm.plxAlmCheckLoop fuel i = true := by
  induction fuel generalizing i with
  | zero => rfl
  | succ fuel ih =>
    rw [plxAlmCheckLoop]
    split
    · by_cases hc : (alm.entries i).counter = 0
      · have hzero := hwf.free i ⟨len_eq_zero hc, hi⟩
        rw [if_pos hc, ih (not_inside_succ hi (len_eq_zero hc)), hzero]
        rfl
      · have hlen := len_of_counter hc
        have hfits := hwf.tiled.fits i (hwf.len_pos hc)
        have hpos := (hwf.head i hc).1
        rw [if_neg hc, if_neg (by omega), if_neg (by omega), hwf.checkBlock hc, ← hlen,
          ih (hwf.tiled.not_inside_add hi)]
        rfl
    · rfl

/-- **The check** succeeds on a well-formed table. -/
theorem WF.check (hwf : alm.WF) : alm.plxAlmCheck = true := hwf.checkLoop _ not_inside_zero

/-! ## The search -/

/-- A run of free slots that is long enough. -/
structure FreeRun (alm : PlxAlm) (segments m : ℕ) : Prop where
  pos : 0 < segments
  fits : m + segments ≤ alm.segmentsNum
  free : ∀ j, m ≤ j → j < m + segments → Free alm.len j

theorem FreeRun.disjoint {j : ℕ} (hrun : alm.FreeRun segments m) (hj : j < alm.len h) :
    ¬ (m ≤ h + j ∧ h + j < m + segments) := by
  intro hin
  exact (hrun.free _ hin.1 hin.2).not_mem ⟨Nat.le_add_right h j, by omega⟩

/-- The block at `m` covers the request from its slot `idx` on. -/
structure Covers (alm : PlxAlm) (addrMasked segments m idx : ℕ) : Prop where
  used : (alm.entries m).counter ≠ 0
  value_le : (alm.entries m).value ≤ addrMasked
  idx_eq : idx = (addrMasked - (alm.entries m).value) / alm.segmentSize
  idx_lt : idx < alm.segmentsNum
  le_len : idx + segments ≤ (alm.entries m).segmentsCount

/-- What the search has established when it stands before slot `i`. -/
structure Searched (alm : PlxAlm) (segments i freeSlots : ℕ) (found : Option ℕ) : Prop where
  outside : ¬ Inside alm.len i
  ok : ∀ m ∈ found, alm.FreeRun segments m
  le : found = none → freeSlots ≤ i
  run : found = none → ∀ j, i - freeSlots ≤ j → j < i → Free alm.len j

theorem WF.find (hwf : alm.WF) (fuel : ℕ) {freeSlots : ℕ} {found : Option ℕ}
    (hs : alm.Searched segments i freeSlots found)
    (hfind : alm.plxAlmFind addrMasked segments fuel i freeSlots found = some (m, idx)) :
    alm.Covers addrMasked segments m idx ∨ idx = 0 ∧ alm.FreeRun segments m := by
  have hend : ∀ {found : Option ℕ}, (∀ m ∈ found, alm.FreeRun segments m) →
      found.map (·, 0) = some (m, idx) → idx = 0 ∧ alm.FreeRun segments m := by
    intro found hfound hmap
    obtain ⟨m', rfl, heq⟩ := Option.map_eq_some_iff.mp hmap
    cases heq
    exact ⟨rfl, hfound _ rfl⟩
  induction fuel generalizing i freeSlots found with
  | zero => exact .inr (hend hs.ok hfind)
  | succ fuel ih =>
    rw [plxAlmFind.eq_def] at hfind
    dsimp only at hfind
    split at hfind
    · by_cases hc : (alm.entries i).counter = 0
      · rw [if_pos hc] at hfind
        have hfree : Free alm.len i := ⟨len_eq_zero hc, hs.outside⟩
        have hout := not_inside_succ hs.outside hfree.1
        cases found with
        | none =>
          have hle := hs.le rfl
          have hrun : ∀ j, i + 1 - (freeSlots + 1) ≤ j → j < i + 1 → Free alm.len j := by
            intro j hj hji
            rcases Nat.lt_succ_iff_lt_or_eq.mp hji with hji | rfl
            · exact hs.run rfl j (by omega) hji
            · exact hfree
          refine ih ⟨hout, fun m' hm' ↦ ?_, fun _ ↦ Nat.succ_le_succ hle, fun _ ↦ hrun⟩ hfind
          split at hm' <;> cases hm'
          exact ⟨by omega, by omega, fun j hj hjs ↦ hrun j (by omega) (by omega)⟩
        | some m' =>
          exact ih ⟨hout, hs.ok, fun h ↦ (Option.some_ne_none m' h).elim,
            fun h ↦ (Option.some_ne_none m' h).elim⟩ hfind
      · rw [if_neg hc] at hfind
        split at hfind
        · rename_i hcov
          cases hfind
          exact .inl ⟨hc, hcov.1, rfl, hcov.2.1, hcov.2.2⟩
        · rw [← len_of_counter hc] at hfind
          exact ih ⟨hwf.tiled.not_inside_add hs.outside, hs.ok, fun _ ↦ Nat.zero_le _,
            fun _ j hj hjs ↦ by omega⟩ hfind
    · exact .inr (hend hs.ok hfind)

/-- **The search** finds a block that covers the request, or a free run. -/
theorem WF.find_cases (hwf : alm.WF)
    (hfind : alm.plxAlmFind addrMasked segments alm.segmentsNum 0 0 none = some (m, idx)) :
    alm.Covers addrMasked segments m idx ∨ idx = 0 ∧ alm.FreeRun segments m :=
  hwf.find _ ⟨not_inside_zero, by simp, fun _ ↦ le_rfl, fun _ j hj hjs ↦ by omega⟩ hfind

/-! ## Placement -/

@[simp] theorem place_segmentsNum :
    (alm.plxAlmPlace m addrMasked segments).2.segmentsNum = alm.segmentsNum := by
  rw [plxAlmPlace]
  split <;> rfl

@[simp] theorem place_segmentSize :
    (alm.plxAlmPlace m addrMasked segments).2.segmentSize = alm.segmentSize := by
  rw [plxAlmPlace]
  split <;> rfl

section Place

variable (hwf : alm.WF) (hrun : alm.FreeRun segments m)
include hwf hrun

theorem WF.place_rc : (alm.plxAlmPlace m addrMasked segments).1 = 0 := by
  rw [plxAlmPlace, hwf.free m (hrun.free m le_rfl (by have := hrun.pos; omega))]
  rfl

theorem WF.place_entries (hnum : alm.segmentsNum < 2 ^ 16) (i : ℕ) :
    (alm.plxAlmPlace m addrMasked segments).2.entries i =
      if i = m then ⟨addrMasked, 2, segments, m⟩
      else if m ≤ i ∧ i < m + segments then ⟨0, 0, 0, m⟩ else alm.entries i := by
  have hpos := hrun.pos
  have hfits := hrun.fits
  have hm := hwf.free m (hrun.free m le_rfl (by omega))
  have hmod : m % 2 ^ 16 = m := Nat.mod_eq_of_lt (by omega)
  have hseg : segments % 2 ^ 16 = segments := Nat.mod_eq_of_lt (by omega)
  rw [plxAlmPlace, if_pos (by rw [hm]; rfl)]
  dsimp only
  by_cases him : i = m
  · subst him
    rw [if_pos ⟨le_rfl, by omega⟩, if_pos rfl, Function.update_self, hseg, hmod]
  · rw [if_neg him, Function.update_of_ne him]
    split
    · rename_i hin
      rw [hwf.free i (hrun.free i hin.1 hin.2), hmod]
      rfl
    · rfl

theorem WF.place_len (hnum : alm.segmentsNum < 2 ^ 16) :
    (alm.plxAlmPlace m addrMasked segments).2.len = update alm.len m segments := by
  funext i
  rw [len, hwf.place_entries hrun hnum]
  by_cases him : i = m
  · subst him
    rw [if_pos rfl, Function.update_self]
    rfl
  · rw [if_neg him, Function.update_of_ne him]
    split
    · rename_i hin
      exact (hrun.free i hin.1 hin.2).1.symm
    · rfl

/-- **A new block** keeps the table well-formed. -/
theorem WF.place (hnum : alm.segmentsNum < 2 ^ 16) :
    (alm.plxAlmPlace m addrMasked segments).2.WF := by
  have hlen : (alm.plxAlmPlace m addrMasked segments).2.len = _ := hwf.place_len hrun hnum
  have hpos := hrun.pos
  have hm := hrun.free m le_rfl (by omega)
  refine ⟨?_, fun h hc ↦ ?_, fun h i hhi hlt ↦ ?_, fun i hfree ↦ ?_⟩
  · rw [hlen, place_segmentsNum]
    exact hwf.tiled.insert hrun.fits hrun.free
  · rw [hwf.place_entries hrun hnum] at hc ⊢
    split at hc
    · rename_i hhm
      rw [if_pos hhm]
      exact ⟨hpos, hhm.symm⟩
    · rename_i hhm
      split at hc
      · exact absurd rfl hc
      · rename_i hout
        rw [if_neg hhm, if_neg hout]
        exact hwf.head h hc
  · rw [hlen] at hlt
    rw [hwf.place_entries hrun hnum]
    by_cases hhm : h = m
    · subst hhm
      rw [Function.update_self] at hlt
      rw [if_neg hhi.ne', if_pos ⟨hhi.le, hlt⟩]
    · rw [Function.update_of_ne hhm] at hlt
      have hnot : ∀ hf : Free alm.len i, False := fun hf ↦ hf.not_mem ⟨hhi.le, hlt⟩
      rw [if_neg, if_neg, hwf.inside h i hhi hlt]
      · exact fun hin ↦ hnot (hrun.free i hin.1 hin.2)
      · rintro rfl
        exact hnot hm
  · rw [hlen] at hfree
    have him : i ≠ m := by
      rintro rfl
      have := hfree.1
      rw [Function.update_self] at this
      omega
    have hout : ¬ (m ≤ i ∧ i < m + segments) := fun hin ↦
      hfree.2 ⟨m, lt_of_le_of_ne hin.1 him.symm, by rw [Function.update_self]; exact hin.2⟩
    have hold : Free alm.len i := by
      have hlen := hfree.1
      rw [Function.update_of_ne him] at hlen
      refine ⟨hlen, ?_⟩
      rintro ⟨h, hhi, hlt⟩
      have hhm : h ≠ m := by
        rintro rfl
        rw [hm.1] at hlt
        omega
      exact hfree.2 ⟨h, hhi, by rwa [Function.update_of_ne hhm]⟩
    rw [hwf.place_entries hrun hnum, if_neg him, if_neg hout, hwf.free i hold]

end Place

theorem WF.set_counter (hwf : alm.WF) {c : ℕ} (hc : (alm.entries m).counter ≠ 0) (hc' : c ≠ 0) :
    ({ alm with entries := update alm.entries m { alm.entries m with counter := c } } : PlxAlm).WF ∧
      ({ alm with entries := update alm.entries m { alm.entries m with counter := c } } :
        PlxAlm).len = alm.len := by
  have hlen : ({ alm with entries := update alm.entries m { alm.entries m with counter := c } } :
      PlxAlm).len = alm.len := by
    funext i
    by_cases him : i = m
    · subst him
      simp [len, hc, hc']
    · simp [len, Function.update_of_ne him]
  refine ⟨⟨?_, fun h hch ↦ ?_, fun h i hhi hlt ↦ ?_, fun i hfree ↦ ?_⟩, hlen⟩
  · rw [hlen]
    exact hwf.tiled
  · by_cases hhm : h = m
    · subst hhm
      simpa using hwf.head h hc
    · simp only [Function.update_of_ne hhm] at hch ⊢
      exact hwf.head h hch
  · rw [hlen] at hlt
    have him : i ≠ m := by
      rintro rfl
      have := hwf.tiled.apart i ⟨h, hhi, hlt⟩
      have := hwf.len_pos hc
      omega
    simpa only [Function.update_of_ne him] using hwf.inside h i hhi hlt
  · rw [hlen] at hfree
    have him : i ≠ m := by
      rintro rfl
      have := hfree.1
      have := hwf.len_pos hc
      omega
    simpa only [Function.update_of_ne him] using hwf.free i hfree

theorem place_used (hc : (alm.entries m).counter ≠ 0) :
    alm.plxAlmPlace m addrMasked segments =
      (-eexist, { alm with entries := update alm.entries m { alm.entries m with
        counter := ((alm.entries m).counter + 1) % 2 ^ 16 } }) := by
  rw [plxAlmPlace, if_neg hc]

/-! ## Deletion -/

/-- The manager without the block at `m`. -/
def drop (alm : PlxAlm) (m : ℕ) : PlxAlm :=
  { alm with entries := clearEntries alm.entries m (alm.entries m).segmentsCount }

theorem drop_entries (hc : (alm.entries m).counter ≠ 0) (i : ℕ) :
    (alm.drop m).entries i =
      if m ≤ i ∧ i < m + alm.len m then zeroEntry else alm.entries i := by
  rw [len_of_counter hc]
  rfl

theorem WF.drop_len (hwf : alm.WF) (hc : (alm.entries m).counter ≠ 0) :
    (alm.drop m).len = update alm.len m 0 := by
  funext i
  have hpos := hwf.len_pos hc
  by_cases him : i = m
  · subst him
    have hzero : (alm.drop i).entries i = zeroEntry := by
      rw [drop_entries hc, if_pos ⟨le_rfl, by omega⟩]
    rw [Function.update_self, len, hzero]
    rfl
  · rw [Function.update_of_ne him, len, drop_entries hc]
    split
    · rename_i hin
      exact (hwf.tiled.apart i ⟨m, lt_of_le_of_ne hin.1 (Ne.symm him), hin.2⟩).symm
    · rfl

theorem WF.drop_of_mem (hwf : alm.WF) (hc : (alm.entries m).counter ≠ 0) (hhm : h ≠ m)
    (hle : h ≤ i) (hlt : i < h + alm.len h) : (alm.drop m).entries i = alm.entries i := by
  rw [drop_entries hc, if_neg]
  exact fun hin ↦ hhm (hwf.tiled.eq_of_mem hle hlt hin.1 hin.2)

/-- **A block disappears.** -/
theorem WF.drop (hwf : alm.WF) (hc : (alm.entries m).counter ≠ 0) : (alm.drop m).WF := by
  have hlen := hwf.drop_len hc
  have hpos := hwf.len_pos hc
  refine ⟨?_, fun h hch ↦ ?_, fun h i hhi hlt ↦ ?_, fun i hfree ↦ ?_⟩
  · rw [hlen]
    exact hwf.tiled.erase
  · rw [drop_entries hc] at hch ⊢
    split at hch
    · exact absurd rfl hch
    · rename_i hout
      rw [if_neg hout]
      exact hwf.head h hch
  · rw [hlen] at hlt
    have hhm : h ≠ m := by
      rintro rfl
      rw [Function.update_self] at hlt
      omega
    rw [Function.update_of_ne hhm] at hlt
    rw [hwf.drop_of_mem hc hhm hhi.le hlt, hwf.inside h i hhi hlt]
  · rw [drop_entries hc]
    split
    · rfl
    · rename_i hout
      rw [hlen] at hfree
      have him : i ≠ m := fun him ↦ hout ⟨him.ge, by omega⟩
      refine hwf.free i ⟨by rw [← hfree.1, Function.update_of_ne him], ?_⟩
      rintro ⟨h, hhi, hlt⟩
      have hhm : h ≠ m := by
        rintro rfl
        exact hout ⟨hhi.le, hlt⟩
      exact hfree.2 ⟨h, hhi, by rwa [Function.update_of_ne hhm]⟩

/-- **Deletion** of a segment of the block at `h`. -/
theorem WF.del (hwf : alm.WF) (hle : h ≤ i) (hlt : i < h + alm.len h) :
    (alm.entries h).counter ≠ 0 ∧
      alm.plxAlmDelEntry i =
        if (alm.entries h).counter = 1 then some (alm.drop h, some (h, alm.len h))
        else some ({ alm with entries := update alm.entries h { alm.entries h with
          counter := (alm.entries h).counter - 1 } }, none) := by
  have hc : (alm.entries h).counter ≠ 0 := counter_ne_zero (by omega)
  refine ⟨hc, ?_⟩
  rw [plxAlmDelEntry, hwf.start_eq hle hlt, if_neg hc, len_of_counter hc]
  by_cases hone : (alm.entries h).counter = 1
  · rw [if_pos (by omega), if_pos hone]
    rfl
  · rw [if_neg (by omega), if_neg hone]

/-! ## Cleanup -/

/-- What is left of the table `alm` after some unused blocks were released: the blocks of `alm'` are
blocks of `alm`, and those with a user are all there. -/
structure Released (alm alm' : PlxAlm) : Prop where
  wf : alm'.WF
  segmentsNum : alm'.segmentsNum = alm.segmentsNum
  segmentSize : alm'.segmentSize = alm.segmentSize
  sub : ∀ h, (alm'.entries h).counter ≠ 0 → alm'.entries h = alm.entries h
  keep : ∀ h, 2 ≤ (alm.entries h).counter → alm'.entries h = alm.entries h

theorem Released.refl (hwf : alm.WF) : alm.Released alm :=
  ⟨hwf, rfl, rfl, fun _ _ ↦ rfl, fun _ _ ↦ rfl⟩

theorem Released.drop {alm' : PlxAlm} (hr : alm.Released alm') (hone : (alm'.entries m).counter = 1) :
    alm.Released (alm'.drop m) := by
  have hc : (alm'.entries m).counter ≠ 0 := by omega
  refine ⟨hr.wf.drop hc, hr.segmentsNum, hr.segmentSize, fun h hch ↦ ?_, fun h hch ↦ ?_⟩
  · rw [drop_entries hc] at hch ⊢
    split at hch
    · exact absurd rfl hch
    · rename_i hout
      rw [if_neg hout, hr.sub h hch]
  · have heq := hr.keep h hch
    have hhm : h ≠ m := by
      rintro rfl
      rw [heq] at hone
      omega
    have hpos := hr.wf.len_pos (h := h) (by rw [heq]; omega)
    rw [hr.wf.drop_of_mem hc hhm le_rfl (by omega), heq]

/-- **Cleanup** releases the unused blocks. -/
theorem Released.cleanupLoop {alm' : PlxAlm} {nums : ℕ} (hr : alm.Released alm') (fuel : ℕ)
    (hbefore : ∀ h < i, (alm'.entries h).counter ≠ 1) (hnone : nums = 0 → alm' = alm)
    (hsome : nums ≠ 0 → ∃ h, (alm.entries h).counter = 1) :
    ∃ alm'' nums', plxAlmCleanupLoop fuel i nums alm' = some (alm'', nums') ∧
      alm.Released alm'' ∧ (∀ h < i + fuel, (alm''.entries h).counter ≠ 1) ∧
      (nums' = 0 → alm'' = alm) ∧ (nums' ≠ 0 → ∃ h, (alm.entries h).counter = 1) := by
  induction fuel generalizing i nums alm' with
  | zero => exact ⟨alm', nums, rfl, hr, hbefore, hnone, hsome⟩
  | succ fuel ih =>
    rw [plxAlmCleanupLoop, show i + (fuel + 1) = i + 1 + fuel by omega]
    by_cases hone : (alm'.entries i).counter = 1
    · have hc : (alm'.entries i).counter ≠ 0 := by omega
      have hpos := hr.wf.len_pos hc
      have hdel := (hr.wf.del le_rfl (by omega : i < i + alm'.len i)).2
      rw [if_pos hone] at hdel
      rw [if_pos hone, hdel]
      refine ih (hr.drop hone) (fun h hh ↦ ?_) (fun h ↦ absurd h (Nat.succ_ne_zero nums))
        fun _ ↦ ?_
      · rw [drop_entries hc]
        split
        · simp [zeroEntry]
        · rename_i hout
          exact hbefore h (by omega)
      · exact ⟨i, by rw [← hr.sub i hc]; exact hone⟩
    · rw [if_neg hone]
      refine ih hr (fun h hh ↦ ?_) hnone hsome
      rcases Nat.lt_succ_iff_lt_or_eq.mp hh with hh | rfl
      · exact hbefore h hh
      · exact hone

/-- **Cleanup** releases exactly the unused blocks, and says whether there were any. -/
theorem WF.cleanup (hwf : alm.WF) :
    ∃ alm' nums, alm.plxAlmCleanupUnusedEntry = some (alm', nums) ∧ alm.Released alm' ∧
      (∀ h, (alm'.entries h).counter ≠ 1) ∧ (nums = 0 → alm' = alm) ∧
      (nums ≠ 0 → ∃ h, (alm.entries h).counter = 1) := by
  obtain ⟨alm', nums, heq, hr, hone, hnone, hsome⟩ :=
    (Released.refl hwf).cleanupLoop (i := 0) alm.segmentsNum (by simp) (fun _ : 0 = 0 ↦ rfl)
      (by simp)
  refine ⟨alm', nums, heq, hr, fun h hh ↦ ?_, hnone, hsome⟩
  have hlt := hr.wf.head_lt (h := h) (by omega)
  rw [hr.segmentsNum] at hlt
  exact hone h (by omega) hh

/-! ## Addition -/

/-- The request is not refused for its size. -/
def Accepts (alm : PlxAlm) (size : ℕ) : Prop :=
  size ≠ 0 ∧ size ≤ alm.segmentSize * alm.segmentsNum % 2 ^ 64

/-- There is no place for the request, but an unused block that can be released. -/
def NeedsCleanup (alm : PlxAlm) (addr size : ℕ) : Prop :=
  alm.Accepts size ∧
    alm.plxAlmFind (alm.addrMasked addr) (alm.segmentsOf addr size) alm.segmentsNum 0 0 none = none ∧
    ∃ h, (alm.entries h).counter = 1

/-- What `plx_alm_add_entry` makes of a table that needs no cleanup: the error code, the new table,
and the segments of the mapping. -/
inductive Added (alm : PlxAlm) (addr size : ℕ) : ℤ → PlxAlm → Option Placed → Prop
  | refused : Added alm addr size (-enomem) alm none
  | embedded {m idx : ℕ} (hsize : alm.Accepts size)
      (hfind : alm.plxAlmFind (alm.addrMasked addr) (alm.segmentsOf addr size) alm.segmentsNum 0 0
        none = some (m, idx))
      (h : alm.Covers (alm.addrMasked addr) (alm.segmentsOf addr size) m idx) :
      Added alm addr size (-eexist)
        { alm with entries := update alm.entries m { alm.entries m with
          counter := ((alm.entries m).counter + 1) % 2 ^ 16 } }
        (some ⟨m, (m + idx) % 2 ^ 32, alm.segmentsOf addr size⟩)
  | fresh {m : ℕ} (hsize : alm.Accepts size) (h : alm.FreeRun (alm.segmentsOf addr size) m) :
      Added alm addr size 0 (alm.plxAlmPlace m (alm.addrMasked addr) (alm.segmentsOf addr size)).2
        (some ⟨m, m % 2 ^ 32, alm.segmentsOf addr size⟩)

theorem WF.addRound {addr size : ℕ} (hwf : alm.WF) (fuel : ℕ) :
    (∃ rc alm' out, plxAlmAddEntryRec addr size (fuel + 1) alm = some (rc, alm', out) ∧
        alm.Added addr size rc alm' out) ∨
      ∃ alm', alm.NeedsCleanup addr size ∧ alm.Released alm' ∧
        (∀ h, (alm'.entries h).counter ≠ 1) ∧
        plxAlmAddEntryRec addr size (fuel + 1) alm = plxAlmAddEntryRec addr size fuel alm' := by
  rw [plxAlmAddEntryRec]
  by_cases hsize : size = 0 ∨ alm.segmentSize * alm.segmentsNum % 2 ^ 64 < size
  · rw [if_pos hsize]
    exact .inl ⟨_, _, _, rfl, .refused⟩
  have hacc : alm.Accepts size := by
    rw [not_or, not_lt] at hsize
    exact hsize
  rw [if_neg hsize]
  cases hfind : alm.plxAlmFind (alm.addrMasked addr) (alm.segmentsOf addr size) alm.segmentsNum 0 0
      none with
  | some r =>
    obtain ⟨m, idx⟩ := r
    rcases hwf.find_cases hfind with hcov | ⟨rfl, hrun⟩
    · refine .inl ⟨_, _, _, ?_, .embedded hacc hfind hcov⟩
      dsimp only
      rw [place_used hcov.used]
    · refine .inl ⟨_, _, _, ?_, .fresh hacc hrun⟩
      dsimp only
      rw [hwf.place_rc hrun]
      rfl
  | none =>
    obtain ⟨alm', nums, hclean, hr, hone, hnone, hsome⟩ := hwf.cleanup
    dsimp only
    rw [hclean]
    dsimp only
    by_cases hnums : nums = 0
    · rw [hnone hnums, if_neg (not_not.mpr hnums)]
      exact .inl ⟨_, _, _, rfl, .refused⟩
    · rw [if_pos hnums]
      exact .inr ⟨alm', ⟨hacc, hfind, hsome hnums⟩, hr, hone, rfl⟩

/-- **Addition.** The table is cleaned up first if that is needed; the second round of the recursion
is the last, because nothing unused is left. -/
theorem WF.add {addr size : ℕ} (hwf : alm.WF) :
    ∃ alm₁ rc alm' out, alm.plxAlmAddEntry addr size = some (rc, alm', out) ∧
      alm.Released alm₁ ∧ (alm₁ = alm ∨ alm.NeedsCleanup addr size) ∧
      alm₁.Added addr size rc alm' out := by
  rw [plxAlmAddEntry]
  rcases hwf.addRound 1 with ⟨rc, alm', out, heq, hadd⟩ | ⟨alm₁, hneed, hr, hone, heq⟩
  · exact ⟨alm, rc, alm', out, heq, .refl hwf, .inl rfl, hadd⟩
  · rcases hr.wf.addRound 0 with ⟨rc, alm', out, heq', hadd⟩ | ⟨alm₂, hneed', -⟩
    · exact ⟨alm₁, rc, alm', out, heq.trans heq', hr, .inr hneed, hadd⟩
    · obtain ⟨h, hh⟩ := hneed'.2.2
      exact absurd hh (hone h)

end Vcass.Plx.PlxAlm
