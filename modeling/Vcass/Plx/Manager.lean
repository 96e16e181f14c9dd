import Mathlib.Data.List.Count
import Mathlib.Data.List.Perm.Basic
import Vcass.Lib.Run
import Vcass.Plx.Table

/-!
# The A-LUT manager: its users

The counter of a block is one more than the number of mappings that live in it (`Users`). Mappings
come and go in any order; a block that lost its last mapping stays until a cleanup takes it. So the
deletion of a live mapping never makes a block disappear, and a cleanup never takes a block away from
a live mapping.

The system at the end runs the manager through arbitrary sequences of calls.
-/

namespace Vcass.Plx

open Conc Tiling
open Function (update)

namespace PlxAlm

/-- How many of the mappings live in the block at `h`. -/
def users (live : List Placed) (h : ℕ) : ℕ := live.countP fun p ↦ p.block = h

/-- **The users of the blocks.** Every live mapping lies in its block, and a block's counter is one
more than the number of its mappings. -/
structure Users (alm : PlxAlm) (live : List Placed) : Prop where
  wf : alm.WF
  num_lt : alm.segmentsNum < 2 ^ 16
  counter : ∀ h, (alm.entries h).counter ≠ 0 → (alm.entries h).counter = users live h + 1
  used : ∀ p ∈ live, (alm.entries p.block).counter ≠ 0
  within : ∀ p ∈ live, p.block ≤ p.segmentId ∧
    p.segmentId + p.segmentsNum ≤ p.block + alm.len p.block

variable {alm alm' : PlxAlm} {live : List Placed} {p : Placed} {m idx i seg addr size : ℕ}

theorem users_pos (hp : p ∈ live) : 0 < users live p.block :=
  List.countP_pos_iff.mpr ⟨p, hp, by simp⟩

theorem users_snoc (h : ℕ) :
    users (live ++ [p]) h = users live h + if p.block = h then 1 else 0 := by
  simp [users, List.countP_cons]

theorem users_eraseIdx (hi : live[i]? = some p) (h : ℕ) :
    users live h = users (live.eraseIdx i) h + if p.block = h then 1 else 0 := by
  obtain ⟨hlt, rfl⟩ := List.getElem?_eq_some_iff.mp hi
  have hperm := List.getElem_cons_eraseIdx_perm hlt
  rw [users, ← hperm.countP_eq, List.countP_cons]
  simp [users]

theorem Users.two_le (hu : Users alm live) (hp : p ∈ live) :
    2 ≤ (alm.entries p.block).counter := by
  have := hu.counter p.block (hu.used p hp)
  have := users_pos hp
  omega

theorem Users.released (hu : Users alm live) (hr : alm.Released alm') : Users alm' live := by
  have hkeep : ∀ p ∈ live, alm'.entries p.block = alm.entries p.block := fun p hp ↦
    hr.keep p.block (hu.two_le hp)
  refine ⟨hr.wf, hr.segmentsNum ▸ hu.num_lt, fun h hc ↦ ?_, fun p hp ↦ ?_, fun p hp ↦ ?_⟩
  · have heq := hr.sub h hc
    rw [heq] at hc ⊢
    exact hu.counter h hc
  · rw [hkeep p hp]
    exact hu.used p hp
  · rw [len, hkeep p hp]
    exact hu.within p hp

theorem Users.set_counter {c : ℕ} {live' : List Placed} (hu : Users alm live)
    (hc : (alm.entries m).counter ≠ 0) (hc' : c = users live' m + 1)
    (husers : ∀ h, h ≠ m → users live' h = users live h)
    (hused : ∀ p ∈ live', (alm.entries p.block).counter ≠ 0 ∧ p.block ≤ p.segmentId ∧
      p.segmentId + p.segmentsNum ≤ p.block + alm.len p.block) :
    Users { alm with entries := update alm.entries m { alm.entries m with counter := c } } live' := by
  obtain ⟨hwf, hlen⟩ := hu.wf.set_counter hc (c := c) (by omega)
  refine ⟨hwf, hu.num_lt, fun h hch ↦ ?_, fun p hp ↦ ?_, fun p hp ↦ ?_⟩
  · by_cases hhm : h = m
    · subst hhm
      simpa using hc'
    · simp only [Function.update_of_ne hhm] at hch ⊢
      rw [husers h hhm]
      exact hu.counter h hch
  · by_cases hpm : p.block = m
    · simp [hpm]
      omega
    · simp only [Function.update_of_ne hpm]
      exact (hused p hp).1
  · rw [hlen]
    exact (hused p hp).2

/-- **Embedding**: one more mapping in an existing block. -/
theorem Users.embed {segments addrMasked : ℕ} (hu : Users alm live)
    (hcov : alm.Covers addrMasked segments m idx) (hlt : (alm.entries m).counter + 1 < 2 ^ 16) :
    Users { alm with entries := update alm.entries m { alm.entries m with
      counter := ((alm.entries m).counter + 1) % 2 ^ 16 } }
      (live ++ [⟨m, (m + idx) % 2 ^ 32, segments⟩]) := by
  have hlen := len_of_counter hcov.used
  have hfits := hu.wf.tiled.fits m (hu.wf.len_pos hcov.used)
  have hle := hcov.le_len
  have hnum := hu.num_lt
  have hmod : (m + idx) % 2 ^ 32 = m + idx := Nat.mod_eq_of_lt (by omega)
  refine hu.set_counter hcov.used ?_ (fun h hhm ↦ ?_) fun p hp ↦ ?_
  · rw [Nat.mod_eq_of_lt hlt, hu.counter m hcov.used, users_snoc, if_pos rfl]
  · rw [users_snoc, if_neg (Ne.symm hhm)]
    rfl
  · rcases List.mem_append.mp hp with hp | hp
    · exact ⟨hu.used p hp, hu.within p hp⟩
    · rw [List.mem_singleton.mp hp]
      exact ⟨hcov.used, by dsimp only; omega, by dsimp only; omega⟩

/-- **A new block** with its first mapping. -/
theorem Users.place {segments addrMasked : ℕ} (hu : Users alm live)
    (hrun : alm.FreeRun segments m) :
    Users (alm.plxAlmPlace m addrMasked segments).2 (live ++ [⟨m, m % 2 ^ 32, segments⟩]) := by
  have hpos := hrun.pos
  have hfits := hrun.fits
  have hnum := hu.num_lt
  have hmod : m % 2 ^ 32 = m := Nat.mod_eq_of_lt (by omega)
  have hentries (i : ℕ) : (alm.plxAlmPlace m addrMasked segments).2.entries i = _ :=
    hu.wf.place_entries hrun hnum i
  have hlen : (alm.plxAlmPlace m addrMasked segments).2.len = _ := hu.wf.place_len hrun hnum
  have hm := hu.wf.free m (hrun.free m le_rfl (by omega))
  -- A live mapping is in another block, and this block is not in the free run.
  have hother : ∀ p ∈ live, p.block ≠ m := by
    rintro p hp rfl
    exact hu.used p hp (by rw [hm]; rfl)
  have hzero : users live m = 0 := List.countP_eq_zero.mpr fun p hp ↦ by simpa using hother p hp
  refine ⟨hu.wf.place hrun hnum, by rwa [place_segmentsNum], fun h hc ↦ ?_, fun p hp ↦ ?_,
    fun p hp ↦ ?_⟩
  · rw [hentries] at hc ⊢
    rw [users_snoc]
    split at hc
    · rename_i hhm
      subst hhm
      rw [if_pos rfl, if_pos rfl, hzero]
    · rename_i hhm
      split at hc
      · exact absurd rfl hc
      · rename_i hout
        rw [if_neg hhm, if_neg hout, if_neg (Ne.symm hhm), hu.counter h hc]
  · rcases List.mem_append.mp hp with hp | hp
    · rw [hentries, if_neg (hother p hp), if_neg]
      · exact hu.used p hp
      · intro hin
        have hfree := hrun.free _ hin.1 hin.2
        exact hu.used p hp (by rw [hu.wf.free _ hfree]; rfl)
    · rw [List.mem_singleton.mp hp, hentries, if_pos rfl]
      exact Nat.succ_ne_zero 1
  · rw [hlen]
    rcases List.mem_append.mp hp with hp | hp
    · rw [Function.update_of_ne (hother p hp)]
      exact hu.within p hp
    · rw [List.mem_singleton.mp hp, hmod, Function.update_self]
      exact ⟨le_rfl, le_rfl⟩

/-- **Deletion** of a live mapping leaves its block in place, with one user less. -/
theorem Users.del (hu : Users alm live) (hi : live[i]? = some p) (hle : p.segmentId ≤ seg)
    (hlt : seg < p.segmentId + p.segmentsNum) :
    ∃ alm', alm.plxAlmDelEntry seg = some (alm', none) ∧ Users alm' (live.eraseIdx i) ∧
      alm'.segmentsNum = alm.segmentsNum ∧ alm'.segmentSize = alm.segmentSize ∧
      alm'.len = alm.len ∧ ∀ h, (alm'.entries h).value = (alm.entries h).value ∧
        (alm'.entries h).counter ≤ (alm.entries h).counter := by
  have hp : p ∈ live := List.mem_of_getElem? hi
  have hin := hu.within p hp
  obtain ⟨hc, hdel⟩ := hu.wf.del (h := p.block) (i := seg) (by omega) (by omega)
  have htwo := hu.two_le hp
  have hcount := hu.counter p.block hc
  rw [if_neg (by omega)] at hdel
  refine ⟨_, hdel, hu.set_counter hc ?_ (fun h hhm ↦ ?_) fun q hq ↦ ?_, rfl, rfl,
    (hu.wf.set_counter hc (by omega)).2, fun h ↦ ?_⟩
  · have := users_eraseIdx hi p.block
    rw [if_pos rfl] at this
    omega
  · rw [users_eraseIdx hi h, if_neg (Ne.symm hhm)]
    rfl
  · have hq' := List.mem_of_mem_eraseIdx hq
    exact ⟨hu.used q hq', hu.within q hq'⟩
  · by_cases hhp : h = p.block
    · subst hhp
      simp
    · simp only [Function.update_of_ne hhp]
      exact ⟨trivial, le_rfl⟩

theorem WF.of_zero (hzero : ∀ i, alm.entries i = zeroEntry) : alm.WF := by
  have hlen (i : ℕ) : alm.len i = 0 := len_eq_zero (by rw [hzero]; rfl)
  refine ⟨⟨fun h hpos ↦ ?_, fun i _ ↦ hlen i⟩, fun h hc ↦ ?_, fun h i hhi hlt ↦ ?_, fun i _ ↦ hzero i⟩
  · rw [hlen] at hpos
    omega
  · exact absurd (by rw [hzero]; rfl) hc
  · rw [hlen] at hlt
    omega

theorem Users.of_zero (hnum : alm.segmentsNum < 2 ^ 16) (hzero : ∀ i, alm.entries i = zeroEntry) :
    Users alm [] :=
  ⟨WF.of_zero hzero, hnum, fun h hc ↦ absurd (by rw [hzero]; rfl) hc, by simp, by simp⟩

theorem WF.reset_entries (hwf : alm.WF) (i : ℕ) : alm.plxAlmReset.entries i = zeroEntry := by
  simp only [plxAlmReset, clearEntries]
  split
  · rfl
  · rename_i hout
    refine hwf.free i ⟨len_eq_zero ?_, ?_⟩
    · by_contra hc
      have := hwf.head_lt hc
      omega
    · rintro ⟨h, hhi, hlt⟩
      have := hwf.tiled.fits h (by omega)
      omega

end PlxAlm

/-! ## Sequences of calls -/

namespace Manager

open PlxAlm

/-- The manager, the live mappings, and how often each block was embedded into since it was made.
`crashed` records a `BUG_ON`. -/
structure Sys where
  alm : PlxAlm
  live : List Placed
  embeds : ℕ → ℕ
  crashed : Bool

inductive Label
  | init (segmentsNum aperLen : ℕ)
  | add (addr size : ℕ)
  /-- The deletion of a segment of the `i`-th live mapping. -/
  | del (i segmentId : ℕ)
  | reset

/-- A manager right after `plx_alm_init`, which checks the table. -/
def start (segmentsNum aperLen : ℕ) : Sys where
  alm := plxAlmInit segmentsNum aperLen
  live := []
  embeds _ := 0
  crashed := !(plxAlmInit segmentsNum aperLen).plxAlmCheck

def step (s : Sys) (l : Label) : Option Sys :=
  if s.crashed then none
  else match l with
  | .init segmentsNum aperLen => some (start segmentsNum aperLen)
  | .add addr size =>
    match s.alm.plxAlmAddEntry addr size with
    | none => some { s with crashed := true }
    | some (_, alm, none) => some { s with alm := alm }
    | some (rc, alm, some p) => some { s with
        alm := alm
        live := s.live ++ [p]
        embeds := update s.embeds p.block (if rc = 0 then 0 else s.embeds p.block + 1) }
  | .del i segmentId =>
    match s.live[i]? with
    | none => none
    | some p =>
      if p.segmentId ≤ segmentId ∧ segmentId < p.segmentId + p.segmentsNum then
        match s.alm.plxAlmDelEntry segmentId with
        | none => some { s with crashed := true }
        | some (alm, _) => some { s with alm := alm, live := s.live.eraseIdx i }
      else none
  | .reset => some { s with
      alm := s.alm.plxAlmReset
      live := []
      crashed := !s.alm.plxAlmCheck }

/-- The table fits its 16-bit fields and has segments of a power of two. -/
def SizeOk (segmentsNum aperLen : ℕ) : Prop :=
  segmentsNum < 2 ^ 16 ∧ ∃ k, aperLen / segmentsNum = 2 ^ k

/-- A transition with such a table, after which no block was embedded into more than 65533 times. -/
def Admissible (_ : Sys) (l : Label) (s' : Sys) : Prop :=
  (∀ segmentsNum aperLen, l = .init segmentsNum aperLen → SizeOk segmentsNum aperLen) ∧
    ∀ h, s'.embeds h ≤ 65533

structure Inv (s : Sys) : Prop where
  users : Users s.alm s.live
  embeds : ∀ h, (s.alm.entries h).counter ≠ 0 → (s.alm.entries h).counter ≤ s.embeds h + 2
  alive : s.crashed = false

theorem Inv.start {segmentsNum aperLen : ℕ} (h : segmentsNum < 2 ^ 16) :
    Inv (start segmentsNum aperLen) := by
  have hu : Users (plxAlmInit segmentsNum aperLen) [] := .of_zero h fun _ ↦ rfl
  refine ⟨hu, fun h hc ↦ absurd rfl hc, ?_⟩
  rw [Manager.start, hu.wf.check]
  rfl

theorem Inv.released {s : Sys} {alm : PlxAlm} (h : Inv s) (hr : s.alm.Released alm) :
    Inv { s with alm := alm } := by
  refine ⟨h.users.released hr, fun h' hc ↦ ?_, h.alive⟩
  have heq := hr.sub h' hc
  dsimp only at hc ⊢
  rw [heq] at hc ⊢
  exact h.embeds h' hc

theorem Inv.add {s s' : Sys} {addr size : ℕ} (h : Inv s) (hembeds : ∀ h, s'.embeds h ≤ 65533)
    (hs : Manager.step s (.add addr size) = some s') : Inv s' := by
  obtain ⟨alm₁, rc, alm', out, heq, hr, -, hadd⟩ : ∃ alm₁ rc alm' out, _ ∧ _ ∧ _ ∧ _ :=
    h.users.wf.add
  rw [Manager.step.eq_def, if_neg (by simp [h.alive])] at hs
  dsimp only at hs
  rw [heq] at hs
  have h₁ := h.released hr
  cases hadd with
  | refused =>
    cases hs
    exact h₁
  | @embedded m idx hsize _ hcov =>
    cases hs
    have hrc : -eexist ≠ 0 := by decide
    have hm := hembeds m
    have hcount := h₁.embeds m hcov.used
    simp only [Function.update_self, if_neg hrc] at hm hcount
    have hlt : (alm₁.entries m).counter + 1 < 2 ^ 16 := by omega
    refine ⟨h₁.users.embed hcov hlt, fun h' hc ↦ ?_, h.alive⟩
    by_cases hhm : h' = m
    · subst hhm
      simp only [Function.update_self, if_neg hrc, Nat.mod_eq_of_lt hlt]
      omega
    · simp only [Function.update_of_ne hhm] at hc ⊢
      exact h₁.embeds h' hc
  | @fresh m hsize hrun =>
    cases hs
    refine ⟨h₁.users.place hrun, fun h' hc ↦ ?_, h.alive⟩
    dsimp only at hc ⊢
    rw [h₁.users.wf.place_entries hrun h₁.users.num_lt] at hc ⊢
    by_cases hhm : h' = m
    · subst hhm
      rw [if_pos rfl, Function.update_self, if_pos rfl]
    · rw [Function.update_of_ne hhm]
      rw [if_neg hhm] at hc ⊢
      split at hc
      · exact absurd rfl hc
      · rename_i hout
        rw [if_neg hout]
        exact h₁.embeds h' hc

theorem Inv.step {s s' : Sys} {l : Label} (h : Inv s) (hP : Admissible s l s')
    (hs : step s l = some s') : Inv s' := by
  have hstep := hs
  rw [Manager.step.eq_def, if_neg (by simp [h.alive])] at hs
  cases l with
  | init segmentsNum aperLen =>
    cases hs
    exact Inv.start (hP.1 _ _ rfl).1
  | add addr size => exact h.add hP.2 hstep
  | del i segmentId =>
    dsimp only at hs
    split at hs
    · cases hs
    · rename_i p hi
      split at hs
      · rename_i hin
        obtain ⟨alm', hdel, hu, -, -, -, hle⟩ := h.users.del hi hin.1 hin.2
        rw [hdel] at hs
        cases hs
        refine ⟨hu, fun h' hc ↦ (hle h').2.trans (h.embeds h' fun hzero ↦ hc ?_), h.alive⟩
        exact Nat.le_zero.mp (hzero ▸ (hle h').2)
      · cases hs
  | reset =>
    cases hs
    refine ⟨.of_zero h.users.num_lt h.users.wf.reset_entries, fun h' hc ↦ ?_, ?_⟩
    · exact absurd (by rw [h.users.wf.reset_entries]; rfl) hc
    · rw [h.users.wf.check]
      rfl

/-- **The table stays well-formed.** In every sequence of calls on tables of fewer than 65536 segments
the check succeeds after every call, and no `BUG_ON` fires. -/
theorem table_check_holds {segmentsNum aperLen : ℕ} {ls : List Label} {s : Sys}
    (hsize : SizeOk segmentsNum aperLen) (hP : Along Admissible step (start segmentsNum aperLen) ls)
    (h : exec step (start segmentsNum aperLen) ls = some s) :
    s.alm.plxAlmCheck = true ∧ s.alm.WF ∧ s.crashed = false := by
  have hinv : Inv s :=
    exec_invariant (P := Admissible) (fun hi hp hs ↦ Inv.step hi hp hs) hP (Inv.start hsize.1) h
  exact ⟨hinv.users.wf.check, hinv.users.wf, hinv.alive⟩

theorem embeds_step {s s' : Sys} {l : Label} {n : ℕ} (hn : ∀ h, s.embeds h ≤ n)
    (hs : step s l = some s') (h : ℕ) : s'.embeds h ≤ n + 1 := by
  have hle := hn h
  rw [step.eq_def] at hs
  split at hs
  · cases hs
  cases l with
  | init segmentsNum aperLen =>
    cases hs
    exact Nat.zero_le _
  | add addr size =>
    dsimp only at hs
    split at hs <;> cases hs
    · exact hle.trans (Nat.le_succ n)
    · exact hle.trans (Nat.le_succ n)
    · rename_i p _
      by_cases hp : h = p.block
      · subst hp
        simp only [Function.update_self]
        split <;> omega
      · simp only [Function.update_of_ne hp]
        omega
  | del i segmentId =>
    dsimp only at hs
    split at hs
    · cases hs
    · split at hs
      · split at hs <;> cases hs <;> exact hle.trans (Nat.le_succ n)
      · cases hs
  | reset =>
    cases hs
    exact hle.trans (Nat.le_succ n)

/-- A short sequence of calls cannot overflow a counter. -/
theorem admissible_of_short {s : Sys} {ls : List Label} {n : ℕ} (hn : ∀ h, s.embeds h ≤ n)
    (hlen : n + ls.length ≤ 65533)
    (hsize : ∀ segmentsNum aperLen, .init segmentsNum aperLen ∈ ls → SizeOk segmentsNum aperLen) :
    Along Admissible step s ls := by
  induction ls generalizing s n with
  | nil => trivial
  | cons l ls ih =>
    intro s' hs'
    have hn' := embeds_step hn hs'
    rw [List.length_cons] at hlen
    refine ⟨⟨fun segmentsNum aperLen hl ↦ ?_, fun h ↦ (hn' h).trans (by omega)⟩, ih hn' (by omega) ?_⟩
    · exact hsize _ _ (hl ▸ List.mem_cons_self)
    · exact fun segmentsNum aperLen hl ↦ hsize _ _ (List.mem_cons_of_mem _ hl)

/-- A mapping of two segments, a second mapping inside it, and the deletion of the first. -/
theorem two_mappings_check :
    ∃ s, exec step (start 4 16384) [.add 4096 8192, .add 8192 100, .del 0 1] = some s ∧
      s.live = [⟨0, 1, 1⟩] ∧ s.alm.plxAlmCheck = true ∧ s.alm.WF ∧ s.crashed = false := by
  have hrun : ∃ s, exec step (start 4 16384) [.add 4096 8192, .add 8192 100, .del 0 1] = some s ∧
      s.live = [⟨0, 1, 1⟩] := ⟨_, rfl, rfl⟩
  obtain ⟨s, hs, hlive⟩ := hrun
  have hP : Along Admissible step (start 4 16384) [.add 4096 8192, .add 8192 100, .del 0 1] :=
    admissible_of_short (fun _ ↦ le_rfl) (by decide) (by simp)
  exact ⟨s, hs, hlive, table_check_holds ⟨by decide, 12, rfl⟩ hP hs⟩

/-! ### A table that does not fit

With 65536 segments the length of the block that takes them all is stored as 0. -/

theorem find_zero_found {alm : PlxAlm} {addrMasked segments m fuel i freeSlots : ℕ}
    (hzero : ∀ i, (alm.entries i).counter = 0) :
    alm.plxAlmFind addrMasked segments fuel i freeSlots (some m) = some (m, 0) := by
  induction fuel generalizing i with
  | zero => rfl
  | succ fuel ih =>
    rw [plxAlmFind.eq_def]
    dsimp only
    split
    · rw [if_pos (hzero i)]
      exact ih
    · rfl

/-- In an empty table the first run of free slots is taken. -/
theorem find_zero {alm : PlxAlm} {addrMasked segments fuel i : ℕ}
    (hzero : ∀ i, (alm.entries i).counter = 0) (hi : i < segments)
    (hseg : segments ≤ alm.segmentsNum) (hfuel : segments ≤ i + fuel) :
    alm.plxAlmFind addrMasked segments fuel i i none = some (0, 0) := by
  induction fuel generalizing i with
  | zero => omega
  | succ fuel ih =>
    rw [plxAlmFind.eq_def]
    dsimp only
    rw [if_pos (by omega), if_pos (hzero i)]
    by_cases hlast : i + 1 = segments
    · rw [if_pos hlast, hlast, Nat.sub_self]
      exact find_zero_found hzero
    · rw [if_neg hlast]
      exact ih (by omega) (by omega)

/-- The whole table is taken by the block at 0. -/
theorem oversized_add :
    (plxAlmInit 65536 65536).plxAlmAddEntry 0 65536 =
      some (0, ((plxAlmInit 65536 65536).plxAlmPlace 0 0 65536).2, some ⟨0, 0, 65536⟩) := by
  have hseg : (plxAlmInit 65536 65536).segmentsOf 0 65536 = 65536 := by decide
  have haddr : (plxAlmInit 65536 65536).addrMasked 0 = 0 := by decide
  have hfind : (plxAlmInit 65536 65536).plxAlmFind 0 65536 65536 0 0 none = some (0, 0) :=
    find_zero (fun _ ↦ rfl) (by omega) le_rfl (by omega)
  have hsize : ¬ (65536 = 0 ∨ (plxAlmInit 65536 65536).segmentSize *
      (plxAlmInit 65536 65536).segmentsNum % 2 ^ 64 < 65536) := by decide
  have hrc : ((plxAlmInit 65536 65536).plxAlmPlace 0 0 65536).1 = 0 := by decide
  rw [plxAlmAddEntry, plxAlmAddEntryRec, hseg, haddr, if_neg hsize,
    show (plxAlmInit 65536 65536).segmentsNum = 65536 from rfl, hfind]
  dsimp only
  rw [hrc, show (0 + 0) % 2 ^ 32 = 0 from rfl]

theorem check_zero_length {alm : PlxAlm} (hnum : 0 < alm.segmentsNum)
    (hc : (alm.entries 0).counter ≠ 0) (hlen : (alm.entries 0).segmentsCount = 0) :
    alm.plxAlmCheck = false := by
  obtain ⟨n, hn⟩ := Nat.exists_eq_succ_of_ne_zero hnum.ne'
  rw [plxAlmCheck, hn, plxAlmCheckLoop, if_pos hnum, if_neg hc, if_pos hlen]

theorem step_add {s : Sys} {addr size : ℕ} {rc : ℤ} {alm : PlxAlm} {p : Placed}
    (halive : s.crashed = false) (hadd : s.alm.plxAlmAddEntry addr size = some (rc, alm, some p)) :
    step s (.add addr size) = some { s with
      alm := alm
      live := s.live ++ [p]
      embeds := update s.embeds p.block (if rc = 0 then 0 else s.embeds p.block + 1) } := by
  rw [step.eq_def, if_neg (by simp [halive])]
  dsimp only
  rw [hadd]

/-- One mapping takes all 65536 segments, the length of its block is stored as 0, and the check
fails. -/
theorem oversized_table_check_fails :
    (∃ k, 65536 / 65536 = 2 ^ k) ∧ ∃ s, exec step (start 65536 65536) [.add 0 65536] = some s ∧
      (∀ h, s.embeds h ≤ 65533) ∧ s.alm.plxAlmCheck = false := by
  have halive : (start 65536 65536).crashed = false := by
    rw [start, (WF.init 65536 65536).check]
    rfl
  have hstep := step_add (s := start 65536 65536) halive oversized_add
  refine ⟨⟨0, rfl⟩, _, exec_cons.mpr ⟨_, hstep, exec_nil⟩, fun h ↦ ?_, ?_⟩
  · exact (embeds_step (n := 0) (fun _ ↦ le_rfl) hstep h).trans (by omega)
  · have hentry : ((plxAlmInit 65536 65536).plxAlmPlace 0 0 65536).2.entries 0 = ⟨0, 2, 0, 0⟩ := by
      decide
    apply check_zero_length
    · rw [place_segmentsNum]
      exact Nat.succ_pos _
    · rw [hentry]
      decide
    · rw [hentry]

end Manager

end Vcass.Plx
