import Vcass.Vop.AvailRing

/-!
# VOP: the advertised sizes of the kvec rings

The producer of the kvec rings tells the peer how much data every buffer of a ring can take: the word
`send_max_size` of the ring, in the memory of the peer, is the smallest size that was put into it. It is
written only when the private copy `send_max_size_local` changes. The copy is set up by
`vop_kvec_buff_init` and lives as long as the device, while the word goes with the mapping: after a
reboot of the peer it is 0 again.
-/

namespace Vcass.Vop.SizeClass

open AvailRing Conc
open Function (update)

/-! ## The producer -/

/-- One ring, with the sizes that were put into it since the last map. -/
structure Ring where
  sendMaxSizeLocal : ℕ
  /-- The word of the buffer that was mapped last. -/
  sendMaxSize : ℕ
  since : List ℕ
  deriving DecidableEq, Repr

structure Sys where
  mapped : Bool
  rings : ℕ → Ring

inductive Label
  /-- `vop_kvec_map_buf`, of a buffer that is zeroed or as it was; `ok` says whether `ioremap`
  succeeds. -/
  | map (fresh ok : Bool)
  | unmap
  /-- `vop_kvec_put` of a chain, given by the lengths of its vectors. -/
  | put (wiov : List UInt32)
  deriving DecidableEq, Repr

def vopKvecMapBuf (s : Sys) (fresh ok : Bool) : Sys :=
  if ok then
    { mapped := true
      rings r := { s.rings r with
        sendMaxSize := if fresh then 0 else (s.rings r).sendMaxSize
        since := [] } }
  -- The old mapping is removed before `ioremap`.
  else { s with mapped := false }

/-- The size that `vop_kvec_put` looks at: the length of the second vector. -/
def putSize (wiov : List UInt32) : ℕ := (wiov.getD 1 0).toNat

def Ring.put (ring : Ring) (size : ℕ) : Ring :=
  if ring.sendMaxSizeLocal = 0 ∨ size < ring.sendMaxSizeLocal then
    ⟨size, size, ring.since ++ [size]⟩
  else { ring with since := ring.since ++ [size] }

def vopKvecPut (s : Sys) (wiov : List UInt32) : Sys :=
  match getRingIdWrite (putSize wiov) with
  | none => s
  | some r => { s with rings := update s.rings r ((s.rings r).put (putSize wiov)) }

/-- `vop_kvec_buf_update` puts only while the rings are mapped. -/
def step (s : Sys) : Label → Option Sys
  | .map fresh ok => some (vopKvecMapBuf s fresh ok)
  | .unmap => some { s with mapped := false }
  | .put wiov => if s.mapped then some (vopKvecPut s wiov) else none

/-- After `vop_kvec_buff_init`. -/
def init : Sys := ⟨false, fun _ ↦ ⟨0, 0, []⟩⟩

/-! ## The peer -/

/-- On the other machine, by the words of the rings. -/
def vopKvecSizeToRingId (sendMaxSize : ℕ → ℕ) (size : ℕ) : ℕ :=
  ((List.range kvecBufNum).find? fun r ↦ size ≤ sendMaxSize r).getD (kvecBufNum - 1)

def Sys.words (s : Sys) (r : ℕ) : ℕ := (s.rings r).sendMaxSize

/-- The word is the smallest size that was put into the ring since the last map. -/
def Ring.Advertises (ring : Ring) : Prop :=
  ring.since ≠ [] → ring.sendMaxSize ≠ 0 ∧ ring.sendMaxSize ∈ ring.since ∧
    ∀ size ∈ ring.since, ring.sendMaxSize ≤ size

/-- Once all classes are offered, data that fits the buffers of some ring is sent to one that it fits,
and not to a larger ring than need be. -/
def FindsRing (s : Sys) : Prop :=
  (∀ r < kvecBufNum, (s.rings r).since ≠ []) →
    ∀ size, ∀ r < kvecBufNum, (∀ x ∈ (s.rings r).since, size ≤ x) →
      vopKvecSizeToRingId s.words size ≤ r ∧
        ∀ x ∈ (s.rings (vopKvecSizeToRingId s.words size)).since, size ≤ x

/-- What the advertised sizes are for. -/
structure Advertised (s : Sys) : Prop where
  sizes : ∀ r, (s.rings r).Advertises
  finds : FindsRing s

/-- The first chain that goes into a ring after a map is smaller than all before it, or there was none,
or its size is the word that is already there. -/
def FirstPut (s : Sys) : Label → Prop
  | .put wiov => ∀ r, getRingIdWrite (putSize wiov) = some r → (s.rings r).since = [] →
      (s.rings r).sendMaxSizeLocal = 0 ∨ putSize wiov < (s.rings r).sendMaxSizeLocal ∨
        (s.rings r).sendMaxSize = putSize wiov
  | _ => True

/-! ## The ring that is found -/

section Finds

variable {s : Sys} {size r : ℕ}

theorem finds_of_sizes (h : ∀ r, (s.rings r).Advertises) : FindsRing s := by
  intro hoffered size r hr hfit
  have hle : size ≤ s.words r := hfit _ (h r (hoffered r hr)).2.1
  -- The search ends at `r` at the latest.
  cases hfind : (List.range kvecBufNum).find? fun r ↦ size ≤ s.words r with
  | none =>
    have hnot := List.find?_eq_none.mp hfind r (List.mem_range.mpr hr)
    exact absurd hle (by simpa using hnot)
  | some id =>
    have hid : vopKvecSizeToRingId s.words size = id := by rw [vopKvecSizeToRingId, hfind, Option.getD_some]
    obtain ⟨hsize, hrange, hbefore⟩ := List.find?_range_eq_some.mp hfind
    rw [hid]
    constructor
    · by_contra hgt
      have hnot := hbefore r (Nat.not_le.mp hgt)
      simp only [Bool.not_eq_true', decide_eq_false_iff_not] at hnot
      exact hnot hle
    · intro x hx
      have hadvertised := h id (List.ne_nil_of_mem hx)
      exact (of_decide_eq_true hsize).trans (hadvertised.2.2 x hx)

theorem advertised_iff : Advertised s ↔ ∀ r, (s.rings r).Advertises :=
  ⟨Advertised.sizes, fun h ↦ ⟨h, finds_of_sizes h⟩⟩

end Finds

/-! ## The invariant

The word is the private copy or has been zeroed since, and the copy is a lower bound of everything that
was put. Neither needs the condition. -/

structure Ring.Inv (ring : Ring) : Prop where
  word : ring.sendMaxSize = 0 ∨ ring.sendMaxSize = ring.sendMaxSizeLocal
  lower : ∀ size ∈ ring.since, 0 < ring.sendMaxSizeLocal ∧ ring.sendMaxSizeLocal ≤ size

section Put

variable {ring : Ring} {size : ℕ}

theorem Ring.Inv.put (h : ring.Inv) (hsize : 0 < size) : (ring.put size).Inv := by
  rw [Ring.put]
  split_ifs with hwrite
  · refine ⟨.inr rfl, fun x hx ↦ ⟨hsize, ?_⟩⟩
    rcases List.mem_append.mp hx with hx | hx
    · have hlower := h.lower x hx
      show size ≤ x
      omega
    · exact le_of_eq (List.mem_singleton.mp hx).symm
  · refine ⟨h.word, fun x hx ↦ ?_⟩
    rcases List.mem_append.mp hx with hx | hx
    · exact h.lower x hx
    · rw [List.mem_singleton.mp hx]
      show 0 < ring.sendMaxSizeLocal ∧ ring.sendMaxSizeLocal ≤ size
      omega

/-- A put keeps the word right exactly if it writes it, or the word was already right. -/
theorem Ring.Inv.advertises_put_iff (h : ring.Inv) (hsize : 0 < size) (hring : ring.Advertises) :
    (ring.put size).Advertises ↔ (ring.since = [] →
      ring.sendMaxSizeLocal = 0 ∨ size < ring.sendMaxSizeLocal ∨ ring.sendMaxSize = size) := by
  rw [Ring.put]
  split_ifs with hwrite
  · refine iff_of_true (fun _ ↦ ⟨hsize.ne', by simp, fun x hx ↦ ?_⟩) fun _ ↦ ?_
    · rcases List.mem_append.mp hx with hx | hx
      · have hlower := h.lower x hx
        show size ≤ x
        omega
      · exact le_of_eq (List.mem_singleton.mp hx).symm
    · exact hwrite.imp_right .inl
  · obtain ⟨hzero, hle⟩ := not_or.mp hwrite
    by_cases hsince : ring.since = []
    · -- The first chain: the word is its size, or it is not advertised.
      simp only [Ring.Advertises, hsince, List.nil_append, hzero, hle, false_or, forall_const]
      constructor
      · intro hadv
        exact List.mem_singleton.mp (hadv (by simp)).2.1
      · intro hword _
        rw [hword]
        exact ⟨hsize.ne', by simp, by simp⟩
    · -- Later ones: the word is the copy, which is not above the size.
      refine iff_of_true (fun _ ↦ ?_) fun hnil ↦ absurd hnil hsince
      obtain ⟨hne, hmem, hleast⟩ := hring hsince
      refine ⟨hne, List.mem_append_left _ hmem, fun x hx ↦ ?_⟩
      rcases List.mem_append.mp hx with hx | hx
      · exact hleast x hx
      · rw [List.mem_singleton.mp hx]
        have hword := h.word.resolve_left hne
        show ring.sendMaxSize ≤ size
        omega

end Put

/-! ## Runs -/

section Runs

variable {s s' : Sys} {l : Label} {ls : List Label}

theorem putSize_pos {size r : ℕ} (h : getRingIdWrite size = some r) : 0 < size := by
  rw [getRingIdWrite] at h
  split_ifs at h with hsmall
  all_goals
    rw [mtuDefault] at hsmall
    omega

theorem step_cases (hs' : step s l = some s') :
    (∃ fresh, l = .map fresh true ∧ s' = vopKvecMapBuf s fresh true) ∨
    (s'.rings = s.rings ∧ FirstPut s l) ∨
    (∃ wiov r, l = .put wiov ∧ getRingIdWrite (putSize wiov) = some r ∧
      s'.rings = update s.rings r ((s.rings r).put (putSize wiov))) := by
  cases l with
  | map fresh ok =>
    obtain rfl := Option.some_inj.mp hs'
    cases ok with
    | false => exact .inr (.inl ⟨rfl, trivial⟩)
    | true => exact .inl ⟨fresh, rfl, rfl⟩
  | unmap =>
    obtain rfl := Option.some_inj.mp hs'
    exact .inr (.inl ⟨rfl, trivial⟩)
  | put wiov =>
    rw [step] at hs'
    split_ifs at hs' with hmapped
    obtain rfl := Option.some_inj.mp hs'
    rw [vopKvecPut]
    cases hid : getRingIdWrite (putSize wiov) with
    | none =>
      refine .inr (.inl ⟨rfl, fun r hr ↦ ?_⟩)
      rw [hid] at hr
      cases hr
    | some r => exact .inr (.inr ⟨wiov, r, rfl, hid, rfl⟩)

theorem step_inv (h : ∀ r, (s.rings r).Inv) (hs' : step s l = some s') (r : ℕ) : (s'.rings r).Inv := by
  obtain ⟨fresh, -, rfl⟩ | ⟨hrings, -⟩ | ⟨wiov, q, -, hid, hrings⟩ := step_cases hs'
  · refine ⟨?_, fun size hsize ↦ absurd hsize List.not_mem_nil⟩
    cases fresh with
    | false => exact (h r).word
    | true => exact .inl rfl
  · rw [hrings]
    exact h r
  · rw [hrings]
    by_cases hr : r = q
    · subst hr
      rw [Function.update_self]
      exact (h r).put (putSize_pos hid)
    · rw [Function.update_of_ne hr]
      exact h r

theorem step_advertised_iff (h : ∀ r, (s.rings r).Inv) (hs : Advertised s) (hs' : step s l = some s') :
    Advertised s' ↔ FirstPut s l := by
  rw [advertised_iff]
  obtain ⟨fresh, rfl, rfl⟩ | ⟨hrings, hcond⟩ | ⟨wiov, q, rfl, hid, hrings⟩ := step_cases hs'
  · exact iff_of_true (fun r hsince ↦ absurd rfl hsince) trivial
  · refine iff_of_true (fun r ↦ ?_) hcond
    rw [hrings]
    exact hs.sizes r
  · -- Only ring `q` is touched.
    have hput := (h q).advertises_put_iff (putSize_pos hid) (hs.sizes q)
    rw [hrings]
    constructor
    · intro hadv r hr
      obtain rfl := Option.some_inj.mp (hid.symm.trans hr)
      have hq := hadv q
      rw [Function.update_self] at hq
      exact hput.mp hq
    · intro hcond r
      by_cases hr : r = q
      · subst hr
        rw [Function.update_self]
        exact hput.mpr (hcond r hid)
      · rw [Function.update_of_ne hr]
        exact hs.sizes r

theorem init_advertised : Advertised init :=
  advertised_iff.mpr fun _ hsince ↦ absurd rfl hsince

/-- In a run the advertised sizes are right after every operation exactly if the first chain that goes
into a ring after each map updates the word or finds it right. -/
theorem sizes_advertised_iff :
    Along (fun _ _ s' ↦ Advertised s') step init ls ↔ Along (fun s l _ ↦ FirstPut s l) step init ls := by
  refine along_congr (I := fun s ↦ (∀ r, (s.rings r).Inv) ∧ Advertised s) (fun ⟨h, hs⟩ hs' ↦ ?_)
    ⟨fun _ ↦ ?_, init_advertised⟩
  · exact ⟨step_advertised_iff h hs hs', fun hadv ↦ ⟨step_inv h hs', hadv⟩⟩
  · exact ⟨.inl rfl, fun size hsize ↦ absurd hsize List.not_mem_nil⟩

end Runs

/-! ## The private copy

What the condition asks of the private copy is something about the chains that were put since the start: the copy is
the smallest of their sizes.
-/

section Smallest

variable {s s' t : Sys} {l : Label} {ls : List Label} {ring : Ring} {sizes : List ℕ} {size r : ℕ}

/-- The size that goes into a ring at a step, if one does. -/
def sizeInto (r : ℕ) : Label → List ℕ
  | .map _ _ => []
  | .unmap => []
  | .put wiov => if getRingIdWrite (putSize wiov) = some r then [putSize wiov] else []

/-- All sizes that went into a ring. -/
def sizesInto (r : ℕ) (ls : List Label) : List ℕ := ls.flatMap (sizeInto r)

structure Ring.Smallest (ring : Ring) (sizes : List ℕ) : Prop where
  eq_zero_iff : ring.sendMaxSizeLocal = 0 ↔ sizes = []
  mem : sizes ≠ [] → ring.sendMaxSizeLocal ∈ sizes
  le : ∀ x ∈ sizes, ring.sendMaxSizeLocal ≤ x

theorem Ring.Smallest.put (h : ring.Smallest sizes) (hsize : 0 < size) :
    (ring.put size).Smallest (sizes ++ [size]) := by
  rw [Ring.put]
  split_ifs with hwrite
  · refine ⟨iff_of_false hsize.ne' (by simp), fun _ ↦ by simp, fun x hx ↦ ?_⟩
    rcases List.mem_append.mp hx with hx | hx
    · have hle := h.le x hx
      have hne : ring.sendMaxSizeLocal ≠ 0 := fun hzero ↦ List.ne_nil_of_mem hx (h.eq_zero_iff.mp hzero)
      show size ≤ x
      omega
    · exact le_of_eq (List.mem_singleton.mp hx).symm
  · obtain ⟨hne, hle⟩ := not_or.mp hwrite
    refine ⟨iff_of_false hne (by simp), fun _ ↦ ?_, fun x hx ↦ ?_⟩
    · exact List.mem_append_left _ (h.mem fun hnil ↦ hne (h.eq_zero_iff.mpr hnil))
    · rcases List.mem_append.mp hx with hx | hx
      · exact h.le x hx
      · rw [List.mem_singleton.mp hx]
        exact Nat.not_lt.mp hle

theorem step_smallest (h : (s.rings r).Smallest sizes) (hs' : step s l = some s') :
    (s'.rings r).Smallest (sizes ++ sizeInto r l) := by
  cases l with
  | map fresh ok =>
    obtain rfl := Option.some_inj.mp hs'
    rw [sizeInto, List.append_nil]
    cases ok with
    | false => exact h
    | true => exact ⟨h.eq_zero_iff, h.mem, h.le⟩
  | unmap =>
    obtain rfl := Option.some_inj.mp hs'
    rwa [sizeInto, List.append_nil]
  | put wiov =>
    rw [step] at hs'
    split_ifs at hs'
    obtain rfl := Option.some_inj.mp hs'
    rw [vopKvecPut, sizeInto]
    cases hid : getRingIdWrite (putSize wiov) with
    | none => rwa [if_neg nofun, List.append_nil]
    | some q =>
      by_cases hq : q = r
      · subst hq
        rw [if_pos rfl]
        dsimp only
        rw [Function.update_self]
        exact h.put (putSize_pos hid)
      · rw [if_neg fun heq ↦ hq (Option.some_inj.mp heq), List.append_nil]
        dsimp only
        rwa [Function.update_of_ne (Ne.symm hq)]

theorem exec_smallest (h : (s.rings r).Smallest sizes) (hs : exec step s ls = some t) :
    (t.rings r).Smallest (sizes ++ sizesInto r ls) := by
  induction ls generalizing s sizes with
  | nil =>
    rw [exec_nil, Option.some_inj] at hs
    rw [sizesInto, List.flatMap_nil, List.append_nil, ← hs]
    exact h
  | cons l ls ih =>
    obtain ⟨u, hu, hs⟩ := exec_cons.mp hs
    rw [sizesInto, List.flatMap_cons, ← List.append_assoc]
    exact ih (step_smallest h hu) hs

/-- **The condition by the history.** The first chain behind a map is smaller than all that were put into its ring
since the start, or the word is right without it. -/
theorem firstPut_iff {wiov : List UInt32} (hs : exec step init ls = some s) :
    FirstPut s (.put wiov) ↔ ∀ r, getRingIdWrite (putSize wiov) = some r → (s.rings r).since = [] →
      (∀ x ∈ sizesInto r ls, putSize wiov < x) ∨ (s.rings r).sendMaxSize = putSize wiov := by
  refine forall_congr' fun r ↦ imp_congr_right fun _ ↦ imp_congr_right fun _ ↦ ?_
  have hinit : (init.rings r).Smallest [] := ⟨iff_of_true rfl rfl, fun hne ↦ absurd rfl hne, nofun⟩
  have h := exec_smallest hinit hs
  rw [List.nil_append] at h
  rw [← or_assoc]
  refine or_congr_left ?_
  constructor
  · rintro (hzero | hlt) x hx
    · exact absurd (h.eq_zero_iff.mp hzero) (List.ne_nil_of_mem hx)
    · exact hlt.trans_le (h.le x hx)
  · intro hall
    by_cases hnil : sizesInto r ls = []
    · exact .inl (h.eq_zero_iff.mpr hnil)
    · exact .inr (hall _ (h.mem hnil))

end Smallest

/-- The peer reboots between two chains of the same size. -/
def rebootRun : List Label :=
  [Label.map true true, Label.put [12, 2000], Label.unmap, Label.map true true, Label.put [12, 2000]]

/-- The word of the new buffer stays 0. -/
theorem reboot_hides_size :
    (exec step init rebootRun).map (fun s ↦ s.rings 0) = some ⟨2000, 0, [2000]⟩ ∧
      ¬Along (fun _ _ s' ↦ Advertised s') step init rebootRun := by
  constructor
  · decide
  · intro h
    obtain ⟨-, h⟩ := h _ rfl
    obtain ⟨-, h⟩ := h _ rfl
    obtain ⟨-, h⟩ := h _ rfl
    obtain ⟨-, h⟩ := h _ rfl
    obtain ⟨hlast, -⟩ := h _ rfl
    exact (hlast.sizes 0 (by decide)).1 (by decide)

end Vcass.Vop.SizeClass
