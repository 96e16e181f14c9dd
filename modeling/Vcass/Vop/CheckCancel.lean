import Mathlib.Data.Nat.Find
import Vcass.Vop.AvailRing

/-!
# VOP: cancellation of requests

The peer may take back a receive buffer that it has offered. It writes the number of a ring and of a slot into the
header of the shared memory, and `vop_kvec_check_cancel` marks the entry, together with the entries behind it that
have the same head, so that `vop_kvec_get` passes over them.

## The end of the loop

The loop goes on as long as the head is the same and the slot lies between those of the two counters. The test takes
in the slot of the second counter, which is free, or the first one again if the ring is full; and if the slots have
wrapped around it takes in every slot there is. So only a different head ends the loop as it should, and 0 is the
head of a free slot as well as one that a chain may have.
-/

namespace Vcass.Vop.CheckCancel

open RingCounter AvailRing
open Function (update)

/-! ## The ring -/

/-- A ring as its consumer finds it: the entries from position `first` on are pending, up to `last`, and the heads of
the others are cleared. -/
structure KvecRing where
  num : ℕ
  first : ℕ
  last : ℕ
  buf : ℕ → PeerKvec
  num_pos : 0 < num
  two_num_le : 2 * num ≤ 2 ^ 16
  first_le : first ≤ last
  last_le : last ≤ first + num
  cleared : ∀ q, last ≤ q → q < first + num → (buf (slot num q)).head = 0

namespace KvecRing

variable (ring : KvecRing)

def lastCnt : ℕ := count ring.num ring.first

/-- `*ring->cnt`. -/
def cnt : ℕ := count ring.num ring.last

def idxStart : ℕ := u16 (kvecCounterToIdx ring.lastCnt ring.num)

def idxEnd : ℕ := u16 (kvecCounterToIdx ring.cnt ring.num)

end KvecRing

/-! ## The code -/

inductive RequestCancelStatus
  | ok
  | invalidRequest
  | timeout
  | error
  deriving DecidableEq, Repr

/-- What the peer writes into `struct vop_peer_kvec_buf_header`. -/
structure Header where
  cancelledRequestIdx : ℕ
  cancelledRequestRingId : ℕ
  requestCancellation : ℕ

/-- `|= VOP_KVEC_FLAG_CANCELLED`. -/
def setCancelled (buf : ℕ → PeerKvec) (i : ℕ) : ℕ → PeerKvec :=
  update buf i { buf i with flags := (buf i).flags ||| flagCancelled }

def inUse (kvec : PeerKvec) : Bool := kvec.flags &&& flagInUse ≠ 0

/-- The test of a slot against the two counters. -/
def inRange (idxStart idxEnd requestIdx : ℕ) : Bool :=
  idxStart = idxEnd ||
    (idxStart < idxEnd && idxStart ≤ requestIdx && requestIdx ≤ idxEnd) ||
    (idxEnd < idxStart && (requestIdx ≤ idxStart || idxEnd ≤ requestIdx))

/-- The loop: the entries after it, and the slots that it has marked. -/
def skipSame (num idxStart idxEnd head : ℕ) :
    (fuel : ℕ) → (ℕ → PeerKvec) → (requestIdx : ℕ) → Option ((ℕ → PeerKvec) × List ℕ)
  | 0, _, _ => none
  | fuel + 1, buf, requestIdx =>
    if (buf requestIdx).head = head ∧ inRange idxStart idxEnd requestIdx then
      (skipSame num idxStart idxEnd head fuel (setCancelled buf requestIdx)
        (kvecCounterToIdx (requestIdx + 1) num)).map fun out ↦ (out.1, requestIdx :: out.2)
    else some (buf, [])

structure Outcome where
  /-- `cancellation_status`, if there was a request. -/
  cancellationStatus : Option RequestCancelStatus
  buf : ℕ → PeerKvec
  /-- The slots that were marked. -/
  marked : List ℕ

/-- The status for a request that is waited for, by the result of the wait. -/
def waitStatus (err : ℤ) : RequestCancelStatus :=
  if 0 < err then .ok else if err = 0 then .timeout else .error

/-- `vop_kvec_check_cancel`; `wait` is what `wait_event_interruptible_timeout` returns. -/
def vopKvecCheckCancel (fuel : ℕ) (rings : ℕ → KvecRing) (hdr : Header) (wait : ℤ) : Option Outcome :=
  let ring := rings hdr.cancelledRequestRingId
  if hdr.requestCancellation = 0 then some ⟨none, ring.buf, []⟩
  else if kvecBufNum ≤ hdr.cancelledRequestRingId then some ⟨some .invalidRequest, ring.buf, []⟩
  else if ring.num ≤ hdr.cancelledRequestIdx then some ⟨some .invalidRequest, ring.buf, []⟩
  else if ring.lastCnt = ring.cnt then some ⟨some .invalidRequest, ring.buf, []⟩
  else if inUse (ring.buf hdr.cancelledRequestIdx) then
    some ⟨some (waitStatus wait), ring.buf, []⟩
  else
    (skipSame ring.num ring.idxStart ring.idxEnd (ring.buf hdr.cancelledRequestIdx).head fuel
      (setCancelled ring.buf hdr.cancelledRequestIdx)
      (kvecCounterToIdx (hdr.cancelledRequestIdx + 1) ring.num)).map fun out ↦
        ⟨some .ok, out.1, hdr.cancelledRequestIdx :: out.2⟩

/-! ## The loop -/

section Loop

variable {num idxStart idxEnd head : ℕ} {buf : ℕ → PeerKvec}

@[simp] theorem head_setCancelled (buf : ℕ → PeerKvec) (i j : ℕ) : (setCancelled buf i j).head = (buf j).head := by
  unfold setCancelled
  rcases eq_or_ne j i with rfl | hne
  · rw [Function.update_self]
  · rw [Function.update_of_ne hne]

theorem slot_slot_add (num q k : ℕ) : slot num (slot num q + k) = slot num (q + k) := Nat.mod_add_mod q num k

/-- The flag is set in the slots that are marked, and nothing else is changed. -/
def MarkedIn (marked : List ℕ) (buf buf' : ℕ → PeerKvec) : Prop :=
  ∀ j, buf' j = if j ∈ marked then { buf j with flags := (buf j).flags ||| flagCancelled } else buf j

theorem MarkedIn.cons {i : ℕ} {marked : List ℕ} {buf' : ℕ → PeerKvec} (h : MarkedIn marked (setCancelled buf i) buf') :
    MarkedIn (i :: marked) buf buf' := by
  intro j
  rw [h j, setCancelled]
  rcases eq_or_ne j i with rfl | hne
  · rw [Function.update_self, if_pos List.mem_cons_self]
    -- a slot may be marked more than once
    split_ifs
    · rw [Nat.or_assoc, Nat.or_self]
    · rfl
  · rw [Function.update_of_ne hne]
    simp only [List.mem_cons, hne, false_or]

theorem markedIn_of_skipSame {fuel i : ℕ} {out : (ℕ → PeerKvec) × List ℕ}
    (h : skipSame num idxStart idxEnd head fuel buf i = some out) : MarkedIn out.2 buf out.1 := by
  induction fuel generalizing buf i out with
  | zero => cases h
  | succ fuel ih =>
    rw [skipSame] at h
    split_ifs at h
    · obtain ⟨rest, hrest, rfl⟩ := Option.map_eq_some_iff.mp h
      exact (ih hrest).cons
    · obtain rfl := Option.some_inj.mp h
      exact fun j ↦ rfl

/-- The loop goes on behind a slot. -/
def Continues (idxStart idxEnd head : ℕ) (buf : ℕ → PeerKvec) (i : ℕ) : Prop :=
  (buf i).head = head ∧ inRange idxStart idxEnd i

theorem continues_setCancelled {i j : ℕ} :
    Continues idxStart idxEnd head (setCancelled buf i) j ↔ Continues idxStart idxEnd head buf j := by
  rw [Continues, Continues, head_setCancelled]

theorem skipSame_of_continues {i fuel : ℕ} (h : Continues idxStart idxEnd head buf (slot num i)) :
    skipSame num idxStart idxEnd head (fuel + 1) buf (slot num i) =
      (skipSame num idxStart idxEnd head fuel (setCancelled buf (slot num i)) (slot num (i + 1))).map fun out ↦
        (out.1, slot num i :: out.2) := by
  rw [Continues] at h
  rw [skipSame, if_pos h, kvecCounterToIdx, ← slot, slot_slot_add]

theorem skipSame_of_not_continues {i fuel : ℕ} (h : ¬Continues idxStart idxEnd head buf i) :
    skipSame num idxStart idxEnd head (fuel + 1) buf i = some (buf, []) := by
  rw [Continues] at h
  rw [skipSame, if_neg h]

theorem map_range_succ (q n : ℕ) :
    ((List.range (n + 1)).map fun k ↦ slot num (q + k)) =
      slot num q :: (List.range n).map fun k ↦ slot num (q + 1 + k) := by
  rw [List.range_succ_eq_map, List.map_cons, List.map_map]
  congr 1
  apply List.map_congr_left
  intro k _
  rw [Function.comp_apply, Nat.succ_eq_add_one, Nat.add_right_comm, Nat.add_assoc]

/-- The loop ends at the first slot that fails the test, and has marked those before. -/
theorem skipSame_eq_some {n q fuel : ℕ} (hcont : ∀ k < n, Continues idxStart idxEnd head buf (slot num (q + k)))
    (hend : ¬Continues idxStart idxEnd head buf (slot num (q + n))) (hfuel : n < fuel) :
    ∃ buf', skipSame num idxStart idxEnd head fuel buf (slot num q) =
      some (buf', (List.range n).map fun k ↦ slot num (q + k)) := by
  induction n generalizing q fuel buf with
  | zero =>
    obtain ⟨fuel, rfl⟩ : ∃ m, fuel = m + 1 := ⟨fuel - 1, by omega⟩
    exact ⟨buf, skipSame_of_not_continues hend⟩
  | succ n ih =>
    obtain ⟨fuel, rfl⟩ : ∃ m, fuel = m + 1 := ⟨fuel - 1, by omega⟩
    have hshift : ∀ k, q + 1 + k = q + (k + 1) := by omega
    obtain ⟨buf', hrest⟩ : ∃ buf', skipSame num idxStart idxEnd head fuel (setCancelled buf (slot num q))
        (slot num (q + 1)) = some (buf', (List.range n).map fun k ↦ slot num (q + 1 + k)) := by
      apply ih
      · intro k hk
        rw [continues_setCancelled, hshift]
        exact hcont (k + 1) (by omega)
      · rw [continues_setCancelled, hshift]
        exact hend
      · omega
    have hfirst : Continues idxStart idxEnd head buf (slot num q) := hcont 0 (Nat.succ_pos n)
    refine ⟨buf', ?_⟩
    rw [skipSame_of_continues hfirst, hrest, map_range_succ]
    rfl

/-- If no slot fails the test there is no end. -/
theorem skipSame_eq_none {q : ℕ} (hcont : ∀ k, Continues idxStart idxEnd head buf (slot num (q + k))) (fuel : ℕ) :
    skipSame num idxStart idxEnd head fuel buf (slot num q) = none := by
  induction fuel generalizing q buf with
  | zero => rfl
  | succ fuel ih =>
    have hrest : skipSame num idxStart idxEnd head fuel (setCancelled buf (slot num q)) (slot num (q + 1)) = none := by
      apply ih
      intro k
      rw [continues_setCancelled, Nat.add_right_comm, Nat.add_assoc]
      exact hcont (k + 1)
    have hfirst : Continues idxStart idxEnd head buf (slot num q) := hcont 0
    rw [skipSame_of_continues hfirst, hrest]
    rfl

theorem exists_end {q fuel : ℕ} {out : (ℕ → PeerKvec) × List ℕ}
    (h : skipSame num idxStart idxEnd head fuel buf (slot num q) = some out) :
    ∃ n, ¬Continues idxStart idxEnd head buf (slot num (q + n)) ∧
      out.2 = (List.range n).map fun k ↦ slot num (q + k) := by
  induction fuel generalizing q buf out with
  | zero => cases h
  | succ fuel ih =>
    by_cases hcont : Continues idxStart idxEnd head buf (slot num q)
    · rw [skipSame_of_continues hcont, Option.map_eq_some_iff] at h
      obtain ⟨rest, hrest, rfl⟩ := h
      obtain ⟨n, hend, hmarked⟩ := ih hrest
      rw [continues_setCancelled, Nat.add_assoc, Nat.add_comm 1] at hend
      exact ⟨n + 1, hend, by rw [hmarked, map_range_succ]⟩
    · rw [skipSame_of_not_continues hcont, Option.some_inj] at h
      exact ⟨0, hcont, by rw [← h]; rfl⟩

end Loop

/-! ## Positions -/

namespace KvecRing

variable {ring : KvecRing} {p q i : ℕ}

theorem idxStart_eq (ring : KvecRing) : ring.idxStart = slot ring.num ring.first :=
  u16_counterToIdx ring.two_num_le ring.num_pos

theorem idxEnd_eq (ring : KvecRing) : ring.idxEnd = slot ring.num ring.last :=
  u16_counterToIdx ring.two_num_le ring.num_pos

/-- The slot `i` is the one of position `p`, pending or not. -/
structure At (ring : KvecRing) (p i : ℕ) : Prop where
  first_le : ring.first ≤ p
  lt : p < ring.first + ring.num
  slot_eq : slot ring.num p = i

theorem exists_at (hi : i < ring.num) : ∃ p, ring.At p i := by
  obtain ⟨p, hle, hlt, hslot⟩ := exists_slot_eq ring.num_pos ring.first hi
  exact ⟨p, hle, hlt, hslot⟩

theorem At.unique (hp : ring.At p i) (hq : ring.At q i) : p = q := by
  have hslot : slot ring.num p = slot ring.num q := hp.slot_eq.trans hq.slot_eq.symm
  have := hp.first_le
  have := hp.lt
  have := hq.first_le
  have := hq.lt
  rcases Nat.le_total p q with hle | hle
  · exact eq_of_slot_eq hle (by omega) hslot
  · exact (eq_of_slot_eq hle (by omega) hslot.symm).symm

/-- The slots from the first pending one up to the one behind the last pass the test. -/
theorem inRange_slot (hp : ring.first ≤ p) (hle : p ≤ ring.last) :
    inRange ring.idxStart ring.idxEnd (slot ring.num p) := by
  rw [idxStart_eq, idxEnd_eq]
  have hfirst := Nat.div_add_mod ring.first ring.num
  have hlast := Nat.div_add_mod ring.last ring.num
  have hpos := Nat.div_add_mod p ring.num
  have hlt := Nat.mod_lt ring.last ring.num_pos
  have hlt' := Nat.mod_lt p ring.num_pos
  have hsize := ring.last_le
  have hq : ring.first / ring.num ≤ p / ring.num := Nat.div_le_div_right hp
  have hq' : p / ring.num ≤ ring.last / ring.num := Nat.div_le_div_right hle
  simp only [inRange, Bool.or_eq_true, Bool.and_eq_true, decide_eq_true_eq]
  simp only [slot]
  rcases Nat.eq_or_lt_of_le (hq.trans hq') with heq | hwrap
  · -- the ring has not wrapped around, and the remainders are in the order of the positions
    rw [show p / ring.num = ring.first / ring.num by omega] at hpos
    rw [← heq] at hlast
    omega
  · have hmul : ring.num * (ring.first / ring.num + 1) ≤ ring.num * (ring.last / ring.num) :=
      Nat.mul_le_mul_left _ hwrap
    rw [Nat.mul_add] at hmul
    omega

end KvecRing

/-! ## Requests -/

namespace KvecRing

variable (ring : KvecRing)

/-- The consecutive pending slots from position `p` on that carry the head of the slot at `p`. -/
def Run (p i : ℕ) : Prop :=
  ∃ q, p ≤ q ∧ q < ring.last ∧ slot ring.num q = i ∧
    ∀ q', p ≤ q' → q' ≤ q → (ring.buf (slot ring.num q')).head = (ring.buf (slot ring.num p)).head

/-- From the pending slot at `p` on, up to the one at `last`, some head is a different one. -/
def HeadChanges (p : ℕ) : Prop :=
  ∃ q, p < q ∧ q ≤ ring.last ∧ (ring.buf (slot ring.num q)).head ≠ (ring.buf (slot ring.num p)).head

end KvecRing

section Pending

variable {ring : KvecRing} {p : ℕ}

/-- What the loop is called with for the slot at a position. -/
def skipFrom (ring : KvecRing) (p fuel : ℕ) : Option ((ℕ → PeerKvec) × List ℕ) :=
  skipSame ring.num ring.idxStart ring.idxEnd (ring.buf (slot ring.num p)).head fuel
    (setCancelled ring.buf (slot ring.num p)) (slot ring.num (p + 1))

/-- The loop for the slot at `p` goes on behind slot `i`. -/
def Goes (ring : KvecRing) (p i : ℕ) : Prop :=
  Continues ring.idxStart ring.idxEnd (ring.buf (slot ring.num p)).head ring.buf i

/-- If the head changes the loop ends there, and has marked the run. -/
theorem exists_skipFrom_of_headChanges (hp : ring.first ≤ p) (h : ring.HeadChanges p) :
    ∃ fuel out, skipFrom ring p fuel = some out ∧ ∀ i, i ∈ slot ring.num p :: out.2 ↔ ring.Run p i := by
  classical
  -- the first position with a different head
  have hex : ∃ q, p < q ∧ (ring.buf (slot ring.num q)).head ≠ (ring.buf (slot ring.num p)).head := by
    obtain ⟨q, hlt, -, hne⟩ := h
    exact ⟨q, hlt, hne⟩
  obtain ⟨hlt, hne⟩ := Nat.find_spec hex
  set m := Nat.find hex with hm
  have hsame : ∀ q, p ≤ q → q < m → (ring.buf (slot ring.num q)).head = (ring.buf (slot ring.num p)).head := by
    intro q hq hqm
    rcases Nat.eq_or_lt_of_le hq with rfl | hlt
    · rfl
    · by_contra hdiff
      exact Nat.find_min hex hqm ⟨hlt, hdiff⟩
  have hle : m ≤ ring.last := by
    obtain ⟨q, hlt, hle, hne⟩ := h
    exact (Nat.find_min' hex ⟨hlt, hne⟩).trans hle
  obtain ⟨buf', hout⟩ : ∃ buf', skipFrom ring p (m - p) =
      some (buf', (List.range (m - p - 1)).map fun k ↦ slot ring.num (p + 1 + k)) := by
    apply skipSame_eq_some
    · intro k hk
      rw [continues_setCancelled]
      exact ⟨hsame _ (by omega) (by omega), KvecRing.inRange_slot (by omega) (by omega)⟩
    · rw [continues_setCancelled, show p + 1 + (m - p - 1) = m by omega]
      exact fun hcont ↦ hne hcont.1
    · omega
  refine ⟨m - p, _, hout, fun i ↦ ?_⟩
  constructor
  · intro hi
    rcases List.mem_cons.mp hi with rfl | hi
    · exact ⟨p, Nat.le_refl p, by omega, rfl, fun q hq hq' ↦ hsame q hq (by omega)⟩
    · obtain ⟨k, hk, rfl⟩ := List.mem_map.mp hi
      have hk := List.mem_range.mp hk
      exact ⟨p + 1 + k, by omega, by omega, rfl, fun q hq hq' ↦ hsame q hq (by omega)⟩
  · rintro ⟨q, hpq, hq, rfl, hrun⟩
    have hqm : q < m := by
      by_contra hge
      exact hne (hrun m hlt.le (by omega))
    rcases Nat.eq_or_lt_of_le hpq with rfl | hlt'
    · exact List.mem_cons_self
    · refine List.mem_cons_of_mem _ (List.mem_map.mpr ⟨q - p - 1, List.mem_range.mpr (by omega), ?_⟩)
      rw [show p + 1 + (q - p - 1) = q by omega]

/-- If it does not, the slot behind the last pending one is marked as well, or there is no end. -/
theorem headChanges_of_skipFrom (hp : ring.first ≤ p) (hlt : p < ring.last) {fuel : ℕ}
    {out : (ℕ → PeerKvec) × List ℕ} (hout : skipFrom ring p fuel = some out)
    (hrun : ∀ i, i ∈ slot ring.num p :: out.2 ↔ ring.Run p i) : ring.HeadChanges p := by
  by_contra hno
  have hsame : ∀ q, p ≤ q → q ≤ ring.last →
      (ring.buf (slot ring.num q)).head = (ring.buf (slot ring.num p)).head := by
    intro q hq hle
    rcases Nat.eq_or_lt_of_le hq with rfl | hlt
    · rfl
    · by_contra hne
      exact hno ⟨q, hlt, hle, hne⟩
  have hgoes : ∀ q, p ≤ q → q ≤ ring.last → Goes ring p (slot ring.num q) := by
    intro q hq hle
    exact ⟨hsame q hq hle, KvecRing.inRange_slot (by omega) hle⟩
  obtain ⟨n, hend, hmarked⟩ := exists_end hout
  rw [continues_setCancelled] at hend
  have hn : ring.last ≤ p + n := by
    by_contra hlt
    exact hend (hgoes (p + 1 + n) (by omega) (by omega))
  have hlast : ring.Run p (slot ring.num ring.last) := by
    rw [← hrun, hmarked]
    refine List.mem_cons_of_mem _ (List.mem_map.mpr ⟨ring.last - p - 1, List.mem_range.mpr (by omega), ?_⟩)
    rw [show p + 1 + (ring.last - p - 1) = ring.last by omega]
  obtain ⟨q, hpq, hq, hslot, -⟩ := hlast
  have hsize := ring.last_le
  have hfull : ring.last = q + ring.num := by
    by_contra hne
    exact slot_ne hq (by omega) hslot
  -- the ring is full and the request is for its first slot: all slots carry one head
  obtain rfl : q = p := by omega
  obtain ⟨r, hr, hr', hslot'⟩ := exists_slot_eq ring.num_pos q (slot_lt ring.num_pos (q + 1 + n))
  exact hend (hslot' ▸ hgoes r hr (by omega))

/-- The loop has an end exactly if some slot fails its test. -/
theorem exists_skipFrom_iff :
    (∃ fuel out, skipFrom ring p fuel = some out) ↔ ∃ i < ring.num, ¬Goes ring p i := by
  constructor
  · rintro ⟨fuel, out, hout⟩
    obtain ⟨n, hend, -⟩ := exists_end hout
    rw [continues_setCancelled] at hend
    exact ⟨slot ring.num (p + 1 + n), slot_lt ring.num_pos _, hend⟩
  · classical
    rintro ⟨i, hi, hfail⟩
    have hex : ∃ n, ¬Goes ring p (slot ring.num (p + 1 + n)) := by
      obtain ⟨q, hq, -, rfl⟩ := exists_slot_eq ring.num_pos (p + 1) hi
      exact ⟨q - (p + 1), by rwa [Nat.add_sub_cancel' hq]⟩
    obtain ⟨buf', hout⟩ : ∃ buf', skipFrom ring p (Nat.find hex + 1) = some (buf', _) := by
      apply skipSame_eq_some
      · intro k hk
        rw [continues_setCancelled]
        exact not_not.mp (Nat.find_min hex hk)
      · rw [continues_setCancelled]
        exact Nat.find_spec hex
      · exact Nat.lt_succ_self _
    exact ⟨_, _, hout⟩

end Pending

/-! ## When requests are answered right -/

section Requests

variable (rings : ℕ → KvecRing) (hdr : Header)

/-- The call ends and has changed nothing but the entries that it has marked, and if it cancels a pending entry these
are the entries of its run. -/
def Cancels (wait : ℤ) : Prop :=
  ∃ fuel out, vopKvecCheckCancel fuel rings hdr wait = some out ∧
    MarkedIn out.marked (rings hdr.cancelledRequestRingId).buf out.buf ∧
    (out.cancellationStatus = some .ok → ∀ p, (rings hdr.cancelledRequestRingId).At p hdr.cancelledRequestIdx →
      p < (rings hdr.cancelledRequestRingId).last →
      inUse ((rings hdr.cancelledRequestRingId).buf hdr.cancelledRequestIdx) = false →
      ∀ i, i ∈ out.marked ↔ (rings hdr.cancelledRequestRingId).Run p i)

/-- The request does not get as far as the loop. -/
def NoLoop : Prop :=
  hdr.requestCancellation = 0 ∨ kvecBufNum ≤ hdr.cancelledRequestRingId ∨
    (rings hdr.cancelledRequestRingId).num ≤ hdr.cancelledRequestIdx ∨
    (rings hdr.cancelledRequestRingId).first = (rings hdr.cancelledRequestRingId).last ∨
    inUse ((rings hdr.cancelledRequestRingId).buf hdr.cancelledRequestIdx)

/-- For a pending slot the head changes up to the slot at `last`; for a free one some slot has another head than 0, or
the pending slots have not wrapped around and some slot is outside of them and of the one behind. -/
def LoopEnds (ring : KvecRing) (p : ℕ) : Prop :=
  if p < ring.last then ring.HeadChanges p
  else ∃ i < ring.num, (ring.buf i).head ≠ 0 ∨
    ring.idxStart < ring.idxEnd ∧ (i < ring.idxStart ∨ ring.idxEnd < i)

theorem not_inRange_iff {idxStart idxEnd i : ℕ} :
    ¬inRange idxStart idxEnd i ↔ idxStart < idxEnd ∧ (i < idxStart ∨ idxEnd < i) := by
  simp only [inRange, Bool.or_eq_true, Bool.and_eq_true, decide_eq_true_eq]
  omega

theorem free_iff {ring : KvecRing} {p i : ℕ} (hp : ring.At p i) (hfree : ring.last ≤ p) :
    (∃ fuel out, skipFrom ring p fuel = some out) ↔ LoopEnds ring p := by
  rw [exists_skipFrom_iff, LoopEnds, if_neg (Nat.not_lt.mpr hfree)]
  have hhead : (ring.buf (slot ring.num p)).head = 0 := ring.cleared p hfree hp.lt
  refine exists_congr fun i ↦ and_congr_right fun hi ↦ ?_
  rw [Goes, Continues, hhead, not_and_or, not_inRange_iff]

theorem markedIn_of_vopKvecCheckCancel {fuel : ℕ} {wait : ℤ} {out : Outcome}
    (h : vopKvecCheckCancel fuel rings hdr wait = some out) :
    MarkedIn out.marked (rings hdr.cancelledRequestRingId).buf out.buf := by
  unfold vopKvecCheckCancel at h
  simp only at h
  split_ifs at h
  iterate 5
    · obtain rfl := Option.some_inj.mp h
      exact fun j ↦ rfl
  · obtain ⟨rest, hrest, rfl⟩ := Option.map_eq_some_iff.mp h
    exact (markedIn_of_skipSame hrest).cons

theorem cancels_of_noLoop (h : NoLoop rings hdr) (wait : ℤ) : Cancels rings hdr wait := by
  obtain ⟨out, hout, hstatus⟩ : ∃ out, vopKvecCheckCancel 0 rings hdr wait = some out ∧
      (out.cancellationStatus = some .ok → inUse ((rings hdr.cancelledRequestRingId).buf hdr.cancelledRequestIdx)) := by
    unfold vopKvecCheckCancel
    simp only
    split_ifs with hrequest hring hidx hempty huse
    · exact ⟨_, rfl, nofun⟩
    · exact ⟨_, rfl, nofun⟩
    · exact ⟨_, rfl, nofun⟩
    · exact ⟨_, rfl, nofun⟩
    · exact ⟨_, rfl, fun _ ↦ huse⟩
    · have hcnt : (rings hdr.cancelledRequestRingId).first ≠ (rings hdr.cancelledRequestRingId).last := by
        intro heq
        exact hempty (by rw [KvecRing.lastCnt, KvecRing.cnt, heq])
      rcases h with h | h | h | h | h
      exacts [absurd h hrequest, absurd h hring, absurd h hidx, absurd h hcnt, absurd h huse]
  refine ⟨0, out, hout, markedIn_of_vopKvecCheckCancel rings hdr hout, fun hok p _ _ hnot ↦ ?_⟩
  rw [hstatus hok] at hnot
  cases hnot

theorem vopKvecCheckCancel_eq (h : ¬NoLoop rings hdr) {p : ℕ}
    (hp : (rings hdr.cancelledRequestRingId).At p hdr.cancelledRequestIdx) (fuel : ℕ) (wait : ℤ) :
    vopKvecCheckCancel fuel rings hdr wait = (skipFrom (rings hdr.cancelledRequestRingId) p fuel).map fun out ↦
      ⟨some .ok, out.1, hdr.cancelledRequestIdx :: out.2⟩ := by
  simp only [NoLoop, not_or] at h
  obtain ⟨hrequest, hring, hidx, hempty, huse⟩ := h
  unfold vopKvecCheckCancel
  generalize rings hdr.cancelledRequestRingId = ring at *
  have hcnt : ¬ring.lastCnt = ring.cnt := by
    rw [KvecRing.lastCnt, KvecRing.cnt, count_eq_count ring.num_pos ring.first_le ring.last_le]
    exact hempty
  simp only
  rw [if_neg hrequest, if_neg hring, if_neg hidx, if_neg hcnt, if_neg huse, skipFrom, ← hp.slot_eq, kvecCounterToIdx,
    ← slot, slot_slot_add]

/-- Requests are answered right exactly if they do not need the loop, or the loop ends where it should. -/
theorem cancels_iff (wait : ℤ) :
    Cancels rings hdr wait ↔ NoLoop rings hdr ∨
      ∃ p, (rings hdr.cancelledRequestRingId).At p hdr.cancelledRequestIdx ∧
        LoopEnds (rings hdr.cancelledRequestRingId) p := by
  by_cases hno : NoLoop rings hdr
  · exact iff_of_true (cancels_of_noLoop rings hdr hno wait) (Or.inl hno)
  have hidx : hdr.cancelledRequestIdx < (rings hdr.cancelledRequestRingId).num := by
    by_contra hge
    exact hno (Or.inr (Or.inr (Or.inl (Nat.le_of_not_lt hge))))
  have huse : inUse ((rings hdr.cancelledRequestRingId).buf hdr.cancelledRequestIdx) = false := by
    by_contra huse
    exact hno (Or.inr (Or.inr (Or.inr (Or.inr (eq_true_of_ne_false huse)))))
  obtain ⟨p, hp⟩ := KvecRing.exists_at hidx
  have hcode := vopKvecCheckCancel_eq rings hdr hno hp
  have hmarks : ∀ fuel out, skipFrom (rings hdr.cancelledRequestRingId) p fuel = some out →
      MarkedIn (hdr.cancelledRequestIdx :: out.2) (rings hdr.cancelledRequestRingId).buf out.1 := by
    intro fuel out hout
    have hcall : vopKvecCheckCancel fuel rings hdr wait =
        some ⟨some .ok, out.1, hdr.cancelledRequestIdx :: out.2⟩ := by rw [hcode, hout, Option.map_some]
    exact markedIn_of_vopKvecCheckCancel rings hdr hcall
  have hpos : (∃ p, (rings hdr.cancelledRequestRingId).At p hdr.cancelledRequestIdx ∧
      LoopEnds (rings hdr.cancelledRequestRingId) p) ↔ LoopEnds (rings hdr.cancelledRequestRingId) p := by
    constructor
    · rintro ⟨q, hq, hends⟩
      rwa [hp.unique hq]
    · exact fun hends ↦ ⟨p, hp, hends⟩
  rw [or_iff_right hno, hpos, Cancels]
  generalize rings hdr.cancelledRequestRingId = ring at *
  simp only [hcode, Option.map_eq_some_iff]
  rcases Nat.lt_or_ge p ring.last with hlt | hfree
  · rw [LoopEnds, if_pos hlt]
    constructor
    · rintro ⟨fuel, -, ⟨out, hout, rfl⟩, -, hmarked⟩
      have hrun := hmarked rfl p hp hlt huse
      rw [← hp.slot_eq] at hrun
      exact headChanges_of_skipFrom hp.first_le hlt hout hrun
    · intro hchange
      obtain ⟨fuel, out, hout, hrun⟩ := exists_skipFrom_of_headChanges hp.first_le hchange
      refine ⟨fuel, _, ⟨out, hout, rfl⟩, hmarks fuel out hout, fun _ q hq _ _ ↦ ?_⟩
      rw [← hp.slot_eq, hq.unique hp]
      exact hrun
  · rw [← free_iff hp hfree]
    constructor
    · rintro ⟨fuel, -, ⟨out, hout, rfl⟩, -, -⟩
      exact ⟨fuel, out, hout⟩
    · rintro ⟨fuel, out, hout⟩
      refine ⟨fuel, _, ⟨out, hout, rfl⟩, hmarks fuel out hout, fun _ q hq hlt ↦ ?_⟩
      rw [hq.unique hp] at hlt
      exact absurd hlt (Nat.not_lt.mpr hfree)

end Requests

/-- Four slots: the first chain was taken, and the second one, with head 0, is in the last two slots. -/
def wrappedRing : KvecRing where
  num := 4
  first := 2
  last := 4
  buf := fun _ ↦ ⟨⟨0, 0⟩, 0, 0⟩
  num_pos := by decide
  two_num_le := by decide
  first_le := by decide
  last_le := by decide
  cleared := fun _ _ _ ↦ rfl

/-- To take back the second chain never ends. -/
theorem wrappedRing_never_ends : ¬∃ wait : ℤ, Cancels (fun _ ↦ wrappedRing) ⟨2, 0, 1⟩ wait := by
  rintro ⟨wait, fuel, out, hout, -⟩
  have hno : ¬NoLoop (fun _ ↦ wrappedRing) ⟨2, 0, 1⟩ := by
    simp only [NoLoop, not_or]
    exact ⟨by decide, by decide, by decide, by decide, by decide⟩
  have hat : wrappedRing.At 2 2 := ⟨by decide, by decide, rfl⟩
  have hgoes : ∀ i, Goes wrappedRing 2 i := by
    intro i
    refine ⟨rfl, ?_⟩
    simp only [inRange, show wrappedRing.idxStart = 2 from rfl, show wrappedRing.idxEnd = 0 from rfl]
    simp
  have hnone : skipFrom wrappedRing 2 fuel = none :=
    skipSame_eq_none (fun k ↦ continues_setCancelled.mpr (hgoes _)) fuel
  rw [vopKvecCheckCancel_eq _ _ hno hat, hnone] at hout
  cases hout

end Vcass.Vop.CheckCancel
