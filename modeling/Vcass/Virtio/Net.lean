import Mathlib.Algebra.Order.Ring.Nat
import Mathlib.Data.List.Perm.Basic
import Mathlib.Tactic.MkIffOfInductiveProp
import Vcass.Lib.Run

/-!
# The receive queue of the network driver

In small-buffer mode the driver posts receive buffers of three sizes. It counts the buffers that are posted, and
those of the two larger classes by themselves: `add_recvbuf_small` posts a big buffer as long as there are fewer than
`max_big`, then a jumbo one, and a normal one otherwise. `receive_buf` takes a buffer that has come back out of the
count of its class, and `virtnet_poll` out of the total.

## Rounds

`try_fill_recv` and `virtnet_poll` are loops. A round of either is a step here, so that a run of steps has all runs of
the two functions in it, however they are mixed.

## Buffers

The other side gives buffers back in any order and with any length. The class of a buffer stands behind the header
that the device writes, which is 10 bytes long as long as `VIRTIO_F_VERSION_1` is not offered.
-/

namespace Vcass.Virtio.Net

open Conc

/-! ## Data -/

inductive SizeType
  | normal
  | jumbo
  | big
  deriving DecidableEq, Repr

def ethHlen : ℕ := 14

def vlanHlen : ℕ := 4

def ethDataLen : ℕ := 1500

/-- `MAX_PACKET_LEN`, `MAX_PACKET_LEN_JUMBO` and `MAX_PACKET_LEN_BIG`. -/
def maxPacketLen : SizeType → ℕ
  | .normal => ethHlen + vlanHlen + ethDataLen + 256
  | .jumbo => ethHlen + vlanHlen + 9000 + 256
  | .big => ethHlen + vlanHlen + 65536 + 256

/-- `sizeof(struct virtio_net_hdr)`. -/
def hdrLen : ℕ := 10

/-- A posted buffer, with the number of descriptors that it takes. -/
structure Buf where
  sizeType : SizeType
  descs : ℕ
  deriving DecidableEq, Repr

/-- `struct receive_queue`, with the free descriptors and the posted buffers of its virtqueue. -/
structure ReceiveQueue where
  num : ℕ
  max : ℕ
  numBig : ℕ
  maxBig : ℕ
  numJumbo : ℕ
  maxJumbo : ℕ
  numFree : ℕ
  posted : List Buf
  deriving DecidableEq, Repr

/-- What `add_recvbuf_small` meets. -/
structure AddEnv where
  /-- The buffer could be allocated. -/
  skb : Bool
  /-- The result of `skb_to_sgvec`. -/
  numSg : ℤ
  broken : Bool
  /-- The queue takes indirect tables, and the table could be allocated. -/
  indirect : Bool
  /-- The buffer could be mapped for DMA, if that is needed. -/
  mapped : Bool
  deriving DecidableEq, Repr

inductive Errno
  | enomem
  | eio
  | enospc
  /-- The error of `skb_to_sgvec`. -/
  | sg (e : ℤ)
  deriving DecidableEq, Repr

/-! ## The code -/

/-- The class of the next buffer. -/
def nextSizeType (rq : ReceiveQueue) : SizeType :=
  if rq.numBig < rq.maxBig then .big else if rq.numJumbo < rq.maxJumbo then .jumbo else .normal

/-- `descs_used` for the two entries of a buffer. -/
def descsUsed (env : AddEnv) (rq : ReceiveQueue) : ℕ := if env.indirect ∧ rq.numFree ≠ 0 then 1 else 2

/-- `vca_virtqueue_add_inbuf`. -/
def virtqueueAddInbuf (env : AddEnv) (rq : ReceiveQueue) (sizeType : SizeType) : Except Errno ReceiveQueue :=
  if env.broken then .error .eio
  else if rq.numFree < descsUsed env rq then .error .enospc
  else if !env.mapped then .error .enomem
  else .ok { rq with
    numFree := rq.numFree - descsUsed env rq
    posted := rq.posted ++ [⟨sizeType, descsUsed env rq⟩] }

/-- The count of its class goes up with a buffer. -/
def countUp (sizeType : SizeType) (rq : ReceiveQueue) : ReceiveQueue :=
  match sizeType with
  | .big => { rq with numBig := rq.numBig + 1 }
  | .jumbo => { rq with numJumbo := rq.numJumbo + 1 }
  | .normal => rq

def addRecvbufSmall (env : AddEnv) (rq : ReceiveQueue) : Except Errno ReceiveQueue :=
  if !env.skb then .error .enomem
  else if env.numSg = 0 then .error .eio
  else if env.numSg < 0 then .error (.sg env.numSg)
  else (virtqueueAddInbuf env rq (nextSizeType rq)).map (countUp (nextSizeType rq))

section CountUp

variable (sizeType : SizeType) (rq : ReceiveQueue)

@[simp] theorem countUp_posted : (countUp sizeType rq).posted = rq.posted := by cases sizeType <;> rfl

@[simp] theorem countUp_numFree : (countUp sizeType rq).numFree = rq.numFree := by cases sizeType <;> rfl

@[simp] theorem countUp_max : (countUp sizeType rq).max = rq.max := by cases sizeType <;> rfl

@[simp] theorem countUp_maxBig : (countUp sizeType rq).maxBig = rq.maxBig := by cases sizeType <;> rfl

@[simp] theorem countUp_maxJumbo : (countUp sizeType rq).maxJumbo = rq.maxJumbo := by cases sizeType <;> rfl

end CountUp

/-- The loop of `try_fill_recv`, with the error that ended it. Each round takes a descriptor. -/
def fillLoop (envs : ℕ → AddEnv) : (fuel k : ℕ) → ReceiveQueue → Option Errno × ReceiveQueue
  | 0, _, rq => (none, rq)
  | fuel + 1, k, rq =>
    match addRecvbufSmall (envs k) rq with
    | .error e => (some e, rq)
    | .ok rq' =>
      if rq'.numFree = 0 then (none, { rq' with num := rq'.num + 1 })
      else fillLoop envs fuel (k + 1) { rq' with num := rq'.num + 1 }

/-- The most buffers there ever were. -/
def noteMax (rq : ReceiveQueue) : ReceiveQueue := if rq.max < rq.num then { rq with max := rq.num } else rq

/-- `try_fill_recv`, which returns whether there was memory enough. -/
def tryFillRecv (envs : ℕ → AddEnv) (rq : ReceiveQueue) : Bool × ReceiveQueue :=
  let filled := fillLoop envs (rq.numFree + 1) 0 rq
  (filled.1 ≠ some .enomem, noteMax filled.2)

/-- The count of its class goes down with a buffer. It is never below what is posted, so that it does not wrap. -/
def countDown (sizeType : SizeType) (rq : ReceiveQueue) : ReceiveQueue :=
  match sizeType with
  | .big => { rq with numBig := rq.numBig - 1 }
  | .jumbo => { rq with numJumbo := rq.numJumbo - 1 }
  | .normal => rq

/-- `receive_buf`: what it does to the counts. -/
def receiveBuf (buf : Buf) (len : ℕ) (rq : ReceiveQueue) : ReceiveQueue :=
  -- a short packet is dropped before the class is looked at
  if len < hdrLen + ethHlen then rq else countDown buf.sizeType rq

/-- `vca_virtqueue_get_buf` gives back the buffer at `i`. -/
def getBuf (rq : ReceiveQueue) (i : ℕ) : Option (Buf × ReceiveQueue) :=
  rq.posted[i]?.map fun buf ↦
    (buf, { rq with numFree := rq.numFree + buf.descs, posted := rq.posted.eraseIdx i })

/-- A round of the loop in `virtnet_poll`. -/
def pollRound (i len : ℕ) (rq : ReceiveQueue) : Option ReceiveQueue :=
  (getBuf rq i).map fun got ↦
    let rq := receiveBuf got.1 len got.2
    { rq with num := rq.num - 1 }

/-! ## Rounds as steps -/

inductive Label
  /-- A round of `try_fill_recv`. -/
  | add (env : AddEnv)
  /-- Its end. -/
  | noteMax
  /-- A round of `virtnet_poll`: the buffer at `i` comes back with a length. -/
  | packet (i len : ℕ)
  deriving DecidableEq, Repr

def step (rq : ReceiveQueue) : Label → Option ReceiveQueue
  | .add env =>
    match addRecvbufSmall env rq with
    | .error _ => some rq
    | .ok rq' => some { rq' with num := rq'.num + 1 }
  | .noteMax => some (Net.noteMax rq)
  | .packet i len => pollRound i len rq

/-- An `unsigned int`. -/
def u32 (n : ℕ) : ℕ := n % 2 ^ 32

def sub32 (a b : ℕ) : ℕ := u32 (a + 2 ^ 32 - b)

/-- The test in `virtnet_poll`. -/
def refillNeeded (rq : ReceiveQueue) : Bool :=
  u32 (4 * rq.numBig) < u32 (3 * rq.maxBig) || u32 (4 * rq.numJumbo) < u32 (3 * rq.maxJumbo) ||
    u32 (4 * sub32 (sub32 rq.num rq.maxBig) rq.maxJumbo) < u32 (3 * sub32 (sub32 rq.max rq.maxBig) rq.maxJumbo)

def refill (envs : ℕ → AddEnv) (rq : ReceiveQueue) : ReceiveQueue :=
  if refillNeeded rq then (tryFillRecv envs rq).2 else rq

/-- The rounds with the buffers that have come back. -/
def receive (rq : ReceiveQueue) (used : List (ℕ × ℕ)) : Option ReceiveQueue :=
  exec step rq (used.map fun u ↦ .packet u.1 u.2)

/-- `virtnet_poll`; each time it gets to `again` it finds another batch of buffers. -/
def virtnetPoll (envs : ℕ → ℕ → AddEnv) : (budget : ℕ) → (batches : List (List (ℕ × ℕ))) → ReceiveQueue →
    Option ReceiveQueue
  | _, [], rq => some rq
  | budget, used :: batches, rq =>
    (receive rq (used.take budget)).bind fun rq ↦
      if used.length < budget then
        virtnetPoll envs (budget - used.length) batches (refill (envs batches.length) rq)
      else some (refill (envs batches.length) rq)

/-- How many buffers of a class are posted. -/
def ReceiveQueue.count (rq : ReceiveQueue) (sizeType : SizeType) : ℕ :=
  rq.posted.countP fun buf ↦ buf.sizeType = sizeType

/-- The counters are what is posted. -/
@[mk_iff accurate_iff_counts]
structure Accurate (rq : ReceiveQueue) : Prop where
  num : rq.num = rq.posted.length
  numBig : rq.numBig = rq.count .big
  numJumbo : rq.numJumbo = rq.count .jumbo

/-- A short packet, or the length 0 of a failed transfer, comes back in a buffer of one of the larger classes. -/
def ShortInLarge (rq : ReceiveQueue) : Label → Prop
  | .add _ => False
  | .noteMax => False
  | .packet i len => ∃ buf, rq.posted[i]? = some buf ∧ buf.sizeType ≠ .normal ∧ len < hdrLen + ethHlen

/-! ## The operations are runs -/

variable {rq rq' : ReceiveQueue} {buf : Buf} {i len : ℕ}

theorem exists_run_fillLoop (envs : ℕ → AddEnv) (fuel k : ℕ) (rq : ReceiveQueue) :
    ∃ ls, exec step rq ls = some (fillLoop envs fuel k rq).2 ∧ ∀ l ∈ ls, ∃ env, l = .add env := by
  induction fuel generalizing k rq with
  | zero => exact ⟨[], rfl, nofun⟩
  | succ fuel ih =>
    rw [fillLoop]
    split
    case h_1 => exact ⟨[], rfl, nofun⟩
    case h_2 rq' hadd =>
      have hstep : step rq (.add (envs k)) = some { rq' with num := rq'.num + 1 } := by rw [step, hadd]
      split_ifs
      · exact ⟨[.add (envs k)], exec_cons.mpr ⟨_, hstep, rfl⟩, by simp⟩
      · obtain ⟨ls, hls, hadds⟩ := ih (k + 1) { rq' with num := rq'.num + 1 }
        exact ⟨.add (envs k) :: ls, exec_cons.mpr ⟨_, hstep, hls⟩, List.forall_mem_cons.mpr ⟨⟨_, rfl⟩, hadds⟩⟩

theorem exists_run_tryFillRecv (envs : ℕ → AddEnv) (rq : ReceiveQueue) :
    ∃ ls, exec step rq ls = some (tryFillRecv envs rq).2 := by
  obtain ⟨ls, hls, -⟩ := exists_run_fillLoop envs (rq.numFree + 1) 0 rq
  exact ⟨ls ++ [.noteMax], exec_append.mpr ⟨_, hls, exec_cons.mpr ⟨_, rfl, rfl⟩⟩⟩

theorem exists_run_refill (envs : ℕ → AddEnv) (rq : ReceiveQueue) : ∃ ls, exec step rq ls = some (refill envs rq) := by
  unfold refill
  split_ifs
  · exact exists_run_tryFillRecv envs rq
  · exact ⟨[], rfl⟩

theorem exists_run_virtnetPoll (envs : ℕ → ℕ → AddEnv) (budget : ℕ) (batches : List (List (ℕ × ℕ)))
    (h : virtnetPoll envs budget batches rq = some rq') : ∃ ls, exec step rq ls = some rq' := by
  induction batches generalizing budget rq with
  | nil => exact ⟨[], h⟩
  | cons used batches ih =>
    obtain ⟨taken, htaken, hrest⟩ := Option.bind_eq_some_iff.mp h
    obtain ⟨ls, hls⟩ := exists_run_refill (envs batches.length) taken
    split_ifs at hrest
    · obtain ⟨ls', hls'⟩ := ih _ hrest
      exact ⟨_, exec_append.mpr ⟨taken, htaken, exec_append.mpr ⟨_, hls, hls'⟩⟩⟩
    · obtain rfl := Option.some_inj.mp hrest
      exact ⟨_, exec_append.mpr ⟨taken, htaken, hls⟩⟩

/-! ## The counts -/

theorem count_append (rq : ReceiveQueue) (sizeType : SizeType) (buf : Buf) :
    (rq.posted ++ [buf]).countP (fun b ↦ b.sizeType = sizeType) =
      rq.count sizeType + if buf.sizeType = sizeType then 1 else 0 := by
  rw [List.countP_append, List.countP_singleton, ReceiveQueue.count]
  simp only [decide_eq_true_eq]

theorem count_eraseIdx (h : rq.posted[i]? = some buf) (sizeType : SizeType) :
    (rq.posted.eraseIdx i).countP (fun b ↦ b.sizeType = sizeType) + (if buf.sizeType = sizeType then 1 else 0) =
      rq.count sizeType := by
  obtain ⟨hi, rfl⟩ := List.getElem?_eq_some_iff.mp h
  have hperm := (List.getElem_cons_eraseIdx_perm hi).countP_eq fun b ↦ decide (b.sizeType = sizeType)
  rw [List.countP_cons] at hperm
  simpa only [ReceiveQueue.count, decide_eq_true_eq] using hperm

theorem length_eraseIdx (h : rq.posted[i]? = some buf) : (rq.posted.eraseIdx i).length + 1 = rq.posted.length := by
  obtain ⟨hi, -⟩ := List.getElem?_eq_some_iff.mp h
  rw [List.length_eraseIdx_of_lt hi]
  omega

/-- The queue with one more buffer. -/
def post (env : AddEnv) (rq : ReceiveQueue) (sizeType : SizeType) : ReceiveQueue :=
  { rq with
    numFree := rq.numFree - descsUsed env rq
    posted := rq.posted ++ [⟨sizeType, descsUsed env rq⟩] }

theorem ok_of_virtqueueAddInbuf {env : AddEnv} {sizeType : SizeType}
    (h : virtqueueAddInbuf env rq sizeType = .ok rq') :
    descsUsed env rq ≤ rq.numFree ∧ rq' = post env rq sizeType := by
  unfold virtqueueAddInbuf at h
  split_ifs at h with _ hfree
  exact ⟨Nat.le_of_not_lt hfree, (Except.ok.inj h).symm⟩

theorem ok_of_addRecvbufSmall {env : AddEnv} (h : addRecvbufSmall env rq = .ok rq') :
    descsUsed env rq ≤ rq.numFree ∧ rq' = countUp (nextSizeType rq) (post env rq (nextSizeType rq)) := by
  unfold addRecvbufSmall at h
  split_ifs at h
  cases hadd : virtqueueAddInbuf env rq (nextSizeType rq) with
  | error e =>
    rw [hadd] at h
    cases h
  | ok posted =>
    obtain ⟨hfree, rfl⟩ := ok_of_virtqueueAddInbuf hadd
    rw [hadd] at h
    exact ⟨hfree, (Except.ok.inj h).symm⟩

theorem Accurate.add (h : Accurate rq) {env : AddEnv} (hadd : addRecvbufSmall env rq = .ok rq') :
    Accurate { rq' with num := rq'.num + 1 } := by
  obtain ⟨-, rfl⟩ := ok_of_addRecvbufSmall hadd
  have hbig := count_append rq .big ⟨nextSizeType rq, descsUsed env rq⟩
  have hjumbo := count_append rq .jumbo ⟨nextSizeType rq, descsUsed env rq⟩
  have hlength : (rq.posted ++ [(⟨nextSizeType rq, descsUsed env rq⟩ : Buf)]).length = rq.num + 1 := by
    rw [List.length_append, h.num]
    rfl
  rw [← h.numBig] at hbig
  rw [← h.numJumbo] at hjumbo
  cases hnext : nextSizeType rq with
  | normal =>
    rw [hnext] at hbig hjumbo hlength
    exact ⟨hlength.symm, hbig.symm, hjumbo.symm⟩
  | jumbo =>
    rw [hnext] at hbig hjumbo hlength
    exact ⟨hlength.symm, hbig.symm, hjumbo.symm⟩
  | big =>
    rw [hnext] at hbig hjumbo hlength
    exact ⟨hlength.symm, hbig.symm, hjumbo.symm⟩

theorem accurate_noteMax : Accurate (noteMax rq) ↔ Accurate rq := by
  unfold noteMax
  split_ifs
  · exact ⟨fun ⟨h, h', h''⟩ ↦ ⟨h, h', h''⟩, fun ⟨h, h', h''⟩ ↦ ⟨h, h', h''⟩⟩
  · exact Iff.rfl

/-- The counts after a round of `virtnet_poll` are right unless the packet was a short one in a large buffer. -/
theorem accurate_pollRound_iff (h : Accurate rq) (hbuf : rq.posted[i]? = some buf)
    (hround : pollRound i len rq = some rq') :
    Accurate rq' ↔ ¬(buf.sizeType ≠ .normal ∧ len < hdrLen + ethHlen) := by
  have hlength := length_eraseIdx hbuf
  have hbig := count_eraseIdx hbuf .big
  have hjumbo := count_eraseIdx hbuf .jumbo
  obtain ⟨hnum, hnumBig, hnumJumbo⟩ := h
  rw [pollRound, getBuf, hbuf] at hround
  obtain rfl := Option.some_inj.mp hround
  rw [accurate_iff_counts]
  by_cases hlen : len < hdrLen + ethHlen
  · -- the class keeps its count
    simp only [receiveBuf, hlen, if_true, ReceiveQueue.count] at *
    cases hclass : buf.sizeType <;> simp [hclass] at hbig hjumbo ⊢ <;> omega
  · simp only [receiveBuf, hlen, if_false, ReceiveQueue.count] at *
    cases hclass : buf.sizeType <;> simp [hclass, countDown] at hbig hjumbo ⊢ <;> omega

/-- A step keeps the counts right exactly if it is not a short packet in a large buffer. -/
theorem accurate_step_iff (h : Accurate rq) {l : Label} (hstep : step rq l = some rq') :
    Accurate rq' ↔ ¬ShortInLarge rq l := by
  cases l with
  | add env =>
    refine iff_of_true ?_ id
    rw [step] at hstep
    split at hstep
    · exact Option.some_inj.mp hstep ▸ h
    case h_2 hadd => exact Option.some_inj.mp hstep ▸ h.add hadd
  | noteMax =>
    obtain rfl := Option.some_inj.mp hstep
    exact iff_of_true (accurate_noteMax.mpr h) id
  | packet i len =>
    have hround : pollRound i len rq = some rq' := hstep
    obtain ⟨⟨buf, got⟩, hgot, -⟩ := Option.map_eq_some_iff.mp hround
    obtain ⟨b, hbuf, -⟩ := Option.map_eq_some_iff.mp hgot
    rw [accurate_pollRound_iff h hbuf hround, ShortInLarge, hbuf]
    simp

/-- The counters are right all along a run exactly if no short packet comes back in a large buffer. -/
theorem accurate_along_iff (h : Accurate rq) (ls : List Label) :
    Along (fun _ _ rq ↦ Accurate rq) step rq ls ↔ Along (fun rq l _ ↦ ¬ShortInLarge rq l) step rq ls :=
  along_congr (fun h hstep ↦ ⟨accurate_step_iff h hstep, id⟩) h

/-- A queue without buffers. -/
def emptyQueue (maxBig maxJumbo numFree : ℕ) : ReceiveQueue := ⟨0, 0, 0, maxBig, 0, maxJumbo, numFree, []⟩

theorem accurate_emptyQueue (maxBig maxJumbo numFree : ℕ) : Accurate (emptyQueue maxBig maxJumbo numFree) :=
  ⟨rfl, rfl, rfl⟩

/-- Nothing goes wrong. -/
def goodEnv (indirect : Bool) : AddEnv := ⟨true, 1, false, indirect, true⟩

/-- A buffer is posted and comes back with a packet of 60 bytes. -/
theorem accurate_along_full : Along (fun _ _ rq ↦ Accurate rq) step (emptyQueue 1 1 4)
    [.add (goodEnv false), .noteMax, .packet 0 70] :=
  (accurate_along_iff (accurate_emptyQueue 1 1 4) _).mpr (by
    refine fun _ _ ↦ ⟨id, fun _ _ ↦ ⟨id, fun _ _ ↦ ⟨?_, trivial⟩⟩⟩
    rintro ⟨buf, -, -, hshort⟩
    exact absurd hshort (by decide))

/-- A big buffer comes back empty, as after a failed transfer: it is still counted. -/
theorem failed_transfer_counted : ∃ rq, exec step (emptyQueue 1 1 4) [.add (goodEnv false), .noteMax, .packet 0 0] =
    some rq ∧ rq.num = 0 ∧ rq.count .big = 0 ∧ rq.numBig = 1 :=
  ⟨⟨0, 1, 1, 1, 0, 1, 4, []⟩, by decide, rfl, rfl, rfl⟩

end Vcass.Virtio.Net
