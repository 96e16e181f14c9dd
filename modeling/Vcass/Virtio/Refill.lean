import Vcass.Virtio.Net

/-!
# When the receive queue is filled up again

A poll ends with the decision whether to post new buffers. The two larger classes are compared with three quarters of
their maximum. The test for the normal buffers takes the maxima of the larger classes off the total, in unsigned
arithmetic: with fewer buffers in the queue than these maxima the difference wraps around and is taken for a large
number.

## States

The queue is filled when the device is probed, and a poll either leaves what is posted or fills the queue up. In all
states between polls no class has more buffers than it is filled up to.
-/

namespace Vcass.Virtio.Refill

open Conc Net

def vcaVringEntries : ℕ := 1024

/-- A ring, with the module's parameters, which are compared as `unsigned int`. -/
structure Config where
  ringSize : ℕ
  numPacketsBig : ℕ
  numPacketsJumbo : ℕ
  /-- Buffers are posted with indirect tables. -/
  indirect : Bool
  two_pow : ∃ k, ringSize = 2 ^ k
  le_entries : ringSize ≤ vcaVringEntries

namespace Config

variable (q : Config)

/-- `virtnet_probe`: the maxima of the classes. -/
def maxBig : ℕ := if q.numPacketsBig < q.ringSize / 2 / 6 then q.numPacketsBig else q.ringSize / 2 / 6

def maxJumbo : ℕ := if q.numPacketsJumbo < q.ringSize / 2 / 3 then q.numPacketsJumbo else q.ringSize / 2 / 3

/-- Nothing fails. -/
def env : AddEnv := goodEnv q.indirect

/-- `virtnet_probe`: the first buffers. -/
def probe : ReceiveQueue := (tryFillRecv (fun _ ↦ q.env) (emptyQueue q.maxBig q.maxJumbo q.ringSize)).2

/-- The descriptors of a buffer. -/
def descs : ℕ := if q.indirect then 1 else 2

/-- How many buffers there is room for. -/
def capacity : ℕ := q.ringSize / q.descs

end Config

/-- The states between polls in which the class counters are right. -/
inductive Reach (q : Config) : ReceiveQueue → Prop
  | probe : Reach q q.probe
  | poll {rq taken : ReceiveQueue} {used : List (ℕ × ℕ)} (h : Reach q rq) (hused : receive rq used = some taken)
      (hacc : Accurate taken) : Reach q (refill (fun _ ↦ q.env) taken)

/-- Three quarters of each class are posted. -/
def Supplied (rq : ReceiveQueue) : Prop :=
  3 * (rq.max - rq.maxBig - rq.maxJumbo) ≤ 4 * rq.count .normal ∧
    3 * rq.maxBig ≤ 4 * rq.count .big ∧ 3 * rq.maxJumbo ≤ 4 * rq.count .jumbo

/-! ## Filling up -/

variable {q : Config} {rq rq' taken : ReceiveQueue}

theorem count_add_count_add_count (rq : ReceiveQueue) :
    rq.count .normal + rq.count .jumbo + rq.count .big = rq.posted.length := by
  unfold ReceiveQueue.count
  induction rq.posted with
  | nil => rfl
  | cons buf posted ih =>
    simp only [List.countP_cons, List.length_cons, decide_eq_true_eq]
    cases buf.sizeType <;> simp <;> omega

theorem maxBig_add_maxJumbo_le (q : Config) : 2 * (q.maxBig + q.maxJumbo) ≤ q.ringSize / 2 := by
  unfold Config.maxBig Config.maxJumbo
  split_ifs <;> omega

theorem capacity_le (q : Config) : q.ringSize / 2 ≤ q.capacity ∧ q.capacity ≤ vcaVringEntries := by
  have hle := q.le_entries
  unfold Config.capacity Config.descs
  split_ifs <;> constructor <;> omega

/-- No class has more buffers than it is filled up to. -/
structure Shape (q : Config) (rq : ReceiveQueue) : Prop where
  maxBig : rq.maxBig = q.maxBig
  maxJumbo : rq.maxJumbo = q.maxJumbo
  descs : ∀ buf ∈ rq.posted, buf.descs = q.descs
  free : rq.numFree + q.descs * rq.posted.length = q.ringSize
  big_le : rq.count .big ≤ q.maxBig
  jumbo_le : rq.count .jumbo ≤ q.maxJumbo
  normal_le : rq.count .normal + q.maxBig + q.maxJumbo ≤ q.capacity

theorem descs_pos (q : Config) : 0 < q.descs := by
  unfold Config.descs
  split_ifs <;> decide

theorem Shape.length_lt (h : Shape q rq) (hfree : q.descs ≤ rq.numFree) : rq.posted.length < q.capacity := by
  have hfits := h.free
  rw [Config.capacity, ← Nat.succ_le_iff, Nat.le_div_iff_mul_le (descs_pos q), Nat.succ_mul, Nat.mul_comm]
  omega

theorem Shape.length_eq (h : Shape q rq) (hfree : rq.numFree < q.descs) : rq.posted.length = q.capacity := by
  have hfits := h.free
  rw [Config.capacity, ← hfits, Nat.add_mul_div_left _ _ (descs_pos q), Nat.div_eq_of_lt hfree, Nat.zero_add]

theorem env_addRecvbufSmall (q : Config) (rq : ReceiveQueue) :
    addRecvbufSmall q.env rq = if rq.numFree < q.descs then .error .enospc
      else .ok (countUp (nextSizeType rq) (post q.env rq (nextSizeType rq))) := by
  have hdescs : rq.numFree < descsUsed q.env rq ↔ rq.numFree < q.descs := by
    unfold descsUsed Config.env goodEnv Config.descs
    split_ifs <;> simp_all
  simp only [addRecvbufSmall, virtqueueAddInbuf, hdescs]
  split_ifs <;> first | rfl | simp_all [Config.env, goodEnv]

theorem descsUsed_env (hfree : ¬rq.numFree < q.descs) : descsUsed q.env rq = q.descs := by
  have hpos := descs_pos q
  have hzero : rq.numFree ≠ 0 := by omega
  simp [descsUsed, Config.env, goodEnv, Config.descs, hzero]

/-- Why a class comes next. -/
theorem nextSizeType_spec (rq : ReceiveQueue) : match nextSizeType rq with
    | .big => rq.numBig < rq.maxBig
    | .jumbo => rq.numJumbo < rq.maxJumbo
    | .normal => rq.maxBig ≤ rq.numBig ∧ rq.maxJumbo ≤ rq.numJumbo := by
  unfold nextSizeType
  split_ifs with hbig hjumbo
  · exact hbig
  · exact hjumbo
  · exact ⟨Nat.le_of_not_lt hbig, Nat.le_of_not_lt hjumbo⟩

theorem Shape.add (h : Shape q rq) (hacc : Accurate rq) (hadd : addRecvbufSmall q.env rq = .ok rq') :
    Shape q { rq' with num := rq'.num + 1 } ∧ rq'.numFree < rq.numFree ∧ rq'.max = rq.max := by
  rw [env_addRecvbufSmall] at hadd
  split_ifs at hadd with hfree
  obtain rfl := Except.ok.inj hadd
  have hdescs := descsUsed_env hfree
  have hpos := descs_pos q
  have hlength := h.length_lt (Nat.le_of_not_lt hfree)
  have htotal := count_add_count_add_count rq
  have hbig := count_append rq .big ⟨nextSizeType rq, q.descs⟩
  have hjumbo := count_append rq .jumbo ⟨nextSizeType rq, q.descs⟩
  have hnormal := count_append rq .normal ⟨nextSizeType rq, q.descs⟩
  obtain ⟨hmaxBig, hmaxJumbo, hall, hsum, hbigLe, hjumboLe, hnormalLe⟩ := h
  obtain ⟨-, hnumBig, hnumJumbo⟩ := hacc
  have hnext := nextSizeType_spec rq
  simp only [ReceiveQueue.count] at *
  refine ⟨⟨?_, ?_, ?_, ?_, ?_, ?_, ?_⟩, ?_, ?_⟩
  all_goals simp only [countUp_posted, countUp_numFree, countUp_max, countUp_maxBig, countUp_maxJumbo, post, hdescs,
    ReceiveQueue.count]
  · exact hmaxBig
  · exact hmaxJumbo
  · intro buf hbuf
    rcases List.mem_append.mp hbuf with hbuf | hbuf
    · exact hall buf hbuf
    · rw [List.mem_singleton.mp hbuf]
  · rw [List.length_append, List.length_singleton, Nat.mul_add]
    omega
  · rw [hbig]
    cases hclass : nextSizeType rq <;> simp only [hclass] at hnext ⊢ <;> simp <;> omega
  · rw [hjumbo]
    cases hclass : nextSizeType rq <;> simp only [hclass] at hnext ⊢ <;> simp <;> omega
  · rw [hnormal]
    cases hclass : nextSizeType rq <;> simp only [hclass] at hnext ⊢ <;> simp <;> omega
  · omega

/-- When a buffer cannot be posted the queue is full. -/
theorem Shape.full_of_error (h : Shape q rq) {e : Errno} (hadd : addRecvbufSmall q.env rq = .error e) :
    rq.posted.length = q.capacity := by
  rw [env_addRecvbufSmall] at hadd
  split_ifs at hadd with hfree
  exact h.length_eq hfree

/-- Filling up goes on until the queue is full. -/
theorem fillLoop_full (h : Shape q rq) (hacc : Accurate rq) {fuel : ℕ} (hfuel : rq.numFree < fuel) (k : ℕ) :
    Shape q (fillLoop (fun _ ↦ q.env) fuel k rq).2 ∧ Accurate (fillLoop (fun _ ↦ q.env) fuel k rq).2 ∧
      (fillLoop (fun _ ↦ q.env) fuel k rq).2.posted.length = q.capacity ∧
      (fillLoop (fun _ ↦ q.env) fuel k rq).2.max = rq.max := by
  induction fuel generalizing k rq with
  | zero => exact absurd hfuel (Nat.not_lt_zero _)
  | succ fuel ih =>
    rw [fillLoop]
    split
    case h_1 e hadd => exact ⟨h, hacc, h.full_of_error hadd, rfl⟩
    case h_2 rq' hadd =>
      obtain ⟨hshape, hless, hmax⟩ := h.add hacc hadd
      have hacc' := hacc.add hadd
      split_ifs with hzero
      · exact ⟨hshape, hacc', hshape.length_eq (by simp only [hzero, descs_pos]), hmax⟩
      · obtain ⟨hshape', hacc'', hfull, hmax'⟩ := ih hshape hacc' (by simp only; omega) (k + 1)
        exact ⟨hshape', hacc'', hfull, hmax'.trans hmax⟩

/-- A filled queue has as many buffers of each class as it may have. -/
structure Full (q : Config) (rq : ReceiveQueue) : Prop where
  shape : Shape q rq
  accurate : Accurate rq
  max : rq.max = q.capacity
  length : rq.posted.length = q.capacity

theorem Shape.noteMax (h : Shape q rq) : Shape q (noteMax rq) := by
  unfold Net.noteMax
  split_ifs
  · exact ⟨h.maxBig, h.maxJumbo, h.descs, h.free, h.big_le, h.jumbo_le, h.normal_le⟩
  · exact h

/-- With all that is posted counted, the most there ever were is brought up to date. -/
theorem Shape.full_noteMax (h : Shape q rq) (hacc : Accurate rq) (hlength : rq.posted.length = q.capacity)
    (hmax : rq.max ≤ q.capacity) : Full q (Net.noteMax rq) := by
  have hnum := hacc.num.trans hlength
  refine ⟨h.noteMax, accurate_noteMax.mpr hacc, ?_, ?_⟩
  · unfold Net.noteMax
    split_ifs with hlt
    · exact hnum
    · omega
  · unfold Net.noteMax
    split_ifs <;> exact hlength

theorem tryFillRecv_full (h : Shape q rq) (hacc : Accurate rq) (hmax : rq.max ≤ q.capacity) :
    Full q (tryFillRecv (fun _ ↦ q.env) rq).2 := by
  obtain ⟨hshape, hacc', hlength, hmax'⟩ := fillLoop_full h hacc (Nat.lt_add_one rq.numFree) 0
  exact hshape.full_noteMax hacc' hlength (by omega)

theorem Full.supplied (h : Full q rq) : Supplied rq := by
  obtain ⟨⟨hmaxBig, hmaxJumbo, -, -, hbig, hjumbo, hnormal⟩, -, hmax, hlength⟩ := h
  have htotal := count_add_count_add_count rq
  unfold Supplied
  omega

/-! ## States between polls -/

/-- A buffer that comes back leaves all but the counts of its class to `getBuf`. -/
theorem pollRound_spec {i len : ℕ} (h : pollRound i len rq = some rq') : ∃ buf, rq.posted[i]? = some buf ∧
    rq'.posted = rq.posted.eraseIdx i ∧ rq'.numFree = rq.numFree + buf.descs ∧ rq'.max = rq.max ∧
      rq'.maxBig = rq.maxBig ∧ rq'.maxJumbo = rq.maxJumbo := by
  obtain ⟨⟨buf, got⟩, hgot, rfl⟩ := Option.map_eq_some_iff.mp h
  obtain ⟨b, hbuf, hb⟩ := Option.map_eq_some_iff.mp hgot
  obtain ⟨rfl, rfl⟩ := Prod.mk.injEq .. ▸ hb
  refine ⟨b, hbuf, ?_⟩
  unfold receiveBuf countDown
  split_ifs
  · exact ⟨rfl, rfl, rfl, rfl, rfl⟩
  · cases b.sizeType <;> exact ⟨rfl, rfl, rfl, rfl, rfl⟩

theorem Shape.pollRound (h : Shape q rq) {i len : ℕ} (hround : pollRound i len rq = some rq') :
    Shape q rq' ∧ rq'.max = rq.max := by
  obtain ⟨buf, hbuf, hposted, hfree, hmax, hmaxBig, hmaxJumbo⟩ := pollRound_spec hround
  have hcount := count_eraseIdx hbuf
  have hbig := hcount .big
  have hjumbo := hcount .jumbo
  have hnormal := hcount .normal
  have hlength := length_eraseIdx hbuf
  have hdescs := h.descs buf (List.mem_of_getElem? hbuf)
  have hfits := h.free
  rw [← hlength, Nat.mul_succ] at hfits
  simp only [← hposted] at hbig hjumbo hnormal hfits
  have hbigLe := h.big_le
  have hjumboLe := h.jumbo_le
  have hnormalLe := h.normal_le
  refine ⟨⟨hmaxBig.trans h.maxBig, hmaxJumbo.trans h.maxJumbo, ?_, ?_, ?_, ?_, ?_⟩, hmax⟩
  · intro other hother
    rw [hposted] at hother
    exact h.descs other (List.mem_of_mem_eraseIdx hother)
  all_goals simp only [ReceiveQueue.count] at *; omega

theorem Shape.receive (h : Shape q rq) {used : List (ℕ × ℕ)} (hused : receive rq used = some taken) :
    Shape q taken ∧ taken.max = rq.max := by
  induction used generalizing rq with
  | nil =>
    obtain rfl := Option.some_inj.mp hused
    exact ⟨h, rfl⟩
  | cons u used ih =>
    obtain ⟨rq', hround, hrest⟩ := exec_cons.mp hused
    obtain ⟨hshape, hmax⟩ := h.pollRound hround
    obtain ⟨hshape', hmax'⟩ := ih hshape hrest
    exact ⟨hshape', hmax'.trans hmax⟩

/-- What holds between polls. -/
structure Between (q : Config) (rq : ReceiveQueue) : Prop where
  shape : Shape q rq
  accurate : Accurate rq
  max : rq.max = q.capacity

theorem Full.between (h : Full q rq) : Between q rq := ⟨h.shape, h.accurate, h.max⟩

theorem between_refill (h : Shape q rq) (hacc : Accurate rq) (hmax : rq.max = q.capacity) :
    Between q (refill (fun _ ↦ q.env) rq) := by
  unfold refill
  split_ifs
  · exact (tryFillRecv_full h hacc (Nat.le_of_eq hmax)).between
  · exact ⟨h, hacc, hmax⟩

theorem shape_emptyQueue (q : Config) : Shape q (emptyQueue q.maxBig q.maxJumbo q.ringSize) := by
  have hle := maxBig_add_maxJumbo_le q
  have hcap := capacity_le q
  refine ⟨rfl, rfl, nofun, rfl, Nat.zero_le _, Nat.zero_le _, ?_⟩
  have hzero : (emptyQueue q.maxBig q.maxJumbo q.ringSize).count .normal = 0 := rfl
  omega

theorem Reach.between (h : Reach q rq) : Between q rq := by
  induction h with
  | probe => exact (tryFillRecv_full (shape_emptyQueue q) (accurate_emptyQueue _ _ _) (Nat.zero_le _)).between
  | poll h hused hacc ih =>
    obtain ⟨hshape, hmax⟩ := ih.shape.receive hused
    exact between_refill hshape hacc (hmax.trans ih.max)

/-! ## The decision -/

theorem u32_of_le {n : ℕ} (h : n ≤ 4 * vcaVringEntries) : u32 n = n := by
  simp only [vcaVringEntries] at h
  exact Nat.mod_eq_of_lt (by omega)

theorem sub32_of_le {a b : ℕ} (h : b ≤ a) (ha : a ≤ 4 * vcaVringEntries) : sub32 a b = a - b := by
  simp only [vcaVringEntries] at ha
  unfold sub32 u32
  omega

/-- The difference wraps around, and so does four times as much. -/
theorem u32_sub32_sub32 {n b j : ℕ} (h : n < b + j) (hbj : b + j ≤ vcaVringEntries) :
    u32 (4 * sub32 (sub32 n b) j) = 2 ^ 32 - 4 * (b + j - n) := by
  simp only [vcaVringEntries] at hbj
  unfold sub32 u32
  omega

/-- The test for the normal buffers fails if the difference wraps around. -/
theorem normalTest_iff {n b j m : ℕ} (hm : b + j ≤ m) (hn : n ≤ m) (hle : m ≤ vcaVringEntries) :
    u32 (4 * sub32 (sub32 n b) j) < u32 (3 * sub32 (sub32 m b) j) ↔
      b + j ≤ n ∧ 4 * (n - b - j) < 3 * (m - b - j) := by
  rw [sub32_of_le (a := m) (b := b), sub32_of_le (a := m - b) (b := j), u32_of_le (n := 3 * (m - b - j))]
  rcases Nat.lt_or_ge n (b + j) with hlt | hge
  · rw [u32_sub32_sub32 hlt (by omega)]
    simp only [vcaVringEntries] at hle
    omega
  · rw [sub32_of_le (a := n) (b := b), sub32_of_le (a := n - b) (b := j), u32_of_le (n := 4 * (n - b - j))]
    all_goals omega
  all_goals omega

/-- What the decision is with the numbers there are. -/
theorem refillNeeded_iff (h : Between q rq) : refillNeeded rq = true ↔
    4 * rq.numBig < 3 * q.maxBig ∨ 4 * rq.numJumbo < 3 * q.maxJumbo ∨
      q.maxBig + q.maxJumbo ≤ rq.num ∧
        4 * (rq.num - q.maxBig - q.maxJumbo) < 3 * (q.capacity - q.maxBig - q.maxJumbo) := by
  have hle := maxBig_add_maxJumbo_le q
  have hcap := capacity_le q
  have htotal := count_add_count_add_count rq
  obtain ⟨⟨hmaxBig, hmaxJumbo, -, -, hbig, hjumbo, hnormal⟩, ⟨hnum, hnumBig, hnumJumbo⟩, hmax⟩ := h
  rw [← hnumBig] at htotal hbig
  rw [← hnumJumbo] at htotal hjumbo
  rw [← hnum] at htotal
  rw [refillNeeded, hmaxBig, hmaxJumbo, hmax]
  simp only [Bool.or_eq_true, decide_eq_true_eq, or_assoc]
  rw [normalTest_iff (by omega) (by omega) hcap.2, u32_of_le (by omega), u32_of_le (by omega), u32_of_le (by omega),
    u32_of_le (by omega)]

/-- After the decision each class is supplied exactly if there are as many buffers left as the larger classes may
have, or one of these is itself below three quarters. -/
theorem supplied_iff (h : Reach q rq) {used : List (ℕ × ℕ)} (hused : receive rq used = some taken)
    (hacc : Accurate taken) :
    Supplied (refill (fun _ ↦ q.env) taken) ↔ q.maxBig + q.maxJumbo ≤ taken.num ∨
      4 * taken.numBig < 3 * q.maxBig ∨ 4 * taken.numJumbo < 3 * q.maxJumbo := by
  obtain ⟨hshape, hmax⟩ := h.between.shape.receive hused
  have hmax := hmax.trans h.between.max
  have hneeded := refillNeeded_iff ⟨hshape, hacc, hmax⟩
  by_cases hrefill : refillNeeded taken = true
  · rw [refill, if_pos hrefill]
    refine iff_of_true (tryFillRecv_full hshape hacc (Nat.le_of_eq hmax)).supplied ?_
    have := hneeded.mp hrefill
    omega
  · rw [refill, if_neg hrefill]
    rw [hneeded] at hrefill
    have hle := maxBig_add_maxJumbo_le q
    have hcap := capacity_le q
    have htotal := count_add_count_add_count taken
    obtain ⟨hmaxBig, hmaxJumbo, -, -, hbig, hjumbo, hnormal⟩ := hshape
    obtain ⟨hnum, hnumBig, hnumJumbo⟩ := hacc
    unfold Supplied
    omega

/-- A small ring with the default parameters: 2 big buffers, 5 jumbo ones and 9 others. -/
def smallRing : Config := ⟨32, 64, 256, false, ⟨5, rfl⟩, by decide⟩

/-- A poll that takes the 9 small packets there was room for, and a jumbo one. -/
def tenPackets : List (ℕ × ℕ) := List.replicate 9 (7, 70) ++ [(2, 1000)]

/-- What is left of the ring. -/
def afterTen : ReceiveQueue :=
  ⟨6, 16, 2, 2, 4, 5, 20, List.replicate 2 ⟨.big, 2⟩ ++ List.replicate 4 ⟨.jumbo, 2⟩⟩

theorem receive_tenPackets : receive smallRing.probe tenPackets = some afterTen := by decide

theorem supplied_iff_smallRing : Supplied (refill (fun _ ↦ smallRing.env) afterTen) ↔
    smallRing.maxBig + smallRing.maxJumbo ≤ afterTen.num ∨
      4 * afterTen.numBig < 3 * smallRing.maxBig ∨ 4 * afterTen.numJumbo < 3 * smallRing.maxJumbo :=
  supplied_iff .probe receive_tenPackets ⟨rfl, rfl, rfl⟩

/-- Six buffers are left, one less than the larger classes may have: no buffer is posted, and no small packet can come
in any more. -/
theorem normal_runs_out : ∃ used taken, receive smallRing.probe used = some taken ∧ Accurate taken ∧
    refill (fun _ ↦ smallRing.env) taken = taken ∧ taken.count .normal = 0 ∧ ¬Supplied taken := by
  refine ⟨tenPackets, afterTen, receive_tenPackets, ⟨rfl, rfl, rfl⟩, by decide, rfl, ?_⟩
  rintro ⟨hnormal, -, -⟩
  exact absurd hnormal (by decide)

end Vcass.Virtio.Refill
