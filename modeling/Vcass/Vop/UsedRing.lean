import Vcass.Lib.Run
import Vcass.Lib.RingBuffer
import Vcass.Vop.Kvec

/-!
# VOP: the used ring

The way back of a receive buffer. When the data is in the buffer, or when the transfer failed, the
sender calls `vop_kvec_used`, which puts the head and the length into a ring on the receiver's
machine; calls come from the DMA callback and from the error path and are serialised by
`used_ring.lock`. The receiver's `vop_kvec_buf_consume` takes the entries and completes the
descriptors with `vca_vringh_complete_kern`.

`vop_kvec_used` does not look whether the ring is full. What keeps it from overflowing is that an
entry belongs to a chain that was fetched and is not completed, and that there are at most half as
many of those as slots (`Inv.room`). The half is generous: an entry keeps its slot a little longer than
its chain is incomplete, as the receiver advances its counter only after the completion.
-/

namespace Vcass.Vop.UsedRing

open Conc RingCounter RingBuffer
open Function (update)

/-! ## The system -/

/-- `struct vop_peer_used_kiov`, eight aligned bytes. -/
structure PeerUsedKiov where
  head : ℕ
  len : ℕ
  deriving DecidableEq, Repr

/-- What is left of a call of `vop_kvec_used` that holds the lock. -/
inductive Caller
  | write (kiov : PeerUsedKiov)
  | publish (kiov : PeerUsedKiov)
  deriving DecidableEq, Repr

/-- Where `vop_kvec_buf_consume` stands. -/
inductive Consumer
  | idle
  | loop
  | readHead
  | readLen (head : ℕ)
  | complete (head len : ℕ)
  | advance
  deriving DecidableEq, Repr

/-- The shared ring (`buf` and `cnt`), the counters of the two sides, and what they are doing.
`fetched` counts the receive chains that the sender has fetched, `published` are the entries put into
the ring and `completed` the calls of `vca_vringh_complete_kern`; these are history. -/
structure Sys where
  buf : ℕ → PeerUsedKiov
  cnt : ℕ
  senderLastCnt : ℕ
  lastCnt : ℕ
  caller : Option Caller
  consumer : Consumer
  fetched : ℕ
  published : List PeerUsedKiov
  completed : List PeerUsedKiov

inductive Label
  /-- The sender fetches one more receive chain. -/
  | fetch
  /-- `vop_kvec_used` for a chain that was fetched and not used yet. -/
  | used (kiov : PeerUsedKiov)
  | caller
  /-- The receiver is woken up. -/
  | wake
  /-- The receiver goes on; `ready` is what it reads from `cdev->ready`. -/
  | consume (ready : Bool)

variable (num : ℕ)

/-- One step of `vop_kvec_used`. -/
def callerStep (s : Sys) : Caller → Sys
  | .write kiov => { s with
      buf := update s.buf (u16 (kvecCounterToIdx s.senderLastCnt num)) kiov
      caller := some (.publish kiov) }
  | .publish kiov => { s with
      senderLastCnt := u16 (kvecCounterAdd s.senderLastCnt 1 num)
      cnt := u16 (kvecCounterAdd s.senderLastCnt 1 num)
      caller := none
      published := s.published ++ [kiov] }

/-- One step of `vop_kvec_buf_consume`. -/
def consumerStep (s : Sys) (ready : Bool) : Sys :=
  let kiov := s.buf (kvecCounterToIdx s.lastCnt num)
  match s.consumer with
  | .idle => s
  | .loop =>
    if ready = true ∧ s.cnt ≠ s.lastCnt then { s with consumer := .readHead }
    else { s with consumer := .idle }
  | .readHead => { s with consumer := .readLen kiov.head }
  | .readLen head => { s with consumer := .complete head kiov.len }
  | .complete head len => { s with
      consumer := .advance
      completed := s.completed ++ [⟨head, len⟩] }
  | .advance => { s with
      lastCnt := u16 (kvecCounterAdd s.lastCnt 1 num)
      consumer := .loop }

/-- One step. At most `num / 2` chains are fetched and not completed, and each is used once. -/
def step (s : Sys) : Label → Option Sys
  | .fetch =>
    if s.fetched < s.completed.length + num / 2 then some { s with fetched := s.fetched + 1 }
    else none
  | .used kiov =>
    if s.caller = none ∧ s.published.length < s.fetched then
      some { s with caller := some (.write kiov) }
    else none
  | .caller => s.caller.map (callerStep num s)
  | .wake => if s.consumer = .idle then some { s with consumer := .loop } else none
  | .consume ready => some (consumerStep num s ready)

/-- Both sides after `vop_kvec_buff_reset` and `vop_kvec_map_buf`. -/
def init : Sys where
  buf _ := ⟨0, 0⟩
  cnt := 0
  senderLastCnt := 0
  lastCnt := 0
  caller := none
  consumer := .idle
  fetched := 0
  published := []
  completed := []

/-! ## The invariant -/

/-- By how much the receiver's counter is behind the completions. -/
def Consumer.behind : Consumer → ℕ
  | .advance => 1
  | _ => 0

/-- How many entries the receiver's counter is past. -/
def Sys.past (s : Sys) : ℕ := s.completed.length - s.consumer.behind

def CallerOk (s : Sys) : Option Caller → Prop
  | none => True
  | some (.write _) => s.published.length < s.fetched
  | some (.publish kiov) => s.published.length < s.fetched ∧ s.buf (slot num s.published.length) = kiov

/-- What the locals of the receiver stand for. -/
def ConsumerOk (published : List PeerUsedKiov) (n : ℕ) : Consumer → Prop
  | .idle => True
  | .loop => True
  | .readHead => n < published.length
  | .readLen head => ∃ len, published[n]? = some ⟨head, len⟩
  | .complete head len => published[n]? = some ⟨head, len⟩
  | .advance => 0 < n

structure Inv (s : Sys) : Prop where
  le_fetched : s.published.length ≤ s.fetched
  fetched_le : s.fetched ≤ s.completed.length + num / 2
  size : s.fetched = 0 ∨ 2 ≤ num
  completed : s.completed <+: s.published
  senderLastCnt : s.senderLastCnt = count num s.published.length
  cnt : s.cnt = count num s.published.length
  lastCnt : s.lastCnt = count num s.past
  stored : Stored num s.buf s.published s.past
  caller : CallerOk num s s.caller
  consumer : ConsumerOk s.published s.completed.length s.consumer

variable {num : ℕ} {s s' : Sys}

theorem Inv.past_le (h : Inv num s) : s.past ≤ s.published.length :=
  (Nat.sub_le _ _).trans h.completed.length_le

theorem completed_le_past (s : Sys) : s.completed.length ≤ s.past + 1 := by
  rw [Sys.past]
  have : s.consumer.behind ≤ 1 := by cases s.consumer <;> simp [Consumer.behind]
  omega

/-- **The ring has room.** -/
theorem Inv.room (h : Inv num s) : s.published.length ≤ s.past + num := by
  have hle := h.le_fetched
  have hfetched := h.fetched_le
  have hpast := completed_le_past s
  rcases h.size with hzero | hsize <;> omega

/-- There is also room for the entry that is about to be published. -/
theorem Inv.room_caller (h : Inv num s) (hlt : s.published.length < s.fetched) :
    0 < num ∧ s.published.length < s.past + num := by
  have hfetched := h.fetched_le
  have hpast := completed_le_past s
  rcases h.size with hzero | hsize <;> omega

theorem ConsumerOk.snoc {published : List PeerUsedKiov} {n : ℕ} {c : Consumer}
    (h : ConsumerOk published n c) (kiov : PeerUsedKiov) : ConsumerOk (published ++ [kiov]) n c := by
  have hget : ∀ {k}, published[n]? = some k → (published ++ [kiov])[n]? = some k := fun hk ↦ by
    rw [List.getElem?_append_left (List.getElem?_eq_some_iff.mp hk).1, hk]
  cases c with
  | idle => trivial
  | loop => trivial
  | readHead => exact Nat.lt_of_lt_of_le h (by rw [List.length_append]; exact Nat.le_add_right _ _)
  | readLen head =>
    obtain ⟨len, hlen⟩ := h
    exact ⟨len, hget hlen⟩
  | complete head len => exact hget h
  | advance => exact h

theorem Inv.consumer_local {c : Consumer} (h : Inv num s)
    (hok : ConsumerOk s.published s.completed.length c) (hbehind : c.behind = s.consumer.behind) :
    Inv num { s with consumer := c } := by
  have hpast : ({ s with consumer := c } : Sys).past = s.past := by
    rw [Sys.past, Sys.past]
    dsimp only
    rw [hbehind]
  exact ⟨h.le_fetched, h.fetched_le, h.size, h.completed, h.senderLastCnt, h.cnt, hpast ▸ h.lastCnt,
    hpast ▸ h.stored, h.caller, hok⟩

section Steps

variable (hsize : 2 * num ≤ 2 ^ 16)
include hsize

theorem Inv.caller_step {c : Caller} (h : Inv num s) (hc : s.caller = some c) :
    Inv num (callerStep num s c) := by
  have hcaller := h.caller
  rw [hc] at hcaller
  cases c with
  | write kiov =>
    obtain ⟨hnum, hroom⟩ := h.room_caller hcaller
    rw [callerStep, h.senderLastCnt, u16_counterToIdx hsize hnum]
    refine ⟨h.le_fetched, h.fetched_le, h.size, h.completed, rfl, h.cnt, h.lastCnt,
      h.stored.overwrite hroom kiov, ⟨hcaller, Function.update_self ..⟩, h.consumer⟩
  | publish kiov =>
    obtain ⟨hnum, -⟩ := h.room_caller hcaller.1
    have hlen : (s.published ++ [kiov]).length = s.published.length + 1 := by simp
    rw [callerStep, h.senderLastCnt, u16_counterAdd hsize hnum]
    refine ⟨?_, h.fetched_le, h.size, h.completed.trans (List.prefix_append _ _), ?_, ?_,
      h.lastCnt, h.stored.snoc hcaller.2, trivial, h.consumer.snoc kiov⟩
    · dsimp only
      rw [hlen]
      exact hcaller.1
    · exact congrArg (count num) hlen.symm
    · exact congrArg (count num) hlen.symm

theorem Inv.consumer_step {ready : Bool} (h : Inv num s) : Inv num (consumerStep num s ready) := by
  have hok := h.consumer
  have hlast := h.lastCnt
  have hstored := h.stored
  have hidx (i : ℕ) : kvecCounterToIdx (count num i) num = slot num i := slot_count num i
  rw [consumerStep]
  cases hc : s.consumer with
  | idle => exact h
  | loop =>
    have hpast : s.past = s.completed.length := by rw [Sys.past, hc]; rfl
    dsimp only
    split
    · rename_i hne
      refine h.consumer_local (lt_of_le_of_ne h.completed.length_le fun heq ↦ hne.2 ?_)
        (by rw [hc]; rfl)
      rw [h.cnt, hlast, hpast, ← heq]
    · exact h.consumer_local trivial (by rw [hc]; rfl)
  | readHead =>
    have hpast : s.past = s.completed.length := by rw [Sys.past, hc]; rfl
    rw [hc] at hok
    rw [hpast] at hlast hstored
    obtain ⟨kiov, hget⟩ : ∃ kiov, s.published[s.completed.length]? = some kiov :=
      ⟨_, List.getElem?_eq_getElem hok⟩
    refine h.consumer_local ⟨kiov.len, ?_⟩ (by rw [hc]; rfl)
    rw [hlast, hidx, hstored _ _ le_rfl hget]
    exact hget
  | readLen head =>
    have hpast : s.past = s.completed.length := by rw [Sys.past, hc]; rfl
    rw [hc] at hok
    rw [hpast] at hlast hstored
    obtain ⟨len, hget⟩ := hok
    refine h.consumer_local ?_ (by rw [hc]; rfl)
    rw [hlast, hidx, hstored _ _ le_rfl hget]
    exact hget
  | complete head len =>
    have hpast : s.past = s.completed.length := by rw [Sys.past, hc]; rfl
    rw [hc] at hok
    have hlen : (s.completed ++ [PeerUsedKiov.mk head len]).length = s.completed.length + 1 := by simp
    have hpast' : ({ s with
        consumer := .advance
        completed := s.completed ++ [⟨head, len⟩] } : Sys).past = s.past := by
      rw [hpast, Sys.past, hlen]
      rfl
    refine ⟨h.le_fetched, ?_, h.size, isPrefix_snoc h.completed hok, h.senderLastCnt, h.cnt,
      hpast' ▸ hlast, hpast' ▸ hstored, h.caller, ?_⟩
    · have := h.fetched_le
      dsimp only
      omega
    · rw [hlen]
      exact Nat.succ_pos _
  | advance =>
    have hpast : s.past = s.completed.length - 1 := by rw [Sys.past, hc]; rfl
    rw [hc] at hok
    have hle := h.completed.length_le
    have hpos : 0 < s.fetched := lt_of_lt_of_le hok (hle.trans h.le_fetched)
    have hnum : 0 < num := by
      have := h.size
      omega
    have hpast' : ({ s with
        lastCnt := u16 (kvecCounterAdd s.lastCnt 1 num)
        consumer := .loop } : Sys).past = s.past + 1 := by
      rw [hpast, Nat.sub_add_cancel hok]
      rfl
    refine ⟨h.le_fetched, h.fetched_le, h.size, h.completed, h.senderLastCnt, h.cnt, ?_, ?_, h.caller,
      trivial⟩
    · rw [hpast', hlast]
      exact u16_counterAdd hsize hnum
    · rw [hpast']
      exact hstored.mono (Nat.le_succ _)

theorem Inv.step {l : Label} (h : Inv num s) (hs : UsedRing.step num s l = some s') :
    Inv num s' := by
  cases l with
  | fetch =>
    rw [UsedRing.step] at hs
    split at hs
    · rename_i hlt
      cases hs
      have hle := h.completed.length_le
      have hfetched := h.le_fetched
      refine ⟨hfetched.trans (Nat.le_succ _), hlt, .inr (by omega), h.completed, h.senderLastCnt,
        h.cnt, h.lastCnt, h.stored, ?_, h.consumer⟩
      have hcaller := h.caller
      cases hc : s.caller with
      | none => trivial
      | some c =>
        rw [hc] at hcaller
        cases c with
        | write kiov => exact Nat.lt_succ_of_lt hcaller
        | publish kiov => exact ⟨Nat.lt_succ_of_lt hcaller.1, hcaller.2⟩
    · cases hs
  | used kiov =>
    rw [UsedRing.step] at hs
    split at hs
    · rename_i hfree
      cases hs
      exact ⟨h.le_fetched, h.fetched_le, h.size, h.completed, h.senderLastCnt, h.cnt, h.lastCnt,
        h.stored, hfree.2, h.consumer⟩
    · cases hs
  | caller =>
    rw [UsedRing.step] at hs
    obtain ⟨c, hc, rfl⟩ := Option.map_eq_some_iff.mp hs
    exact h.caller_step hsize hc
  | wake =>
    rw [UsedRing.step] at hs
    split at hs
    · rename_i hidle
      cases hs
      exact h.consumer_local trivial (by rw [hidle]; rfl)
    · cases hs
  | consume ready =>
    rw [UsedRing.step] at hs
    cases hs
    exact h.consumer_step hsize

end Steps

theorem inv_init : Inv num init where
  le_fetched := le_rfl
  fetched_le := Nat.zero_le _
  size := .inl rfl
  completed := List.prefix_refl _
  senderLastCnt := (Nat.zero_mod _).symm
  cnt := (Nat.zero_mod _).symm
  lastCnt := (Nat.zero_mod _).symm
  stored := .nil
  caller := trivial
  consumer := trivial

/-- **No completion is lost or made twice.** In every run the ring holds at most `num` unread entries,
and the descriptors completed are those of the first entries published, in their order and with their
lengths; all of them, whenever the receiver finds no more. -/
theorem used_completed_in_order {ls : List Label} (hsize : 2 * num ≤ 2 ^ 16)
    (h : exec (step num) init ls = some s) :
    kvecCounterUsed s.lastCnt s.cnt num ≤ num ∧ s.completed <+: s.published ∧
      (s.consumer = .loop → s.cnt = s.lastCnt → s.completed = s.published) := by
  have hinv : Inv num s := exec_invariant (P := fun _ _ _ ↦ True)
    (fun hs _ hstep ↦ Inv.step hsize hs hstep) (along_of_forall fun _ _ _ ↦ trivial) inv_init h
  have hroom := hinv.room
  have hpast := hinv.past_le
  refine ⟨?_, hinv.completed, fun hc heq ↦ ?_⟩
  · rcases Nat.eq_zero_or_pos num with rfl | hnum
    · have : s.past = s.published.length := by omega
      rw [hinv.lastCnt, hinv.cnt, this, kvecCounterUsed, if_pos le_rfl, Nat.sub_self]
    · rw [hinv.lastCnt, hinv.cnt, counterUsed_count hnum hpast hroom]
      omega
  · have hlen : s.past = s.completed.length := by rw [Sys.past, hc]; rfl
    rcases Nat.eq_zero_or_pos num with rfl | hnum
    · exact hinv.completed.eq_of_length (by omega)
    · rw [hinv.cnt, hinv.lastCnt] at heq
      have := (count_eq_count hnum hpast hroom).mp heq.symm
      exact hinv.completed.eq_of_length (by omega)

/-- A ring of three entries goes around: four chains, one at a time. -/
theorem used_ring_wraps :
    ∃ s, exec (step 3) init (((List.range 4).map fun i ↦ [.fetch, .used ⟨i, 100 + i⟩, .caller, .caller,
      .wake, .consume true, .consume true, .consume true, .consume true, .consume true,
      .consume true]).flatten) = some s ∧
      s.published = [⟨0, 100⟩, ⟨1, 101⟩, ⟨2, 102⟩, ⟨3, 103⟩] ∧ s.completed <+: s.published := by
  have hrun : ∃ s, exec (step 3) init (((List.range 4).map fun i ↦ [.fetch, .used ⟨i, 100 + i⟩,
      .caller, .caller, .wake, .consume true, .consume true, .consume true, .consume true,
      .consume true, .consume true]).flatten) = some s ∧
      s.published = [⟨0, 100⟩, ⟨1, 101⟩, ⟨2, 102⟩, ⟨3, 103⟩] := ⟨_, rfl, rfl⟩
  obtain ⟨s, hs, hpub⟩ := hrun
  exact ⟨s, hs, hpub, (used_completed_in_order (by decide) hs).2.1⟩

end Vcass.Vop.UsedRing
