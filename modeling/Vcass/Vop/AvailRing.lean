import Mathlib.Data.List.Nodup
import Vcass.Lib.Run
import Vcass.Lib.RingBuffer
import Vcass.Vop.Kvec

/-!
# VOP: the rings of available descriptors

The receiver offers its buffers to the sender. `vop_kvec_buf_update` takes descriptor chains from the
receive queue and puts each of them, as two entries with the same head, into one of three rings in the
sender's memory, chosen by the size of the buffer; the counters of the rings are published after every
16 chains and at the end. On the other machine `vop_kvec_get` takes the entries of a chain out of a
ring, recognizing the end of the chain by a different head or by the published counter, and
`transfer_write` later reads the addresses from the entries, which stay in the ring.

## What the producer may do

A chain is *outstanding* from the moment it is taken from the receive queue until its descriptors are
completed, which may happen at any time after `transfer_write` has read its entries, in any order. Not
more than `num / 2` chains are outstanding, in all rings together, and they have different heads.
These are the properties of the receive queue, and the only link from the end of a chain's way to its
beginning.

## Steps

Each access to the rings is a step. The entries of a chain are written one after the other, and
`vop_kvec_get` reads the published counter three times, as the source does.
-/

namespace Vcass.Vop.AvailRing

open Conc RingCounter RingBuffer
open Function (update)

/-! ## Data -/

/-- `struct kvec`. -/
structure Kvec where
  iovBase : ℕ
  iovLen : ℕ
  deriving DecidableEq, Repr

/-- `struct vop_peer_kvec`. -/
structure PeerKvec where
  iov : Kvec
  head : ℕ
  flags : ℕ
  deriving DecidableEq, Repr

/-- A receive chain of two descriptors. -/
structure Chain where
  iov0 : Kvec
  iov1 : Kvec
  head : ℕ
  deriving DecidableEq, Repr

/-- The entries that `vop_kvec_put` prepares. -/
def Chain.entries (c : Chain) : List PeerKvec := [⟨c.iov0, c.head, 0⟩, ⟨c.iov1, c.head, 0⟩]

/-- What `vop_kvec_get` stores into an item. -/
structure Item where
  headTo : ℕ
  numKvecsTo : ℕ
  /-- `kvec_to`, as an index of the ring. -/
  kvecTo : ℕ
  deriving DecidableEq, Repr

/-- `VOP_KVEC_FLAG_IN_USE`. -/
def flagInUse : ℕ := 1 <<< 0

/-- `VOP_KVEC_FLAG_CANCELLED`. -/
def flagCancelled : ℕ := 1 <<< 1

def mtuDefault : ℕ := 1518 + (127 + 64)

def mtuJumbo : ℕ := 9018 + (127 + 64)

def mtuMax : ℕ := 65540 + (127 + 64)

def kvecIndexUpdatePeriod : ℕ := 16

def kvecBufNum : ℕ := 3

/-- `none` is `-EDOM`. -/
def getRingIdWrite (size : ℕ) : Option ℕ :=
  if size < mtuDefault then none
  else if size < mtuJumbo then some 0
  else if size < mtuMax then some 1
  else some 2

/-! ## The system -/

/-- One ring: the shared memory (`buf`, `cnt`), the counter of the producer and the one of the
consumer. `writer` is the `transfer_write` that has read the first entry of a chain. The rest is
history: the chains put into the ring, the entries written, how many chains are published, the items
returned and the addresses read by `transfer_write`. -/
structure Ring where
  buf : ℕ → PeerKvec
  cnt : ℕ
  putLastCnt : ℕ
  lastCnt : ℕ
  writer : Option Kvec
  chains : List Chain
  log : List PeerKvec
  pub : ℕ
  got : List Item
  seen : List (Kvec × Kvec)

/-- Where `vop_kvec_buf_update` stands. -/
inductive Producer
  | idle
  | loop (cntSize : ℕ → ℕ) (cntTotal : ℕ)
  /-- In `vop_kvec_put`: the entries `todo` are still to be copied, the next one to `idx`. -/
  | write (ringId idx : ℕ) (todo : List PeerKvec) (cntSize : ℕ → ℕ) (cntTotal : ℕ)
  /-- In `vop_kvec_buff_update_idx`, `last` after the loop. -/
  | publish (ringId : ℕ) (cntSize : ℕ → ℕ) (cntTotal : ℕ) (last : Bool)

/-- Where `vop_kvec_get` stands, under the mutex. -/
inductive Getter
  | idle
  /-- At the head of the loop that skips cancelled requests. -/
  | skip (r : ℕ)
  | checkFlags (r : ℕ)
  | recheck (r : ℕ)
  | readAvail (r : ℕ)
  | readHead (r availCnt : ℕ)
  | loop (r availCnt first nextIdx head num : ℕ)
  | finish (r first head num : ℕ)

/-- A chain that is not completed. -/
structure Outstanding where
  ringId : ℕ
  index : ℕ
  head : ℕ
  deriving DecidableEq, Repr

structure Sys where
  rings : ℕ → Ring
  producer : Producer
  getter : Getter
  outstanding : List Outstanding

inductive Label
  | update
  /-- `vop_common_get_descriptors` returns a chain. -/
  | fetch (c : Chain)
  /-- It returns none. -/
  | fetchNone
  | producer
  | get (r : ℕ)
  | getter
  /-- `transfer_write` reads the next entry of the oldest chain it has not read. -/
  | transferWrite (r : ℕ)
  /-- `transfer_done` clears the flags of the `j`-th item. -/
  | clearFlags (r j : ℕ)
  | complete (o : Outstanding)

section Code

variable (num : ℕ)

/-- The head of `vop_kvec_put`, for a chain whose size is accepted. -/
def vopKvecPut (s : Sys) (c : Chain) (cntSize : ℕ → ℕ) (cntTotal : ℕ) : Option Sys :=
  match getRingIdWrite c.iov1.iovLen with
  | none => none
  | some r =>
    let ring := s.rings r
    some { s with
      rings := update s.rings r { ring with
        putLastCnt := u16 (kvecCounterAdd ring.putLastCnt 2 num)
        chains := ring.chains ++ [c] }
      producer := .write r (u16 (kvecCounterToIdx ring.putLastCnt num)) c.entries cntSize cntTotal
      outstanding := s.outstanding ++ [⟨r, ring.chains.length, c.head⟩] }

def producerStep (s : Sys) : Option Sys :=
  match s.producer with
  | .idle => none
  | .loop _ _ => none
  | .write r idx (e :: todo) cntSize cntTotal => some { s with
      rings := update s.rings r { s.rings r with
        buf := update (s.rings r).buf idx e
        log := (s.rings r).log ++ [e] }
      producer := .write r (idx + 1) todo cntSize cntTotal }
  | .write r _ [] cntSize cntTotal =>
    let cntSize := update cntSize r (cntSize r + 1)
    some { s with
      producer :=
        if (cntTotal + 1) % kvecIndexUpdatePeriod = 0 then .publish 0 cntSize (cntTotal + 1) false
        else .loop cntSize (cntTotal + 1) }
  | .publish r cntSize cntTotal last =>
    if r < kvecBufNum then
      if cntSize r ≠ 0 then some { s with
        rings := update s.rings r { s.rings r with
          cnt := (s.rings r).putLastCnt
          pub := (s.rings r).chains.length }
        producer := .publish (r + 1) (update cntSize r 0) cntTotal last }
      else some { s with producer := .publish (r + 1) cntSize cntTotal last }
    else some { s with producer := if last then .idle else .loop cntSize cntTotal }

/-- The entry with its head cleared. -/
def clearHead (buf : ℕ → PeerKvec) (idx : ℕ) : ℕ → PeerKvec :=
  update buf idx { buf idx with head := 0 }

def setFlags (buf : ℕ → PeerKvec) (idx flags : ℕ) : ℕ → PeerKvec :=
  update buf idx { buf idx with flags := flags }

def getterStep (s : Sys) : Option Sys :=
  match s.getter with
  | .idle => none
  | .skip r =>
    if (s.rings r).lastCnt ≠ (s.rings r).cnt then some { s with getter := .checkFlags r }
    else some { s with getter := .recheck r }
  | .checkFlags r =>
    let ring := s.rings r
    let curIdx := u16 (kvecCounterToIdx ring.lastCnt num)
    if (ring.buf curIdx).flags &&& flagCancelled = 0 then some { s with getter := .recheck r }
    else some { s with
      rings := update s.rings r { ring with
        buf := clearHead (setFlags ring.buf curIdx 0) curIdx
        lastCnt := u16 (kvecCounterAdd ring.lastCnt 1 num) }
      getter := .skip r }
  | .recheck r =>
    if (s.rings r).lastCnt = (s.rings r).cnt then some { s with getter := .idle }
    else some { s with getter := .readAvail r }
  | .readAvail r => some { s with getter := .readHead r (s.rings r).cnt }
  | .readHead r availCnt =>
    let ring := s.rings r
    let first := u16 (ring.lastCnt % num)
    some { s with
      rings := update s.rings r { ring with buf := clearHead ring.buf first }
      getter := .loop r availCnt first (u16 (kvecCounterToIdx (ring.lastCnt + 1) num))
        (ring.buf first).head 1 }
  | .loop r availCnt first nextIdx head n =>
    let ring := s.rings r
    if kvecCounterEq (ring.lastCnt + n) availCnt num = false ∧ head = (ring.buf nextIdx).head ∧
        n < num then some { s with
      rings := update s.rings r { ring with buf := clearHead ring.buf nextIdx }
      getter := .loop r availCnt first (u16 (kvecCounterToIdx (nextIdx + 1) num)) head (n + 1) }
    else some { s with getter := .finish r first head n }
  | .finish r first head n =>
    let ring := s.rings r
    some { s with
      rings := update s.rings r { ring with
        buf := setFlags ring.buf first flagInUse
        lastCnt := u16 (kvecCounterAdd ring.lastCnt n num)
        got := ring.got ++ [⟨head, n, first⟩] }
      getter := .idle }

/-- `transfer_write` reads an entry of an item with two kvecs. -/
def transferWriteStep (ring : Ring) : Option Ring :=
  match ring.got[ring.seen.length]? with
  | none => none
  | some item =>
    if item.numKvecsTo ≠ 2 then none
    else match ring.writer with
    | none => some { ring with writer := some (ring.buf item.kvecTo).iov }
    | some iov0 => some { ring with
        writer := none
        seen := ring.seen ++ [(iov0, (ring.buf (item.kvecTo + 1)).iov)] }

def step (s : Sys) : Label → Option Sys
  | .update =>
    match s.producer with
    | .idle => some { s with producer := .loop (fun _ ↦ 0) 0 }
    | _ => none
  | .fetch c =>
    match s.producer with
    | .loop cntSize cntTotal =>
      if s.outstanding.length < num / 2 ∧ c.head ∉ s.outstanding.map Outstanding.head then
        vopKvecPut num s c cntSize cntTotal
      else none
    | _ => none
  | .fetchNone =>
    match s.producer with
    | .loop cntSize cntTotal => some { s with producer := .publish 0 cntSize cntTotal true }
    | _ => none
  | .producer => producerStep s
  | .get r =>
    match s.getter with
    | .idle => some { s with getter := .skip r }
    | _ => none
  | .getter => getterStep num s
  | .transferWrite r => (transferWriteStep (s.rings r)).map fun ring ↦
      { s with rings := update s.rings r ring }
  | .clearFlags r j =>
    match (s.rings r).got[j]? with
    | none => none
    | some item =>
      if j < (s.rings r).seen.length then some { s with
        rings := update s.rings r { s.rings r with
          buf := setFlags (s.rings r).buf item.kvecTo 0 } }
      else none
  | .complete o =>
    if o ∈ s.outstanding ∧ o.index < (s.rings o.ringId).seen.length then
      some { s with outstanding := s.outstanding.erase o }
    else none

end Code

/-- The rings after `vop_kvec_buff_init` and `vop_kvec_map_buf`. -/
def init : Sys where
  rings _ := ⟨fun _ ↦ ⟨⟨0, 0⟩, 0, 0⟩, 0, 0, 0, none, [], [], 0, [], []⟩
  producer := .idle
  getter := .idle
  outstanding := []

/-! ## Entries and slots -/

section Entries

variable {chains : List Chain} {c : Chain} {j : ℕ}

theorem length_entries (chains : List Chain) :
    (chains.flatMap Chain.entries).length = 2 * chains.length := by
  induction chains with
  | nil => rfl
  | cons c chains ih =>
    rw [List.flatMap_cons, List.length_append, ih, List.length_cons, Nat.mul_add, Nat.add_comm]
    rfl

theorem getElem?_entries (hc : chains[j]? = some c) :
    (chains.flatMap Chain.entries)[2 * j]? = some ⟨c.iov0, c.head, 0⟩ ∧
      (chains.flatMap Chain.entries)[2 * j + 1]? = some ⟨c.iov1, c.head, 0⟩ := by
  induction chains generalizing j with
  | nil => simp at hc
  | cons d chains ih =>
    cases j with
    | zero =>
      cases hc
      exact ⟨rfl, rfl⟩
    | succ j => exact ih hc

end Entries

section Slots

variable {num k : ℕ}

theorem idx_add (num a v : ℕ) : kvecCounterToIdx (count num a + v) num = slot num (a + v) := by
  rw [kvecCounterToIdx, count, slot, Nat.add_mod, Nat.mod_mod_of_dvd a (Dvd.intro_left 2 rfl),
    ← Nat.add_mod]

theorem idx_slot_add (num a v : ℕ) : kvecCounterToIdx (slot num a + v) num = slot num (a + v) := by
  rw [kvecCounterToIdx, slot, slot, Nat.mod_add_mod]

/-- In a ring of even size the two entries of a chain are neighbours. -/
theorem slot_succ (heven : num % 2 = 0) (hnum : 0 < num) :
    slot num (2 * k + 1) = slot num (2 * k) + 1 ∧ slot num (2 * k) + 1 < num := by
  obtain ⟨m, rfl⟩ : ∃ m, num = 2 * m := ⟨num / 2, by omega⟩
  have hlt : k % m < m := Nat.mod_lt _ (by omega)
  have heq : slot (2 * m) (2 * k) = 2 * (k % m) := by rw [slot, Nat.mul_mod_mul_left]
  have hbound : slot (2 * m) (2 * k) + 1 < 2 * m := by omega
  refine ⟨?_, hbound⟩
  rw [← idx_slot_add, kvecCounterToIdx, Nat.mod_eq_of_lt hbound]

end Slots

/-! ## The invariant -/

/-- The entries of ring `r` that are still to be written. -/
def Producer.pending : Producer → ℕ → List PeerKvec
  | .write r' _ todo _ _, r => if r = r' then todo else []
  | _, _ => []

/-- How many heads of the chain that is being taken out of ring `r` are cleared. -/
def Getter.cleared : Getter → ℕ → ℕ
  | .loop r' _ _ _ _ n, r => if r = r' then n else 0
  | .finish r' _ _ n, r => if r = r' then n else 0
  | _, _ => 0

/-- **One ring.** The counters stand for numbers of chains; the addresses of the chains that
`transfer_write` has not read and the heads of those that `vop_kvec_get` has not returned are in their
slots. -/
structure RingInv (num : ℕ) (pending : List PeerKvec) (cleared : ℕ) (ring : Ring) : Prop where
  log : ring.chains.flatMap Chain.entries = ring.log ++ pending
  putLastCnt : ring.putLastCnt = count num (2 * ring.chains.length)
  cnt : ring.cnt = count num (2 * ring.pub)
  lastCnt : ring.lastCnt = count num (2 * ring.got.length)
  pub_le : 2 * ring.pub ≤ ring.log.length
  got_le : ring.got.length ≤ ring.pub
  seen_le : ring.seen.length ≤ ring.got.length
  iovs : Stored num (PeerKvec.iov ∘ ring.buf) (ring.log.map PeerKvec.iov) (2 * ring.seen.length)
  heads : Stored num (PeerKvec.head ∘ ring.buf) (ring.log.map PeerKvec.head)
    (2 * ring.got.length + cleared)
  flags : ∀ i, (ring.buf i).flags ≤ 1
  items : ∀ (j : ℕ) (item : Item), ring.got[j]? = some item →
    ∃ c : Chain, ring.chains[j]? = some c ∧ item = ⟨c.head, 2, slot num (2 * j)⟩
  writer : ∀ iov, ring.writer = some iov →
    ∃ c : Chain, ring.chains[ring.seen.length]? = some c ∧ iov = c.iov0
  seen : ∀ (j : ℕ) p, ring.seen[j]? = some p →
    ∃ c : Chain, ring.chains[j]? = some c ∧ p = (c.iov0, c.iov1)
  size : ring.chains = [] ∨ 0 < num

/-- The producer writes a chain to the slots behind the log. -/
def ProducerOk (num : ℕ) (s : Sys) : Producer → Prop
  | .write r idx todo _ _ =>
    todo.length ≤ 2 ∧ (todo ≠ [] → idx = slot num (s.rings r).log.length) ∧
      (todo.length = 2 → slot num (s.rings r).log.length + 1 =
        slot num ((s.rings r).log.length + 1))
  | _ => True

/-- What the locals of `vop_kvec_get` stand for. -/
def GetterOk (num : ℕ) (s : Sys) : Getter → Prop
  | .checkFlags r => (s.rings r).got.length < (s.rings r).pub
  | .readAvail r => (s.rings r).got.length < (s.rings r).pub
  | .readHead r availCnt => ∃ a, availCnt = count num (2 * a) ∧ (s.rings r).got.length < a ∧
      a ≤ (s.rings r).pub
  | .loop r availCnt first nextIdx head n =>
    (∃ a, availCnt = count num (2 * a) ∧ (s.rings r).got.length < a ∧ a ≤ (s.rings r).pub) ∧
      first = slot num (2 * (s.rings r).got.length) ∧
      nextIdx = slot num (2 * (s.rings r).got.length + n) ∧ 1 ≤ n ∧ n ≤ 2 ∧
      ∃ c : Chain, (s.rings r).chains[(s.rings r).got.length]? = some c ∧ head = c.head
  | .finish r first head n =>
    (s.rings r).got.length < (s.rings r).pub ∧ first = slot num (2 * (s.rings r).got.length) ∧
      n = 2 ∧ ∃ c : Chain, (s.rings r).chains[(s.rings r).got.length]? = some c ∧ head = c.head
  | _ => True

structure Inv (num : ℕ) (s : Sys) : Prop where
  ring : ∀ r, RingInv num (s.producer.pending r) (s.getter.cleared r) (s.rings r)
  /-- A chain whose addresses were not read is outstanding. -/
  unread : ∀ (r j : ℕ) (c : Chain), (s.rings r).seen.length ≤ j → (s.rings r).chains[j]? = some c →
    ⟨r, j, c.head⟩ ∈ s.outstanding
  heads : (s.outstanding.map Outstanding.head).Nodup
  length_le : s.outstanding.length ≤ num / 2
  producer : ProducerOk num s s.producer
  getter : GetterOk num s s.getter

variable {num : ℕ} {s s' : Sys} {ring : Ring} {pending : List PeerKvec} {cleared : ℕ}

section Ring

variable (h : RingInv num pending cleared ring)
include h

theorem RingInv.log_length : ring.log.length + pending.length = 2 * ring.chains.length := by
  rw [← length_entries, h.log, List.length_append]

theorem RingInv.pub_le_chains : ring.pub ≤ ring.chains.length := by
  have := h.log_length
  have := h.pub_le
  omega

theorem RingInv.got_le_chains : ring.got.length ≤ ring.chains.length :=
  h.got_le.trans h.pub_le_chains

theorem RingInv.getElem?_log {j : ℕ} {c : Chain} (hc : ring.chains[j]? = some c) (hj : j < ring.pub) :
    ring.log[2 * j]? = some ⟨c.iov0, c.head, 0⟩ ∧ ring.log[2 * j + 1]? = some ⟨c.iov1, c.head, 0⟩ := by
  have hpub := h.pub_le
  obtain ⟨h0, h1⟩ := getElem?_entries hc
  rw [h.log] at h0 h1
  rw [List.getElem?_append_left (by omega)] at h0 h1
  exact ⟨h0, h1⟩

/-- The addresses of a published chain stay in the ring until they are read. -/
theorem RingInv.iov_eq {j : ℕ} {c : Chain} (hc : ring.chains[j]? = some c) (hj : j < ring.pub)
    (hseen : ring.seen.length ≤ j) :
    (ring.buf (slot num (2 * j))).iov = c.iov0 ∧ (ring.buf (slot num (2 * j + 1))).iov = c.iov1 := by
  obtain ⟨h0, h1⟩ := h.getElem?_log hc hj
  constructor
  · exact h.iovs (2 * j) c.iov0 (by omega) (by rw [List.getElem?_map, h0]; rfl)
  · exact h.iovs (2 * j + 1) c.iov1 (by omega) (by rw [List.getElem?_map, h1]; rfl)

/-- The heads of a published chain stay in the ring until they are cleared. -/
theorem RingInv.head_eq {j i : ℕ} {c : Chain} (hc : ring.chains[j]? = some c) (hj : j < ring.pub)
    (hi : i = 2 * j ∨ i = 2 * j + 1) (hle : 2 * ring.got.length + cleared ≤ i) :
    (ring.buf (slot num i)).head = c.head := by
  obtain ⟨h0, h1⟩ := h.getElem?_log hc hj
  rcases hi with rfl | rfl
  · exact h.heads (2 * j) c.head hle (by rw [List.getElem?_map, h0]; rfl)
  · exact h.heads (2 * j + 1) c.head hle (by rw [List.getElem?_map, h1]; rfl)

end Ring

/-! ## Outstanding chains -/

/-- **Room in a ring.** The chains that were not read are outstanding, so they take at most half as
many entries as the ring has. -/
theorem Inv.room (h : Inv num s) (r : ℕ) :
    (s.rings r).chains.length ≤ (s.rings r).seen.length + num / 2 := by
  have hring := h.ring r
  have hle : (s.rings r).seen.length ≤ (s.rings r).chains.length :=
    hring.seen_le.trans hring.got_le_chains
  let f : ℕ → Outstanding := fun j ↦ ⟨r, j, ((s.rings r).chains[j]?.map Chain.head).getD 0⟩
  have hnd : ((List.range' (s.rings r).seen.length
      ((s.rings r).chains.length - (s.rings r).seen.length)).map f).Nodup := by
    refine List.Nodup.map (fun i j hij ↦ ?_) List.nodup_range'
    exact congrArg Outstanding.index hij
  have hsub : (List.range' (s.rings r).seen.length
      ((s.rings r).chains.length - (s.rings r).seen.length)).map f ⊆ s.outstanding := by
    intro o ho
    obtain ⟨j, hj, rfl⟩ := List.mem_map.mp ho
    rw [List.mem_range'_1] at hj
    have hget : (s.rings r).chains[j]? = some (s.rings r).chains[j] :=
      List.getElem?_eq_getElem (by omega)
    have hmem := h.unread r j _ hj.1 hget
    have hf : f j = ⟨r, j, (s.rings r).chains[j].head⟩ := by simp [f, hget]
    rwa [hf]
  have hlen := hnd.length_le_of_subset hsub
  have := h.length_le
  rw [List.length_map, List.length_range'] at hlen
  omega

/-- Chains that were not read have different heads. -/
theorem Inv.head_inj (h : Inv num s) {r i j : ℕ} {c d : Chain}
    (hi : (s.rings r).seen.length ≤ i) (hj : (s.rings r).seen.length ≤ j)
    (hc : (s.rings r).chains[i]? = some c) (hd : (s.rings r).chains[j]? = some d)
    (heq : c.head = d.head) : i = j := by
  have hmem := List.inj_on_of_nodup_map h.heads (h.unread r i c hi hc) (h.unread r j d hj hd) heq
  exact congrArg Outstanding.index hmem

/-! ## Changes of the buffer -/

section Buffer

variable {buf : ℕ → PeerKvec} {i : ℕ}

theorem iov_clearHead : PeerKvec.iov ∘ clearHead buf i = PeerKvec.iov ∘ buf := by
  rw [clearHead, Function.comp_update]
  exact Function.update_eq_self ..

theorem head_clearHead : PeerKvec.head ∘ clearHead buf i = update (PeerKvec.head ∘ buf) i 0 :=
  Function.comp_update ..

theorem iov_setFlags {flags : ℕ} : PeerKvec.iov ∘ setFlags buf i flags = PeerKvec.iov ∘ buf := by
  rw [setFlags, Function.comp_update]
  exact Function.update_eq_self ..

theorem head_setFlags {flags : ℕ} : PeerKvec.head ∘ setFlags buf i flags = PeerKvec.head ∘ buf := by
  rw [setFlags, Function.comp_update]
  exact Function.update_eq_self ..

theorem flags_update_le {e : PeerKvec} (hbuf : ∀ j, (buf j).flags ≤ 1) (he : e.flags ≤ 1) (j : ℕ) :
    (update buf i e j).flags ≤ 1 := by
  by_cases hj : j = i
  · rw [hj, Function.update_self]
    exact he
  · rw [Function.update_of_ne hj]
    exact hbuf j

end Buffer

theorem RingInv.set_flags {i flags : ℕ} (h : RingInv num pending cleared ring) (hflags : flags ≤ 1) :
    RingInv num pending cleared { ring with buf := setFlags ring.buf i flags } where
  log := h.log
  putLastCnt := h.putLastCnt
  cnt := h.cnt
  lastCnt := h.lastCnt
  pub_le := h.pub_le
  got_le := h.got_le
  seen_le := h.seen_le
  iovs := by
    rw [iov_setFlags]
    exact h.iovs
  heads := by
    rw [head_setFlags]
    exact h.heads
  flags := flags_update_le h.flags hflags
  items := h.items
  writer := h.writer
  seen := h.seen
  size := h.size

theorem RingInv.clear_head (h : RingInv num pending cleared ring)
    (hroom : ring.log.length ≤ 2 * ring.got.length + num) :
    RingInv num pending (cleared + 1)
      { ring with buf := clearHead ring.buf (slot num (2 * ring.got.length + cleared)) } where
  log := h.log
  putLastCnt := h.putLastCnt
  cnt := h.cnt
  lastCnt := h.lastCnt
  pub_le := h.pub_le
  got_le := h.got_le
  seen_le := h.seen_le
  iovs := by
    rw [iov_clearHead]
    exact h.iovs
  heads := by
    rw [head_clearHead]
    refine (h.heads.mono (Nat.le_succ _)).overwrite_before ?_ 0
    rw [List.length_map]
    omega
  flags := flags_update_le h.flags (h.flags _)
  items := h.items
  writer := h.writer
  seen := h.seen
  size := h.size

theorem RingInv.write {e : PeerKvec} (h : RingInv num (e :: pending) cleared ring)
    (hroom : ring.log.length < 2 * ring.seen.length + num) :
    RingInv num pending cleared { ring with
      buf := update ring.buf (slot num ring.log.length) e
      log := ring.log ++ [e] } where
  log := by
    rw [h.log, List.append_assoc]
    rfl
  putLastCnt := h.putLastCnt
  cnt := h.cnt
  lastCnt := h.lastCnt
  pub_le := by
    rw [List.length_append]
    exact h.pub_le.trans (Nat.le_add_right _ _)
  got_le := h.got_le
  seen_le := h.seen_le
  iovs := by
    have hpush := h.iovs.push (by rwa [List.length_map]) e.iov
    rw [List.length_map] at hpush
    rw [Function.comp_update, List.map_append]
    exact hpush
  heads := by
    have hle := h.seen_le
    have hpush := h.heads.push (by rw [List.length_map]; omega) e.head
    rw [List.length_map] at hpush
    rw [Function.comp_update, List.map_append]
    exact hpush
  flags := by
    refine flags_update_le h.flags ?_
    have hmem : e ∈ ring.chains.flatMap Chain.entries := by
      rw [h.log]
      exact List.mem_append_right _ List.mem_cons_self
    obtain ⟨c, -, hc⟩ := List.mem_flatMap.mp hmem
    rw [Chain.entries] at hc
    simp only [List.mem_cons, List.not_mem_nil, or_false] at hc
    rcases hc with rfl | rfl <;> exact Nat.zero_le _
  items := h.items
  writer := h.writer
  seen := h.seen
  size := h.size

theorem RingInv.put {c : Chain} (h : RingInv num [] cleared ring) (hsize : 2 * num ≤ 2 ^ 16)
    (hnum : 0 < num) :
    RingInv num c.entries cleared { ring with
      putLastCnt := u16 (kvecCounterAdd ring.putLastCnt 2 num)
      chains := ring.chains ++ [c] } where
  log := by
    have hlog := h.log
    rw [List.append_nil] at hlog
    rw [List.flatMap_append, hlog, List.flatMap_cons, List.flatMap_nil, List.append_nil]
  putLastCnt := by
    rw [h.putLastCnt, u16_counterAdd hsize hnum, List.length_append, List.length_singleton,
      Nat.mul_add]
  cnt := h.cnt
  lastCnt := h.lastCnt
  pub_le := h.pub_le
  got_le := h.got_le
  seen_le := h.seen_le
  iovs := h.iovs
  heads := h.heads
  flags := h.flags
  items j item hitem := by
    obtain ⟨d, hd, heq⟩ := h.items j item hitem
    exact ⟨d, by rw [List.getElem?_append_left (List.getElem?_eq_some_iff.mp hd).1, hd], heq⟩
  writer iov hiov := by
    obtain ⟨d, hd, heq⟩ := h.writer iov hiov
    exact ⟨d, by rw [List.getElem?_append_left (List.getElem?_eq_some_iff.mp hd).1, hd], heq⟩
  seen j p hp := by
    obtain ⟨d, hd, heq⟩ := h.seen j p hp
    exact ⟨d, by rw [List.getElem?_append_left (List.getElem?_eq_some_iff.mp hd).1, hd], heq⟩
  size := .inr hnum

theorem RingInv.publish (h : RingInv num [] cleared ring) :
    RingInv num [] cleared { ring with cnt := ring.putLastCnt, pub := ring.chains.length } where
  log := h.log
  putLastCnt := h.putLastCnt
  cnt := h.putLastCnt
  lastCnt := h.lastCnt
  pub_le := by
    have := h.log_length
    rw [List.length_nil] at this
    dsimp only
    omega
  got_le := h.got_le_chains
  seen_le := h.seen_le
  iovs := h.iovs
  heads := h.heads
  flags := h.flags
  items := h.items
  writer := h.writer
  seen := h.seen
  size := h.size

theorem RingInv.finish {c : Chain} (h : RingInv num pending 2 ring) (hsize : 2 * num ≤ 2 ^ 16)
    (hnum : 0 < num) (hlt : ring.got.length < ring.pub)
    (hc : ring.chains[ring.got.length]? = some c) :
    RingInv num pending 0 { ring with
      lastCnt := u16 (kvecCounterAdd ring.lastCnt 2 num)
      got := ring.got ++ [⟨c.head, 2, slot num (2 * ring.got.length)⟩] } where
  log := h.log
  putLastCnt := h.putLastCnt
  cnt := h.cnt
  lastCnt := by
    rw [h.lastCnt, u16_counterAdd hsize hnum, List.length_append, List.length_singleton, Nat.mul_add]
  pub_le := h.pub_le
  got_le := by
    rw [List.length_append]
    exact hlt
  seen_le := by
    rw [List.length_append]
    exact h.seen_le.trans (Nat.le_add_right _ _)
  iovs := h.iovs
  heads := by
    rw [List.length_append, List.length_singleton, Nat.mul_add]
    exact h.heads
  flags := h.flags
  items j item hitem := by
    rcases Nat.lt_or_ge j ring.got.length with hj | hj
    · rw [List.getElem?_append_left hj] at hitem
      exact h.items j item hitem
    · have hlt := (List.getElem?_eq_some_iff.mp hitem).1
      rw [List.length_append, List.length_singleton] at hlt
      obtain rfl : j = ring.got.length := by omega
      rw [List.getElem?_concat_length, Option.some_inj] at hitem
      exact ⟨c, hc, hitem.symm⟩
  writer := h.writer
  seen := h.seen
  size := h.size

theorem RingInv.transfer_write {ring' : Ring} (h : RingInv num pending cleared ring)
    (heven : num % 2 = 0) (hnum : 0 < num) (hs : transferWriteStep ring = some ring') :
    RingInv num pending cleared ring' ∧ ring'.chains = ring.chains ∧ ring'.log = ring.log ∧
      ring'.got = ring.got ∧ ring'.pub = ring.pub ∧ ring.seen.length ≤ ring'.seen.length := by
  rw [transferWriteStep] at hs
  split at hs
  · cases hs
  rename_i item hitem
  split at hs
  · cases hs
  obtain ⟨c, hc, rfl⟩ := h.items _ item hitem
  have hlt : ring.seen.length < ring.got.length := (List.getElem?_eq_some_iff.mp hitem).1
  obtain ⟨h0, h1⟩ := h.iov_eq hc (hlt.trans_le h.got_le) le_rfl
  split at hs
  · rename_i hidle
    cases hs
    refine ⟨⟨h.log, h.putLastCnt, h.cnt, h.lastCnt, h.pub_le, h.got_le, h.seen_le, h.iovs, h.heads,
      h.flags, h.items, fun iov hiov ↦ ?_, h.seen, h.size⟩, rfl, rfl, rfl, rfl, le_rfl⟩
    cases hiov
    exact ⟨c, hc, h0⟩
  · rename_i iov0 hiov
    cases hs
    obtain ⟨d, hd, rfl⟩ := h.writer iov0 hiov
    obtain rfl : c = d := Option.some_inj.mp (hc.symm.trans hd)
    rw [(slot_succ heven hnum).1] at h1
    have hlen : (ring.seen ++ [(c.iov0, (ring.buf (slot num (2 * ring.seen.length) + 1)).iov)]).length =
        ring.seen.length + 1 := by simp
    refine ⟨⟨h.log, h.putLastCnt, h.cnt, h.lastCnt, h.pub_le, h.got_le, hlen.trans_le hlt, ?_, h.heads,
      h.flags, h.items, nofun, fun j p hp ↦ ?_, h.size⟩, rfl, rfl, rfl, rfl, hlen.ge.trans' (Nat.le_succ _)⟩
    · rw [hlen]
      exact h.iovs.mono (by omega)
    · rcases Nat.lt_or_ge j ring.seen.length with hj | hj
      · rw [List.getElem?_append_left hj] at hp
        exact h.seen j p hp
      · have hjlt := (List.getElem?_eq_some_iff.mp hp).1
        rw [hlen] at hjlt
        obtain rfl : j = ring.seen.length := by omega
        rw [List.getElem?_concat_length, Option.some_inj] at hp
        exact ⟨c, hc, by rw [← hp, h1]⟩

/-! ## Steps -/

/-- What a step of one party leaves to `vop_kvec_get`: the items, and the chains that were
published. -/
theorem GetterOk.mono {g : Getter} (h : GetterOk num s g)
    (hgot : ∀ r, (s'.rings r).got = (s.rings r).got) (hpub : ∀ r, (s.rings r).pub ≤ (s'.rings r).pub)
    (hchains : ∀ r, (s.rings r).chains <+: (s'.rings r).chains) : GetterOk num s' g := by
  have hget : ∀ {r j : ℕ} {c : Chain}, (s.rings r).chains[j]? = some c →
      (s'.rings r).chains[j]? = some c := fun {r j c} hc ↦ by
    obtain ⟨t, ht⟩ := hchains r
    rw [← ht, List.getElem?_append_left (List.getElem?_eq_some_iff.mp hc).1, hc]
  cases g with
  | idle => trivial
  | skip r => trivial
  | recheck r => trivial
  | checkFlags r =>
    rw [GetterOk, hgot r]
    exact h.trans_le (hpub r)
  | readAvail r =>
    rw [GetterOk, hgot r]
    exact h.trans_le (hpub r)
  | readHead r availCnt =>
    obtain ⟨a, ha, hlt, hle⟩ := h
    exact ⟨a, ha, hgot r ▸ hlt, hle.trans (hpub r)⟩
  | loop r availCnt first nextIdx head n =>
    obtain ⟨⟨a, ha, hlt, hle⟩, hfirst, hnext, h1, h2, c, hc, hhead⟩ := h
    refine ⟨⟨a, ha, ?_, hle.trans (hpub r)⟩, ?_, ?_, h1, h2, c, ?_, hhead⟩ <;> rw [hgot r]
    · exact hlt
    · exact hfirst
    · exact hnext
    · exact hget hc
  | finish r first head n =>
    obtain ⟨hlt, hfirst, hn, c, hc, hhead⟩ := h
    refine ⟨?_, ?_, hn, c, ?_, hhead⟩ <;> rw [hgot r]
    · exact hlt.trans_le (hpub r)
    · exact hfirst
    · exact hget hc

theorem ProducerOk.congr {p : Producer} (h : ProducerOk num s p)
    (hlog : ∀ r, (s'.rings r).log = (s.rings r).log) : ProducerOk num s' p := by
  cases p with
  | write r idx todo cntSize cntTotal =>
    rw [ProducerOk, hlog r]
    exact h
  | _ => trivial

theorem Inv.set_ring {r : ℕ} {ring' : Ring} {p : Producer} {g : Getter} (h : Inv num s)
    (hring : RingInv num (p.pending r) (g.cleared r) ring')
    (hother : ∀ r' ≠ r, p.pending r' = s.producer.pending r' ∧ g.cleared r' = s.getter.cleared r')
    (hchains : ring'.chains = (s.rings r).chains)
    (hseen : (s.rings r).seen.length ≤ ring'.seen.length)
    (hp : ProducerOk num { s with rings := update s.rings r ring' } p)
    (hg : GetterOk num { s with rings := update s.rings r ring' } g) :
    Inv num { s with rings := update s.rings r ring', producer := p, getter := g } := by
  refine ⟨fun r' ↦ ?_, fun r' j c hj hc ↦ ?_, h.heads, h.length_le, hp, hg⟩
  · by_cases hr : r' = r
    · subst hr
      simpa using hring
    · dsimp only
      rw [Function.update_of_ne hr, (hother r' hr).1, (hother r' hr).2]
      exact h.ring r'
  · by_cases hr : r' = r
    · subst hr
      simp only [Function.update_self] at hj hc
      rw [hchains] at hc
      exact h.unread r' j c (hseen.trans hj) hc
    · simp only [Function.update_of_ne hr] at hj hc
      exact h.unread r' j c hj hc

/-- A chain that was not read makes the ring a real one. -/
theorem Inv.two_le (h : Inv num s) {r : ℕ} (hlt : (s.rings r).seen.length < (s.rings r).pub) :
    2 ≤ num := by
  have hroom := h.room r
  have hpub := (h.ring r).pub_le_chains
  omega

theorem GetterOk.update {g : Getter} {r : ℕ} {ring' : Ring} (h : GetterOk num s g)
    (hrings : s'.rings = Function.update s.rings r ring') (hgot : ring'.got = (s.rings r).got)
    (hpub : (s.rings r).pub ≤ ring'.pub) (hchains : (s.rings r).chains <+: ring'.chains) :
    GetterOk num s' g := by
  refine h.mono (fun r' ↦ ?_) (fun r' ↦ ?_) fun r' ↦ ?_ <;> rw [hrings]
  all_goals
    by_cases hr : r' = r
    · subst hr
      rw [Function.update_self]
      assumption
    · rw [Function.update_of_ne hr]

theorem ProducerOk.update {p : Producer} {r : ℕ} {ring' : Ring} (h : ProducerOk num s p)
    (hrings : s'.rings = Function.update s.rings r ring') (hlog : ring'.log = (s.rings r).log) :
    ProducerOk num s' p := by
  refine h.congr fun r' ↦ ?_
  rw [hrings]
  by_cases hr : r' = r
  · subst hr
    rw [Function.update_self, hlog]
  · rw [Function.update_of_ne hr]

theorem Inv.put_step {c : Chain} {cntSize : ℕ → ℕ} {cntTotal : ℕ} (h : Inv num s)
    (heven : 2 ≤ num → num % 2 = 0) (hsize : 2 * num ≤ 2 ^ 16) (hloop : s.producer = .loop cntSize cntTotal)
    (hlt : s.outstanding.length < num / 2) (hnew : c.head ∉ s.outstanding.map Outstanding.head)
    (hs : vopKvecPut num s c cntSize cntTotal = some s') : Inv num s' := by
  have hnum : 0 < num := by omega
  rw [vopKvecPut] at hs
  split at hs
  · cases hs
  rename_i r _
  cases hs
  have hring := h.ring r
  rw [hloop] at hring
  have hlen := hring.log_length
  rw [show (Producer.loop cntSize cntTotal).pending r = [] from rfl, List.length_nil] at hlen
  refine ⟨fun r' ↦ ?_, fun r' j d hj hd ↦ ?_, ?_, ?_, ⟨le_rfl, fun _ ↦ ?_, fun _ ↦ ?_⟩, ?_⟩
  · by_cases hr : r' = r
    · subst hr
      simp only [Function.update_self, Producer.pending, if_pos]
      exact hring.put hsize hnum
    · have hring' := h.ring r'
      rw [hloop] at hring'
      simp only [Function.update_of_ne hr, Producer.pending, if_neg hr]
      exact hring'
  · by_cases hr : r' = r
    · subst hr
      simp only [Function.update_self] at hj hd
      rcases Nat.lt_or_ge j (s.rings r').chains.length with hj' | hj'
      · rw [List.getElem?_append_left hj'] at hd
        exact List.mem_append_left _ (h.unread r' j d hj hd)
      · have hjlt := (List.getElem?_eq_some_iff.mp hd).1
        rw [List.length_append, List.length_singleton] at hjlt
        obtain rfl : j = (s.rings r').chains.length := by omega
        rw [List.getElem?_concat_length, Option.some_inj] at hd
        rw [← hd]
        exact List.mem_append_right _ (List.mem_singleton_self _)
    · simp only [Function.update_of_ne hr] at hj hd
      exact List.mem_append_left _ (h.unread r' j d hj hd)
  · rw [List.map_append, List.nodup_append]
    refine ⟨h.heads, List.nodup_singleton _, ?_⟩
    rintro a ha b hb rfl
    rw [List.map_cons, List.map_nil, List.mem_singleton] at hb
    rw [hb] at ha
    exact hnew ha
  · rw [List.length_append, List.length_singleton]
    exact hlt
  · simp only [Function.update_self]
    rw [hring.putLastCnt, u16_counterToIdx hsize hnum]
    congr 1
    omega
  · simp only [Function.update_self]
    rw [show (s.rings r).log.length = 2 * (s.rings r).chains.length by omega]
    exact (slot_succ (heven (by omega)) hnum).1.symm
  · exact h.getter.update rfl rfl le_rfl (List.prefix_append _ _)

theorem Inv.producer_step (h : Inv num s) (hs : producerStep s = some s') : Inv num s' := by
  have hok := h.producer
  have hring := h.ring
  rw [producerStep.eq_def] at hs
  cases hp : s.producer with
  | idle =>
    rw [hp] at hs
    cases hs
  | loop cntSize cntTotal =>
    rw [hp] at hs
    cases hs
  | write r idx todo cntSize cntTotal =>
    rw [hp] at hs hok hring
    cases todo with
    | nil =>
      cases hs
      refine ⟨fun r' ↦ ?_, h.unread, h.heads, h.length_le, ?_, h.getter⟩
      · have hring' := hring r'
        rw [Producer.pending, ite_self] at hring'
        dsimp only
        split <;> exact hring'
      · dsimp only
        split <;> trivial
    | cons e todo =>
      cases hs
      obtain ⟨hle, hidx, hnext⟩ := hok
      rw [hidx (List.cons_ne_nil _ _)]
      have hr := hring r
      rw [Producer.pending, if_pos rfl] at hr
      have hroom : (s.rings r).log.length < 2 * (s.rings r).seen.length + num := by
        have hlog := hr.log_length
        have hroom := h.room r
        rw [List.length_cons] at hlog
        omega
      refine h.set_ring ?_ (fun r' hr' ↦ ⟨?_, rfl⟩) rfl le_rfl ?_ ?_
      · rw [Producer.pending, if_pos rfl]
        exact hr.write hroom
      · rw [hp, Producer.pending, Producer.pending, if_neg hr', if_neg hr']
      · rw [List.length_cons] at hle hnext
        refine ⟨by omega, fun hne ↦ ?_, fun htwo ↦ by omega⟩
        have hpos := List.length_pos_iff.mpr hne
        simp only [Function.update_self, List.length_append, List.length_singleton]
        exact hnext (by omega)
      · exact h.getter.update rfl rfl le_rfl (List.prefix_refl _)
  | publish r cntSize cntTotal last =>
    rw [hp] at hs hring
    dsimp only at hs
    split at hs
    · split at hs
      · cases hs
        refine h.set_ring (hring r).publish (fun r' hr' ↦ ⟨?_, rfl⟩) rfl le_rfl trivial ?_
        · rw [hp]
          rfl
        · exact h.getter.update rfl rfl (hring r).pub_le_chains (List.prefix_refl _)
      · cases hs
        exact ⟨hring, h.unread, h.heads, h.length_le, trivial, h.getter⟩
    · cases hs
      refine ⟨fun r' ↦ ?_, h.unread, h.heads, h.length_le, ?_, h.getter⟩
      · have hring' := hring r'
        dsimp only
        split <;> exact hring'
      · dsimp only
        split <;> trivial

theorem Inv.getter_local {g : Getter} (h : Inv num s) (hok : GetterOk num s g)
    (hcleared : ∀ r, g.cleared r = s.getter.cleared r) : Inv num { s with getter := g } := by
  refine ⟨fun r ↦ ?_, h.unread, h.heads, h.length_le, h.producer, hok⟩
  dsimp only
  rw [hcleared]
  exact h.ring r

/-- The published counter tells whether there is another chain. -/
theorem RingInv.got_lt_pub (h : RingInv num pending cleared ring) (hne : ring.lastCnt ≠ ring.cnt) :
    ring.got.length < ring.pub := by
  refine lt_of_le_of_ne h.got_le fun heq ↦ hne ?_
  rw [h.lastCnt, h.cnt, heq]

theorem RingInv.got_eq_pub (h : RingInv num pending cleared ring) (hnum : 0 < num)
    (hroom : ring.chains.length ≤ ring.seen.length + num / 2) (heq : ring.lastCnt = ring.cnt) :
    ring.got.length = ring.pub := by
  have hle := h.got_le
  have hseen := h.seen_le
  have hpub := h.pub_le_chains
  rw [h.lastCnt, h.cnt] at heq
  have := (count_eq_count hnum (by omega) (by omega)).mp heq
  omega

theorem flags_and_cancelled {flags : ℕ} (h : flags ≤ 1) : flags &&& flagCancelled = 0 := by
  rcases Nat.le_one_iff_eq_zero_or_eq_one.mp h with rfl | rfl <;> decide

/-- The search for the end of a chain stops after two entries: before, the heads agree, and then
either nothing more is published or the next chain has another head. -/
theorem Inv.loop_step {r availCnt first nextIdx head n : ℕ} (h : Inv num s)
    (hsize : 2 * num ≤ 2 ^ 16) (hg : s.getter = .loop r availCnt first nextIdx head n)
    (hs : getterStep num s = some s') : Inv num s' := by
  have hok := h.getter
  have hring := h.ring r
  rw [hg] at hok hring
  rw [Getter.cleared, if_pos rfl] at hring
  obtain ⟨⟨a, rfl, hlt, hle⟩, rfl, rfl, h1, h2, c, hc, rfl⟩ := hok
  have hseen := hring.seen_le
  have hroom := h.room r
  have hpub := hring.pub_le_chains
  have hnum := h.two_le (r := r) (by omega)
  have hlog := hring.log_length
  rw [getterStep, hg] at hs
  dsimp only at hs
  -- The counters agree exactly at the end of the published entries.
  have heq : kvecCounterEq ((s.rings r).lastCnt + n) (count num (2 * a)) num = true ↔
      2 * (s.rings r).got.length + n = 2 * a := by
    have hmod : count num (2 * a) % (2 * num) = count num (2 * a) := Nat.mod_mod _ _
    rw [kvecCounterEq, beq_iff_eq, hring.lastCnt, count_add, hmod]
    exact count_eq_count (by omega) (by omega) (by omega)
  obtain rfl | rfl : n = 1 ∨ n = 2 := by omega
  · have hhead : c.head = ((s.rings r).buf (slot num (2 * (s.rings r).got.length + 1))).head :=
      (hring.head_eq hc (hlt.trans_le hle) (.inr rfl) le_rfl).symm
    have hne : kvecCounterEq ((s.rings r).lastCnt + 1) (count num (2 * a)) num = false := by
      refine Bool.eq_false_iff.mpr fun htrue ↦ ?_
      have := heq.mp htrue
      omega
    rw [if_pos ⟨hne, hhead, by omega⟩] at hs
    cases hs
    refine h.set_ring ?_ (fun r' hr' ↦ ⟨rfl, ?_⟩) rfl le_rfl ?_ ?_
    · rw [Getter.cleared, if_pos rfl]
      exact hring.clear_head (by omega)
    · rw [hg, Getter.cleared, Getter.cleared, if_neg hr', if_neg hr']
    · exact h.producer.update rfl rfl
    · simp only [GetterOk, Function.update_self]
      refine ⟨⟨a, rfl, hlt, hle⟩, trivial, ?_, by omega, le_rfl, c, hc, rfl⟩
      rw [idx_slot_add, u16, Nat.mod_eq_of_lt]
      have := slot_lt (by omega : 0 < num) (2 * (s.rings r).got.length + 1 + 1)
      omega
  · rw [if_neg] at hs
    · cases hs
      refine h.getter_local ⟨hlt.trans_le hle, rfl, rfl, c, hc, rfl⟩ fun r' ↦ ?_
      rw [hg]
      rfl
    · rintro ⟨hne, hhead, -⟩
      have hmore : (s.rings r).got.length + 1 < a := by
        rcases Nat.lt_or_ge ((s.rings r).got.length + 1) a with hlt' | hge
        · exact hlt'
        · rw [heq.mpr (by omega)] at hne
          exact absurd hne (by decide)
      have hget : (s.rings r).chains[(s.rings r).got.length + 1]? =
          some (s.rings r).chains[(s.rings r).got.length + 1] :=
        List.getElem?_eq_getElem (by omega)
      have hnext := hring.head_eq hget (by omega) (.inl rfl) (by omega)
      rw [show 2 * ((s.rings r).got.length + 1) = 2 * (s.rings r).got.length + 2 by omega] at hnext
      have := h.head_inj (by omega) (by omega) hc hget (hhead.trans hnext)
      omega

theorem Inv.getter_step (h : Inv num s) (hsize : 2 * num ≤ 2 ^ 16)
    (hs : getterStep num s = some s') : Inv num s' := by
  have hok := h.getter
  have hring := h.ring
  cases hg : s.getter with
  | loop r availCnt first nextIdx head n => exact h.loop_step hsize hg hs
  | idle =>
    rw [getterStep, hg] at hs
    cases hs
  | skip r =>
    rw [hg] at hok hring
    rw [getterStep, hg] at hs
    dsimp only at hs
    split at hs <;> cases hs
    · rename_i hne
      exact h.getter_local ((hring r).got_lt_pub hne) (by rw [hg]; exact fun _ ↦ rfl)
    · exact h.getter_local trivial (by rw [hg]; exact fun _ ↦ rfl)
  | checkFlags r =>
    rw [getterStep, hg] at hs
    dsimp only at hs
    rw [if_pos (flags_and_cancelled ((hring r).flags _))] at hs
    cases hs
    exact h.getter_local trivial (by rw [hg]; exact fun _ ↦ rfl)
  | recheck r =>
    rw [getterStep, hg] at hs
    dsimp only at hs
    split at hs <;> cases hs
    · exact h.getter_local trivial (by rw [hg]; exact fun _ ↦ rfl)
    · rename_i hne
      exact h.getter_local ((hring r).got_lt_pub hne) (by rw [hg]; exact fun _ ↦ rfl)
  | readAvail r =>
    rw [hg] at hok
    rw [getterStep, hg] at hs
    cases hs
    exact h.getter_local ⟨_, (hring r).cnt, hok, le_rfl⟩ (by rw [hg]; exact fun _ ↦ rfl)
  | readHead r availCnt =>
    rw [hg] at hok hring
    obtain ⟨a, rfl, hlt, hle⟩ := hok
    have hr := hring r
    have hseen := hr.seen_le
    have hroom := h.room r
    have hpub := hr.pub_le_chains
    have hnum := h.two_le (r := r) (by omega)
    have hlog := hr.log_length
    obtain ⟨c, hc⟩ : ∃ c, (s.rings r).chains[(s.rings r).got.length]? = some c :=
      ⟨_, List.getElem?_eq_getElem (by omega)⟩
    have hfirst : u16 ((s.rings r).lastCnt % num) = slot num (2 * (s.rings r).got.length) := by
      rw [hr.lastCnt]
      exact u16_counterToIdx hsize (by omega)
    rw [getterStep, hg] at hs
    dsimp only at hs
    rw [hfirst] at hs
    cases hs
    refine h.set_ring ?_ (fun r' hr' ↦ ⟨rfl, ?_⟩) rfl le_rfl ?_ ?_
    · rw [Getter.cleared, if_pos rfl]
      exact hr.clear_head (by omega)
    · rw [hg, Getter.cleared, if_neg hr']
      rfl
    · exact h.producer.update rfl rfl
    · simp only [GetterOk, Function.update_self]
      refine ⟨⟨a, rfl, hlt, hle⟩, trivial, ?_, le_rfl, by omega, c, hc, ?_⟩
      · have := slot_lt (by omega : 0 < num) (2 * (s.rings r).got.length + 1)
        rw [hr.lastCnt, idx_add, u16, Nat.mod_eq_of_lt (by omega)]
      · exact hr.head_eq hc (by omega) (.inl rfl) le_rfl
  | finish r first head n =>
    rw [hg] at hok hring
    obtain ⟨hlt, rfl, rfl, c, hc, rfl⟩ := hok
    have hr := hring r
    rw [Getter.cleared, if_pos rfl] at hr
    have hseen := hr.seen_le
    have hnum := h.two_le (r := r) (by omega)
    rw [getterStep, hg] at hs
    cases hs
    refine h.set_ring ?_ (fun r' hr' ↦ ⟨rfl, ?_⟩) rfl le_rfl ?_ trivial
    · exact (hr.set_flags (by decide)).finish hsize (by omega) hlt hc
    · rw [hg]
      exact (if_neg hr').symm
    · exact h.producer.update rfl rfl

theorem Inv.transferWrite_step {r : ℕ} {ring' : Ring} (h : Inv num s) (heven : 2 ≤ num → num % 2 = 0)
    (hs : transferWriteStep (s.rings r) = some ring') :
    Inv num { s with rings := update s.rings r ring' } := by
  have hring := h.ring r
  have hnum : 2 ≤ num := by
    apply h.two_le (r := r)
    rw [transferWriteStep] at hs
    split at hs
    · cases hs
    rename_i item hitem
    exact (List.getElem?_eq_some_iff.mp hitem).1.trans_le hring.got_le
  obtain ⟨hring', hchains, hlog, hgot, hpub, hseen⟩ := hring.transfer_write (heven hnum) (by omega) hs
  refine h.set_ring hring' (fun _ _ ↦ ⟨rfl, rfl⟩) hchains hseen ?_ ?_
  · exact h.producer.update rfl hlog
  · exact h.getter.update rfl hgot hpub.ge (hchains ▸ List.prefix_refl _)

theorem Inv.complete_step {o : Outstanding} (h : Inv num s)
    (hread : o.index < (s.rings o.ringId).seen.length) :
    Inv num { s with outstanding := s.outstanding.erase o } where
  ring := h.ring
  unread r j c hj hc := by
    refine (List.mem_erase_of_ne ?_).mpr (h.unread r j c hj hc)
    rintro rfl
    exact absurd hread (Nat.not_lt.mpr hj)
  heads := h.heads.sublist (List.erase_sublist.map _)
  length_le := List.erase_sublist.length_le.trans h.length_le
  producer := h.producer
  getter := h.getter

/-- A ring of less than two entries takes no chain, so that only larger ones have to be even. -/
theorem Inv.step {l : Label} (heven : 2 ≤ num → num % 2 = 0) (hsize : 2 * num ≤ 2 ^ 16) (h : Inv num s)
    (hs : AvailRing.step num s l = some s') : Inv num s' := by
  cases l with
  | update =>
    rw [AvailRing.step] at hs
    split at hs
    · rename_i hidle
      cases hs
      refine ⟨fun r ↦ ?_, h.unread, h.heads, h.length_le, trivial, h.getter⟩
      have hring := h.ring r
      rw [hidle] at hring
      exact hring
    · cases hs
  | fetch c =>
    rw [AvailRing.step] at hs
    split at hs
    · rename_i hloop
      split at hs
      · rename_i hfree
        exact h.put_step heven hsize hloop hfree.1 hfree.2 hs
      · cases hs
    · cases hs
  | fetchNone =>
    rw [AvailRing.step] at hs
    split at hs
    · rename_i hloop
      cases hs
      refine ⟨fun r ↦ ?_, h.unread, h.heads, h.length_le, trivial, h.getter⟩
      have hring := h.ring r
      rw [hloop] at hring
      exact hring
    · cases hs
  | producer => exact h.producer_step hs
  | get r =>
    rw [AvailRing.step] at hs
    split at hs
    · rename_i hidle
      cases hs
      exact h.getter_local trivial (by rw [hidle]; exact fun _ ↦ rfl)
    · cases hs
  | getter => exact h.getter_step hsize hs
  | transferWrite r =>
    rw [AvailRing.step] at hs
    obtain ⟨ring', hring', rfl⟩ := Option.map_eq_some_iff.mp hs
    exact h.transferWrite_step heven hring'
  | clearFlags r j =>
    rw [AvailRing.step] at hs
    split at hs
    · cases hs
    split at hs
    · cases hs
      refine h.set_ring ((h.ring r).set_flags (Nat.zero_le _)) (fun _ _ ↦ ⟨rfl, rfl⟩) rfl le_rfl ?_ ?_
      · exact h.producer.update rfl rfl
      · exact h.getter.update rfl rfl le_rfl (List.prefix_refl _)
    · cases hs
  | complete o =>
    rw [AvailRing.step] at hs
    split at hs
    · rename_i hread
      cases hs
      exact h.complete_step hread.2
    · cases hs

theorem inv_init : Inv num init where
  ring _ :=
    { log := rfl
      putLastCnt := (Nat.zero_mod _).symm
      cnt := (Nat.zero_mod _).symm
      lastCnt := (Nat.zero_mod _).symm
      pub_le := le_rfl
      got_le := le_rfl
      seen_le := le_rfl
      iovs := .nil
      heads := .nil
      flags := fun _ ↦ Nat.zero_le _
      items := nofun
      writer := nofun
      seen := nofun
      size := .inl rfl }
  unread := nofun
  heads := List.nodup_nil
  length_le := Nat.zero_le _
  producer := trivial
  getter := trivial

/-! ## The agreement -/

/-- The slot that the producer is about to write holds no address that is still to be read. -/
theorem Inv.write_slot_ne {r idx j i : ℕ} {e : PeerKvec} {todo : List PeerKvec} {cntSize : ℕ → ℕ}
    {cntTotal : ℕ} (h : Inv num s) (hp : s.producer = .write r idx (e :: todo) cntSize cntTotal)
    (hseen : (s.rings r).seen.length ≤ j) (hpub : j < (s.rings r).pub)
    (hi : i = 2 * j ∨ i = 2 * j + 1) : slot num i ≠ idx := by
  have hok := h.producer
  have hring := h.ring r
  rw [hp] at hok hring
  rw [Producer.pending, if_pos rfl] at hring
  have hlog := hring.log_length
  have hle := hring.pub_le
  have hroom := h.room r
  rw [hok.2.1 (List.cons_ne_nil _ _)]
  rw [List.length_cons] at hlog
  exact slot_ne (by omega) (by omega)

/-- **One ring, between its two ends.** `vop_kvec_get` has returned the first published chains, each of
them once, in their order and as its own two neighbouring entries, all of them when it finds nothing
more; `transfer_write` has read the addresses of the first of these chains; and the entries that were
published and are still to be read hold their addresses, and are not written. -/
structure Agrees (num : ℕ) (s : Sys) (r : ℕ) : Prop where
  got_le : (s.rings r).got.length ≤ (s.rings r).pub
  pub_le : (s.rings r).pub ≤ (s.rings r).chains.length
  got : ∀ (j : ℕ) (item : Item), (s.rings r).got[j]? = some item →
    ∃ c : Chain, (s.rings r).chains[j]? = some c ∧ item = ⟨c.head, 2, slot num (2 * j)⟩ ∧
      slot num (2 * j) + 1 < num
  all_got : s.getter = .recheck r → (s.rings r).lastCnt = (s.rings r).cnt →
    (s.rings r).got.length = (s.rings r).pub
  seen_le : (s.rings r).seen.length ≤ (s.rings r).got.length
  seen : ∀ (j : ℕ) (p : Kvec × Kvec), (s.rings r).seen[j]? = some p →
    ∃ c : Chain, (s.rings r).chains[j]? = some c ∧ p = (c.iov0, c.iov1)
  unread : ∀ (j : ℕ) (c : Chain), (s.rings r).seen.length ≤ j → j < (s.rings r).pub →
    (s.rings r).chains[j]? = some c →
      ((s.rings r).buf (slot num (2 * j))).iov = c.iov0 ∧
        ((s.rings r).buf (slot num (2 * j) + 1)).iov = c.iov1
  not_written : ∀ (j idx : ℕ) (e : PeerKvec) (todo : List PeerKvec) (cntSize : ℕ → ℕ) (cntTotal : ℕ),
    (s.rings r).seen.length ≤ j → j < (s.rings r).pub →
      s.producer = .write r idx (e :: todo) cntSize cntTotal →
        idx ≠ slot num (2 * j) ∧ idx ≠ slot num (2 * j) + 1

theorem Inv.agrees (h : Inv num s) {r : ℕ} (heven : (s.rings r).chains ≠ [] → num % 2 = 0) : Agrees num s r where
  got_le := (h.ring r).got_le
  pub_le := (h.ring r).pub_le_chains
  got j item hitem := by
    have hring := h.ring r
    obtain ⟨c, hc, hitem'⟩ := hring.items j item hitem
    refine ⟨c, hc, hitem', ?_⟩
    rcases hring.size with hnil | hnum
    · rw [hnil] at hc
      cases hc
    · exact (slot_succ (heven (List.ne_nil_of_mem (List.mem_of_getElem? hc))) hnum).2
  all_got _ heq := by
    have hring := h.ring r
    rcases hring.size with hnil | hnum
    · have hpub := hring.pub_le_chains
      have hgot := hring.got_le
      rw [hnil, List.length_nil] at hpub
      omega
    · exact hring.got_eq_pub hnum (h.room r) heq
  seen_le := (h.ring r).seen_le
  seen := (h.ring r).seen
  unread j c hseen hpub hc := by
    have hnum := h.two_le (hseen.trans_lt hpub)
    rw [← (slot_succ (heven (List.ne_nil_of_mem (List.mem_of_getElem? hc))) (by omega)).1]
    exact (h.ring r).iov_eq hc hpub hseen
  not_written j idx e todo cntSize cntTotal hseen hpub hp := by
    have hnum := h.two_le (hseen.trans_lt hpub)
    have hchains : (s.rings r).chains ≠ [] :=
      List.length_pos_iff.mp (Nat.zero_lt_of_lt (hpub.trans_le (h.ring r).pub_le_chains))
    rw [← (slot_succ (heven hchains) (by omega)).1]
    exact ⟨(h.write_slot_ne hp hseen hpub (.inl rfl)).symm,
      (h.write_slot_ne hp hseen hpub (.inr rfl)).symm⟩

/-- **The rings agree.** For a ring size that is even and fits the counters, however the producer, the
consumer and the completions interleave. -/
theorem avail_rings_agree {ls : List Label} (heven : num % 2 = 0) (hsize : 2 * num ≤ 2 ^ 16)
    (h : exec (step num) init ls = some s) (r : ℕ) : Agrees num s r := by
  have hinv : Inv num s := exec_invariant (P := fun _ _ _ ↦ True)
    (fun hs _ hstep ↦ Inv.step (fun _ ↦ heven) hsize hs hstep) (along_of_forall fun _ _ _ ↦ trivial) inv_init h
  exact hinv.agrees fun _ ↦ heven

/-- The way of one chain of ring 0: offered, published, got, read and completed. -/
def wayOfChain (j : ℕ) : List Label :=
  [Label.update, Label.fetch ⟨⟨100 * j, 12⟩, ⟨100 * j + 50, 2000⟩, j⟩, Label.producer, Label.producer,
      Label.producer, Label.fetchNone] ++
    List.replicate 4 Label.producer ++ [Label.get 0] ++ List.replicate 8 Label.getter ++
    [Label.transferWrite 0, Label.transferWrite 0, Label.clearFlags 0 j, Label.complete ⟨0, j, j⟩]

/-- A ring of four entries goes around: its counter is back at the start after four chains. -/
theorem four_chains_agree :
    ∃ s, exec (step 4) init ((List.range 5).flatMap wayOfChain) = some s ∧
      (s.rings 0).got = [⟨0, 2, 0⟩, ⟨1, 2, 2⟩, ⟨2, 2, 0⟩, ⟨3, 2, 2⟩, ⟨4, 2, 0⟩] ∧ Agrees 4 s 0 := by
  have hrun : (exec (step 4) init ((List.range 5).flatMap wayOfChain)).map (fun s ↦ (s.rings 0).got) =
      some [⟨0, 2, 0⟩, ⟨1, 2, 2⟩, ⟨2, 2, 0⟩, ⟨3, 2, 2⟩, ⟨4, 2, 0⟩] := by decide +kernel
  obtain ⟨s, hs, hgot⟩ := Option.map_eq_some_iff.mp hrun
  exact ⟨s, hs, hgot, avail_rings_agree rfl (by decide) hs 0⟩

end Vcass.Vop.AvailRing
