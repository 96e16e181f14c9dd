import Mathlib.Data.Nat.Bitwise
import Vcass.Virtio.Virtqueue

/-!
# The host side of a virtqueue

`vca_vringh_getdesc_kern` takes the next head from the available ring and turns its chain into a vector of memory
ranges, one for the descriptors to be read and one for those to be written. `vca_vringh_complete_kern` puts a head
into the used ring, and `vca_vringh_need_notify_kern` says whether the driver wants to hear of it.

## What the driver writes

The descriptors, the indirect tables and the available ring are the driver's. They are read here one after the other
while the driver goes on, so that each read gets what is there by then: the descriptors are an argument
that depends on how many were read before.
-/

namespace Vcass.Virtio.HostRing

open Function (update)
open Virtqueue

/-- `struct kvec`. -/
structure Kvec where
  iovBase : ℕ
  iovLen : ℕ
  deriving DecidableEq, Repr

/-- `struct vringh_kiov`, with the `used` first elements of `iov`. `allocated` is the flag in `max_num`. -/
structure Kiov where
  iov : List Kvec
  consumed : ℕ
  i : ℕ
  maxNum : ℕ
  allocated : Bool
  deriving DecidableEq, Repr

inductive Errno
  | einval
  | eloop
  | eproto
  | enomem
  deriving DecidableEq, Repr

/-- `struct vringh`, but for the rings. -/
structure Vringh where
  num : ℕ
  eventIndices : Bool
  lastAvailIdx : ℕ
  lastUsedIdx : ℕ
  completed : ℕ
  deriving DecidableEq, Repr

/-- `vca_vringh_init_kern`. -/
def vcaVringhInitKern (num : ℕ) (eventIndices : Bool) : Except Errno Vringh :=
  if num = 0 ∨ 0xffff < num ∨ num &&& (num - 1) ≠ 0 then .error .einval else .ok ⟨num, eventIndices, 0, 0, 0⟩

/-! ## Taking a chain -/

/-- The available ring, as it is read. -/
structure Avail where
  idx : ℕ
  ring : ℕ → ℕ

/-- `__vringh_get_head`. `none` is an empty ring. -/
def vringhGetHead (vrh : Vringh) (avail : Avail) : Except Errno (Option ℕ × Vringh) :=
  if vrh.lastAvailIdx = avail.idx then .ok (none, vrh)
  else
    let head := avail.ring (vrh.lastAvailIdx &&& (vrh.num - 1))
    if vrh.num ≤ head then .error .einval
    else .ok (some head, { vrh with lastAvailIdx := (vrh.lastAvailIdx + 1) % 2 ^ 16 })

/-- `resize_iovec`. -/
def resizeIovec (iov : Kiov) (allocOk : Bool) : Option Kiov :=
  let newNum := if iov.maxNum * 2 < 8 then 8 else iov.maxNum * 2
  if allocOk then some { iov with maxNum := newNum, allocated := true } else none

/-- An element is added to a vector, which gets more room if it has none left. -/
def Kiov.append (iov : Kiov) (kvec : Kvec) (allocOk : Bool) : Option Kiov :=
  (if iov.iov.length = iov.maxNum then resizeIovec iov allocOk else some iov).map fun iov ↦
    { iov with iov := iov.iov ++ [kvec] }

/-- The variables of `__vringh_iov`. `table` is the indirect table that is walked over, by its address; `upNext` is `-1`
outside of one. -/
structure Walk where
  i : ℕ
  count : ℕ
  upNext : ℤ
  table : Option ℕ
  descMax : ℕ
  riov : Option Kiov
  wiov : Option Kiov

/-- How a round of the loop ends. -/
inductive Round
  | go (w : Walk)
  | done (w : Walk)
  | fail (e : Errno) (w : Walk)

/-- `move_to_indirect`. -/
def moveToIndirect (desc : Desc) (w : Walk) : Round :=
  if w.upNext ≠ -1 then .fail .einval w
  else if desc.len % 16 ≠ 0 then .fail .einval w
  else .go { w with
    upNext := if desc.flags &&& descFNext ≠ 0 then desc.next else -2
    table := some desc.addr
    descMax := desc.len / 16
    i := 0 }

/-- `return_from_indirect`. -/
def returnFromIndirect (num : ℕ) (w : Walk) : Walk :=
  { w with i := w.upNext.toNat, upNext := -1, table := none, descMax := num }

/-- The test of the next index. -/
def checkIndex (w : Walk) : Round := if w.descMax ≤ w.i then .fail .einval w else .go w

/-- The end of a round, behind a descriptor that is not an indirect one. -/
def follow (num : ℕ) (desc : Desc) (w : Walk) : Round :=
  if desc.flags &&& descFNext ≠ 0 then checkIndex { w with i := desc.next }
  else if 0 < w.upNext then checkIndex (returnFromIndirect num w)
  else .done w

/-- `wiov && wiov->i`. -/
def started (wiov : Option Kiov) : Bool := wiov.any fun iov ↦ decide (iov.i ≠ 0)

/-- The vector for descriptors to be written, or for those to be read. -/
def Walk.vec (w : Walk) (write : Bool) : Option Kiov := if write then w.wiov else w.riov

def Walk.setVec (w : Walk) (write : Bool) (iov : Kiov) : Walk :=
  if write then { w with wiov := some iov } else { w with riov := some iov }

/-- A descriptor that is not an indirect one. -/
def plainRound (num : ℕ) (desc : Desc) (allocOk : Bool) (w : Walk) : Round :=
  if w.count = num then .fail .eloop w
  else
    let w := { w with count := w.count + 1 }
    let write := decide (desc.flags &&& descFWrite ≠ 0)
    if !write && started w.wiov then .fail .einval w
    else
      match w.vec write with
      | none => .fail .eproto w
      | some iov =>
        match iov.append ⟨desc.addr, desc.len⟩ allocOk with
        | none => .fail .enomem w
        | some iov => follow num desc (w.setVec write iov)

/-- A round of the loop of `__vringh_iov`. -/
def round (num : ℕ) (desc : Desc) (allocOk : Bool) (w : Walk) : Round :=
  if desc.flags &&& descFIndirect ≠ 0 then moveToIndirect desc w else plainRound num desc allocOk w

/-- A descriptor that is read: the table that it is in and how long that one is, and the index. -/
structure Read where
  table : Option ℕ
  descMax : ℕ
  i : ℕ
  deriving DecidableEq, Repr

/-- What `__vringh_iov` returns, its variables at the end, and what it has read. -/
structure Result where
  err : Option Errno
  walk : Walk
  reads : List Read

/-- The memory that is not the other side's own: the descriptor that the `n`-th read finds at an index of a table, and
whether the `n`-th vector that does not have enough room gets more. -/
structure Memory where
  desc : ℕ → Option ℕ → ℕ → Desc
  alloc : ℕ → Bool

/-- The loop of `__vringh_iov` from its `n`-th round on. `none` is a loop that has not ended after `fuel` rounds. -/
def iovLoop (num : ℕ) (mem : Memory) : (fuel n : ℕ) → Walk → Option Result
  | 0, _, _ => none
  | fuel + 1, n, w =>
    match round num (mem.desc n w.table w.i) (mem.alloc n) w with
    | .go w' => (iovLoop num mem fuel (n + 1) w').map fun r ↦ { r with reads := ⟨w.table, w.descMax, w.i⟩ :: r.reads }
    | .done w' => some ⟨none, w', [⟨w.table, w.descMax, w.i⟩]⟩
    | .fail e w' => some ⟨some e, w', [⟨w.table, w.descMax, w.i⟩]⟩

def Kiov.clear (iov : Kiov) : Kiov := { iov with iov := [], i := 0 }

/-- The variables before the loop. A vector for writing is only cleared if there is none for reading. -/
def Walk.start (num i : ℕ) (riov wiov : Option Kiov) : Walk :=
  ⟨i, 0, -1, none, num, riov.map Kiov.clear, if riov.isSome then wiov else wiov.map Kiov.clear⟩

/-- `__vringh_iov` for kernel memory, with at least one vector. -/
def vringhIov (num : ℕ) (mem : Memory) (fuel i : ℕ) (riov wiov : Option Kiov) : Option Result :=
  iovLoop num mem fuel 0 (Walk.start num i riov wiov)

/-! ## Giving a chain back -/

/-- The used ring in memory. -/
structure UsedRing where
  flags : ℕ
  idx : ℕ
  ring : ℕ → UsedElem
  availEvent : ℕ

/-- `putused_kern`. -/
def putUsed (ring : ℕ → UsedElem) (off : ℕ) (used : List UsedElem) : ℕ → UsedElem :=
  fun i ↦ if off ≤ i then (used[i - off]?).getD (ring i) else ring i

/-- `__vringh_complete`: the elements, and then the index. -/
def vringhComplete (vrh : Vringh) (usedRing : UsedRing) (used : List UsedElem) : Vringh × UsedRing :=
  let usedIdx := (vrh.lastUsedIdx + vrh.completed) % 2 ^ 16
  let off := usedIdx % vrh.num
  let ring :=
    if 1 < used.length ∧ vrh.num ≤ off + used.length then
      putUsed (putUsed usedRing.ring off (used.take (vrh.num - off))) 0 (used.drop (vrh.num - off))
    else putUsed usedRing.ring off used
  ({ vrh with completed := vrh.completed + used.length },
    { usedRing with ring := ring, idx := (usedIdx + used.length) % 2 ^ 16 })

/-- `vca_vringh_complete_kern`. -/
def vcaVringhCompleteKern (vrh : Vringh) (usedRing : UsedRing) (head len : ℕ) : Vringh × UsedRing :=
  vringhComplete vrh usedRing [⟨head, len⟩]

/-- `__vringh_need_notify`, where `availFlags` and `usedEvent` are read from the available ring. -/
def vringhNeedNotify (vrh : Vringh) (availFlags usedEvent : ℕ) : Bool × Vringh :=
  if !vrh.eventIndices then (decide (availFlags &&& availFNoInterrupt = 0), vrh)
  else
    (decide (0xffff < vrh.completed) ||
        vringNeedEvent usedEvent ((vrh.lastUsedIdx + vrh.completed) % 2 ^ 16) vrh.lastUsedIdx,
      { vrh with lastUsedIdx := (vrh.lastUsedIdx + vrh.completed) % 2 ^ 16, completed := 0 })

/-! ## Many chains at once -/

section Batch

variable {num off i : ℕ} {ring : ℕ → UsedElem} {xs ys used : List UsedElem} {vrh : Vringh} {usedRing : UsedRing}

/-- How far slot `i` is behind slot `off`. -/
def behind (num off i : ℕ) : ℕ := if off ≤ i then i - off else i + num - off

/-- The ring with elements from slot `off` on. -/
def placed (num off : ℕ) (used : List UsedElem) (ring : ℕ → UsedElem) (i : ℕ) : UsedElem :=
  if i < num then (used[behind num off i]?).getD (ring i) else ring i

theorem behind_lt (hi : i < num) (hoff : off < num) : behind num off i < num := by
  rw [behind]
  split_ifs <;> omega

/-- Both branches of `__vringh_complete` write the elements to the slots behind the last one. -/
theorem vringhComplete_ring (usedRing : UsedRing) (hnum : 0 < vrh.num) (hlen : used.length ≤ vrh.num) :
    (vringhComplete vrh usedRing used).2.ring =
      placed vrh.num ((vrh.lastUsedIdx + vrh.completed) % 2 ^ 16 % vrh.num) used usedRing.ring := by
  have hoff : (vrh.lastUsedIdx + vrh.completed) % 2 ^ 16 % vrh.num < vrh.num := Nat.mod_lt _ hnum
  rw [vringhComplete]
  set off := (vrh.lastUsedIdx + vrh.completed) % 2 ^ 16 % vrh.num with hdef
  apply funext
  intro i
  rw [placed, behind]
  dsimp only
  split_ifs with hwrap hi hle
  · -- the part up to the end of the ring
    have hnone : (used.drop (vrh.num - off))[i]? = none := List.getElem?_eq_none (by rw [List.length_drop]; omega)
    rw [putUsed, if_pos (Nat.zero_le i), Nat.sub_zero, hnone, Option.getD_none, putUsed, if_pos hle,
      List.getElem?_take_of_lt (by omega)]
  · -- the part from the start of the ring on
    have hsome : (used.drop (vrh.num - off))[i]? = used[i + vrh.num - off]? := by
      rw [List.getElem?_drop]
      congr 1
      omega
    rw [putUsed, if_pos (Nat.zero_le i), Nat.sub_zero, hsome, putUsed, if_neg hle]
  · have hnone : (used.drop (vrh.num - off))[i]? = none := List.getElem?_eq_none (by rw [List.length_drop]; omega)
    have hnone' : (used.take (vrh.num - off))[i - off]? = none :=
      List.getElem?_eq_none ((List.length_take_le ..).trans (by omega))
    rw [putUsed, if_pos (Nat.zero_le i), Nat.sub_zero, hnone, Option.getD_none, putUsed, if_pos (by omega), hnone',
      Option.getD_none]
  · rw [putUsed, if_pos ‹off ≤ i›]
  · -- nothing is written before the first slot: a single element does not wrap
    have hnone : used[i + vrh.num - off]? = none := List.getElem?_eq_none (by omega)
    rw [putUsed, if_neg ‹¬off ≤ i›, hnone, Option.getD_none]
  · have hnone : used[i - off]? = none := List.getElem?_eq_none (by omega)
    rw [putUsed, if_pos (by omega), hnone, Option.getD_none]

theorem vringhComplete_eq (vrh : Vringh) (usedRing : UsedRing) (hnum : 0 < vrh.num) (hlen : used.length ≤ vrh.num) :
    vringhComplete vrh usedRing used =
    ({ vrh with completed := vrh.completed + used.length },
      { usedRing with
        ring := placed vrh.num ((vrh.lastUsedIdx + vrh.completed) % 2 ^ 16 % vrh.num) used usedRing.ring
        idx := ((vrh.lastUsedIdx + vrh.completed) % 2 ^ 16 + used.length) % 2 ^ 16 }) := by
  have hring := vringhComplete_ring usedRing hnum hlen
  rw [← hring]
  rfl

theorem behind_add {k : ℕ} (hoff : off < num) (hi : i < num) (hk : k ≤ num) : behind num ((off + k) % num) i =
    if k ≤ behind num off i then behind num off i - k else behind num off i + num - k := by
  have hmod : (off + k) % num = if off + k < num then off + k else off + k - num := by
    split_ifs with hlt
    · exact Nat.mod_eq_of_lt hlt
    · rw [Nat.mod_eq_sub_mod (Nat.not_lt.mp hlt), Nat.mod_eq_of_lt (by omega)]
  rw [hmod, behind, behind]
  split_ifs <;> omega

theorem placed_append (hoff : off < num) (hlen : xs.length + ys.length ≤ num) :
    placed num ((off + xs.length) % num) ys (placed num off xs ring) = placed num off (xs ++ ys) ring := by
  apply funext
  intro i
  rw [placed, placed, placed]
  by_cases hi : i < num
  · have hlt := behind_lt hi hoff
    rw [if_pos hi, if_pos hi, if_pos hi, behind_add hoff hi (by omega)]
    by_cases hle : xs.length ≤ behind num off i
    · rw [if_pos hle, List.getElem?_append_right hle, List.getElem?_eq_none hle, Option.getD_none]
    · have hnone : ys[behind num off i + num - xs.length]? = none := List.getElem?_eq_none (by omega)
      rw [if_neg hle, List.getElem?_append_left (Nat.not_le.mp hle), hnone, Option.getD_none]
  · rw [if_neg hi, if_neg hi, if_neg hi]

theorem vringhComplete_append (hnum : 0 < vrh.num) (hdvd : vrh.num ∣ 2 ^ 16) (hlen : xs.length + ys.length ≤ vrh.num) :
    vringhComplete (vringhComplete vrh usedRing xs).1 (vringhComplete vrh usedRing xs).2 ys =
      vringhComplete vrh usedRing (xs ++ ys) := by
  have hoff : (vrh.lastUsedIdx + vrh.completed) % 2 ^ 16 % vrh.num < vrh.num := Nat.mod_lt _ hnum
  have hnext : (vrh.lastUsedIdx + (vrh.completed + xs.length)) % 2 ^ 16 % vrh.num =
      ((vrh.lastUsedIdx + vrh.completed) % 2 ^ 16 % vrh.num + xs.length) % vrh.num := by
    rw [Nat.mod_mod_of_dvd _ hdvd, Nat.mod_mod_of_dvd _ hdvd, Nat.mod_add_mod, Nat.add_assoc]
  have hidx : ((vrh.lastUsedIdx + (vrh.completed + xs.length)) % 2 ^ 16 + ys.length) % 2 ^ 16 =
      ((vrh.lastUsedIdx + vrh.completed) % 2 ^ 16 + (xs.length + ys.length)) % 2 ^ 16 := by
    rw [Nat.mod_add_mod, Nat.mod_add_mod, Nat.add_assoc, Nat.add_assoc, Nat.add_assoc]
  have hall : (xs ++ ys).length ≤ vrh.num := by rwa [List.length_append]
  rw [vringhComplete_eq vrh usedRing hnum (show xs.length ≤ vrh.num by omega), vringhComplete_eq vrh usedRing hnum hall]
  dsimp only
  rw [vringhComplete_eq { vrh with completed := vrh.completed + xs.length } _ hnum (show ys.length ≤ vrh.num by omega)]
  dsimp only
  rw [hnext, hidx, placed_append hoff hlen, List.length_append, Nat.add_assoc]

/-- `__vringh_complete` of many elements, with the part that wraps around, does what `vca_vringh_complete_kern` does of
one after the other. -/
theorem vringhComplete_foldl (used : List UsedElem) (hnum : 0 < vrh.num) (hdvd : vrh.num ∣ 2 ^ 16) (hne : used ≠ [])
    (hlen : used.length ≤ vrh.num) : vringhComplete vrh usedRing used =
      used.foldl (fun s u ↦ vcaVringhCompleteKern s.1 s.2 u.id u.len) (vrh, usedRing) := by
  induction used generalizing vrh usedRing with
  | nil => exact absurd rfl hne
  | cons u us ih =>
    rw [List.foldl_cons]
    by_cases hus : us = []
    · rw [hus]
      rfl
    · have hlen' : [u].length + us.length ≤ vrh.num := by
        rw [List.length_singleton, Nat.add_comm]
        exact hlen
      have hnext : vringhComplete (vringhComplete vrh usedRing [u]).1 (vringhComplete vrh usedRing [u]).2 us =
          us.foldl (fun s v ↦ vcaVringhCompleteKern s.1 s.2 v.id v.len) (vringhComplete vrh usedRing [u]) :=
        ih hnum hdvd hus (Nat.le_of_succ_le hlen)
      rw [← List.singleton_append, ← vringhComplete_append hnum hdvd hlen', hnext]
      rfl

/-- Two elements from the last slot of a ring of four on. -/
theorem vringhComplete_sampleWrap :
    vringhComplete ⟨4, false, 0, 3, 0⟩ ⟨0, 3, fun _ ↦ ⟨0, 0⟩, 0⟩ [⟨2, 64⟩, ⟨1, 32⟩] =
      [(⟨2, 64⟩ : UsedElem), ⟨1, 32⟩].foldl (fun s u ↦ vcaVringhCompleteKern s.1 s.2 u.id u.len)
        (⟨4, false, 0, 3, 0⟩, ⟨0, 3, fun _ ↦ ⟨0, 0⟩, 0⟩) :=
  vringhComplete_foldl _ (by decide) (by decide) (by decide) (by decide)

end Batch

end Vcass.Virtio.HostRing
