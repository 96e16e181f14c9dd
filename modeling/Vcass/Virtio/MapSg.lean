import Mathlib.Algebra.BigOperators.Group.Finset.Basic
import Mathlib.Algebra.BigOperators.Intervals
import Mathlib.Algebra.Order.BigOperators.Group.Finset
import Mathlib.Data.List.Perm.Basic
import Mathlib.Logic.Function.Basic

/-!
# Mapping the buffers of a virtqueue for DMA

`virtqueue_add` is given buffers as lists of scatterlist entries, some for the device to read and some for it to
write, and on a device that needs it `vring_map_sg` maps every entry before the descriptors are written. A list ends
at an entry with an end mark. If a mapping fails the ones made before have to be undone, in the list at hand by
`_dma_map_sg` itself and in the lists before it by `vring_map_sg`.

## Addresses

A mapping is known by the address it got, so that an address is the number of the call that it came from. An entry
keeps the address of its last mapping only.

## End marks

A caller with a single list need not mark its end. `vring_map_sg` sets the mark as if the list had all entries of the
request whenever one of the two counts of lists is one, also when there are more lists.
-/

namespace Vcass.Virtio.MapSg

open Function (update)

/-! ## Data -/

inductive DmaAddress
  /-- The address 0 of a mapping that failed. -/
  | null
  /-- What was there before. -/
  | stale (a : ℕ)
  /-- What a call of `dma_map_single` returned. -/
  | mapping (call : ℕ)
  deriving DecidableEq, Repr

inductive DataDirection
  | toDevice
  | fromDevice
  deriving DecidableEq, Repr

/-- `struct scatterlist`. -/
structure Scatterlist where
  isLast : Bool
  length : ℕ
  dmaAddress : DmaAddress
  deriving DecidableEq, Repr

/-- The arguments of `dma_unmap_single`. -/
structure Mapping where
  address : DmaAddress
  length : ℕ
  dir : DataDirection
  deriving DecidableEq, Repr

inductive Event
  /-- `dma_map_single` for an entry, with the address that it returned. -/
  | map (entry : ℕ) (m : Mapping)
  | unmap (m : Mapping)
  deriving DecidableEq, Repr

/-- The entries, how often `dma_map_single` was called, and the calls to the DMA layer. -/
structure State where
  mem : ℕ → Scatterlist
  calls : ℕ
  log : List Event

/-! ## The code -/

section Code

variable (fails : ℕ → Bool) (memSize : ℕ)

def dmaMapSingle (call : ℕ) : DmaAddress := if fails call then .null else .mapping call

def setLast (isLast : Bool) (mem : ℕ → Scatterlist) (a : ℕ) : ℕ → Scatterlist :=
  update mem a { mem a with isLast := isLast }

def sgTerminateArr (mem : ℕ → Scatterlist) (sg num : ℕ) : ℕ → Scatterlist :=
  setLast true ((List.range num).foldl (fun mem i ↦ setLast false mem (sg + i)) mem) (sg + num - 1)

/-- `sg_nents`; the memory has `memSize` entries. -/
def sgNents (mem : ℕ → Scatterlist) (sg : ℕ) : ℕ :=
  ((List.range' sg (memSize - sg)).takeWhile fun a ↦ !(mem a).isLast).length + 1

/-- The calls of `dma_unmap_single` for the first `n` entries of a list. -/
def unmaps (mem : ℕ → Scatterlist) (sg n : ℕ) (dir : DataDirection) : List Event :=
  (List.range n).map fun j ↦ .unmap ⟨(mem (sg + j)).dmaAddress, (mem (sg + j)).length, dir⟩

/-- A round of `_dma_map_sg`, with `ret` as "an error". -/
def dmaMapRound (sg : ℕ) (dir : DataDirection) (st : State × Bool) (i : ℕ) : State × Bool :=
  let address := dmaMapSingle fails st.1.calls
  let mem := update st.1.mem (sg + i) { st.1.mem (sg + i) with dmaAddress := address }
  let log := st.1.log ++ [.map (sg + i) ⟨address, (st.1.mem (sg + i)).length, dir⟩]
  -- the rounds go on behind a failure
  if address = .null then (⟨mem, st.1.calls + 1, log ++ unmaps mem sg i dir⟩, true)
  else (⟨mem, st.1.calls + 1, log⟩, st.2)

/-- `_dma_map_sg`. -/
def dmaMapSg (st : State) (sg : ℕ) (dir : DataDirection) : State × Bool :=
  (List.range (sgNents memSize st.mem sg)).foldl (dmaMapRound fails sg dir) (st, false)

/-- `_dma_unmap_sg`. -/
def dmaUnmapSg (st : State) (sg : ℕ) (dir : DataDirection) : State :=
  { st with log := st.log ++ unmaps st.mem sg (sgNents memSize st.mem sg) dir }

end Code

/-- What `vring_map_sg` may be given: a number of lists, each at an address of its own. If there is more than one list
each of them ends with its only end mark. -/
structure Request where
  outSgs : ℕ
  inSgs : ℕ
  /-- `sgs[n]`. -/
  start : ℕ → ℕ
  /-- How many entries list `n` has. -/
  count : ℕ → ℕ
  mem : ℕ → Scatterlist
  memSize : ℕ
  sgs_pos : 0 < outSgs + inSgs
  count_pos : ∀ n < outSgs + inSgs, 0 < count n
  disjoint : ∀ m < outSgs + inSgs, ∀ n < outSgs + inSgs, m ≠ n →
    start m + count m ≤ start n ∨ start n + count n ≤ start m
  last : outSgs + inSgs ≠ 1 → ∀ n < outSgs + inSgs, ∀ j < count n, (mem (start n + j)).isLast ↔ j + 1 = count n
  fits : ∀ n < outSgs + inSgs, start n + ∑ i ∈ Finset.range (outSgs + inSgs), count i ≤ memSize
  stale : ∀ a k, (mem a).dmaAddress ≠ .mapping k

namespace Request

variable (req : Request)

def sgs : ℕ := req.outSgs + req.inSgs

def totalSg : ℕ := ∑ i ∈ Finset.range req.sgs, req.count i

def dir (n : ℕ) : DataDirection := if n < req.outSgs then .toDevice else .fromDevice

end Request

section Code

variable (fails : ℕ → Bool) (req : Request)

/-- The loop over the lists, with the undoing behind `dma_map_err`. -/
def mapLists : (left n : ℕ) → State → State × Bool
  | 0, _, st => (st, false)
  | left + 1, n, st =>
    let mapped := dmaMapSg fails req.memSize st (req.start n) (req.dir n)
    if mapped.2 then
      ((List.range n).foldl (fun st i ↦ dmaUnmapSg req.memSize st (req.start i) (req.dir i)) mapped.1, true)
    else mapLists left (n + 1) mapped.1

/-- The entries with the end marks set. -/
def Request.terminated : ℕ → Scatterlist :=
  let mem := if req.outSgs = 1 then sgTerminateArr req.mem (req.start 0) req.totalSg else req.mem
  if req.inSgs = 1 then sgTerminateArr mem (req.start 0) req.totalSg else mem

/-- `vring_map_sg`: what it leaves, and whether it returns `-ENOMEM`. -/
def vringMapSg (hasParent : Bool) : State × Bool :=
  if !hasParent then (⟨req.terminated, 0, []⟩, true)
  else mapLists fails req req.sgs 0 ⟨req.terminated, 0, []⟩

end Code

/-! ## What is asked of it -/

/-- The mappings that were made. -/
def created (log : List Event) : List Mapping := log.filterMap fun
  | .map _ m => if m.address = .null then none else some m
  | .unmap _ => none

def unmapped (log : List Event) : List Mapping := log.filterMap fun
  | .map _ _ => none
  | .unmap m => some m

/-- The event is a mapping of an entry. -/
def Event.Maps (a : ℕ) : Event → Bool
  | .map entry m => entry = a ∧ m.address ≠ .null
  | .unmap _ => false

/-- With an error every mapping is undone once, and nothing else; without one every entry is mapped once, in its
direction. -/
def AllOrNothing (req : Request) (out : State × Bool) : Prop :=
  if out.2 then (created out.1.log).Perm (unmapped out.1.log)
  else ∀ n < req.sgs, ∀ j < req.count n, ∃ m : Mapping,
    out.1.log.filter (Event.Maps (req.start n + j)) = [.map (req.start n + j) m] ∧ m.dir = req.dir n

/-! ## One list -/

section List

variable {fails : ℕ → Bool} {sg : ℕ} {dir : DataDirection} {st : State}

/-- The events of a round, for a list whose first round was call `calls`. -/
def roundLog (fails : ℕ → Bool) (mem : ℕ → Scatterlist) (calls sg : ℕ) (dir : DataDirection) (i : ℕ) : List Event :=
  .map (sg + i) ⟨dmaMapSingle fails (calls + i), (mem (sg + i)).length, dir⟩ ::
    if fails (calls + i) then
      (List.range i).map fun j ↦ .unmap ⟨dmaMapSingle fails (calls + j), (mem (sg + j)).length, dir⟩
    else []

/-- The entries after the first `n` rounds. -/
def mappedMem (fails : ℕ → Bool) (mem : ℕ → Scatterlist) (calls sg n : ℕ) : ℕ → Scatterlist := fun a ↦
  if sg ≤ a ∧ a < sg + n then { mem a with dmaAddress := dmaMapSingle fails (calls + (a - sg)) } else mem a

theorem dmaMapSingle_eq_null {call : ℕ} : dmaMapSingle fails call = .null ↔ fails call = true := by
  unfold dmaMapSingle
  split_ifs with h <;> simp [h]

theorem mappedMem_of_lt {mem : ℕ → Scatterlist} {calls n j : ℕ} (hj : j < n) :
    mappedMem fails mem calls sg n (sg + j) =
      { mem (sg + j) with dmaAddress := dmaMapSingle fails (calls + j) } := by
  rw [mappedMem, if_pos (by omega), Nat.add_sub_cancel_left]

theorem mappedMem_succ (mem : ℕ → Scatterlist) (calls n : ℕ) :
    update (mappedMem fails mem calls sg n) (sg + n)
      { mappedMem fails mem calls sg n (sg + n) with dmaAddress := dmaMapSingle fails (calls + n) } =
      mappedMem fails mem calls sg (n + 1) := by
  funext a
  have hn : mappedMem fails mem calls sg n (sg + n) = mem (sg + n) := if_neg (by omega)
  rcases eq_or_ne a (sg + n) with rfl | hne
  · rw [Function.update_self, mappedMem_of_lt (Nat.lt_succ_self n), hn]
  · rw [Function.update_of_ne hne]
    unfold mappedMem
    congr 1
    exact propext (by omega)

theorem dmaMapRound_mapped (mem : ℕ → Scatterlist) (calls n : ℕ) (log : List Event) (ret : Bool) :
    dmaMapRound fails sg dir (⟨mappedMem fails mem calls sg n, calls + n, log⟩, ret) n =
      (⟨mappedMem fails mem calls sg (n + 1), calls + n + 1, log ++ roundLog fails mem calls sg dir n⟩,
        ret || fails (calls + n)) := by
  have hlength : (mappedMem fails mem calls sg n (sg + n)).length = (mem (sg + n)).length := by
    rw [mappedMem, if_neg (by omega)]
  have hunmaps : unmaps (mappedMem fails mem calls sg (n + 1)) sg n dir =
      (List.range n).map fun j ↦ .unmap ⟨dmaMapSingle fails (calls + j), (mem (sg + j)).length, dir⟩ := by
    apply List.map_congr_left
    intro j hj
    rw [mappedMem_of_lt (by have := List.mem_range.mp hj; omega)]
  unfold dmaMapRound
  simp only [mappedMem_succ]
  simp only [hlength, dmaMapSingle_eq_null, hunmaps]
  unfold roundLog
  cases hfails : fails (calls + n) with
  | true => simp
  | false => simp

/-- What the rounds of a list do: each entry gets the address of its call, and each failure undoes the rounds before
it, whatever they did. -/
theorem foldl_dmaMapRound (st : State) (n : ℕ) :
    (List.range n).foldl (dmaMapRound fails sg dir) (st, false) =
      (⟨mappedMem fails st.mem st.calls sg n, st.calls + n,
        st.log ++ (List.range n).flatMap (roundLog fails st.mem st.calls sg dir)⟩,
        (List.range n).any fun i ↦ fails (st.calls + i)) := by
  induction n with
  | zero =>
    have hmem : mappedMem fails st.mem st.calls sg 0 = st.mem := by
      funext a
      exact if_neg (by omega)
    simp [hmem]
  | succ n ih =>
    rw [List.range_succ, List.foldl_append, ih, List.foldl_cons, List.foldl_nil, dmaMapRound_mapped]
    simp [List.append_assoc, Nat.add_assoc]

/-! ## Rollback in a list -/

theorem created_append (l l' : List Event) : created (l ++ l') = created l ++ created l' := List.filterMap_append

theorem unmapped_append (l l' : List Event) : unmapped (l ++ l') = unmapped l ++ unmapped l' := List.filterMap_append

variable {mem : ℕ → Scatterlist} {calls n : ℕ}

/-- The mapping that a round makes, or fails to make. -/
def roundMapping (fails : ℕ → Bool) (mem : ℕ → Scatterlist) (calls sg : ℕ) (dir : DataDirection) (i : ℕ) : Mapping :=
  ⟨dmaMapSingle fails (calls + i), (mem (sg + i)).length, dir⟩

theorem created_roundLog (i : ℕ) : created (roundLog fails mem calls sg dir i) =
    if fails (calls + i) then [] else [roundMapping fails mem calls sg dir i] := by
  unfold roundLog roundMapping dmaMapSingle created
  split_ifs <;> simp

theorem unmapped_roundLog (i : ℕ) : unmapped (roundLog fails mem calls sg dir i) =
    if fails (calls + i) then (List.range i).map (roundMapping fails mem calls sg dir) else [] := by
  unfold roundLog unmapped
  split_ifs
  · rw [List.filterMap_cons, List.filterMap_map]
    exact congrFun List.filterMap_eq_map (List.range i)
  · rfl

/-- A mapping that was made is known by its round. -/
theorem eq_of_roundMapping {i j : ℕ} (hfails : fails (calls + i) = false)
    (heq : roundMapping fails mem calls sg dir i = roundMapping fails mem calls sg dir j) : i = j := by
  have haddress := congrArg Mapping.address heq
  simp only [roundMapping, dmaMapSingle, hfails, Bool.false_eq_true, if_false] at haddress
  split_ifs at haddress
  have hcall := DmaAddress.mapping.inj haddress
  omega

theorem mem_created {m : Mapping} : m ∈ created ((List.range n).flatMap (roundLog fails mem calls sg dir)) ↔
    ∃ i < n, fails (calls + i) = false ∧ m = roundMapping fails mem calls sg dir i := by
  rw [created, List.filterMap_flatMap, List.mem_flatMap]
  simp only [List.mem_range]
  refine exists_congr fun i ↦ and_congr_right fun _ ↦ ?_
  rw [← created, created_roundLog]
  split_ifs with hfails <;> simp [hfails]

theorem mem_unmapped {m : Mapping} : m ∈ unmapped ((List.range n).flatMap (roundLog fails mem calls sg dir)) ↔
    ∃ i < n, fails (calls + i) = true ∧ ∃ j < i, m = roundMapping fails mem calls sg dir j := by
  rw [unmapped, List.filterMap_flatMap, List.mem_flatMap]
  simp only [List.mem_range]
  refine exists_congr fun i ↦ and_congr_right fun _ ↦ ?_
  rw [← unmapped, unmapped_roundLog]
  split_ifs with hfails
  · simp only [hfails, List.mem_map, List.mem_range, true_and]
    exact exists_congr fun j ↦ and_congr_right fun _ ↦ eq_comm
  · simp [hfails]

theorem created_of_not_fails (h : ∀ i < n, fails (calls + i) = false) :
    created ((List.range n).flatMap (roundLog fails mem calls sg dir)) =
        (List.range n).map (roundMapping fails mem calls sg dir) ∧
      unmapped ((List.range n).flatMap (roundLog fails mem calls sg dir)) = [] := by
  induction n with
  | zero => exact ⟨rfl, rfl⟩
  | succ n ih =>
    obtain ⟨hcreated, hunmapped⟩ := ih fun i hi ↦ h i (Nat.lt_succ_of_lt hi)
    have hn := h n (Nat.lt_succ_self n)
    rw [List.range_succ, List.flatMap_append, created_append, unmapped_append, hcreated, hunmapped,
      List.flatMap_singleton, created_roundLog, unmapped_roundLog, hn]
    simp

/-- A list is rolled back exactly if the failure is at its last entry. -/
theorem rolledBack_iff (h : ∃ i < n, fails (calls + i) = true) :
    (created ((List.range n).flatMap (roundLog fails mem calls sg dir))).Perm
        (unmapped ((List.range n).flatMap (roundLog fails mem calls sg dir))) ↔
      ∀ i, i + 1 < n → fails (calls + i) = false := by
  constructor
  · intro hperm i hi
    by_contra hfails
    rw [Bool.not_eq_false] at hfails
    by_cases hlater : ∃ k, i < k ∧ k < n ∧ fails (calls + k) = true
    · -- the later failure undoes what was not done
      obtain ⟨k, hik, hk, hkfails⟩ := hlater
      have hmem := hperm.mem_iff.mpr (mem_unmapped.mpr ⟨k, hk, hkfails, i, hik, rfl⟩)
      obtain ⟨j, -, hj, heq⟩ := mem_created.mp hmem
      rw [eq_of_roundMapping hj heq.symm, hfails] at hj
      cases hj
    · -- the mapping behind the failure stays
      have hnext : fails (calls + (i + 1)) = false := by
        by_contra hnext
        exact hlater ⟨i + 1, Nat.lt_succ_self i, hi, eq_true_of_ne_false hnext⟩
      have hmem := hperm.mem_iff.mp (mem_created.mpr ⟨i + 1, hi, hnext, rfl⟩)
      obtain ⟨k, hk, hkfails, j, hj, heq⟩ := mem_unmapped.mp hmem
      have hki : k ≤ i := by
        by_contra hlt
        exact hlater ⟨k, Nat.lt_of_not_le hlt, hk, hkfails⟩
      have := eq_of_roundMapping hnext heq
      omega
  · intro hbefore
    obtain ⟨i, hi, hfails⟩ := h
    obtain rfl : n = i + 1 := by
      by_contra hne
      rw [hbefore i (by omega)] at hfails
      cases hfails
    have hdone : ∀ j < i, fails (calls + j) = false := fun j hj ↦ hbefore j (by omega)
    rw [List.range_succ, List.flatMap_append, created_append, unmapped_append, List.flatMap_singleton,
      (created_of_not_fails hdone).1, (created_of_not_fails hdone).2, created_roundLog, unmapped_roundLog, hfails]
    simp

end List

/-! ## End marks -/

section Ends

variable {mem : ℕ → Scatterlist} {sg n : ℕ}

theorem foldl_setLast (mem : ℕ → Scatterlist) (sg n a : ℕ) :
    (List.range n).foldl (fun mem i ↦ setLast false mem (sg + i)) mem a =
      if sg ≤ a ∧ a < sg + n then { mem a with isLast := false } else mem a := by
  induction n with
  | zero => rw [if_neg (by omega)]; rfl
  | succ n ih =>
    rw [List.range_succ, List.foldl_append, List.foldl_cons, List.foldl_nil, setLast]
    rcases eq_or_ne a (sg + n) with rfl | hne
    · rw [Function.update_self, ih, if_neg (by omega), if_pos (by omega)]
    · rw [Function.update_of_ne hne, ih]
      congr 1
      exact propext (by omega)

theorem sgTerminateArr_apply (mem : ℕ → Scatterlist) (sg : ℕ) (hn : 0 < n) (a : ℕ) : sgTerminateArr mem sg n a =
    if sg ≤ a ∧ a < sg + n then { mem a with isLast := decide (a + 1 = sg + n) } else mem a := by
  rw [sgTerminateArr, setLast]
  rcases eq_or_ne a (sg + n - 1) with rfl | hne
  · rw [Function.update_self, foldl_setLast, if_pos (by omega), if_pos (by omega)]
    simp only [Scatterlist.mk.injEq, and_true, true_eq_decide_iff]
    omega
  · rw [Function.update_of_ne hne, foldl_setLast]
    split_ifs with hin
    · simp only [Scatterlist.mk.injEq, and_true, false_eq_decide_iff]
      omega
    · rfl

theorem length_takeWhile_range' {p : ℕ → Bool} {len : ℕ} (hn : n < len) (hbefore : ∀ j < n, p (sg + j) = true)
    (hend : p (sg + n) = false) : ((List.range' sg len).takeWhile p).length = n := by
  induction n generalizing sg len with
  | zero =>
    obtain ⟨len, rfl⟩ : ∃ m, len = m + 1 := ⟨len - 1, by omega⟩
    rw [List.range'_succ, List.takeWhile_cons_of_neg (by simpa using hend)]
    rfl
  | succ n ih =>
    obtain ⟨len, rfl⟩ : ∃ m, len = m + 1 := ⟨len - 1, by omega⟩
    have hfirst : p sg = true := hbefore 0 (Nat.succ_pos n)
    rw [List.range'_succ, List.takeWhile_cons_of_pos hfirst, List.length_cons, ih (by omega)]
    · intro j hj
      rw [Nat.add_right_comm, Nat.add_assoc]
      exact hbefore (j + 1) (by omega)
    · rw [Nat.add_right_comm, Nat.add_assoc]
      exact hend

/-- A list has as many entries as there are up to the first end mark. -/
theorem sgNents_eq {memSize : ℕ} (hn : 0 < n) (hfits : sg + n ≤ memSize)
    (hlast : ∀ j < n, (mem (sg + j)).isLast = true ↔ j + 1 = n) : sgNents memSize mem sg = n := by
  have hlength : ((List.range' sg (memSize - sg)).takeWhile fun a ↦ !(mem a).isLast).length = n - 1 := by
    apply length_takeWhile_range' (by omega)
    · intro j hj
      have hnot : ¬(mem (sg + j)).isLast = true := fun h ↦ by
        have := (hlast j (by omega)).mp h
        omega
      simpa using hnot
    · simpa using (hlast (n - 1) (by omega)).mpr (by omega)
  rw [sgNents, hlength]
  omega

end Ends

/-! ## The lists of a request -/

namespace Request

variable (req : Request)

/-- The end marks of the first list are set for all entries of the request. -/
def Terminates : Prop := req.outSgs = 1 ∨ req.inSgs = 1

instance : Decidable req.Terminates := inferInstanceAs (Decidable (_ ∨ _))

/-- How many entries list `n` has for the code. -/
def size (n : ℕ) : ℕ := if n = 0 ∧ req.Terminates then req.totalSg else req.count n

/-- The first call for list `n`. -/
def base (n : ℕ) : ℕ := ∑ i ∈ Finset.range n, req.size i

/-- Another list begins in the entries that the first list is extended to. -/
def Overlaps (n : ℕ) : Prop :=
  0 < n ∧ req.Terminates ∧ req.start 0 ≤ req.start n ∧ req.start n < req.start 0 + req.totalSg

variable {req} {n i : ℕ}

theorem base_succ (n : ℕ) : req.base (n + 1) = req.base n + req.size n := Finset.sum_range_succ _ _

theorem size_zero_le_base (req : Request) (hn : 0 < n) : req.size 0 ≤ req.base n :=
  Finset.single_le_sum (fun _ _ ↦ Nat.zero_le _) (Finset.mem_range.mpr hn)

theorem count_le_totalSg (hn : n < req.sgs) : req.count n ≤ req.totalSg :=
  Finset.single_le_sum (fun _ _ ↦ Nat.zero_le _) (Finset.mem_range.mpr hn)

theorem count_le_size (hn : n < req.sgs) : req.count n ≤ req.size n := by
  unfold size
  split_ifs
  · exact count_le_totalSg hn
  · exact Nat.le_refl _

theorem totalSg_pos (req : Request) : 0 < req.totalSg :=
  (req.count_pos 0 req.sgs_pos).trans_le (count_le_totalSg req.sgs_pos)

theorem size_pos (hn : n < req.sgs) : 0 < req.size n := (req.count_pos n hn).trans_le (count_le_size hn)

theorem start_add_size_le (hn : n < req.sgs) : req.start n + req.size n ≤ req.memSize := by
  have hfits := req.fits n hn
  have hsize : req.size n ≤ req.totalSg := by
    unfold size
    split_ifs
    · exact Nat.le_refl _
    · exact count_le_totalSg hn
  have htotal : req.totalSg = ∑ i ∈ Finset.range (req.outSgs + req.inSgs), req.count i := rfl
  omega

theorem terminated_apply (a : ℕ) : req.terminated a =
    if req.Terminates ∧ req.start 0 ≤ a ∧ a < req.start 0 + req.totalSg then
      { req.mem a with isLast := decide (a + 1 = req.start 0 + req.totalSg) }
    else req.mem a := by
  have happly := fun mem ↦ sgTerminateArr_apply mem (req.start 0) req.totalSg_pos a
  unfold terminated Terminates
  simp only
  by_cases hout : req.outSgs = 1
  · rw [if_pos hout]
    by_cases hin : req.inSgs = 1
    · -- the marks are set twice
      rw [if_pos hin, happly, happly]
      by_cases hwindow : req.start 0 ≤ a ∧ a < req.start 0 + req.totalSg
      · rw [if_pos hwindow, if_pos hwindow, if_pos ⟨Or.inl hout, hwindow⟩]
      · rw [if_neg hwindow, if_neg hwindow, if_neg fun h ↦ hwindow h.2]
    · rw [if_neg hin, happly]
      simp only [hout, true_or, true_and]
  · rw [if_neg hout]
    by_cases hin : req.inSgs = 1
    · rw [if_pos hin, happly]
      simp only [hin, or_true, true_and]
    · rw [if_neg hin, if_neg]
      rintro ⟨hterm, -⟩
      exact hterm.elim hout hin

/-- A list that is not begun in the extension of the first one is apart from those before it. -/
theorem extents_disjoint (hi : i < n) (hn : n < req.sgs) (hover : ¬req.Overlaps n) :
    req.start i + req.size i ≤ req.start n ∨ req.start n + req.size n ≤ req.start i := by
  have hdisjoint := req.disjoint i (hi.trans hn) n hn hi.ne
  have hsize : req.size n = req.count n := if_neg (by omega)
  have hpos := req.count_pos n hn
  by_cases hfirst : i = 0 ∧ req.Terminates
  · obtain ⟨rfl, hterm⟩ := hfirst
    have hsize' : req.size 0 = req.totalSg := if_pos ⟨rfl, hterm⟩
    have hstart : ¬(req.start 0 ≤ req.start n ∧ req.start n < req.start 0 + req.totalSg) :=
      fun h ↦ hover ⟨hi, hterm, h⟩
    have hpos' := req.count_pos 0 (hi.trans hn)
    omega
  · have hsize' : req.size i = req.count i := if_neg hfirst
    omega

theorem isLast_iff (hn : n < req.sgs) (hover : ¬req.Overlaps n) {j : ℕ} (hj : j < req.size n) :
    (req.terminated (req.start n + j)).isLast = true ↔ j + 1 = req.size n := by
  rw [terminated_apply]
  by_cases hfirst : n = 0 ∧ req.Terminates
  · obtain ⟨rfl, hterm⟩ := hfirst
    have hsize : req.size 0 = req.totalSg := if_pos ⟨rfl, hterm⟩
    rw [if_pos ⟨hterm, by omega, by omega⟩, decide_eq_true_eq]
    omega
  · have hsize : req.size n = req.count n := if_neg hfirst
    have hsgs := req.sgs_pos
    have hmany : req.outSgs + req.inSgs ≠ 1 := by
      intro hone
      refine hfirst ⟨?_, ?_⟩
      · have : req.sgs = 1 := hone
        omega
      · unfold Terminates
        omega
    rw [if_neg, hsize]
    · exact req.last hmany n hn j (hsize ▸ hj)
    · rintro ⟨hterm, hwindow⟩
      have hpos : 0 < n := Nat.pos_of_ne_zero fun hzero ↦ hfirst ⟨hzero, hterm⟩
      have hapart := extents_disjoint hpos hn hover
      have hsize' : req.size 0 = req.totalSg := if_pos ⟨rfl, hterm⟩
      omega

end Request

/-! ## Several lists -/

section Lists

variable {fails : ℕ → Bool} {req : Request} {st : State} {n i : ℕ}

/-- The events of a list that is mapped after the lists before it were. -/
def listLog (fails : ℕ → Bool) (req : Request) (n : ℕ) : List Event :=
  (List.range (req.size n)).flatMap (roundLog fails req.terminated (req.base n) (req.start n) (req.dir n))

/-- The first `n` lists are mapped without a failure, and nothing else was done. -/
structure Mapped (fails : ℕ → Bool) (req : Request) (n : ℕ) (st : State) : Prop where
  calls : st.calls = req.base n
  same : ∀ a, (st.mem a).isLast = (req.terminated a).isLast ∧ (st.mem a).length = (req.terminated a).length
  address : ∀ i < n, ∀ j < req.size i, (st.mem (req.start i + j)).dmaAddress = .mapping (req.base i + j)
  other : ∀ a k, (st.mem a).dmaAddress = .mapping k →
    ∃ i < n, ∃ j < req.size i, a = req.start i + j ∧ k = req.base i + j
  log : st.log = (List.range n).flatMap (listLog fails req)

/-- The list can be mapped: it is not part of the extended first one, and no call for it fails. -/
def Fine (fails : ℕ → Bool) (req : Request) (n : ℕ) : Prop :=
  ¬req.Overlaps n ∧ ∀ j < req.size n, fails (req.base n + j) = false

theorem roundLog_congr {mem mem' : ℕ → Scatterlist} (h : ∀ a, (mem a).length = (mem' a).length) (calls sg : ℕ)
    (dir : DataDirection) : roundLog fails mem calls sg dir = roundLog fails mem' calls sg dir := by
  funext i
  simp only [roundLog, h]

theorem Mapped.init (fails : ℕ → Bool) (req : Request) : Mapped fails req 0 ⟨req.terminated, 0, []⟩ where
  calls := rfl
  same := fun _ ↦ ⟨rfl, rfl⟩
  address := nofun
  other := by
    intro a k hk
    have hstale := req.stale a k
    simp only [Request.terminated_apply] at hk
    split_ifs at hk <;> exact absurd hk hstale
  log := rfl

/-- What mapping list `n` does after the lists before it. -/
theorem Mapped.dmaMapSg_eq (h : Mapped fails req n st) (hn : n < req.sgs) (hover : ¬req.Overlaps n) :
    dmaMapSg fails req.memSize st (req.start n) (req.dir n) =
      (⟨mappedMem fails st.mem (req.base n) (req.start n) (req.size n), req.base (n + 1),
        st.log ++ listLog fails req n⟩, (List.range (req.size n)).any fun j ↦ fails (req.base n + j)) := by
  have hnents : sgNents req.memSize st.mem (req.start n) = req.size n := by
    apply sgNents_eq (Request.size_pos hn) (Request.start_add_size_le hn)
    intro j hj
    rw [(h.same _).1]
    exact Request.isLast_iff hn hover hj
  rw [dmaMapSg, hnents, foldl_dmaMapRound, h.calls, Request.base_succ, listLog,
    roundLog_congr fun a ↦ (h.same a).2]

theorem mappedMem_of_apart {mem : ℕ → Scatterlist} {calls sg n a : ℕ} (h : a < sg ∨ sg + n ≤ a) :
    mappedMem fails mem calls sg n a = mem a := if_neg (by omega)

theorem mappedMem_before (hi : i < n) (hn : n < req.sgs) (hover : ¬req.Overlaps n) {j : ℕ} (hj : j < req.size i)
    (mem : ℕ → Scatterlist) (calls : ℕ) :
    mappedMem fails mem calls (req.start n) (req.size n) (req.start i + j) = mem (req.start i + j) := by
  have := Request.extents_disjoint hi hn hover
  exact mappedMem_of_apart (by omega)

theorem mappedMem_same (fails : ℕ → Bool) (mem : ℕ → Scatterlist) (calls sg n a : ℕ) :
    (mappedMem fails mem calls sg n a).isLast = (mem a).isLast ∧
      (mappedMem fails mem calls sg n a).length = (mem a).length := by
  unfold mappedMem
  split_ifs <;> exact ⟨rfl, rfl⟩

theorem Mapped.succ (h : Mapped fails req n st) (hn : n < req.sgs) (hfine : Fine fails req n) :
    Mapped fails req (n + 1) (dmaMapSg fails req.memSize st (req.start n) (req.dir n)).1 ∧
      (dmaMapSg fails req.memSize st (req.start n) (req.dir n)).2 = false := by
  obtain ⟨hover, hfails⟩ := hfine
  rw [h.dmaMapSg_eq hn hover]
  have hsingle : ∀ j < req.size n, dmaMapSingle fails (req.base n + j) = .mapping (req.base n + j) := by
    intro j hj
    rw [dmaMapSingle, hfails j hj]
    rfl
  refine ⟨⟨rfl, ?_, ?_, ?_, ?_⟩, ?_⟩
  · intro a
    have hsame := mappedMem_same fails st.mem (req.base n) (req.start n) (req.size n) a
    exact ⟨hsame.1.trans (h.same a).1, hsame.2.trans (h.same a).2⟩
  · intro i hi j hj
    rcases Nat.lt_succ_iff_lt_or_eq.mp hi with hlt | rfl
    · simp only [mappedMem_before hlt hn hover hj]
      exact h.address i hlt j hj
    · simp only [mappedMem_of_lt hj]
      exact hsingle j hj
  · intro a k hk
    simp only [mappedMem] at hk
    split_ifs at hk with hin
    · refine ⟨n, Nat.lt_succ_self n, a - req.start n, by omega, by omega, ?_⟩
      rw [hsingle _ (by omega)] at hk
      exact (DmaAddress.mapping.inj hk).symm
    · obtain ⟨i, hi, hrest⟩ := h.other a k hk
      exact ⟨i, Nat.lt_succ_of_lt hi, hrest⟩
  · simp only [h.log, List.range_succ, List.flatMap_append, List.flatMap_singleton]
  · simp only [List.any_eq_false, List.mem_range]
    exact fun j hj ↦ by simp [hfails j hj]

/-- The code gets past the lists that can be mapped. -/
theorem exists_mapped {m : ℕ} (hm : m ≤ req.sgs) (hfine : ∀ i < m, Fine fails req i) :
    ∃ st, Mapped fails req m st ∧ vringMapSg fails req true = mapLists fails req (req.sgs - m) m st := by
  induction m with
  | zero => exact ⟨_, Mapped.init fails req, rfl⟩
  | succ m ih =>
    obtain ⟨st, hst, hcode⟩ := ih (by omega) fun i hi ↦ hfine i (Nat.lt_succ_of_lt hi)
    obtain ⟨hnext, hret⟩ := hst.succ hm (hfine m (Nat.lt_succ_self m))
    refine ⟨_, hnext, ?_⟩
    obtain ⟨left, hleft⟩ : ∃ left, req.sgs - m = left + 1 := ⟨req.sgs - m - 1, by omega⟩
    rw [hcode, hleft, mapLists, show req.sgs - (m + 1) = left by omega]
    simp only [hret, Bool.false_eq_true, if_false]

/-! ## Without an error -/

theorem roundLog_of_not_fails {mem : ℕ → Scatterlist} {calls sg j : ℕ} {dir : DataDirection}
    (h : fails (calls + j) = false) :
    roundLog fails mem calls sg dir j = [.map (sg + j) ⟨.mapping (calls + j), (mem (sg + j)).length, dir⟩] := by
  simp [roundLog, dmaMapSingle, h]

/-- The mapping of an entry if no call fails. -/
def entryMapping (req : Request) (i j : ℕ) : Mapping :=
  ⟨.mapping (req.base i + j), (req.terminated (req.start i + j)).length, req.dir i⟩

def mapEvent (req : Request) (i j : ℕ) : Event := .map (req.start i + j) (entryMapping req i j)

theorem listLog_of_fine (h : Fine fails req n) : listLog fails req n = (List.range (req.size n)).map (mapEvent req n) := by
  have hrounds : listLog fails req n = (List.range (req.size n)).flatMap fun j ↦ [mapEvent req n j] := by
    apply List.flatMap_congr
    intro j hj
    exact roundLog_of_not_fails (h.2 j (List.mem_range.mp hj))
  rw [hrounds, List.map_eq_flatMap]

theorem mem_flatMap_listLog (h : ∀ i < n, Fine fails req i) {e : Event} :
    e ∈ (List.range n).flatMap (listLog fails req) ↔ ∃ i < n, ∃ j < req.size i, e = mapEvent req i j := by
  rw [List.mem_flatMap]
  simp only [List.mem_range]
  refine exists_congr fun i ↦ and_congr_right fun hi ↦ ?_
  rw [listLog_of_fine (h i hi), List.mem_map]
  simp only [List.mem_range]
  exact exists_congr fun j ↦ and_congr_right fun _ ↦ eq_comm

theorem Event.mapEvent_maps {a i j : ℕ} : (mapEvent req i j).Maps a = true ↔ req.start i + j = a := by
  simp [mapEvent, entryMapping, Event.Maps]

/-- The addresses are those of the calls in turn, so that no event is there twice. -/
theorem nodup_flatMap_listLog (h : ∀ i < n, Fine fails req i) : ((List.range n).flatMap (listLog fails req)).Nodup := by
  let address : Event → DmaAddress := fun
    | .map _ m => m.address
    | .unmap m => m.address
  have haddress : ((List.range n).flatMap (listLog fails req)).map address =
      (List.range (req.base n)).map DmaAddress.mapping := by
    induction n with
    | zero => rfl
    | succ n ih =>
      rw [List.range_succ, List.flatMap_append, List.map_append, ih fun i hi ↦ h i (Nat.lt_succ_of_lt hi),
        List.flatMap_singleton, listLog_of_fine (h n (Nat.lt_succ_self n)), Request.base_succ, List.range_add,
        List.map_append, List.map_map, List.map_map]
      rfl
  apply List.Nodup.of_map address
  rw [haddress]
  exact List.nodup_range.map fun _ _ ↦ DmaAddress.mapping.inj

theorem entry_inj (h : ∀ i < n, Fine fails req i) (hn : n ≤ req.sgs) {i i' j j' : ℕ} (hi : i < n) (hi' : i' < n)
    (hj : j < req.size i) (hj' : j' < req.size i') (heq : req.start i + j = req.start i' + j') : i = i' ∧ j = j' := by
  rcases Nat.lt_trichotomy i i' with hlt | rfl | hlt
  · have := Request.extents_disjoint hlt (by omega) (h i' hi').1
    omega
  · exact ⟨rfl, by omega⟩
  · have := Request.extents_disjoint hlt (by omega) (h i hi).1
    omega

theorem allOrNothing_of_fine (hst : Mapped fails req req.sgs st) (hfine : ∀ i < req.sgs, Fine fails req i) :
    AllOrNothing req (st, false) := by
  rw [AllOrNothing, if_neg (by simp)]
  intro i hi j hj
  have hsize : j < req.size i := hj.trans_le (Request.count_le_size hi)
  refine ⟨entryMapping req i j, ?_, rfl⟩
  apply List.perm_singleton.mp
  rw [hst.log, List.perm_ext_iff_of_nodup ((nodup_flatMap_listLog hfine).filter _) (List.nodup_singleton _)]
  intro e
  rw [List.mem_filter, mem_flatMap_listLog hfine, List.mem_singleton]
  constructor
  · rintro ⟨⟨i', hi', j', hj', rfl⟩, hmaps⟩
    rw [Event.mapEvent_maps] at hmaps
    obtain ⟨rfl, rfl⟩ := entry_inj hfine (Nat.le_refl _) hi' hi hj' hsize hmaps
    rfl
  · rintro rfl
    exact ⟨⟨i, hi, j, hsize, rfl⟩, Event.mapEvent_maps.mpr rfl⟩

/-! ## With an error -/

theorem created_listLog (h : ∀ i < n, Fine fails req i) : created ((List.range n).flatMap (listLog fails req)) =
    (List.range n).flatMap fun i ↦ (List.range (req.size i)).map (entryMapping req i) := by
  rw [created, List.filterMap_flatMap]
  apply List.flatMap_congr
  intro i hi
  rw [listLog_of_fine (h i (List.mem_range.mp hi)), List.filterMap_map]
  exact congrFun List.filterMap_eq_map _

theorem unmapped_listLog (h : ∀ i < n, Fine fails req i) :
    unmapped ((List.range n).flatMap (listLog fails req)) = [] := by
  rw [unmapped, List.filterMap_eq_nil_iff]
  intro e he
  obtain ⟨i, -, j, -, rfl⟩ := (mem_flatMap_listLog h).mp he
  rfl

theorem foldl_dmaUnmapSg (st : State) (n : ℕ) :
    (List.range n).foldl (fun st i ↦ dmaUnmapSg req.memSize st (req.start i) (req.dir i)) st =
      { st with log := st.log ++ (List.range n).flatMap fun i ↦
          unmaps st.mem (req.start i) (sgNents req.memSize st.mem (req.start i)) (req.dir i) } := by
  induction n with
  | zero => simp
  | succ n ih =>
    rw [List.range_succ, List.foldl_append, ih]
    simp [dmaUnmapSg, List.append_assoc]

theorem created_unmaps (mem : ℕ → Scatterlist) (n : ℕ) : created ((List.range n).flatMap fun i ↦
    unmaps mem (req.start i) (sgNents req.memSize mem (req.start i)) (req.dir i)) = [] := by
  rw [created, List.filterMap_eq_nil_iff]
  intro e he
  obtain ⟨i, -, he⟩ := List.mem_flatMap.mp he
  obtain ⟨j, -, rfl⟩ := List.mem_map.mp he
  rfl

/-- What is undone for the lists before the one that failed. -/
theorem unmapped_before (hst : Mapped fails req n st) (hn : n < req.sgs) (hfine : ∀ i < n, Fine fails req i)
    (hover : ¬req.Overlaps n) :
    unmapped ((List.range n).flatMap fun i ↦
      unmaps (mappedMem fails st.mem (req.base n) (req.start n) (req.size n)) (req.start i)
        (sgNents req.memSize (mappedMem fails st.mem (req.base n) (req.start n) (req.size n)) (req.start i))
        (req.dir i)) = (List.range n).flatMap fun i ↦ (List.range (req.size i)).map (entryMapping req i) := by
  rw [unmapped, List.filterMap_flatMap]
  apply List.flatMap_congr
  intro i hi
  have hi := List.mem_range.mp hi
  have hisgs : i < req.sgs := hi.trans hn
  set mem := mappedMem fails st.mem (req.base n) (req.start n) (req.size n) with hmem
  have hsame : ∀ a, (mem a).isLast = (req.terminated a).isLast ∧ (mem a).length = (req.terminated a).length := by
    intro a
    have hmapped := mappedMem_same fails st.mem (req.base n) (req.start n) (req.size n) a
    exact ⟨hmapped.1.trans (hst.same a).1, hmapped.2.trans (hst.same a).2⟩
  have hnents : sgNents req.memSize mem (req.start i) = req.size i := by
    apply sgNents_eq (Request.size_pos hisgs) (Request.start_add_size_le hisgs)
    intro j hj
    rw [(hsame _).1]
    exact Request.isLast_iff hisgs (hfine i hi).1 hj
  have hentries : unmaps mem (req.start i) (req.size i) (req.dir i) =
      (List.range (req.size i)).map fun j ↦ .unmap (entryMapping req i j) := by
    apply List.map_congr_left
    intro j hj
    have hj := List.mem_range.mp hj
    rw [(hsame _).2, hmem, mappedMem_before hi hn hover hj, hst.address i hi j hj]
    rfl
  rw [hnents, hentries, List.filterMap_map]
  exact congrFun List.filterMap_eq_map _

/-- If list `n` is the first with a failing call, everything is undone exactly if that list is rolled back. -/
theorem allOrNothing_of_fails (hst : Mapped fails req n st) (hn : n < req.sgs) (hfine : ∀ i < n, Fine fails req i)
    (hover : ¬req.Overlaps n) (hfails : ∃ j < req.size n, fails (req.base n + j) = true) :
    AllOrNothing req (mapLists fails req (req.sgs - n) n st) ↔
      ∀ j, j + 1 < req.size n → fails (req.base n + j) = false := by
  obtain ⟨left, hleft⟩ : ∃ left, req.sgs - n = left + 1 := ⟨req.sgs - n - 1, by omega⟩
  have hany : ((List.range (req.size n)).any fun j ↦ fails (req.base n + j)) = true := by
    obtain ⟨j, hj, hjfails⟩ := hfails
    exact List.any_eq_true.mpr ⟨j, List.mem_range.mpr hj, hjfails⟩
  rw [hleft, mapLists, hst.dmaMapSg_eq hn hover]
  simp only [hany, if_true]
  rw [foldl_dmaUnmapSg, AllOrNothing, if_pos rfl]
  simp only [created_append, unmapped_append, hst.log, created_listLog hfine, unmapped_listLog hfine,
    unmapped_before hst hn hfine hover, created_unmaps, List.append_nil, List.nil_append]
  have hrolled : (created (listLog fails req n)).Perm (unmapped (listLog fails req n)) ↔ _ := rolledBack_iff hfails
  rw [← hrolled]
  -- the mappings of the lists before are on both sides
  constructor
  · intro hperm
    exact (List.perm_append_left_iff _).mp (hperm.trans List.perm_append_comm)
  · intro hperm
    exact (hperm.append_left _).trans List.perm_append_comm

/-! ## Overlapping lists -/

/-- The mapping of call `k` was made, and neither undone nor is its address kept. -/
structure Lost (k : ℕ) (st : State) : Prop where
  made : ∃ m ∈ created st.log, m.address = .mapping k
  kept : ∀ m ∈ unmapped st.log, m.address ≠ .mapping k
  gone : ∀ a, (st.mem a).dmaAddress ≠ .mapping k
  lt : k < st.calls

variable {k : ℕ}

theorem Lost.not_perm (h : Lost k st) : ¬(created st.log).Perm (unmapped st.log) := by
  intro hperm
  obtain ⟨m, hm, haddress⟩ := h.made
  exact h.kept m (hperm.mem_iff.mp hm) haddress

theorem dmaMapSingle_ne (hk : k < i) : dmaMapSingle fails i ≠ .mapping k := by
  unfold dmaMapSingle
  split_ifs
  · exact nofun
  · intro h
    have := DmaAddress.mapping.inj h
    omega

theorem Lost.dmaMapSg (h : Lost k st) (memSize sg : ℕ) (dir : DataDirection) :
    Lost k (dmaMapSg fails memSize st sg dir).1 := by
  rw [MapSg.dmaMapSg, foldl_dmaMapRound]
  refine ⟨?_, ?_, ?_, ?_⟩
  · obtain ⟨m, hm, haddress⟩ := h.made
    rw [created_append]
    exact ⟨m, List.mem_append_left _ hm, haddress⟩
  · intro m hm
    rw [unmapped_append] at hm
    rcases List.mem_append.mp hm with hm | hm
    · exact h.kept m hm
    · obtain ⟨i, -, -, j, -, rfl⟩ := mem_unmapped.mp hm
      exact dmaMapSingle_ne (by have := h.lt; omega)
  · intro a
    simp only [mappedMem]
    split_ifs
    · exact dmaMapSingle_ne (by have := h.lt; omega)
    · exact h.gone a
  · have := h.lt
    simp only
    omega

theorem Lost.dmaUnmapSg (h : Lost k st) (memSize sg : ℕ) (dir : DataDirection) :
    Lost k (dmaUnmapSg memSize st sg dir) := by
  refine ⟨?_, ?_, h.gone, h.lt⟩
  · obtain ⟨m, hm, haddress⟩ := h.made
    rw [MapSg.dmaUnmapSg, created_append]
    exact ⟨m, List.mem_append_left _ hm, haddress⟩
  · intro m hm
    rw [MapSg.dmaUnmapSg, unmapped_append] at hm
    rcases List.mem_append.mp hm with hm | hm
    · exact h.kept m hm
    · obtain ⟨e, he, hem⟩ := List.mem_filterMap.mp hm
      obtain ⟨j, -, rfl⟩ := List.mem_map.mp he
      obtain rfl := Option.some_inj.mp hem
      exact h.gone _

theorem Lost.foldl (h : Lost k st) (n : ℕ) :
    Lost k ((List.range n).foldl (fun st i ↦ MapSg.dmaUnmapSg req.memSize st (req.start i) (req.dir i)) st) := by
  induction n with
  | zero => exact h
  | succ n ih =>
    rw [List.range_succ, List.foldl_append]
    exact ih.dmaUnmapSg _ _ _

theorem Lost.mapLists (h : Lost k st) (left n : ℕ) : Lost k (mapLists fails req left n st).1 := by
  induction left generalizing n st with
  | zero => exact h
  | succ left ih =>
    have hmapped : Lost k (MapSg.dmaMapSg fails req.memSize st (req.start n) (req.dir n)).1 := h.dmaMapSg _ _ _
    rw [MapSg.mapLists]
    split_ifs
    · exact hmapped.foldl n
    · exact ih hmapped (n + 1)

theorem mem_log_mapLists {e : Event} (he : e ∈ st.log) (left n : ℕ) : e ∈ (mapLists fails req left n st).1.log := by
  induction left generalizing n st with
  | zero => exact he
  | succ left ih =>
    have hmapped : e ∈ (dmaMapSg fails req.memSize st (req.start n) (req.dir n)).1.log := by
      rw [dmaMapSg, foldl_dmaMapRound]
      exact List.mem_append_left _ he
    rw [mapLists]
    split_ifs
    · rw [foldl_dmaUnmapSg]
      exact List.mem_append_left _ hmapped
    · exact ih hmapped (n + 1)

theorem sgNents_pos (memSize : ℕ) (mem : ℕ → Scatterlist) (sg : ℕ) : 0 < sgNents memSize mem sg := Nat.succ_pos _

theorem Request.Overlaps.lt_size (h : req.Overlaps n) : req.start n - req.start 0 < req.size 0 := by
  obtain ⟨-, hterm, hstart, hwindow⟩ := h
  have hsize : req.size 0 = req.totalSg := if_pos ⟨rfl, hterm⟩
  omega

/-- The address that the first list has for the beginning of an overlapping list is lost when that is mapped. -/
theorem Mapped.lost (hst : Mapped fails req n st) (hfine : ∀ i < n, Fine fails req i)
    (hover : req.Overlaps n) :
    Lost (req.start n - req.start 0) (dmaMapSg fails req.memSize st (req.start n) (req.dir n)).1 := by
  have hk := hover.lt_size
  obtain ⟨hpos, hterm, hstart, hwindow⟩ := hover
  have hlt := hk.trans_le (req.size_zero_le_base hpos)
  have hmade : entryMapping req 0 (req.start n - req.start 0) ∈ created st.log := by
    rw [hst.log, created_listLog hfine]
    exact List.mem_flatMap.mpr ⟨0, List.mem_range.mpr hpos, List.mem_map.mpr ⟨_, List.mem_range.mpr hk, rfl⟩⟩
  rw [dmaMapSg, foldl_dmaMapRound, hst.calls]
  refine ⟨⟨entryMapping req 0 (req.start n - req.start 0), ?_, ?_⟩, ?_, ?_, ?_⟩
  · rw [created_append]
    exact List.mem_append_left _ hmade
  · rw [entryMapping, Request.base, Finset.sum_range_zero, Nat.zero_add]
  · intro m hm
    rw [unmapped_append, hst.log, unmapped_listLog hfine, List.nil_append] at hm
    obtain ⟨i, -, -, j, -, rfl⟩ := mem_unmapped.mp hm
    exact dmaMapSingle_ne (by omega)
  · intro a
    simp only [mappedMem]
    split_ifs with hin
    · exact dmaMapSingle_ne (by omega)
    · -- only the overwritten entry had the address
      intro ha
      obtain ⟨i, hi, j, hj, rfl, hcall⟩ := hst.other a _ ha
      have hzero : i = 0 := by
        by_contra hne
        have := req.size_zero_le_base (Nat.pos_of_ne_zero hne)
        omega
      obtain rfl := hzero
      rw [Request.base, Finset.sum_range_zero] at hcall
      have := sgNents_pos req.memSize st.mem (req.start n)
      omega
  · simp only
    omega

/-- If the call ends well its first entry was mapped. -/
theorem dmaMapSg_first {memSize sg : ℕ} {dir : DataDirection} (h : (dmaMapSg fails memSize st sg dir).2 = false) :
    fails st.calls = false ∧
      .map sg ⟨.mapping st.calls, (st.mem sg).length, dir⟩ ∈ (dmaMapSg fails memSize st sg dir).1.log := by
  obtain ⟨n, hn⟩ : ∃ n, sgNents memSize st.mem sg = n + 1 := ⟨_, rfl⟩
  rw [dmaMapSg, hn, foldl_dmaMapRound] at h ⊢
  have hfails : fails st.calls = false := by
    have hzero := List.any_eq_false.mp h 0 (List.mem_range.mpr (Nat.succ_pos n))
    simpa using hzero
  refine ⟨hfails, List.mem_append_right _ (List.mem_flatMap.mpr ⟨0, List.mem_range.mpr (Nat.succ_pos n), ?_⟩)⟩
  rw [roundLog_of_not_fails hfails]
  exact List.mem_singleton_self _

/-- With an overlapping list nothing is right any more. -/
theorem not_allOrNothing_of_overlaps (hst : Mapped fails req n st) (hn : n < req.sgs)
    (hfine : ∀ i < n, Fine fails req i) (hover : req.Overlaps n) :
    ¬AllOrNothing req (mapLists fails req (req.sgs - n) n st) := by
  have hlost := hst.lost hfine hover
  obtain ⟨left, hleft⟩ : ∃ left, req.sgs - n = left + 1 := ⟨req.sgs - n - 1, by omega⟩
  rw [hleft, mapLists]
  split_ifs with hret
  · exact fun h ↦ (hlost.foldl n).not_perm (by simpa [AllOrNothing] using h)
  · set out := mapLists fails req left (n + 1) (dmaMapSg fails req.memSize st (req.start n) (req.dir n)).1 with hout
    have hlost' : Lost _ out.1 := hlost.mapLists left (n + 1)
    intro h
    cases herr : out.2 with
    | true => exact hlost'.not_perm (by simpa [AllOrNothing, herr] using h)
    | false =>
      rw [AllOrNothing, if_neg (by simp [herr])] at h
      obtain ⟨m, hfilter, -⟩ := h n hn 0 (req.count_pos n hn)
      have honly : ∀ e ∈ out.1.log, e.Maps (req.start n) → e = .map (req.start n) m := by
        intro e he hmaps
        have hmem : e ∈ out.1.log.filter (Event.Maps (req.start n)) := List.mem_filter.mpr ⟨he, hmaps⟩
        exact List.mem_singleton.mp (hfilter ▸ hmem)
      -- the entry is mapped with the first list and with its own
      have hfirst : mapEvent req 0 (req.start n - req.start 0) ∈ out.1.log := by
        apply mem_log_mapLists
        rw [dmaMapSg, foldl_dmaMapRound, hst.log]
        exact List.mem_append_left _ ((mem_flatMap_listLog hfine).mpr ⟨0, hover.1, _, hover.lt_size, rfl⟩)
      have hown : _ ∈ out.1.log := mem_log_mapLists (dmaMapSg_first (eq_false_of_ne_true hret)).2 left (n + 1)
      rw [hst.calls] at hown
      have heq := honly _ hfirst (by rw [Event.mapEvent_maps]; have := hover.2.2; omega)
      have heq' := honly _ hown (by simp [Event.Maps])
      have hcalls := heq.trans heq'.symm
      simp only [mapEvent, entryMapping, Event.map.injEq, Mapping.mk.injEq, DmaAddress.mapping.injEq] at hcalls
      have hbase := req.size_zero_le_base hover.1
      have hlt := hover.lt_size
      rw [Request.base, Finset.sum_range_zero] at hcalls
      omega

/-! ## When it is all or nothing -/

/-- Up to the end, or to a list that fails at its last entry only, no list is part of the extended first one and no
call fails. -/
def Clean (fails : ℕ → Bool) (req : Request) : Prop :=
  ∃ m ≤ req.sgs, (∀ i < m, Fine fails req i) ∧
    (m < req.sgs → ¬req.Overlaps m ∧ ∀ j < req.size m, fails (req.base m + j) = decide (j + 1 = req.size m))

/-- A failure at the last entry only, in two ways. -/
theorem only_last_iff {base : ℕ} (h : ∃ j < n, fails (base + j) = true) :
    (∀ j, j + 1 < n → fails (base + j) = false) ↔ ∀ j < n, fails (base + j) = decide (j + 1 = n) := by
  constructor
  · intro hbefore j hj
    obtain ⟨k, hk, hkfails⟩ := h
    have hlast : k + 1 = n := by
      by_contra hne
      rw [hbefore k (by omega)] at hkfails
      cases hkfails
    by_cases hjn : j + 1 = n
    · rw [decide_eq_true hjn, show j = k by omega, hkfails]
    · rw [decide_eq_false hjn, hbefore j (by omega)]
  · intro hlast j hj
    rw [hlast j (by omega), decide_eq_false (by omega)]

theorem clean_iff (hfine : ∀ i < n, Fine fails req i) (hn : n < req.sgs) (hnot : ¬Fine fails req n) :
    Clean fails req ↔ ¬req.Overlaps n ∧ ∀ j < req.size n, fails (req.base n + j) = decide (j + 1 = req.size n) := by
  constructor
  · rintro ⟨m, -, hbefore, hm⟩
    rcases Nat.lt_trichotomy m n with hlt | rfl | hlt
    · have hmsgs := hlt.trans hn
      have hpos := Request.size_pos hmsgs
      have hlast := (hm hmsgs).2 (req.size m - 1) (by omega)
      rw [(hfine m hlt).2 _ (by omega), eq_comm, decide_eq_false_iff_not] at hlast
      omega
    · exact hm hn
    · exact absurd (hbefore n hlt) hnot
  · intro h
    exact ⟨n, hn.le, hfine, fun _ ↦ h⟩

/-- A request is mapped as a whole or not at all exactly if there is no parent device, or no list overlaps and no call
fails but the one for the last entry of a list. -/
theorem allOrNothing_iff (fails : ℕ → Bool) (req : Request) (hasParent : Bool) :
    AllOrNothing req (vringMapSg fails req hasParent) ↔ hasParent = false ∨ Clean fails req := by
  classical
  cases hasParent with
  | false =>
    refine iff_of_true ?_ (Or.inl rfl)
    simp [vringMapSg, AllOrNothing, created, unmapped]
  | true =>
    rw [or_iff_right (by simp)]
    -- the first list that cannot be mapped, if there is one
    have hex : ∃ m, m = req.sgs ∨ ¬Fine fails req m := ⟨req.sgs, Or.inl rfl⟩
    obtain hfind := Nat.find_spec hex
    have hbefore : ∀ i < Nat.find hex, Fine fails req i := fun i hi ↦
      not_not.mp fun hnot ↦ Nat.find_min hex hi (Or.inr hnot)
    have hle : Nat.find hex ≤ req.sgs := Nat.find_min' hex (Or.inl rfl)
    generalize Nat.find hex = m at hfind hbefore hle
    obtain ⟨st, hst, hcode⟩ := exists_mapped hle hbefore
    rw [hcode]
    by_cases hend : m = req.sgs
    · subst hend
      rw [Nat.sub_self]
      exact iff_of_true (allOrNothing_of_fine hst hbefore)
        ⟨req.sgs, Nat.le_refl _, hbefore, fun h ↦ absurd h (Nat.lt_irrefl _)⟩
    · have hm : m < req.sgs := Nat.lt_of_le_of_ne hle hend
      have hnot := hfind.resolve_left hend
      rw [clean_iff hbefore hm hnot]
      by_cases hover : req.Overlaps m
      · exact iff_of_false (not_allOrNothing_of_overlaps hst hm hbefore hover) fun h ↦ h.1 hover
      · have hfails : ∃ j < req.size m, fails (req.base m + j) = true := by
          by_contra hno
          refine hnot ⟨hover, fun j hj ↦ ?_⟩
          by_contra hj'
          exact hno ⟨j, hj, eq_true_of_ne_false hj'⟩
        rw [allOrNothing_of_fails hst hm hbefore hover hfails, and_iff_right hover]
        exact only_last_iff hfails

/-- The list begins with a mapping that fails. -/
def twoEntries : Request where
  outSgs := 1
  inSgs := 0
  start := fun _ ↦ 0
  count := fun _ ↦ 2
  mem := fun _ ↦ ⟨false, 64, .null⟩
  memSize := 2
  sgs_pos := by decide
  count_pos := by decide
  disjoint := by decide
  last := by decide
  fits := by decide
  stale := nofun

/-- The first of two mappings fails, and the second one stays. -/
theorem twoEntries_not_allOrNothing :
    ¬AllOrNothing twoEntries (vringMapSg (fun call ↦ call = 0) twoEntries true) := by
  have hret : (vringMapSg (fun call ↦ call = 0) twoEntries true).2 = true := by decide
  rw [AllOrNothing, if_pos hret]
  decide

end Lists

end Vcass.Virtio.MapSg
