import Mathlib.Algebra.Order.Ring.Nat
import Mathlib.Data.List.Nodup
import Mathlib.Data.List.Pairwise
import Mathlib.Data.List.Perm.Basic
import Mathlib.Logic.Function.Basic
import Vcass.Lib.Run

/-!
# Interrupt callbacks of the PLX device

Requesters of an interrupt get a cookie, and with it they take their callback back. The callbacks of a
source lie in a list of their own; the cookie holds an id, and the callback with this id is searched in
all lists.

## Cookies

The id is shifted left in an `int`, so a cookie keeps fifteen bits of it. As long as the ids are below
`2¹⁵`, the callbacks of each source are those requested and not freed, in the order of the requests.

## Teardown

`plx_release_callbacks` ends at the first source without a callback, and it frees no name.
`released_iff` says when nothing is left behind.
-/

namespace Vcass.Plx.Intr

open Conc
open Function (update)

/-! ## Memory -/

/-- What `kmalloc` and `kfree` did. Blocks are numbered in the order of their allocation. -/
structure Heap where
  next : ℕ
  /-- The blocks given to `kfree`, in order. -/
  freed : List ℕ
  deriving DecidableEq, Repr

/-- A successful `kmalloc`. -/
def Heap.kmalloc (h : Heap) : ℕ × Heap := (h.next, { h with next := h.next + 1 })

def Heap.kfree (h : Heap) (a : ℕ) : Heap := { h with freed := h.freed ++ [a] }

/-! ## The code -/

/-- `PLX_NUM_OFFSETS`. -/
def plxNumOffsets : ℕ := 32

/-- `COOKIE_ID_SHIFT`. -/
def cookieIdShift : ℕ := 16

def einval : ℤ := 22

def enomem : ℤ := 12

/-- `ERR_PTR`. -/
def errPtr (e : ℤ) : BitVec 64 := BitVec.ofInt 64 e

/-- `IS_ERR`, with `MAX_ERRNO` being 4095. -/
def IsErr (p : BitVec 64) : Prop := 2 ^ 64 - 4095 ≤ p.toNat

instance : DecidablePred IsErr := fun p ↦ inferInstanceAs (Decidable (2 ^ 64 - 4095 ≤ p.toNat))

/-- `entry | cb_id << COOKIE_ID_SHIFT`, computed as an `int` and stored in an `unsigned long`. -/
def cookie (entry : BitVec 16) (cbId : ℕ) : BitVec 64 :=
  (entry.setWidth 32 ||| BitVec.ofNat 32 cbId <<< cookieIdShift).signExtend 64

/-- `GET_ENTRY`. -/
def getEntry (c : BitVec 64) : BitVec 32 := (c &&& 0xFFFF).setWidth 32

/-- `GET_OFFSET`. -/
def getOffset (c : BitVec 64) : BitVec 32 := (c >>> cookieIdShift).setWidth 32

/-- What a requester asks for. -/
structure Request (F D : Type*) where
  handler : Option F
  threadFn : Option F
  name : Option String
  data : D
  intrSrc : ℤ
  deriving DecidableEq, Repr

/-- `struct plx_intr_cb` at the address `addr`. -/
structure IntrCb (F D : Type*) where
  addr : ℕ
  handler : Option F
  threadFn : Option F
  data : D
  cbId : ℕ
  /-- Where the copy of the name lies and what it says. -/
  name : Option (ℕ × String)
  deriving DecidableEq, Repr

/-- `struct plx_irq_info`; the locks and the fields of the handlers are left out. -/
structure IrqInfo (F D : Type*) where
  plxMsiMap : ℕ → BitVec 32
  /-- The ids in use. -/
  cbIda : List ℕ
  cbList : ℕ → List (IntrCb F D)
  /-- Where the array `cb_list` lies. -/
  cbListAddr : ℕ
  heap : Heap

/-- What the registry reads of the device. -/
structure Device where
  msiEnabled : Bool
  intrStartIdx : BitVec 16
  intrLen : BitVec 16

/-- What the kernel answers to one request. -/
structure Answers where
  /-- Whether there is memory for the callback. -/
  intrCb : Bool
  /-- The result of `ida_simple_get`. -/
  cbId : Except ℤ ℕ
  /-- Whether there is memory for the name. -/
  name : Bool

variable {F D : Type*}

/-- `plx_setup_callbacks`, when there is memory for the array. -/
def plxSetupCallbacks (msiMap : ℕ → BitVec 32) (heap : Heap) : IrqInfo F D :=
  ⟨msiMap, [], fun _ ↦ [], heap.kmalloc.1, heap.kmalloc.2⟩

/-- `plx_map_src_to_offset`. -/
def plxMapSrcToOffset (dev : Device) (intrSrc : ℤ) : BitVec 16 :=
  if (dev.intrLen.toNat : ℤ) ≤ intrSrc then BitVec.ofNat 16 plxNumOffsets
  else BitVec.ofInt 16 (dev.intrStartIdx.toNat + intrSrc)

/-- The copy of the name, for which memory may be missing. -/
def copyName (heap : Heap) (name : Option String) (ok : Bool) : Option (ℕ × String) × Heap :=
  match name with
  | none => (none, heap)
  | some text => if ok then (some (heap.kmalloc.1, text), heap.kmalloc.2) else (none, heap)

/-- The callback of a request, filled in. -/
def newCb (heap : Heap) (req : Request F D) (cbId : ℕ) (ok : Bool) : IntrCb F D × Heap :=
  let (addr, heap) := heap.kmalloc
  let (name, heap) := copyName heap req.name ok
  (⟨addr, req.handler, req.threadFn, req.data, cbId, name⟩, heap)

/-- `plx_register_intr_callback`. The result is the id or an error. -/
def plxRegisterIntrCallback (s : IrqInfo F D) (idx : ℕ) (req : Request F D) (a : Answers) :
    Except ℤ ℕ × IrqInfo F D :=
  if a.intrCb then
    match a.cbId with
    | .error rc => (.error rc, { s with heap := s.heap.kmalloc.2.kfree s.heap.kmalloc.1 })
    | .ok cbId =>
      let (intrCb, heap) := newCb s.heap req cbId a.name
      (.ok cbId, { s with
        cbIda := s.cbIda ++ [cbId]
        cbList := update s.cbList idx (s.cbList idx ++ [intrCb])
        heap })
  else (.error (-enomem), s)

/-- `if (intr_cb->name) kfree(intr_cb->name); kfree(intr_cb);` -/
def freeCb (heap : Heap) (cb : IntrCb F D) : Heap :=
  match cb.name with
  | some (a, _) => (heap.kfree a).kfree cb.addr
  | none => heap.kfree cb.addr

/-- The two loops of `plx_unregister_intr_callback`: the source and the callback with this id. -/
def findCb (s : IrqInfo F D) (idx : BitVec 32) : Option (ℕ × IntrCb F D) :=
  (List.range plxNumOffsets).findSome? fun i ↦
    ((s.cbList i).find? fun cb ↦ cb.cbId = idx.toNat).map (i, ·)

/-- `plx_unregister_intr_callback`. -/
def plxUnregisterIntrCallback (s : IrqInfo F D) (idx : BitVec 32) : ℕ × IrqInfo F D :=
  match findCb s idx with
  | some (i, cb) => (i, { s with
      cbIda := s.cbIda.erase cb.cbId
      cbList := update s.cbList i ((s.cbList i).eraseP fun cb ↦ cb.cbId = idx.toNat)
      heap := freeCb s.heap cb })
  | none => (plxNumOffsets, s)

/-- `plx_request_threaded_irq`. -/
def plxRequestThreadedIrq (dev : Device) (s : IrqInfo F D) (req : Request F D) (a : Answers) :
    BitVec 64 × IrqInfo F D :=
  let offset := (plxMapSrcToOffset dev req.intrSrc).toNat
  if plxNumOffsets ≤ offset then (errPtr (-einval), s)
  else
    match plxRegisterIntrCallback s offset req a with
    | (.error rc, s) => (errPtr rc, s)
    | (.ok cbId, s) =>
      let entry : BitVec 16 := 0
      (cookie entry cbId,
        if dev.msiEnabled then
          { s with plxMsiMap :=
              update s.plxMsiMap entry.toNat (s.plxMsiMap entry.toNat ||| (1 : BitVec 32) <<< offset) }
        else s)

/-- `plx_free_irq`; the `data` it is given is not used. -/
def plxFreeIrq (dev : Device) (s : IrqInfo F D) (c : BitVec 64) : IrqInfo F D :=
  let entry := (getEntry c).toNat
  let (srcId, s) := plxUnregisterIntrCallback s (getOffset c)
  if plxNumOffsets ≤ srcId then s
  else if dev.msiEnabled then
    { s with plxMsiMap := update s.plxMsiMap entry (s.plxMsiMap entry &&& ~~~((1 : BitVec 32) <<< srcId)) }
  else s

/-- The body of the inner loop of `plx_release_callbacks`. -/
def releaseCb (i : ℕ) (s : IrqInfo F D) (cb : IntrCb F D) : IrqInfo F D :=
  { s with
    cbIda := s.cbIda.erase cb.cbId
    cbList := update s.cbList i ((s.cbList i).eraseP fun pos ↦ pos.addr = cb.addr)
    heap := s.heap.kfree cb.addr }

/-- The outer loop, with `n` sources left from `i` on. -/
def releaseFrom (s : IrqInfo F D) : (n i : ℕ) → IrqInfo F D
  | 0, _ => s
  | n + 1, i =>
    -- `break`, where the next source could still have callbacks
    if (s.cbList i).isEmpty then s
    else releaseFrom ((s.cbList i).foldl (releaseCb i) s) n (i + 1)

/-- `plx_release_callbacks`. -/
def plxReleaseCallbacks (s : IrqInfo F D) : IrqInfo F D :=
  let s := releaseFrom s plxNumOffsets 0
  { s with cbIda := [], heap := s.heap.kfree s.cbListAddr }

/-- The memory of a callback. -/
def IntrCb.blocks (cb : IntrCb F D) : List ℕ := cb.name.toList.map Prod.fst ++ [cb.addr]

/-- After `plx_release_callbacks` nothing of the callbacks is left. -/
def Released (s : IrqInfo F D) : Prop :=
  ∀ i < plxNumOffsets, ∀ cb ∈ s.cbList i, ∀ a ∈ cb.blocks, a ∈ (plxReleaseCallbacks s).heap.freed

/-- The sources with callbacks come before those without. -/
def Leading (s : IrqInfo F D) : Prop :=
  ∀ j < plxNumOffsets, ∀ i < j, s.cbList i = [] → s.cbList j = []

/-- No callback has a name of its own. -/
def Unnamed (s : IrqInfo F D) : Prop := ∀ i < plxNumOffsets, ∀ cb ∈ s.cbList i, cb.name = none

instance (s : IrqInfo F D) : Decidable (Released s) := inferInstanceAs (Decidable (∀ i < _, ∀ cb ∈ _, _))

instance (s : IrqInfo F D) : Decidable (Leading s) := inferInstanceAs (Decidable (∀ j < _, ∀ i < j, _ → _))

instance (s : IrqInfo F D) : Decidable (Unnamed s) := inferInstanceAs (Decidable (∀ i < _, ∀ cb ∈ _, _ = _))

/-! ## The system -/

/-- A cookie that a requester holds: the source and the callback it was returned for. -/
structure Held (F D : Type*) where
  offset : ℕ
  cookie : BitVec 64
  cb : IntrCb F D

/-- The registry, and what was requested and not freed, in the order of the requests. -/
structure Sys (F D : Type*) where
  info : IrqInfo F D
  held : List (Held F D)

inductive Label (F D : Type*)
  | request (req : Request F D) (a : Answers)
  /-- The requester that holds the `j`-th cookie gives it back. -/
  | free (j : ℕ)

/-- `ida_simple_get` returns an id that is not in use, or a negative error. -/
def Answers.Possible (a : Answers) (used : List ℕ) : Prop :=
  match a.cbId with
  | .ok id => id ∉ used ∧ id < 2 ^ 31
  | .error rc => -4095 ≤ rc ∧ rc < 0

instance (a : Answers) (used : List ℕ) : Decidable (a.Possible used) := by
  unfold Answers.Possible
  split <;> infer_instance

/-- What the requester gets: nothing, or a cookie for the callback it asked for. -/
def granted (dev : Device) (s : IrqInfo F D) (req : Request F D) (a : Answers) : List (Held F D) :=
  let p := (plxRequestThreadedIrq dev s req a).1
  match a.cbId with
  | .ok cbId =>
    if IsErr p then []
    else [⟨(plxMapSrcToOffset dev req.intrSrc).toNat, p, (newCb s.heap req cbId a.name).1⟩]
  | .error _ => []

def step (dev : Device) (s : Sys F D) : Label F D → Option (Sys F D)
  | .request req a =>
    if a.Possible s.info.cbIda then
      some ⟨(plxRequestThreadedIrq dev s.info req a).2, s.held ++ granted dev s.info req a⟩
    else none
  | .free j => s.held[j]?.map fun h ↦ ⟨plxFreeIrq dev s.info h.cookie, s.held.eraseIdx j⟩

def Sys.init (msiMap : ℕ → BitVec 32) : Sys F D := ⟨plxSetupCallbacks msiMap ⟨0, []⟩, []⟩

/-- The id of the request fits into the fifteen bits that a cookie has for it. -/
def Label.Fits : Label F D → Prop
  | .request _ a => ∀ id, a.cbId = .ok id → id < 2 ^ 15
  | .free _ => True

/-! ## The invariant -/

/-- Of the cookies that are held, those for a source. -/
def Sys.on (s : Sys F D) (i : ℕ) : List (Held F D) := s.held.filter fun h ↦ h.offset = i

/-- **The registry and the cookies.** -/
structure Inv (s : Sys F D) : Prop where
  lists : ∀ i, s.info.cbList i = (s.on i).map Held.cb
  offset_lt : ∀ h ∈ s.held, h.offset < plxNumOffsets
  cookies : ∀ h ∈ s.held, (getOffset h.cookie).toNat = h.cb.cbId
  ids : s.info.cbIda.Perm (s.held.map fun h ↦ h.cb.cbId)
  ids_nodup : (s.held.map fun h ↦ h.cb.cbId).Nodup
  /-- Every block belongs to a callback that is held, or was freed once. -/
  memory : (s.info.cbListAddr :: (s.held.flatMap (·.cb.blocks) ++ s.info.heap.freed)).Perm
    (List.range s.info.heap.next)

/-! ## Cookies -/

theorem toNat_cookie (id : ℕ) :
    (cookie 0 id).toNat = id % 2 ^ 16 * 2 ^ 16 + if 2 ^ 15 ≤ id % 2 ^ 16 then 2 ^ 64 - 2 ^ 32 else 0 := by
  have hword : (BitVec.ofNat 32 id <<< cookieIdShift).toNat = id % 2 ^ 16 * 2 ^ 16 := by
    rw [BitVec.toNat_shiftLeft, BitVec.toNat_ofNat, cookieIdShift, Nat.shiftLeft_eq]
    omega
  have hzero : BitVec.setWidth 32 (0 : BitVec 16) = 0#32 := rfl
  rw [cookie, hzero, BitVec.zero_or, BitVec.toNat_signExtend, BitVec.msb_eq_decide, BitVec.toNat_setWidth, hword]
  simp only [decide_eq_true_eq]
  split_ifs <;> omega

theorem not_isErr_cookie (id : ℕ) : ¬ IsErr (cookie 0 id) := by
  rw [IsErr, toNat_cookie]
  split_ifs <;> omega

theorem toNat_getOffset_cookie (id : ℕ) : (getOffset (cookie 0 id)).toNat =
    if 2 ^ 15 ≤ id % 2 ^ 16 then 2 ^ 32 - 2 ^ 16 + id % 2 ^ 16 else id % 2 ^ 16 := by
  rw [getOffset, BitVec.toNat_setWidth, BitVec.toNat_ushiftRight, toNat_cookie, Nat.shiftRight_eq_div_pow,
    cookieIdShift]
  split_ifs <;> omega

/-- **The room for an id in a cookie.** -/
theorem getOffset_cookie_iff {id : ℕ} (hid : id < 2 ^ 31) :
    (getOffset (cookie 0 id)).toNat = id ↔ id < 2 ^ 15 := by
  rw [toNat_getOffset_cookie]
  split_ifs <;> omega

/-! ## What each function does -/

theorem freeCb_eq (heap : Heap) (cb : IntrCb F D) :
    freeCb heap cb = { heap with freed := heap.freed ++ cb.blocks } := by
  unfold freeCb IntrCb.blocks
  cases cb.name <;> simp [Heap.kfree]

theorem newCb_spec (heap : Heap) (req : Request F D) (id : ℕ) (ok : Bool) :
    (newCb heap req id ok).2.freed = heap.freed ∧
      (newCb heap req id ok).1.cbId = id ∧
      (List.range heap.next ++ (newCb heap req id ok).1.blocks).Perm
        (List.range (newCb heap req id ok).2.next) := by
  unfold newCb copyName IntrCb.blocks
  cases req.name with
  | none => simp [Heap.kmalloc, List.range_succ]
  | some text =>
    cases ok
    · simp [Heap.kmalloc, List.range_succ]
    · simp only [Heap.kmalloc, if_true, true_and, Option.toList_some, List.map_cons, List.map_nil,
        List.range_succ, List.append_assoc]
      exact (List.Perm.swap ..).append_left _

/-- A request either registers its callback, or registers nothing and leaves no memory behind. -/
theorem request_cases (dev : Device) (s : IrqInfo F D) (req : Request F D) (a : Answers) :
    (granted dev s req a = [] ∧ ∃ heap, (plxRequestThreadedIrq dev s req a).2 = { s with heap } ∧
      (heap = s.heap ∨ heap = s.heap.kmalloc.2.kfree s.heap.kmalloc.1)) ∨
    ∃ offset id msiMap, offset < plxNumOffsets ∧ a.cbId = .ok id ∧
      granted dev s req a = [⟨offset, cookie 0 id, (newCb s.heap req id a.name).1⟩] ∧
      (plxRequestThreadedIrq dev s req a).2 = { s with
        plxMsiMap := msiMap
        cbIda := s.cbIda ++ [id]
        cbList := update s.cbList offset (s.cbList offset ++ [(newCb s.heap req id a.name).1])
        heap := (newCb s.heap req id a.name).2 } := by
  unfold granted plxRequestThreadedIrq plxRegisterIntrCallback
  by_cases hoffset : plxNumOffsets ≤ (plxMapSrcToOffset dev req.intrSrc).toNat
  · -- a source without an offset is refused before anything is got
    refine .inl ⟨?_, s.heap, by simp [hoffset], .inl rfl⟩
    cases a.cbId with
    | error rc => rfl
    | ok id => simp [hoffset, show IsErr (errPtr (-einval)) by decide]
  cases hid : a.cbId with
  | error rc =>
    refine .inl ⟨rfl, ?_⟩
    cases a.intrCb
    · exact ⟨s.heap, by simp [hoffset], .inl rfl⟩
    · exact ⟨_, by simp [hoffset], .inr rfl⟩
  | ok id =>
    cases a.intrCb
    · exact .inl ⟨by simp [hoffset, show IsErr (errPtr (-enomem)) by decide], s.heap, by simp [hoffset], .inl rfl⟩
    · refine .inr ⟨(plxMapSrcToOffset dev req.intrSrc).toNat, id,
        if dev.msiEnabled then update s.plxMsiMap 0
          (s.plxMsiMap 0 ||| (1 : BitVec 32) <<< (plxMapSrcToOffset dev req.intrSrc).toNat) else s.plxMsiMap,
        Nat.lt_of_not_le hoffset, rfl, ?_, ?_⟩
      · simpa [hoffset] using not_isErr_cookie id
      · cases hmsi : dev.msiEnabled <;> simp [hoffset]

theorem findSome?_range {α : Type*} {f : ℕ → Option α} {n i : ℕ} {x : α} (hi : i < n) (hx : f i = some x)
    (hlt : ∀ j < i, f j = none) : (List.range n).findSome? f = some x := by
  obtain ⟨k, rfl⟩ := Nat.exists_eq_add_of_lt hi
  refine List.findSome?_eq_some_iff.mpr ⟨List.range i, i, (List.range k).map (i + 1 + ·), ?_, hx, ?_⟩
  · rw [show i + k + 1 = i + (1 + k) by omega, List.range_add, List.range_add]
    simp [Nat.add_assoc]
  · intro j hj
    exact hlt j (List.mem_range.mp hj)

section Split

variable {s : Sys F D} {A B : List (Held F D)} {h : Held F D}

/-- The list of a source, around a held callback. -/
theorem Inv.list_split (hs : Inv s) (hheld : s.held = A ++ h :: B) (i : ℕ) :
    s.info.cbList i = (A.filter fun g ↦ g.offset = i).map Held.cb ++
      ((if h.offset = i then [h.cb] else []) ++ (B.filter fun g ↦ g.offset = i).map Held.cb) := by
  rw [hs.lists i, Sys.on, hheld, List.filter_append, List.filter_cons]
  split_ifs <;> simp_all

theorem Inv.id_ne (hs : Inv s) (hheld : s.held = A ++ h :: B) : ∀ g ∈ A ++ B, g.cb.cbId ≠ h.cb.cbId := by
  have hnodup := hs.ids_nodup
  rw [hheld, List.map_append, List.map_cons] at hnodup
  have hnot := (List.nodup_middle.mp hnodup).notMem
  intro g hg heq
  apply hnot
  rw [← List.map_append, ← heq]
  exact List.mem_map_of_mem hg

theorem Inv.findCb_eq (hs : Inv s) (hheld : s.held = A ++ h :: B) :
    findCb s.info (getOffset h.cookie) = some (h.offset, h.cb) := by
  have hmem : h ∈ s.held := hheld ▸ List.mem_append_right A List.mem_cons_self
  have hother : ∀ i, ∀ C : List (Held F D), (∀ g ∈ C, g ∈ A ++ B) →
      ((C.filter fun g ↦ g.offset = i).map Held.cb).find?
        (fun cb ↦ cb.cbId = (getOffset h.cookie).toNat) = none := by
    intro i C hC
    rw [hs.cookies h hmem, List.find?_eq_none]
    intro cb hcb
    obtain ⟨g, hg, rfl⟩ := List.mem_map.mp hcb
    simpa using hs.id_ne hheld g (hC g (List.mem_of_mem_filter hg))
  have hA := fun i ↦ hother i A fun g hg ↦ List.mem_append_left B hg
  have hB := fun i ↦ hother i B fun g hg ↦ List.mem_append_right A hg
  -- the lists before that of the source have no callback with this id
  apply findSome?_range (hs.offset_lt h hmem)
  · rw [hs.list_split hheld, if_pos rfl, List.find?_append, hA]
    simp [hs.cookies h hmem]
  · intro i hi
    rw [hs.list_split hheld, if_neg (Nat.ne_of_gt hi), List.nil_append, List.find?_append, hA, hB]
    rfl

theorem Inv.plxFreeIrq_eq (hs : Inv s) (hheld : s.held = A ++ h :: B) (dev : Device) :
    ∃ msiMap, plxFreeIrq dev s.info h.cookie = { s.info with
      plxMsiMap := msiMap
      cbIda := s.info.cbIda.erase h.cb.cbId
      cbList := fun i ↦ ((A ++ B).filter fun g ↦ g.offset = i).map Held.cb
      heap := { s.info.heap with freed := s.info.heap.freed ++ h.cb.blocks } } := by
  have hmem : h ∈ s.held := hheld ▸ List.mem_append_right A List.mem_cons_self
  have hlist : update s.info.cbList h.offset ((s.info.cbList h.offset).eraseP fun cb ↦
      cb.cbId = (getOffset h.cookie).toNat) =
        fun i ↦ ((A ++ B).filter fun g ↦ g.offset = i).map Held.cb := by
    funext i
    rw [List.filter_append, List.map_append]
    by_cases hi : i = h.offset
    · subst hi
      rw [Function.update_self, hs.list_split hheld, if_pos rfl, List.eraseP_append_right, hs.cookies h hmem]
      · simp
      · intro cb hcb
        obtain ⟨g, hg, rfl⟩ := List.mem_map.mp hcb
        rw [hs.cookies h hmem]
        simpa using hs.id_ne hheld g (List.mem_append_left B (List.mem_of_mem_filter hg))
    · rw [Function.update_of_ne hi, hs.list_split hheld, if_neg (Ne.symm hi), List.nil_append]
  rw [plxFreeIrq, plxUnregisterIntrCallback, hs.findCb_eq hheld]
  simp only [Nat.not_le.mpr (hs.offset_lt h hmem), if_false, freeCb_eq, hlist]
  cases dev.msiEnabled
  · exact ⟨_, rfl⟩
  · exact ⟨_, rfl⟩

end Split

/-! ## Runs -/

variable {s s' : Sys F D} {dev : Device}

theorem inv_init (msiMap : ℕ → BitVec 32) : Inv (Sys.init msiMap : Sys F D) where
  lists _ := rfl
  offset_lt h hh := by cases hh
  cookies h hh := by cases hh
  ids := .refl _
  ids_nodup := List.nodup_nil
  memory := .refl _

theorem Inv.register (hs : Inv s) {offset id : ℕ} {msiMap : ℕ → BitVec 32} {req : Request F D} {ok : Bool}
    (hlt : offset < plxNumOffsets) (hnew : id ∉ s.info.cbIda) (hroom : (getOffset (cookie 0 id)).toNat = id) :
    Inv ⟨{ s.info with
        plxMsiMap := msiMap
        cbIda := s.info.cbIda ++ [id]
        cbList := update s.info.cbList offset (s.info.cbList offset ++ [(newCb s.info.heap req id ok).1])
        heap := (newCb s.info.heap req id ok).2 },
      s.held ++ [⟨offset, cookie 0 id, (newCb s.info.heap req id ok).1⟩]⟩ := by
  obtain ⟨hfreed, hcbId, hblocks⟩ := newCb_spec s.info.heap req id ok
  constructor
  · intro i
    simp only [Sys.on, List.filter_append, List.map_append, Function.update_apply]
    by_cases hi : i = offset
    · subst hi
      rw [if_pos rfl, hs.lists, Sys.on]
      simp
    · rw [if_neg hi, hs.lists, Sys.on]
      simp [Ne.symm hi]
  · intro h hh
    rcases List.mem_append.mp hh with hh | hh
    · exact hs.offset_lt h hh
    · rw [List.mem_singleton.mp hh]
      exact hlt
  · intro h hh
    rcases List.mem_append.mp hh with hh | hh
    · exact hs.cookies h hh
    · rw [List.mem_singleton.mp hh]
      change (getOffset (cookie 0 id)).toNat = _
      rw [hroom, hcbId]
  · simp only [List.map_append, List.map_cons, List.map_nil, hcbId]
    exact hs.ids.append_right _
  · simp only [List.map_append, List.map_cons, List.map_nil, hcbId]
    refine List.nodup_append.mpr ⟨hs.ids_nodup, List.nodup_singleton _, ?_⟩
    intro x hx y hy hxy
    rw [List.mem_singleton.mp hy] at hxy
    subst hxy
    exact hnew (hs.ids.mem_iff.mpr hx)
  · -- the new blocks are those behind the old end of the heap
    refine List.Perm.trans ?_ hblocks
    refine List.Perm.trans ?_ (hs.memory.append_right _)
    simp only [List.flatMap_append, List.flatMap_cons, List.flatMap_nil, List.append_nil, hfreed,
      List.cons_append, List.append_assoc]
    exact (List.perm_append_comm.append_left _).cons _

theorem Inv.request (hs : Inv s) {req : Request F D} {a : Answers} (ha : a.Possible s.info.cbIda)
    (hfit : Label.Fits (.request req a : Label F D)) :
    Inv ⟨(plxRequestThreadedIrq dev s.info req a).2, s.held ++ granted dev s.info req a⟩ := by
  rcases request_cases dev s.info req a with
    ⟨hnone, heap, hinfo, hheap⟩ | ⟨offset, id, msiMap, hlt, hid, hone, hinfo⟩
  · rw [hnone, hinfo, List.append_nil]
    refine ⟨hs.lists, hs.offset_lt, hs.cookies, hs.ids, hs.ids_nodup, ?_⟩
    rcases hheap with rfl | rfl
    · exact hs.memory
    · -- the block of the callback was got and freed
      simp only [Heap.kmalloc, Heap.kfree, List.range_succ, ← List.append_assoc, ← List.cons_append]
      exact hs.memory.append_right _
  · rw [hone, hinfo]
    rw [Answers.Possible, hid] at ha
    apply hs.register hlt ha.1
    exact (getOffset_cookie_iff ha.2).mpr (by simpa [Label.Fits, hid] using hfit)

theorem Inv.free (hs : Inv s) {j : ℕ} {h : Held F D} (hj : s.held[j]? = some h) :
    Inv ⟨plxFreeIrq dev s.info h.cookie, s.held.eraseIdx j⟩ ∧
      ((plxFreeIrq dev s.info h.cookie).heap.freed = s.info.heap.freed ++ h.cb.blocks) := by
  obtain ⟨hlt, rfl⟩ := List.getElem?_eq_some_iff.mp hj
  have hheld : s.held = s.held.take j ++ s.held[j] :: s.held.drop (j + 1) := by simp
  obtain ⟨msiMap, hinfo⟩ := hs.plxFreeIrq_eq hheld dev
  have herase : s.held.eraseIdx j = s.held.take j ++ s.held.drop (j + 1) := List.eraseIdx_eq_take_drop_succ ..
  have hsub : (s.held.eraseIdx j).Sublist s.held := List.eraseIdx_sublist ..
  have hperm : (s.held[j] :: s.held.eraseIdx j).Perm s.held := List.getElem_cons_eraseIdx_perm hlt
  have hblocks : (s.held[j].cb.blocks ++ (s.held.eraseIdx j).flatMap (·.cb.blocks)).Perm
      (s.held.flatMap (·.cb.blocks)) := by
    have hflat := hperm.flatMap_right fun g : Held F D ↦ g.cb.blocks
    rwa [List.flatMap_cons] at hflat
  rw [hinfo]
  refine ⟨⟨?_, ?_, ?_, ?_, ?_, ?_⟩, rfl⟩
  · intro i
    rw [Sys.on, herase]
  · exact fun h hh ↦ hs.offset_lt h (hsub.subset hh)
  · exact fun h hh ↦ hs.cookies h (hsub.subset hh)
  · have hids := (hs.ids.trans (hperm.symm.map _)).erase s.held[j].cb.cbId
    rwa [List.map_cons, List.erase_cons_head] at hids
  · exact hs.ids_nodup.sublist (hsub.map _)
  · refine List.Perm.trans (List.Perm.cons _ ?_) hs.memory
    rw [← List.append_assoc]
    refine List.Perm.trans List.perm_append_comm ?_
    rw [← List.append_assoc]
    exact hblocks.append_right _

theorem Inv.step (hs : Inv s) {l : Label F D} (hfit : l.Fits) (h : step dev s l = some s') : Inv s' := by
  cases l with
  | request req a =>
    rw [Intr.step] at h
    split_ifs at h with ha
    cases h
    exact hs.request ha hfit
  | free j =>
    obtain ⟨g, hj, rfl⟩ := Option.map_eq_some_iff.mp h
    exact (hs.free hj).1

theorem inv_of_exec {msiMap : ℕ → BitVec 32} {ls : List (Label F D)}
    (hrun : exec (step dev) (.init msiMap) ls = some s)
    (hfit : Along (fun _ l _ ↦ l.Fits) (step dev) (.init msiMap) ls) : Inv s := by
  refine exec_invariant (P := fun _ l _ ↦ l.Fits) ?_ hfit (inv_init msiMap) hrun
  exact fun hs hl h ↦ hs.step hl h

/-! ## Teardown -/

theorem foldl_releaseCb (i : ℕ) (cbs : List (IntrCb F D)) (info : IrqInfo F D) :
    ((cbs.foldl (releaseCb i) info).heap.freed = info.heap.freed ++ cbs.map IntrCb.addr) ∧
      (cbs.foldl (releaseCb i) info).cbListAddr = info.cbListAddr ∧
      ∀ j, i ≠ j → (cbs.foldl (releaseCb i) info).cbList j = info.cbList j := by
  induction cbs generalizing info with
  | nil => simp
  | cons cb cbs ih =>
    obtain ⟨hfreed, haddr, hlist⟩ := ih (releaseCb i info cb)
    rw [List.foldl_cons]
    refine ⟨?_, haddr, fun j hj ↦ ?_⟩
    · rw [hfreed]
      simp [releaseCb, Heap.kfree]
    · rw [hlist j hj]
      exact Function.update_of_ne (Ne.symm hj) ..

/-- The loop frees the callbacks of the sources up to the first one that has none. -/
theorem releaseFrom_spec (info : IrqInfo F D) (n i : ℕ) :
    (releaseFrom info n i).cbListAddr = info.cbListAddr ∧
    ∃ k ≤ n, (∀ j, i ≤ j → j < i + k → info.cbList j ≠ []) ∧ (k < n → info.cbList (i + k) = []) ∧
      ∀ a, a ∈ (releaseFrom info n i).heap.freed ↔
        a ∈ info.heap.freed ∨ ∃ j, i ≤ j ∧ j < i + k ∧ ∃ cb ∈ info.cbList j, cb.addr = a := by
  induction n generalizing info i with
  | zero => exact ⟨rfl, 0, Nat.le_refl _, by omega, by omega, fun a ↦ by simp [releaseFrom]; omega⟩
  | succ n ih =>
    rw [releaseFrom]
    by_cases hempty : info.cbList i = []
    · rw [if_pos (by simpa using hempty)]
      exact ⟨rfl, 0, Nat.zero_le _, by omega, fun _ ↦ hempty, fun a ↦ by simp; omega⟩
    · rw [if_neg (by simpa using hempty)]
      obtain ⟨hfreed, haddr, hlist⟩ := foldl_releaseCb i (info.cbList i) info
      obtain ⟨haddr', k, hk, hfull, hstop, hmem⟩ := ih ((info.cbList i).foldl (releaseCb i) info) (i + 1)
      refine ⟨haddr'.trans haddr, k + 1, Nat.succ_le_succ hk, ?_, ?_, ?_⟩
      · intro j hij hj
        rcases Nat.eq_or_lt_of_le hij with rfl | hij
        · exact hempty
        · rw [← hlist j (Nat.ne_of_lt hij)]
          exact hfull j hij (by omega)
      · intro hk
        rw [show i + (k + 1) = i + 1 + k by omega, ← hlist _ (by omega)]
        exact hstop (by omega)
      · intro a
        rw [hmem, hfreed, List.mem_append, List.mem_map, or_assoc]
        refine or_congr_right ⟨?_, ?_⟩
        · rintro (⟨cb, hcb, rfl⟩ | ⟨j, hij, hj, cb, hcb, rfl⟩)
          · exact ⟨i, Nat.le_refl _, by omega, cb, hcb, rfl⟩
          · exact ⟨j, by omega, by omega, cb, hlist j (by omega) ▸ hcb, rfl⟩
        · rintro ⟨j, hij, hj, cb, hcb, rfl⟩
          rcases Nat.eq_or_lt_of_le hij with rfl | hij
          · exact .inl ⟨cb, hcb, rfl⟩
          · exact .inr ⟨j, hij, by omega, cb, (hlist j (by omega)).symm ▸ hcb, rfl⟩

theorem mem_freed_plxReleaseCallbacks (info : IrqInfo F D) : ∃ k ≤ plxNumOffsets,
    (∀ j < k, info.cbList j ≠ []) ∧ (k < plxNumOffsets → info.cbList k = []) ∧
      ∀ a, a ∈ (plxReleaseCallbacks info).heap.freed ↔
        a ∈ info.heap.freed ∨ (∃ j < k, ∃ cb ∈ info.cbList j, cb.addr = a) ∨ a = info.cbListAddr := by
  obtain ⟨haddr, k, hk, hfull, hstop, hmem⟩ := releaseFrom_spec info plxNumOffsets 0
  simp only [Nat.zero_le, Nat.zero_add, true_and, forall_const] at hfull hstop hmem
  refine ⟨k, hk, hfull, hstop, fun a ↦ ?_⟩
  rw [← haddr, ← or_assoc, ← hmem]
  simp [plxReleaseCallbacks, Heap.kfree]

section Memory

variable {h g : Held F D} {a i : ℕ} {cb : IntrCb F D}

theorem Inv.mem_cbList (hs : Inv s) : cb ∈ s.info.cbList i ↔ ∃ h ∈ s.held, h.offset = i ∧ h.cb = cb := by
  simp [hs.lists, Sys.on, and_assoc]

theorem Inv.memory_nodup (hs : Inv s) :
    (s.info.cbListAddr :: (s.held.flatMap (·.cb.blocks) ++ s.info.heap.freed)).Nodup :=
  hs.memory.nodup_iff.mpr List.nodup_range

theorem Inv.eq_of_mem_blocks (hs : Inv s) (hh : h ∈ s.held) (hg : g ∈ s.held) (ha : a ∈ h.cb.blocks)
    (ha' : a ∈ g.cb.blocks) : h = g := by
  have hnodup := (List.nodup_append.mp (List.nodup_cons.mp hs.memory_nodup).2).1
  by_contra hne
  have : Std.Symm (Function.onFun List.Disjoint fun h : Held F D ↦ h.cb.blocks) := ⟨fun _ _ h _ ha hb ↦ h hb ha⟩
  exact (List.nodup_flatMap.mp hnodup).2.forall hh hg hne ha ha'

/-- The memory of a callback that is held is not free, and is not that of the lists. -/
theorem Inv.not_freed (hs : Inv s) (hh : h ∈ s.held) (ha : a ∈ h.cb.blocks) :
    a ∉ s.info.heap.freed ∧ a ≠ s.info.cbListAddr := by
  obtain ⟨hnot, hnodup⟩ := List.nodup_cons.mp hs.memory_nodup
  have hmem : a ∈ s.held.flatMap (·.cb.blocks) := List.mem_flatMap.mpr ⟨h, hh, ha⟩
  constructor
  · exact fun hfreed ↦ (List.nodup_append.mp hnodup).2.2 a hmem a hfreed rfl
  · rintro rfl
    exact hnot (List.mem_append_left _ hmem)

theorem addr_mem_blocks : cb.addr ∈ cb.blocks := List.mem_append_right _ (List.mem_singleton_self _)

/-- **When the teardown leaves nothing behind.** -/
theorem Inv.released_iff (hs : Inv s) : Released s.info ↔ Leading s.info ∧ Unnamed s.info := by
  obtain ⟨k, hk, hfull, hstop, hmem⟩ := mem_freed_plxReleaseCallbacks s.info
  constructor
  · intro hrel
    -- a block that is freed belongs to a callback before the first source without one
    have hfrom : ∀ h ∈ s.held, ∀ a ∈ h.cb.blocks, h.offset < k ∧ a = h.cb.addr := by
      intro h hh a ha
      have hfreed := hrel h.offset (hs.offset_lt h hh) h.cb (hs.mem_cbList.mpr ⟨h, hh, rfl, rfl⟩) a ha
      obtain ⟨hnot, hne⟩ := hs.not_freed hh ha
      rcases (hmem a).mp hfreed with hf | ⟨j, hj, cb, hcb, rfl⟩ | rfl
      · exact absurd hf hnot
      · obtain ⟨g, hg, rfl, rfl⟩ := hs.mem_cbList.mp hcb
        obtain rfl := hs.eq_of_mem_blocks hh hg ha addr_mem_blocks
        exact ⟨hj, rfl⟩
      · exact absurd rfl hne
    constructor
    · intro j hj i hij hempty
      rw [List.eq_nil_iff_forall_not_mem]
      intro cb hcb
      obtain ⟨h, hh, rfl, rfl⟩ := hs.mem_cbList.mp hcb
      exact hfull i (Nat.lt_trans hij (hfrom h hh _ addr_mem_blocks).1) hempty
    · intro i hi cb hcb
      obtain ⟨h, hh, rfl, rfl⟩ := hs.mem_cbList.mp hcb
      cases hname : h.cb.name with
      | none => rfl
      | some p =>
        have hp : p.1 ∈ h.cb.blocks := by simp [IntrCb.blocks, hname]
        have hnodup : h.cb.blocks.Nodup := by
          have hall := (List.nodup_append.mp (List.nodup_cons.mp hs.memory_nodup).2).1
          exact (List.nodup_flatMap.mp hall).1 h hh
        have heq := (hfrom h hh _ hp).2
        simp [IntrCb.blocks, hname, heq] at hnodup
  · rintro ⟨hlead, hname⟩ i hi cb hcb a ha
    -- the loop stops at the first empty list, and behind it every list is empty
    have hik : i < k := by
      by_contra hle
      rcases Nat.eq_or_lt_of_le (Nat.not_lt.mp hle) with rfl | hlt
      · rw [hstop hi] at hcb
        cases hcb
      · rw [hlead i hi k hlt (hstop (Nat.lt_trans hlt hi))] at hcb
        cases hcb
    rw [IntrCb.blocks, hname i hi cb hcb] at ha
    exact (hmem a).mpr (.inr (.inl ⟨i, hik, cb, hcb, (List.mem_singleton.mp ha).symm⟩))

end Memory

/-- **The callback registry.** As long as the ids fit into the cookies, the callbacks of each source are
those requested and not freed, in order; a cookie takes back the callback it was returned for, with its
memory; and the teardown frees what is left just when the sources with callbacks come first and no
callback has a name. -/
theorem callbacks_exact {msiMap : ℕ → BitVec 32} {ls : List (Label F D)}
    (hrun : exec (step dev) (.init msiMap) ls = some s)
    (hfit : Along (fun _ l _ ↦ l.Fits) (step dev) (.init msiMap) ls) :
    (∀ i, s.info.cbList i = (s.on i).map Held.cb) ∧
      (∀ j h, s.held[j]? = some h →
        (∀ i, (plxFreeIrq dev s.info h.cookie).cbList i =
          ((s.held.eraseIdx j).filter fun g ↦ g.offset = i).map Held.cb) ∧
        (plxFreeIrq dev s.info h.cookie).heap.freed = s.info.heap.freed ++ h.cb.blocks) ∧
      (Released s.info ↔ Leading s.info ∧ Unnamed s.info) := by
  have hs := inv_of_exec hrun hfit
  refine ⟨hs.lists, fun j h hj ↦ ?_, hs.released_iff⟩
  obtain ⟨hinv, hfreed⟩ : Inv ⟨plxFreeIrq dev s.info h.cookie, s.held.eraseIdx j⟩ ∧
      (plxFreeIrq dev s.info h.cookie).heap.freed = s.info.heap.freed ++ h.cb.blocks := hs.free hj
  exact ⟨hinv.lists, hfreed⟩

/-- Sixteen doorbells. -/
def doorbells : Device := ⟨false, 0, 16⟩

/-- A request for a doorbell, by a requester without a name. -/
def ask (intrSrc : ℤ) (id : ℕ) : Label Unit Unit :=
  .request ⟨none, some (), none, (), intrSrc⟩ ⟨true, .ok id, true⟩

theorem fits_ask {intrSrc : ℤ} {id : ℕ} (hid : id < 2 ^ 15) : (ask intrSrc id).Fits := by
  rintro _ ⟨⟩
  exact hid

theorem shared_callback_freed : ∃ s,
    exec (step doorbells) (.init fun _ ↦ 0) [ask 0 0, ask 0 1, .free 0] = some s ∧
      (s.info.cbList 0).map IntrCb.cbId = [1] ∧ Released s.info := by
  have hrun : (exec (step doorbells) (.init fun _ ↦ 0) [ask 0 0, ask 0 1, .free 0]).map
      (fun s ↦ ((s.info.cbList 0).map IntrCb.cbId, decide (Leading s.info ∧ Unnamed s.info))) =
        some ([1], true) := by decide +kernel
  obtain ⟨s, hs, hpair⟩ := Option.map_eq_some_iff.mp hrun
  obtain ⟨hids, hleft⟩ := Prod.mk.inj hpair
  have hfit : Along (fun _ l _ ↦ l.Fits) (step doorbells) (.init fun _ ↦ 0) [ask 0 0, ask 0 1, .free 0] := by
    apply along_of_mem
    simp only [List.forall_mem_cons]
    exact ⟨fun _ _ ↦ fits_ask (by decide), fun _ _ ↦ fits_ask (by decide), fun _ _ ↦ trivial, by simp⟩
  exact ⟨s, hs, hids, (callbacks_exact hs hfit).2.2.mpr (of_decide_eq_true hleft)⟩

/-- A callback on the second source, and none on the first. -/
theorem second_source_leaks : ∃ s, exec (step doorbells) (.init fun _ ↦ 0) [ask 1 0] = some s ∧
    (s.info.cbList 1).map IntrCb.addr = [1] ∧ 1 ∉ (plxReleaseCallbacks s.info).heap.freed ∧
      ¬Released s.info := by
  have hrun : (exec (step doorbells) (.init fun _ ↦ 0) [ask 1 0]).map (fun s ↦
      ((s.info.cbList 1).map IntrCb.addr, decide (1 ∉ (plxReleaseCallbacks s.info).heap.freed),
        decide (Released s.info))) = some ([1], true, false) := by decide +kernel
  obtain ⟨s, hs, hall⟩ := Option.map_eq_some_iff.mp hrun
  simp only [Prod.mk.injEq] at hall
  exact ⟨s, hs, hall.1, of_decide_eq_true hall.2.1, of_decide_eq_false hall.2.2⟩

end Vcass.Plx.Intr
