import Vcass.Vop.Alignment
import Vcass.Vop.SizeClass

/-!
# VOP: buffers for packets of all sizes

The receive queue posts buffers of three lengths. Each length has a ring of its own, whose producer tells the sender in
`send_max_size` how much a buffer of the ring can take. For a packet `transfer_wait` takes the first ring that is known
to be good for it and its alignment, or the ring of the largest buffers, and gets a buffer there; `transfer_write`
checks the buffer once more.

## Steps

The rings of the available descriptors go step by step as they do by themselves. A write of `send_max_size` is on its
way for some time, and so is a packet between the choice of its ring and its buffer. The buffers of a ring are paired
with the packets in the order in which they are got.
-/

namespace Vcass.Vop.Packets

open AvailRing Conc Virtio
open Function (update)
open SizeClass (vopKvecSizeToRingId)

/-- A packet in `transfer_wait`, with its `kvec_buff_id`. -/
structure Packet where
  ringId : ℕ
  dataSize : ℕ
  deriving DecidableEq, Repr

structure Sys where
  avail : AvailRing.Sys
  sendMaxSizeLocal : ℕ → ℕ
  /-- Writes of `send_max_size` that have not arrived. -/
  posted : ℕ → List ℕ
  sendMaxSize : ℕ → ℕ
  waiting : List Packet
  /-- The packet for which `vop_kvec_get` is called. -/
  getting : Option Packet
  /-- The `data_size` of the packets that have got a buffer, for each ring. -/
  sizes : ℕ → List ℕ

inductive Label
  /-- `vop_kvec_put` takes a buffer from the receive queue. -/
  | fetch (sizeType : Net.SizeType) (c : Chain)
  | arrive (r : ℕ)
  /-- `transfer_wait` chooses a ring. -/
  | wait (dataSize : ℕ)
  | get (p : Packet)
  | getter
  /-- `transfer_wait` returns without a buffer. -/
  | giveUp (p : Packet)
  /-- The other steps of the rings. -/
  | rings (l : AvailRing.Label)

/-- `send_aligment_overhead`, with a DMA engine or without. -/
def sendAligmentOverhead (dma : Bool) : ℕ :=
  if dma then Alignment.sendAlignOverheadDmaSize else Alignment.sendAlignOverheadMemcpySize

/-- The largest packets. -/
def maxDataSize : ℕ := Net.maxPacketLen .big - Alignment.sendAlignOverheadDmaSize

/-- The steps that neither take a buffer from the receive queue nor belong to `vop_kvec_get`. -/
def isOther : AvailRing.Label → Bool
  | .fetch _ | .get _ | .getter => false
  | _ => true

/-- The ring that `vop_kvec_get` looks at. -/
def getterRing : Getter → Option ℕ
  | .idle => none
  | .skip r | .checkFlags r | .recheck r | .readAvail r | .readHead r _ | .loop r _ _ _ _ _ | .finish r _ _ _ => some r

/-- The ring that `vop_kvec_get` has a chain from. -/
def foundRing : Getter → Option ℕ
  | .finish r _ _ _ => some r
  | _ => none

/-! ## The code -/

/-- `vop_kvec_put`: what it tells the sender about the ring. -/
def advertise (s : Sys) (size : ℕ) : Sys :=
  match getRingIdWrite size with
  | none => s
  | some r =>
    if s.sendMaxSizeLocal r = 0 ∨ size < s.sendMaxSizeLocal r then { s with
      sendMaxSizeLocal := update s.sendMaxSizeLocal r size
      posted := update s.posted r (s.posted r ++ [size]) }
    else s

/-- `vop_kvec_get` returns to `transfer_wait`, with a chain or without. -/
def returned (s : Sys) : Sys :=
  match s.getting, foundRing s.avail.getter with
  | none, _ => s
  | some p, some r => { s with
      getting := none
      sizes := update s.sizes r (s.sizes r ++ [p.dataSize]) }
  | some p, none => { s with
      getting := none
      waiting := s.waiting ++ [p] }

section Code

variable (dma : Bool) (num : ℕ)

def step (s : Sys) : Label → Option Sys
  | .fetch sizeType c =>
    if c.iov1.iovLen = Net.maxPacketLen sizeType then
      (AvailRing.step num s.avail (.fetch c)).map fun avail ↦ { advertise s c.iov1.iovLen with avail := avail }
    else none
  | .arrive r =>
    match s.posted r with
    | [] => none
    | size :: posted => some { s with
        posted := update s.posted r posted
        sendMaxSize := update s.sendMaxSize r size }
  | .wait dataSize =>
    if dataSize ≤ maxDataSize then some { s with
      waiting := s.waiting ++
        [⟨vopKvecSizeToRingId s.sendMaxSize (dataSize + sendAligmentOverhead dma), dataSize⟩] }
    else none
  | .get p =>
    if p ∈ s.waiting then
      (AvailRing.step num s.avail (.get p.ringId)).map fun avail ↦ { s with
        avail := avail
        getting := some p
        waiting := s.waiting.erase p }
    else none
  | .getter =>
    (AvailRing.step num s.avail .getter).map fun avail ↦
      if getterRing avail.getter = none then { returned s with avail := avail } else { s with avail := avail }
  | .giveUp p => if p ∈ s.waiting then some { s with waiting := s.waiting.erase p } else none
  | .rings l =>
    if isOther l then (AvailRing.step num s.avail l).map fun avail ↦ { s with avail := avail } else none

end Code

def init : Sys := ⟨AvailRing.init, fun _ ↦ 0, fun _ ↦ [], fun _ ↦ 0, [], none, fun _ ↦ []⟩

/-- **No packet is stranded.** The `j`-th chain got from a ring is that of its `j`-th packet, and its buffer has room
for the packet and `overhead`: as long as `transfer_write` has not read the entry of the buffer, the entry says so, and
what `transfer_write` has read did so, too. With the overhead of the ring the branch for `-ENOSPC` is not taken. -/
structure Fits (overhead : ℕ) (s : Sys) : Prop where
  matched : ∀ r, (s.sizes r).length = (s.avail.rings r).got.length
  seen_le : ∀ r, (s.avail.rings r).seen.length ≤ (s.avail.rings r).got.length
  held : ∀ (r j : ℕ) (item : Item) (dataSize : ℕ), (s.avail.rings r).seen.length ≤ j →
    (s.avail.rings r).got[j]? = some item → (s.sizes r)[j]? = some dataSize →
      dataSize + overhead ≤ ((s.avail.rings r).buf (item.kvecTo + 1)).iov.iovLen
  read : ∀ (r j : ℕ) (iovs : AvailRing.Kvec × AvailRing.Kvec) (dataSize : ℕ),
    (s.avail.rings r).seen[j]? = some iovs → (s.sizes r)[j]? = some dataSize →
      dataSize + overhead ≤ iovs.2.iovLen

/-! ## Lengths -/

/-- The length of the buffers in a ring. -/
def classLen : ℕ → ℕ
  | 0 => Net.maxPacketLen .normal
  | 1 => Net.maxPacketLen .jumbo
  | _ => Net.maxPacketLen .big

/-- Every buffer of the receive queue has a ring, and is as long as the others there. -/
theorem getRingIdWrite_maxPacketLen (sizeType : Net.SizeType) :
    ∃ r < kvecBufNum, getRingIdWrite (Net.maxPacketLen sizeType) = some r ∧ Net.maxPacketLen sizeType = classLen r := by
  cases sizeType with
  | normal => exact ⟨0, by decide, by decide, rfl⟩
  | jumbo => exact ⟨1, by decide, by decide, rfl⟩
  | big => exact ⟨2, by decide, by decide, rfl⟩

/-! ## The rings by themselves -/

section Rings

variable {num : ℕ} {s s' : AvailRing.Sys} {l : AvailRing.Label}

/-- The chains of the rings, and those that were got, are as before. -/
structure SameChains (s s' : AvailRing.Sys) : Prop where
  chains : ∀ r, (s'.rings r).chains = (s.rings r).chains
  got : ∀ r, (s'.rings r).got = (s.rings r).got

theorem SameChains.of_rings (hs' : s'.rings = s.rings) : SameChains s s' :=
  ⟨fun r ↦ by rw [hs'], fun r ↦ by rw [hs']⟩

theorem SameChains.of_update {r : ℕ} {ring : Ring} (hs' : s'.rings = update s.rings r ring)
    (hchains : ring.chains = (s.rings r).chains) (hgot : ring.got = (s.rings r).got) : SameChains s s' := by
  constructor
  all_goals
    intro r'
    rw [hs']
    by_cases hr : r' = r
    · rw [hr, Function.update_self]
      assumption
    · rw [Function.update_of_ne hr]

theorem producerStep_frame (hs : producerStep s = some s') : SameChains s s' ∧ s'.getter = s.getter := by
  cases hp : s.producer with
  | idle =>
    rw [producerStep, hp] at hs
    cases hs
  | loop cntSize cntTotal =>
    rw [producerStep, hp] at hs
    cases hs
  | write r idx todo cntSize cntTotal =>
    rw [producerStep.eq_def, hp] at hs
    cases todo with
    | nil =>
      cases hs
      exact ⟨.of_rings rfl, rfl⟩
    | cons e todo =>
      cases hs
      exact ⟨.of_update rfl rfl rfl, rfl⟩
  | publish r cntSize cntTotal last =>
    rw [producerStep, hp] at hs
    dsimp only at hs
    split_ifs at hs <;> cases hs
    · exact ⟨.of_update rfl rfl rfl, rfl⟩
    · exact ⟨.of_rings rfl, rfl⟩
    · exact ⟨.of_rings rfl, rfl⟩
    · exact ⟨.of_rings rfl, rfl⟩

theorem transferWriteStep_frame {ring ring' : Ring} (hs : transferWriteStep ring = some ring') :
    ring'.chains = ring.chains ∧ ring'.got = ring.got := by
  rw [transferWriteStep] at hs
  split at hs
  · cases hs
  split at hs
  · cases hs
  split at hs
  all_goals
    cases hs
    exact ⟨rfl, rfl⟩

theorem step_frame (hl : isOther l = true) (hs : AvailRing.step num s l = some s') :
    SameChains s s' ∧ s'.getter = s.getter := by
  cases l with
  | update =>
    rw [AvailRing.step] at hs
    split at hs <;> cases hs
    exact ⟨.of_rings rfl, rfl⟩
  | fetch c => cases hl
  | fetchNone =>
    rw [AvailRing.step] at hs
    split at hs <;> cases hs
    exact ⟨.of_rings rfl, rfl⟩
  | producer => exact producerStep_frame hs
  | get r => cases hl
  | getter => cases hl
  | transferWrite r =>
    rw [AvailRing.step] at hs
    obtain ⟨ring', hring', rfl⟩ := Option.map_eq_some_iff.mp hs
    obtain ⟨hchains, hgot⟩ := transferWriteStep_frame hring'
    exact ⟨.of_update rfl hchains hgot, rfl⟩
  | clearFlags r j =>
    rw [AvailRing.step] at hs
    split at hs
    · cases hs
    split at hs <;> cases hs
    exact ⟨.of_update rfl rfl rfl, rfl⟩
  | complete o =>
    rw [AvailRing.step] at hs
    split at hs <;> cases hs
    exact ⟨.of_rings rfl, rfl⟩

theorem step_fetch {c : Chain} (hs : AvailRing.step num s (.fetch c) = some s') :
    ∃ (r : ℕ) (ring : Ring), getRingIdWrite c.iov1.iovLen = some r ∧ s'.rings = update s.rings r ring ∧
      ring.chains = (s.rings r).chains ++ [c] ∧ ring.got = (s.rings r).got ∧ s'.getter = s.getter ∧ 2 ≤ num := by
  rw [AvailRing.step] at hs
  split at hs
  case h_2 => cases hs
  split at hs
  case isFalse => cases hs
  rename_i hfree
  rw [vopKvecPut] at hs
  split at hs
  case h_1 => cases hs
  rename_i r hr
  cases hs
  exact ⟨r, _, hr, rfl, rfl, rfl, rfl, by omega⟩

theorem step_get {r : ℕ} (hs : AvailRing.step num s (.get r) = some s') :
    SameChains s s' ∧ s.getter = .idle ∧ s'.getter = .skip r := by
  rw [AvailRing.step] at hs
  split at hs <;> cases hs
  rename_i hidle
  exact ⟨.of_rings rfl, hidle, rfl⟩

/-- A step of `vop_kvec_get`: it returns with a chain, or it has none and goes on in its ring or returns. -/
theorem step_getter (hs : AvailRing.step num s .getter = some s') :
    (∃ (r : ℕ) (ring : Ring), foundRing s.getter = some r ∧ getterRing s.getter = some r ∧
        s'.getter = .idle ∧ s'.rings = update s.rings r ring ∧ ring.chains = (s.rings r).chains ∧
        ring.got.length = (s.rings r).got.length + 1) ∨
      (∃ r, foundRing s.getter = none ∧ getterRing s.getter = some r ∧ SameChains s s' ∧
        (s'.getter = .idle ∨ getterRing s'.getter = some r)) := by
  rw [AvailRing.step] at hs
  cases hg : s.getter with
  | finish r first head n =>
    rw [getterStep, hg] at hs
    cases hs
    exact .inl ⟨r, _, rfl, rfl, rfl, rfl, rfl, List.length_append⟩
  | idle =>
    rw [getterStep, hg] at hs
    cases hs
  -- At the other places there is no chain yet.
  | skip r =>
    rw [getterStep, hg] at hs
    dsimp only at hs
    split at hs <;> cases hs
    all_goals exact .inr ⟨r, rfl, rfl, .of_rings rfl, .inr rfl⟩
  | checkFlags r =>
    rw [getterStep, hg] at hs
    dsimp only at hs
    split at hs <;> cases hs
    · exact .inr ⟨r, rfl, rfl, .of_rings rfl, .inr rfl⟩
    · exact .inr ⟨r, rfl, rfl, .of_update rfl rfl rfl, .inr rfl⟩
  | recheck r =>
    rw [getterStep, hg] at hs
    dsimp only at hs
    split at hs <;> cases hs
    · exact .inr ⟨r, rfl, rfl, .of_rings rfl, .inl rfl⟩
    · exact .inr ⟨r, rfl, rfl, .of_rings rfl, .inr rfl⟩
  | readAvail r =>
    rw [getterStep, hg] at hs
    cases hs
    exact .inr ⟨r, rfl, rfl, .of_rings rfl, .inr rfl⟩
  | readHead r availCnt =>
    rw [getterStep, hg] at hs
    cases hs
    exact .inr ⟨r, rfl, rfl, .of_update rfl rfl rfl, .inr rfl⟩
  | loop r availCnt first nextIdx head n =>
    rw [getterStep, hg] at hs
    dsimp only at hs
    split at hs <;> cases hs
    · exact .inr ⟨r, rfl, rfl, .of_update rfl rfl rfl, .inr rfl⟩
    · exact .inr ⟨r, rfl, rfl, .of_rings rfl, .inr rfl⟩

end Rings

/-! ## The invariant -/

theorem sendAligmentOverhead_le (dma : Bool) : sendAligmentOverhead dma ≤ Alignment.sendAlignOverheadDmaSize := by
  cases dma <;> decide

theorem add_overhead_le {dma : Bool} {dataSize : ℕ} (h : dataSize ≤ maxDataSize) :
    dataSize + sendAligmentOverhead dma ≤ Net.maxPacketLen .big := by
  have hmax : maxDataSize + Alignment.sendAlignOverheadDmaSize = Net.maxPacketLen .big := rfl
  rw [← hmax]
  exact Nat.add_le_add h (sendAligmentOverhead_le dma)

/-- The ring that is found is good for the size: its word is that of its buffers, or it is that of the largest ones. -/
theorem le_classLen {words : ℕ → ℕ} {size : ℕ} (hwords : ∀ r, words r = 0 ∨ words r = classLen r)
    (hsize : size ≤ Net.maxPacketLen .big) : size ≤ classLen (vopKvecSizeToRingId words size) := by
  rw [vopKvecSizeToRingId]
  cases hfind : (List.range kvecBufNum).find? fun r ↦ size ≤ words r with
  | none => exact hsize
  | some r =>
    have hle : size ≤ words r := of_decide_eq_true (List.find?_some (p := fun r ↦ decide (size ≤ words r)) hfind)
    rw [Option.getD_some]
    rcases hwords r with hr | hr
    · -- The word is not known, and the packet needs no space.
      omega
    · rwa [← hr]

/-- The buffers of the ring for the packet are large enough for it. -/
def Packet.Fits (dma : Bool) (p : Packet) : Prop := p.dataSize + sendAligmentOverhead dma ≤ classLen p.ringId

structure Inv (dma : Bool) (num : ℕ) (s : Sys) : Prop where
  avail : AvailRing.Inv num s.avail
  size : ∀ r, (s.avail.rings r).chains ≠ [] → 2 ≤ num
  chains : ∀ r, ∀ c ∈ (s.avail.rings r).chains, c.iov1.iovLen = classLen r
  posted : ∀ r, ∀ size ∈ s.posted r, size = classLen r
  sendMaxSize : ∀ r, s.sendMaxSize r = 0 ∨ s.sendMaxSize r = classLen r
  waiting : ∀ p ∈ s.waiting, p.Fits dma
  getter : getterRing s.avail.getter = s.getting.map Packet.ringId
  getting : ∀ p ∈ s.getting, p.Fits dma
  sizes : ∀ r, ∀ dataSize ∈ s.sizes r, dataSize + sendAligmentOverhead dma ≤ classLen r
  matched : ∀ r, (s.sizes r).length = (s.avail.rings r).got.length

section Steps

variable {dma : Bool} {num : ℕ} {s s' : Sys}

/-- The rings go on: the chains are as before, and so is the ring that `vop_kvec_get` looks at. -/
theorem Inv.rings {avail : AvailRing.Sys} (h : Inv dma num s) (havail : AvailRing.Inv num avail)
    (hsame : SameChains s.avail avail) (hgetter : getterRing avail.getter = getterRing s.avail.getter) :
    Inv dma num { s with avail := avail } where
  avail := havail
  size r := by
    rw [hsame.chains]
    exact h.size r
  chains r := by
    rw [hsame.chains]
    exact h.chains r
  posted := h.posted
  sendMaxSize := h.sendMaxSize
  waiting := h.waiting
  getter := by
    rw [hgetter]
    exact h.getter
  getting := h.getting
  sizes := h.sizes
  matched r := by
    rw [hsame.got]
    exact h.matched r

theorem Inv.advertise {sizeType : Net.SizeType} (h : Inv dma num s) :
    Inv dma num (advertise s (Net.maxPacketLen sizeType)) := by
  obtain ⟨r, -, hr, hlen⟩ := getRingIdWrite_maxPacketLen sizeType
  rw [Packets.advertise, hr]
  dsimp only
  split_ifs with hwrite
  · refine { h with posted := ?_ }
    intro r' size hsize
    dsimp only at hsize
    by_cases hr' : r' = r
    · subst hr'
      rw [Function.update_self] at hsize
      rcases List.mem_append.mp hsize with hsize | hsize
      · exact h.posted r' size hsize
      · rw [List.mem_singleton.mp hsize, hlen]
    · rw [Function.update_of_ne hr'] at hsize
      exact h.posted r' size hsize
  · exact h

theorem advertise_avail (size : ℕ) : (advertise s size).avail = s.avail := by
  rw [advertise]
  split
  · rfl
  · split_ifs <;> rfl

theorem Inv.fetch {sizeType : Net.SizeType} {c : Chain} {avail : AvailRing.Sys} (h : Inv dma num s)
    (hlen : c.iov1.iovLen = Net.maxPacketLen sizeType) (havail : AvailRing.Inv num avail)
    (hs : AvailRing.step num s.avail (.fetch c) = some avail) : Inv dma num { s with avail := avail } := by
  obtain ⟨r, ring, hr, hrings, hchains, hgot, hgetter, hnum⟩ := step_fetch hs
  obtain ⟨q, -, hq, hclass⟩ := getRingIdWrite_maxPacketLen sizeType
  rw [hlen, hq] at hr
  cases hr
  refine { h with avail := havail, size := fun _ _ ↦ hnum, chains := ?_, getter := ?_, matched := ?_ }
  · intro r' d hd
    dsimp only at hd
    rw [hrings] at hd
    by_cases hr' : r' = r
    · subst hr'
      rw [Function.update_self, hchains] at hd
      rcases List.mem_append.mp hd with hd | hd
      · exact h.chains r' d hd
      · rw [List.mem_singleton.mp hd, hlen, hclass]
    · rw [Function.update_of_ne hr'] at hd
      exact h.chains r' d hd
  · dsimp only
    rw [hgetter]
    exact h.getter
  · intro r'
    dsimp only
    rw [hrings, h.matched r']
    by_cases hr' : r' = r
    · rw [hr', Function.update_self, hgot]
    · rw [Function.update_of_ne hr']

theorem Inv.get {p : Packet} {avail : AvailRing.Sys} (h : Inv dma num s) (hp : p ∈ s.waiting)
    (havail : AvailRing.Inv num avail) (hs : AvailRing.step num s.avail (.get p.ringId) = some avail) :
    Inv dma num { s with
      avail := avail
      getting := some p
      waiting := s.waiting.erase p } := by
  obtain ⟨hsame, -, hgetter⟩ := step_get hs
  refine { h with avail := havail, size := ?_, chains := ?_, waiting := ?_, getter := ?_, getting := ?_, matched := ?_ }
  · intro r
    rw [hsame.chains]
    exact h.size r
  · intro r
    rw [hsame.chains]
    exact h.chains r
  · intro q hq
    exact h.waiting q (List.mem_of_mem_erase hq)
  · dsimp only
    rw [hgetter]
    rfl
  · intro q hq
    cases hq
    exact h.waiting p hp
  · intro r
    rw [hsame.got]
    exact h.matched r

theorem Inv.found {r : ℕ} {p : Packet} {ring : Ring} {avail : AvailRing.Sys} (h : Inv dma num s)
    (hp : s.getting = some p) (hr : p.ringId = r) (havail : AvailRing.Inv num avail) (hgetter : avail.getter = .idle)
    (hrings : avail.rings = update s.avail.rings r ring) (hchains : ring.chains = (s.avail.rings r).chains)
    (hgot : ring.got.length = (s.avail.rings r).got.length + 1) :
    Inv dma num { s with
      avail := avail
      getting := none
      sizes := update s.sizes r (s.sizes r ++ [p.dataSize]) } := by
  have hsame : ∀ r', (avail.rings r').chains = (s.avail.rings r').chains := by
    intro r'
    rw [hrings]
    by_cases hr' : r' = r
    · rw [hr', Function.update_self, hchains]
    · rw [Function.update_of_ne hr']
  refine { h with avail := havail, size := ?_, chains := ?_, getter := ?_, getting := nofun, sizes := ?_, matched := ?_ }
  · intro r'
    rw [hsame]
    exact h.size r'
  · intro r'
    rw [hsame]
    exact h.chains r'
  · dsimp only
    rw [hgetter]
    rfl
  · intro r' dataSize hsize
    dsimp only at hsize
    by_cases hr' : r' = r
    · rw [hr'] at hsize ⊢
      rw [Function.update_self] at hsize
      rcases List.mem_append.mp hsize with hsize | hsize
      · exact h.sizes r dataSize hsize
      · rw [List.mem_singleton.mp hsize, ← hr]
        exact h.getting p hp
    · rw [Function.update_of_ne hr'] at hsize
      exact h.sizes r' dataSize hsize
  · intro r'
    dsimp only
    rw [hrings]
    by_cases hr' : r' = r
    · rw [hr', Function.update_self, Function.update_self, List.length_append, hgot, h.matched r]
      rfl
    · rw [Function.update_of_ne hr', Function.update_of_ne hr']
      exact h.matched r'

theorem Inv.notFound {p : Packet} {avail : AvailRing.Sys} (h : Inv dma num s) (hp : s.getting = some p)
    (havail : AvailRing.Inv num avail) (hgetter : avail.getter = .idle) (hsame : SameChains s.avail avail) :
    Inv dma num { s with
      avail := avail
      getting := none
      waiting := s.waiting ++ [p] } := by
  refine { h with avail := havail, size := ?_, chains := ?_, waiting := ?_, getter := ?_, getting := nofun, matched := ?_ }
  · intro r
    rw [hsame.chains]
    exact h.size r
  · intro r
    rw [hsame.chains]
    exact h.chains r
  · intro q hq
    rcases List.mem_append.mp hq with hq | hq
    · exact h.waiting q hq
    · rw [List.mem_singleton.mp hq]
      exact h.getting p hp
  · dsimp only
    rw [hgetter]
    rfl
  · intro r
    rw [hsame.got]
    exact h.matched r

theorem Inv.step {l : Label} (heven : 2 ≤ num → num % 2 = 0) (hsize : 2 * num ≤ 2 ^ 16) (h : Inv dma num s)
    (hs : step dma num s l = some s') : Inv dma num s' := by
  cases l with
  | fetch sizeType c =>
    rw [Packets.step] at hs
    split_ifs at hs with hlen
    obtain ⟨avail, havail, rfl⟩ := Option.map_eq_some_iff.mp hs
    have hinv := h.avail.step heven hsize havail
    rw [hlen]
    rw [← advertise_avail (s := s) (Net.maxPacketLen sizeType)] at havail
    exact h.advertise.fetch hlen hinv havail
  | arrive r =>
    rw [Packets.step] at hs
    split at hs <;> cases hs
    rename_i size posted hposted
    have hword : size = classLen r := h.posted r size (hposted ▸ List.mem_cons_self)
    refine { h with posted := ?_, sendMaxSize := ?_ }
    · intro r' x hx
      dsimp only at hx
      by_cases hr : r' = r
      · subst hr
        rw [Function.update_self] at hx
        exact h.posted r' x (hposted ▸ List.mem_cons_of_mem _ hx)
      · rw [Function.update_of_ne hr] at hx
        exact h.posted r' x hx
    · intro r'
      dsimp only
      by_cases hr : r' = r
      · rw [hr, Function.update_self]
        exact .inr hword
      · rw [Function.update_of_ne hr]
        exact h.sendMaxSize r'
  | wait dataSize =>
    rw [Packets.step] at hs
    split_ifs at hs with hmax
    cases hs
    refine { h with waiting := ?_ }
    intro p hp
    rcases List.mem_append.mp hp with hp | hp
    · exact h.waiting p hp
    · rw [List.mem_singleton.mp hp]
      exact le_classLen h.sendMaxSize (add_overhead_le hmax)
  | get p =>
    rw [Packets.step] at hs
    split_ifs at hs with hp
    obtain ⟨avail, havail, rfl⟩ := Option.map_eq_some_iff.mp hs
    exact h.get hp (h.avail.step heven hsize havail) havail
  | getter =>
    rw [Packets.step] at hs
    obtain ⟨avail, havail, rfl⟩ := Option.map_eq_some_iff.mp hs
    have hinv := h.avail.step heven hsize havail
    have hring := h.getter
    obtain ⟨r, ring, hfound, hlooks, hidle, hrings, hchains, hgot⟩ | ⟨r, hnone, hlooks, hsame, hgoes⟩ :=
      step_getter havail
    -- The ring is that of the packet.
    all_goals
      rw [hlooks] at hring
      obtain ⟨p, hp, hr⟩ := Option.map_eq_some_iff.mp hring.symm
    · rw [if_pos (by rw [hidle]; rfl), returned, hp, hfound]
      exact h.found hp hr hinv hidle hrings hchains hgot
    · rcases hgoes with hidle | hgoes
      · rw [if_pos (by rw [hidle]; rfl), returned, hp, hnone]
        exact h.notFound hp hinv hidle hsame
      · rw [if_neg (by rw [hgoes]; exact Option.some_ne_none r)]
        exact h.rings hinv hsame (hgoes.trans hlooks.symm)
  | giveUp p =>
    rw [Packets.step] at hs
    split_ifs at hs with hp
    cases hs
    exact { h with waiting := fun q hq ↦ h.waiting q (List.mem_of_mem_erase hq) }
  | rings l =>
    rw [Packets.step] at hs
    split_ifs at hs with hl
    obtain ⟨avail, havail, rfl⟩ := Option.map_eq_some_iff.mp hs
    obtain ⟨hsame, hgetter⟩ := step_frame hl havail
    exact h.rings (h.avail.step heven hsize havail) hsame (congrArg getterRing hgetter)

end Steps

theorem inv_init {dma : Bool} {num : ℕ} : Inv dma num init where
  avail := AvailRing.inv_init
  size _ hne := absurd rfl hne
  chains := nofun
  posted := nofun
  sendMaxSize _ := .inl rfl
  waiting := nofun
  getter := rfl
  getting := nofun
  sizes := nofun
  matched _ := rfl

/-! ## The result -/

section Result

variable {dma : Bool} {num : ℕ} {s : Sys}

theorem Inv.fits (h : Inv dma num s) (heven : 2 ≤ num → num % 2 = 0) : Fits (sendAligmentOverhead dma) s where
  matched := h.matched
  seen_le r := (h.avail.ring r).seen_le
  held r j item dataSize hseen hitem hsize := by
    have hagrees := h.avail.agrees fun hne ↦ heven (h.size r hne)
    obtain ⟨c, hc, rfl, -⟩ := hagrees.got j item hitem
    have hpub : j < (s.avail.rings r).pub := (List.getElem?_eq_some_iff.mp hitem).1.trans_le hagrees.got_le
    rw [(hagrees.unread j c hseen hpub hc).2, h.chains r c (List.mem_of_getElem? hc)]
    exact h.sizes r dataSize (List.mem_of_getElem? hsize)
  read r j iovs dataSize hiovs hsize := by
    obtain ⟨c, hc, rfl⟩ := (h.avail.ring r).seen j iovs hiovs
    rw [h.chains r c (List.mem_of_getElem? hc)]
    exact h.sizes r dataSize (List.mem_of_getElem? hsize)

/-- **Size classes never strand a packet.** Every buffer of the receive queue is accepted by a ring, and however the
buffers, the words that tell of them and the packets interleave, each packet gets a buffer that is large enough. -/
theorem packets_fit {ls : List Label} (hpow : ∃ k, num = 2 ^ k) (hsize : 2 * num ≤ 2 ^ 16)
    (h : exec (step dma num) init ls = some s) :
    (∀ sizeType, ∃ r < kvecBufNum, getRingIdWrite (Net.maxPacketLen sizeType) = some r) ∧
      Fits (sendAligmentOverhead dma) s := by
  constructor
  · intro sizeType
    obtain ⟨r, hlt, hr, -⟩ := getRingIdWrite_maxPacketLen sizeType
    exact ⟨r, hlt, hr⟩
  · have heven : 2 ≤ num → num % 2 = 0 := by
      obtain ⟨k, rfl⟩ := hpow
      cases k with
      | zero => omega
      | succ k => exact fun _ ↦ by rw [Nat.pow_succ, Nat.mul_mod_left]
    have hinv : Inv dma num s := exec_invariant (P := fun _ _ _ ↦ True)
      (fun hs _ hstep ↦ Inv.step heven hsize hs hstep) (along_of_forall fun _ _ _ ↦ trivial) inv_init h
    exact hinv.fits heven

end Result

/-- A normal buffer and a big one are offered. -/
def offerTwo : List Label :=
  [Label.rings .update, Label.fetch .normal ⟨⟨0, 12⟩, ⟨50, 1774⟩, 7⟩] ++ List.replicate 3 (Label.rings .producer) ++
    [Label.fetch .big ⟨⟨2000, 12⟩, ⟨2050, 65810⟩, 8⟩] ++ List.replicate 3 (Label.rings .producer) ++
    [Label.rings .fetchNone] ++ List.replicate 4 (Label.rings .producer)

/-- A packet is sent to ring `r`. -/
def sendTo (r dataSize : ℕ) : List Label :=
  [Label.wait dataSize, Label.get ⟨r, dataSize⟩] ++ List.replicate 8 Label.getter ++
    List.replicate 2 (Label.rings (.transferWrite r))

/-- A small packet is sent before any word is known, and the largest one for a normal buffer after it is. -/
theorem two_packets_fit :
    ∃ s, exec (step true 4) init (offerTwo ++ sendTo 2 1000 ++ [Label.arrive 0] ++ sendTo 0 1583) = some s ∧
      s.sizes 2 = [1000] ∧ s.sizes 0 = [1583] ∧ (s.avail.rings 0).seen = [(⟨0, 12⟩, ⟨50, 1774⟩)] ∧
      (∀ sizeType, ∃ r < kvecBufNum, getRingIdWrite (Net.maxPacketLen sizeType) = some r) ∧
      Fits (sendAligmentOverhead true) s := by
  have hrun : (exec (step true 4) init (offerTwo ++ sendTo 2 1000 ++ [Label.arrive 0] ++ sendTo 0 1583)).map
      (fun s ↦ (s.sizes 2, s.sizes 0, (s.avail.rings 0).seen)) =
        some ([1000], [1583], [(⟨0, 12⟩, ⟨50, 1774⟩)]) := by decide +kernel
  obtain ⟨s, hs, hread⟩ := Option.map_eq_some_iff.mp hrun
  simp only [Prod.mk.injEq] at hread
  exact ⟨s, hs, hread.1, hread.2.1, hread.2.2, packets_fit ⟨2, rfl⟩ (by decide) hs⟩

/-- Without a DMA engine a packet of 1700 bytes goes to a normal buffer, which has no room for the overhead of one. -/
theorem memcpy_overhead_smaller :
    ∃ s, exec (step false 4) init (offerTwo ++ [Label.arrive 0] ++ sendTo 0 1700) = some s ∧
      ¬Fits Alignment.sendAlignOverheadDmaSize s := by
  have hrun : (exec (step false 4) init (offerTwo ++ [Label.arrive 0] ++ sendTo 0 1700)).map
      (fun s ↦ (s.sizes 0, (s.avail.rings 0).seen)) = some ([1700], [(⟨0, 12⟩, ⟨50, 1774⟩)]) := by decide +kernel
  obtain ⟨s, hs, hread⟩ := Option.map_eq_some_iff.mp hrun
  obtain ⟨hsizes, hseen⟩ := Prod.mk.injEq .. ▸ hread
  refine ⟨s, hs, fun hfits ↦ ?_⟩
  have hle := hfits.read 0 0 _ _ (congrArg (·[0]?) hseen) (congrArg (·[0]?) hsizes)
  exact absurd hle (by decide)

end Vcass.Vop.Packets
