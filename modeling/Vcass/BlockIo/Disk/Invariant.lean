import Vcass.Lib.Interference
import Vcass.BlockIo.Disk.System

/-!
# Block I/O frontend: the invariant

`Good` is what holds of the shared state between any two operations:

* `RingGood` — the request ring holds the parts that are not taken, entry for entry, and behind them
  the entries of the part in preparation;
* `QueueGood` — the software ring holds the requests that are waiting;
* `PartsGood` — every part carries one cookie, and the contexts of the parts that are not answered,
  of the request thread, of the completion handler and of the pool are all different;
* `Laid` — the parts of a request that was published to its end are a partition of its segments;
* `Kept` — as long as nothing went wrong, every accepted request is in exactly one place.

Each of the three threads relies on the others not touching what it holds (`ThreadRely`,
`HandlerRely`, `FetcherRely`), and each has to keep what the other two rely on.
-/

namespace Vcass.BlockIo.Disk

open Conc RingCounter

/-! ## The request ring -/

/-- The entries of the parts, in the order of publication. -/
def stream (parts : List Part) : List VcablkRequest := parts.flatMap Part.entries

@[simp] theorem stream_nil : stream [] = [] := rfl

@[simp] theorem stream_append (l l' : List Part) : stream (l ++ l') = stream l ++ stream l' :=
  List.flatMap_append

@[simp] theorem stream_singleton (p : Part) : stream [p] = p.entries := by simp [stream]

/-- The positions behind the counters of the ring are lengths of the stream. -/
structure RingGood (s : Shared) : Prop where
  lastAdd : s.ring.lastAdd = count vcablkQueueRequestsNums (stream s.parts).length
  lastUsed : s.ring.lastUsed =
    count vcablkQueueRequestsNums (stream (s.parts.take s.taken)).length
  alloc : s.requestRingAlloc =
    count vcablkQueueRequestsNums ((stream s.parts).length + s.pend.length)
  room : (stream s.parts).length + s.pend.length ≤
    (stream (s.parts.take s.taken)).length + vcablkQueueRequestsNums
  elems : ∀ i e, (stream (s.parts.take s.taken)).length ≤ i →
    (stream s.parts ++ s.pend)[i]? = some e → s.ring.elems (slot vcablkQueueRequestsNums i) = e
  taken_le : s.taken ≤ s.parts.length

/-! ## The software ring -/

structure QueueGood (s : Shared) : Prop where
  tail_lt : s.reqRing.tail < reqRingSize
  length_lt : s.queue.length < reqRingSize
  head : s.reqRing.head = (s.reqRing.tail + s.queue.length) % reqRingSize
  elems : ∀ i r, s.queue[i]? = some r → s.reqRing.ring ((s.reqRing.tail + i) % reqRingSize) = r
  lt_requests : ∀ r ∈ s.queue, r < s.requests.length
  nodup : (s.cur.toList ++ s.queue).Nodup
  unserved : ∀ r ∈ s.queue, ∀ p ∈ s.parts, p.req ≠ r

/-! ## Parts and contexts -/

/-- The contexts of the parts `ks`. -/
def ctxs (parts : List Part) (ks : List ℕ) : List ℕ :=
  ks.filterMap fun k ↦ parts[k]?.map Part.ctx

/-- The request that ends with the answer to the part. -/
def Part.closes (p : Part) : Option ℕ := if p.final then some p.req else none

/-- The requests that end with the answers to the parts `ks`. -/
def closed (parts : List Part) (ks : List ℕ) : List ℕ :=
  ks.filterMap fun k ↦ parts[k]?.bind Part.closes

/-- Every context is in the pool, in the hand of the request thread, with a part that is not
answered or with the completion handler, and in only one of these places. -/
def ContextsOwned (s : Shared) (free : List ℕ) : Prop :=
  ∀ c, free.count c + s.hand.toList.count c + (ctxs s.parts s.live).count c +
    s.handlingCtx.toList.count c = if c < vcablkBioCtxPoolSize + 1 then 1 else 0

structure PartsGood (s : Shared) : Prop where
  entries : ∀ p ∈ s.parts, p.entries ≠ [] ∧ p.entries.length ≤ vcablkBioSplitSize + 2 ∧
    ∀ e ∈ p.entries, e.cookie = p.cookie
  live_of_taken : ∀ k, s.taken ≤ k → k < s.parts.length → k ∈ s.live
  heard : (s.arrivals.map Prod.fst ++ s.live).Perm (List.range s.parts.length)
  owned : ∃ free, s.pool.Holds free ∧ s.pool.num = vcablkBioCtxPoolSize + 1 ∧
    ContextsOwned s free
  req : ∀ k ∈ s.live, ∀ p, s.parts[k]? = some p → (s.ctx p.ctx).req = p.closes
  handling : ∀ r, s.handlingReq = some r → ∃ k p, s.handling = some k ∧ s.parts[k]? = some p ∧
    p.req = r
  cur_lt : ∀ r, s.cur = some r → r < s.requests.length
  req_lt : ∀ p ∈ s.parts, p.req < s.requests.length

theorem PartsGood.live_lt {s : Shared} (h : PartsGood s) : ∀ k ∈ s.live, k < s.parts.length := by
  intro k hk
  exact List.mem_range.mp (h.heard.mem_iff.mp (List.mem_append_right _ hk))

theorem PartsGood.nodup {s : Shared} (h : PartsGood s) :
    (s.arrivals.map Prod.fst ++ s.live).Nodup := h.heard.nodup_iff.mpr List.nodup_range

/-! ## The partition of a request -/

/-- Data entries for the segments `lens` from `sector` on. -/
def IsData (type : RequestType) (cookie : ℕ) : ℕ → List ℕ → List VcablkRequest → Prop
  | _, [], [] => True
  | sector, len :: lens, e :: es =>
    e.requestType = type ∧ e.cookie = cookie ∧ e.sector = sector ∧
      e.sectorsNum = len >>> sectorShift ∧ IsData type cookie (sector + len >>> sectorShift) lens es
  | _, _, _ => False

/-- One SYNC entry, or none. -/
def IsSync (doSync : Bool) (cookie : ℕ) (es : List VcablkRequest) : Prop :=
  es.length = doSync.toNat ∧ ∀ e ∈ es, e.requestType = .sync ∧ e.cookie = cookie

/-- The number of sectors of some segments. -/
def sectors (lens : List ℕ) : ℕ := (lens.map (· >>> sectorShift)).sum

/-- The part carries the segments `segs` of `req`, those in `before` being carried by the parts before
it. -/
structure PartOf (req : Request) (before segs : List ℕ) (p : Part) : Prop where
  entries : ∃ lead data trail, p.entries = lead ++ data ++ trail ∧
    IsSync (req.doSync && before.isEmpty) p.cookie lead ∧
    IsData req.type p.cookie (req.sector + sectors before) segs data ∧
    IsSync (req.doSync && p.final) p.cookie trail
  length_le : segs.length ≤ vcablkBioSplitSize
  length_eq : p.final = false → segs.length = vcablkBioSplitSize

/-- The parts carry the segments `segs` of `req`, in order. -/
inductive Cut (req : Request) : List Part → List ℕ → Prop
  | nil : Cut req [] []
  | snoc {ps : List Part} {before segs : List ℕ} {p : Part} (h : Cut req ps before)
      (hp : PartOf req before segs p) : Cut req (ps ++ [p]) (before ++ segs)

/-- The published parts of request `r`. -/
def partsOf (r : ℕ) (parts : List Part) : List Part := parts.filter fun p ↦ p.req = r

/-- The parts of `r` are all there, and the last one is the one that ends the request. -/
structure Complete (req : Request) (ps : List Part) : Prop where
  cut : Cut req ps req.segments
  final : ∃ init last, ps = init ++ [last] ∧ last.final = true ∧ ∀ p ∈ init, p.final = false

/-- A request with a final part is published to its end. -/
def Laid (s : Shared) : Prop :=
  ∀ p ∈ s.parts, p.final = true → ∃ req, s.requests[p.req]? = some req ∧
    Complete req (partsOf p.req s.parts)

/-! ## Where a request is -/

/-- Nothing went wrong, and every request has something to publish. -/
def Smooth (s : Shared) : Prop :=
  s.faults = [] ∧ ∀ req ∈ s.requests, req.segments ≠ [] ∨ req.doSync = true

/-- The places of request `r`, and how often it was ended. -/
def places (r : ℕ) (s : Shared) : ℕ :=
  s.queue.count r + s.cur.toList.count r + (closed s.parts s.live).count r +
    s.handlingReq.toList.count r + (s.ends.map End.req).count r

def Kept (s : Shared) : Prop :=
  Smooth s → ∀ r, places r s = if r < s.requests.length then 1 else 0

structure Good (s : Shared) : Prop where
  ring : RingGood s
  queue : QueueGood s
  parts : PartsGood s
  laid : Laid s
  kept : Kept s

/-! ## What the threads rely on -/

structure ThreadRely (s s' : Shared) : Prop where
  hand : s'.hand = s.hand
  pend : s'.pend = s.pend
  cur : s'.cur = s.cur
  parts : s'.parts = s.parts
  ctx : ∀ c, s.hand = some c → s'.ctx c = s.ctx c
  requests : s.requests <+: s'.requests
  smooth : Smooth s' → Smooth s

/-- The calls of `vcablk_disk_request_end` by the completion handler. -/
def answered (s : Shared) : List End := s.ends.filter fun e ↦ e.onBehalf.isSome

structure HandlerRely (s s' : Shared) : Prop where
  handling : s'.handling = s.handling
  handlingCtx : s'.handlingCtx = s.handlingCtx
  handlingReq : s'.handlingReq = s.handlingReq
  arrivals : s'.arrivals = s.arrivals
  split : s'.splitRequestError = s.splitRequestError
  answered : answered s' = answered s
  parts : s.parts <+: s'.parts
  ctx : ∀ c, s.handlingCtx = some c → s'.ctx c = s.ctx c

structure FetcherRely (s s' : Shared) : Prop where
  taken : s'.taken = s.taken
  parts : s.parts <+: s'.parts

theorem ThreadRely.isRely : Prog.IsRely ThreadRely where
  refl _ := ⟨rfl, rfl, rfl, rfl, fun _ _ ↦ rfl, List.prefix_refl _, id⟩
  trans h h' := ⟨h'.hand.trans h.hand, h'.pend.trans h.pend, h'.cur.trans h.cur,
    h'.parts.trans h.parts, fun c hc ↦ (h'.ctx c (h.hand.trans hc)).trans (h.ctx c hc),
    h.requests.trans h'.requests, h.smooth ∘ h'.smooth⟩

theorem HandlerRely.isRely : Prog.IsRely HandlerRely where
  refl _ := ⟨rfl, rfl, rfl, rfl, rfl, rfl, List.prefix_refl _, fun _ _ ↦ rfl⟩
  trans h h' := ⟨h'.handling.trans h.handling, h'.handlingCtx.trans h.handlingCtx,
    h'.handlingReq.trans h.handlingReq, h'.arrivals.trans h.arrivals, h'.split.trans h.split,
    h'.answered.trans h.answered, h.parts.trans h'.parts,
    fun c hc ↦ (h'.ctx c (h.handlingCtx.trans hc)).trans (h.ctx c hc)⟩

theorem FetcherRely.isRely : Prog.IsRely FetcherRely where
  refl _ := ⟨rfl, List.prefix_refl _⟩
  trans h h' := ⟨h'.taken.trans h.taken, h.parts.trans h'.parts⟩

/-! ## Frames -/

theorem getElem?_of_isPrefix {α : Type} {l l' : List α} {i : ℕ} {a : α} (h : l <+: l')
    (hi : l[i]? = some a) : l'[i]? = some a := by
  obtain ⟨t, rfl⟩ := h
  exact (List.getElem?_append_left (List.getElem?_eq_some_iff.mp hi).1).trans hi

section Frame

variable {s s' : Shared}

theorem RingGood.frame (h : RingGood s) (hring : s'.ring = s.ring)
    (halloc : s'.requestRingAlloc = s.requestRingAlloc) (hpend : s'.pend = s.pend)
    (hparts : s'.parts = s.parts) (htaken : s'.taken = s.taken) : RingGood s' := by
  constructor <;> simp only [hring, halloc, hpend, hparts, htaken]
  · exact h.lastAdd
  · exact h.lastUsed
  · exact h.alloc
  · exact h.room
  · exact h.elems
  · exact h.taken_le

theorem QueueGood.frame (h : QueueGood s) (hring : s'.reqRing = s.reqRing)
    (hqueue : s'.queue = s.queue) (hreq : s'.requests = s.requests) (hcur : s'.cur = s.cur)
    (hparts : s'.parts = s.parts) : QueueGood s' := by
  constructor <;> simp only [hring, hqueue, hreq, hcur, hparts]
  · exact h.tail_lt
  · exact h.length_lt
  · exact h.head
  · exact h.elems
  · exact h.lt_requests
  · exact h.nodup
  · exact h.unserved

theorem PartsGood.frame (h : PartsGood s) (hparts : s'.parts = s.parts) (hlive : s'.live = s.live)
    (htaken : s'.taken = s.taken) (harr : s'.arrivals = s.arrivals) (hpool : s'.pool = s.pool)
    (hhand : s'.hand = s.hand) (hctx : s'.handlingCtx = s.handlingCtx)
    (hreq : ∀ c ∈ ctxs s.parts s.live, (s'.ctx c).req = (s.ctx c).req)
    (hhandling : ∀ r, s'.handlingReq = some r → s.handlingReq = some r ∧
      s'.handling = s.handling)
    (hcur : ∀ r, s'.cur = some r → s.cur = some r)
    (hlen : s.requests.length ≤ s'.requests.length) : PartsGood s' where
  entries := hparts ▸ h.entries
  live_of_taken := by
    rw [hlive, hparts, htaken]
    exact h.live_of_taken
  heard := by
    rw [harr, hlive, hparts]
    exact h.heard
  owned := by
    obtain ⟨free, hholds, hnum, howned⟩ := h.owned
    refine ⟨free, hpool ▸ hholds, hpool ▸ hnum, fun c ↦ ?_⟩
    rw [hhand, hctx, hparts, hlive]
    exact howned c
  req k hk p hp := by
    rw [hlive] at hk
    rw [hparts] at hp
    rw [hreq p.ctx (List.mem_filterMap.mpr ⟨k, hk, by rw [hp]; rfl⟩)]
    exact h.req k hk p hp
  handling r hr := by
    obtain ⟨hr, hsame⟩ := hhandling r hr
    rw [hsame, hparts]
    exact h.handling r hr
  cur_lt r hr := (h.cur_lt r (hcur r hr)).trans_le hlen
  req_lt p hp := (h.req_lt p (hparts ▸ hp)).trans_le hlen

theorem Laid.frame (h : Laid s) (hparts : s'.parts = s.parts)
    (hreq : s.requests <+: s'.requests) : Laid s' := by
  intro p hp hfinal
  rw [hparts] at hp ⊢
  obtain ⟨req, hget, hc⟩ := h p hp hfinal
  exact ⟨req, getElem?_of_isPrefix hreq hget, hc⟩

theorem Kept.frame (h : Kept s) (hsmooth : Smooth s' → Smooth s)
    (hplaces : ∀ r, places r s' = places r s) (hlen : s'.requests.length = s.requests.length) :
    Kept s' := by
  intro hs r
  rw [hplaces, hlen]
  exact h (hsmooth hs) r

end Frame

end Vcass.BlockIo.Disk
