import Vcass.BlockIo.Disk.Invariant

/-!
# Block I/O frontend: the operations keep the invariant

One lemma for each operation that changes the shared state: under what it needs to know, it keeps
`Good` and what the other threads rely on.
-/

namespace Vcass.BlockIo.Disk

open Conc RingCounter
open Function (update)

/-- What the request thread leaves alone. -/
def ThreadGuar (s s' : Shared) : Prop := HandlerRely s s' ∧ FetcherRely s s'

/-- What the completion handler leaves alone. -/
def HandlerGuar (s s' : Shared) : Prop := ThreadRely s s' ∧ FetcherRely s s'

/-- What the backend's request thread leaves alone. -/
def FetcherGuar (s s' : Shared) : Prop := ThreadRely s s' ∧ HandlerRely s s'

variable {s s' : Shared} {c r : ℕ} {free : List ℕ}

/-! ## Who holds a context -/

theorem ContextsOwned.eq_one (h : ContextsOwned s free)
    (hpos : 0 < free.count c + s.hand.toList.count c + (ctxs s.parts s.live).count c +
      s.handlingCtx.toList.count c) : c < vcablkBioCtxPoolSize + 1 ∧
    free.count c + s.hand.toList.count c + (ctxs s.parts s.live).count c +
      s.handlingCtx.toList.count c = 1 := by
  have hcount := h c
  split at hcount
  case isTrue hlt => exact ⟨hlt, hcount⟩
  case isFalse => omega

theorem count_toList_pos {o : Option ℕ} (h : o = some c) : o.toList.count c = 1 := by
  rw [h, Option.toList_some, List.count_singleton_self]

theorem ContextsOwned.of_hand (h : ContextsOwned s free) (hc : s.hand = some c) :
    c ∉ free ∧ c ∉ ctxs s.parts s.live ∧ s.handlingCtx ≠ some c ∧ c < vcablkBioCtxPoolSize + 1 := by
  have hone := count_toList_pos hc
  obtain ⟨hlt, hcount⟩ := h.eq_one (c := c) (by omega)
  refine ⟨List.count_eq_zero.mp (by omega), List.count_eq_zero.mp (by omega), fun hctx ↦ ?_, hlt⟩
  have := count_toList_pos hctx
  omega

theorem ContextsOwned.of_handling (h : ContextsOwned s free) (hc : s.handlingCtx = some c) :
    c ∉ free ∧ c ∉ ctxs s.parts s.live ∧ s.hand ≠ some c ∧ c < vcablkBioCtxPoolSize + 1 := by
  have hone := count_toList_pos hc
  obtain ⟨hlt, hcount⟩ := h.eq_one (c := c) (by omega)
  refine ⟨List.count_eq_zero.mp (by omega), List.count_eq_zero.mp (by omega), fun hhand ↦ ?_, hlt⟩
  have := count_toList_pos hhand
  omega

theorem ContextsOwned.of_free (h : ContextsOwned s free) (hc : c ∈ free) :
    c ∉ ctxs s.parts s.live ∧ s.handlingCtx ≠ some c := by
  have hpos := List.count_pos_iff.mpr hc
  obtain ⟨-, hcount⟩ := h.eq_one (c := c) (by omega)
  refine ⟨List.count_eq_zero.mp (by omega), fun hctx ↦ ?_⟩
  have := count_toList_pos hctx
  omega

theorem Good.hand (h : Good s) (hc : s.hand = some c) :
    c ∉ ctxs s.parts s.live ∧ s.handlingCtx ≠ some c := by
  obtain ⟨free, -, -, howned⟩ := h.parts.owned
  exact ⟨(howned.of_hand hc).2.1, (howned.of_hand hc).2.2.1⟩

theorem Good.handlingCtx (h : Good s) (hc : s.handlingCtx = some c) :
    c ∉ ctxs s.parts s.live ∧ s.hand ≠ some c := by
  obtain ⟨free, -, -, howned⟩ := h.parts.owned
  exact ⟨(howned.of_handling hc).2.1, (howned.of_handling hc).2.2.1⟩

theorem mem_ctxs {parts : List Part} {ks : List ℕ} {k : ℕ} {p : Part} (hk : k ∈ ks)
    (hp : parts[k]? = some p) : p.ctx ∈ ctxs parts ks :=
  List.mem_filterMap.mpr ⟨k, hk, by rw [hp]; rfl⟩

/-! ## Faults -/

theorem Good.fault {f : Fault} (h : Good s) : Good (s.fault f) where
  ring := h.ring.frame rfl rfl rfl rfl rfl
  queue := h.queue.frame rfl rfl rfl rfl rfl
  parts := h.parts.frame rfl rfl rfl rfl rfl rfl rfl (fun _ _ ↦ rfl) (fun _ hr ↦ ⟨hr, rfl⟩)
    (fun _ hr ↦ hr) le_rfl
  laid := h.laid.frame rfl (List.prefix_refl _)
  kept hs := absurd hs.1 (by simp)

theorem ThreadGuar.fault {f : Fault} : ThreadGuar s (s.fault f) :=
  ⟨⟨rfl, rfl, rfl, rfl, rfl, rfl, List.prefix_refl _, fun _ _ ↦ rfl⟩, rfl, List.prefix_refl _⟩

/-! ## Changes of a context -/

/-- A context that is neither with a part nor with the other thread may be changed. -/
theorem Good.updateCtx {b : BioContext} (h : Good s) (hreq : c ∉ ctxs s.parts s.live) :
    Good { s with ctx := update s.ctx c b } where
  ring := h.ring.frame rfl rfl rfl rfl rfl
  queue := h.queue.frame rfl rfl rfl rfl rfl
  parts := by
    refine h.parts.frame rfl rfl rfl rfl rfl rfl rfl (fun c' hc' ↦ ?_) (fun _ hr ↦ ⟨hr, rfl⟩)
      (fun _ hr ↦ hr) le_rfl
    have hne : c' ≠ c := fun hcc ↦ hreq (hcc ▸ hc')
    exact congrArg BioContext.req (Function.update_of_ne hne _ _)
  laid := h.laid.frame rfl (List.prefix_refl _)
  kept := h.kept.frame id (fun _ ↦ rfl) rfl

theorem ThreadGuar.updateCtx {b : BioContext} (hne : s.handlingCtx ≠ some c) :
    ThreadGuar s { s with ctx := update s.ctx c b } := by
  refine ⟨⟨rfl, rfl, rfl, rfl, rfl, rfl, List.prefix_refl _, fun c' hc' ↦ ?_⟩, rfl,
    List.prefix_refl _⟩
  refine Function.update_of_ne ?_ _ _
  rintro rfl
  exact hne hc'

theorem HandlerGuar.updateCtx {b : BioContext} (hne : s.hand ≠ some c) :
    HandlerGuar s { s with ctx := update s.ctx c b } := by
  refine ⟨⟨rfl, rfl, rfl, rfl, fun c' hc' ↦ ?_, List.prefix_refl _, id⟩, rfl, List.prefix_refl _⟩
  refine Function.update_of_ne ?_ _ _
  rintro rfl
  exact hne hc'

/-! ## Taking and returning a context -/

theorem Good.getBioContext {pool : VcablkPool} (h : Good s) (hhand : s.hand = none)
    (hpop : s.pool.vcablkPoolPop = some (c, pool)) :
    Good (s.getBioContext c pool) ∧ ThreadGuar s (s.getBioContext c pool) := by
  obtain ⟨free, hholds, hnum, howned⟩ := h.parts.owned
  rcases hholds.pop with ⟨-, hnone⟩ | ⟨a, b, rest, q, rfl, hsome, hq, hqnum⟩
  · rw [hnone] at hpop
    simp at hpop
  rw [hpop, Option.some_inj, Prod.mk.injEq] at hsome
  obtain ⟨rfl, rfl⟩ := hsome
  obtain ⟨hlive, hctx⟩ := howned.of_free List.mem_cons_self
  have hgood := h.updateCtx (b := ⟨c + 1, none, 0⟩) hlive
  refine ⟨⟨hgood.ring.frame rfl rfl rfl rfl rfl, hgood.queue.frame rfl rfl rfl rfl rfl, ?_,
    hgood.laid.frame rfl (List.prefix_refl _), hgood.kept.frame id (fun _ ↦ rfl) rfl⟩, ?_⟩
  · refine ⟨hgood.parts.entries, hgood.parts.live_of_taken, hgood.parts.heard,
      ⟨b :: rest, hq, hqnum.trans hnum, fun x ↦ ?_⟩, hgood.parts.req, hgood.parts.handling,
      hgood.parts.cur_lt, hgood.parts.req_lt⟩
    have hx := howned x
    rw [hhand, List.count_cons] at hx
    simp only [Shared.getBioContext_hand, Shared.getBioContext_parts, Shared.getBioContext_live,
      Shared.getBioContext_handlingCtx, Option.toList_some, List.count_singleton]
    simp only [Option.toList_none, List.count_nil, add_zero] at hx
    rw [← hx]
  · obtain ⟨hH, hF⟩ := ThreadGuar.updateCtx (b := ⟨c + 1, none, 0⟩) hctx
    exact ⟨⟨hH.handling, hH.handlingCtx, hH.handlingReq, hH.arrivals, hH.split, hH.answered,
      hH.parts, hH.ctx⟩, hF.taken, hF.parts⟩

theorem Good.poolPush {pool : VcablkPool} (h : Good s)
    (hc : s.hand = some c ∨ s.handlingCtx = some c)
    (hpush : s.pool.vcablkPoolPush c = some pool) : Good (s.poolPush c pool) := by
  obtain ⟨free, hholds, hnum, howned⟩ := h.parts.owned
  have hout : c ∉ free ∧ c < vcablkBioCtxPoolSize + 1 := by
    rcases hc with hc | hc
    · exact ⟨(howned.of_hand hc).1, (howned.of_hand hc).2.2.2⟩
    · exact ⟨(howned.of_handling hc).1, (howned.of_handling hc).2.2.2⟩
  obtain ⟨q, hq, hqholds, hqnum⟩ := hholds.push (hnum.symm ▸ hout.2) hout.1
  rw [hpush, Option.some_inj] at hq
  subst hq
  refine ⟨h.ring.frame rfl rfl rfl rfl rfl, h.queue.frame rfl rfl rfl rfl rfl, ?_,
    h.laid.frame rfl (List.prefix_refl _), h.kept.frame id (fun _ ↦ rfl) rfl⟩
  refine ⟨h.parts.entries, h.parts.live_of_taken, h.parts.heard,
    ⟨free ++ [c], hqholds, hqnum.trans hnum, fun x ↦ ?_⟩, h.parts.req, h.parts.handling,
    h.parts.cur_lt, h.parts.req_lt⟩
  have hx := howned x
  simp only [Shared.poolPush_hand, Shared.poolPush_parts, Shared.poolPush_live,
    Shared.poolPush_handlingCtx, List.count_append, List.count_singleton]
  rcases hc with hc | hc
  · rw [if_pos hc, if_neg (howned.of_hand hc).2.2.1, ← hx, hc]
    simp only [Option.toList_none, List.count_nil, Option.toList_some, List.count_singleton]
    omega
  · rw [if_pos hc, if_neg (howned.of_handling hc).2.2.1, ← hx, hc]
    simp only [Option.toList_none, List.count_nil, Option.toList_some, List.count_singleton]
    omega

theorem ThreadGuar.poolPush {pool : VcablkPool} (hne : s.handlingCtx ≠ some c) :
    ThreadGuar s (s.poolPush c pool) :=
  ⟨⟨rfl, if_neg hne, rfl, rfl, rfl, rfl, List.prefix_refl _, fun _ _ ↦ rfl⟩, rfl,
    List.prefix_refl _⟩

theorem HandlerGuar.poolPush {pool : VcablkPool} (hne : s.hand ≠ some c) :
    HandlerGuar s (s.poolPush c pool) :=
  ⟨⟨if_neg hne, rfl, rfl, rfl, fun _ _ ↦ rfl, List.prefix_refl _, id⟩, rfl, List.prefix_refl _⟩

/-! ## The request ring -/

theorem queueRequestsNums_eq : vcablkQueueRequestsNums = 2 ^ 10 := rfl

theorem stream_take_le (parts : List Part) (n : ℕ) :
    (stream (parts.take n)).length ≤ (stream parts).length := by
  have := congrArg List.length (congrArg stream (List.take_append_drop n parts))
  rw [stream_append, List.length_append] at this
  omega

theorem Good.allocNext (h : Good s)
    (hfull : vcaRbBuffFull s.requestRingAlloc s.ring.lastUsed vcablkQueueRequestsNums = false) :
    Good s.allocNext ∧ ThreadGuar s s.allocNext := by
  have hr := h.ring
  have hle := stream_take_le s.parts s.taken
  have hroom := hr.room
  rw [hr.alloc, hr.lastUsed, queueRequestsNums_eq, Bool.eq_false_iff, ne_eq,
    vcaRbBuffFull_count (by omega) hroom] at hfull
  refine ⟨⟨⟨hr.lastAdd, hr.lastUsed, ?_, ?_, fun i e hi he ↦ ?_, hr.taken_le⟩,
    h.queue.frame rfl rfl rfl rfl rfl, h.parts.frame rfl rfl rfl rfl rfl rfl rfl (fun _ _ ↦ rfl)
      (fun _ hr ↦ ⟨hr, rfl⟩) (fun _ hr ↦ hr) le_rfl, h.laid.frame rfl (List.prefix_refl _),
    h.kept.frame id (fun _ ↦ rfl) rfl⟩,
    ⟨rfl, rfl, rfl, rfl, rfl, rfl, List.prefix_refl _, fun _ _ ↦ rfl⟩, rfl, List.prefix_refl _⟩
  · rw [Shared.allocNext_requestRingAlloc, hr.alloc, queueRequestsNums_eq, vcaRbCounterAdd_count]
    simp [add_assoc]
  · rw [Shared.allocNext_pend, List.length_append, List.length_singleton]
    rw [queueRequestsNums_eq] at hroom ⊢
    show (stream s.parts).length + (s.pend.length + 1) ≤ (stream (s.parts.take s.taken)).length + _
    omega
  · change (stream s.parts ++ (s.pend ++ [_]))[i]? = some e at he
    rw [← List.append_assoc, List.getElem?_append] at he
    split at he
    · exact hr.elems i e hi he
    case isFalse hge =>
      rw [List.getElem?_singleton] at he
      split at he
      case isTrue hlast =>
        have hpos : i = (stream s.parts).length + s.pend.length := by
          rw [List.length_append] at hge hlast
          omega
        rw [← Option.some_inj.mp he, hr.alloc, queueRequestsNums_eq, vcaRbCounterToIdx_count, hpos]
        rfl
      case isFalse => simp at he

theorem Good.writeSlot {slot' : ℕ} {e : VcablkRequest} (h : Good s) (hpend : s.pend ≠ [])
    (hslot : slot' = slot vcablkQueueRequestsNums
      ((stream s.parts).length + s.pend.length - 1)) :
    Good (s.writeSlot slot' e) ∧ ThreadGuar s (s.writeSlot slot' e) := by
  have hr := h.ring
  have hle := stream_take_le s.parts s.taken
  have hroom := hr.room
  obtain ⟨init, x, hsnoc⟩ := s.pend.eq_nil_or_concat.resolve_left hpend
  rw [List.concat_eq_append] at hsnoc
  have hlen : (s.pend.dropLast ++ [e]).length = s.pend.length := by simp [hsnoc]
  refine ⟨⟨⟨hr.lastAdd, hr.lastUsed, ?_, ?_, fun i e' hi he ↦ ?_, hr.taken_le⟩,
    h.queue.frame rfl rfl rfl rfl rfl, h.parts.frame rfl rfl rfl rfl rfl rfl rfl (fun _ _ ↦ rfl)
      (fun _ hr ↦ ⟨hr, rfl⟩) (fun _ hr ↦ hr) le_rfl, h.laid.frame rfl (List.prefix_refl _),
    h.kept.frame id (fun _ ↦ rfl) rfl⟩,
    ⟨rfl, rfl, rfl, rfl, rfl, rfl, List.prefix_refl _, fun _ _ ↦ rfl⟩, rfl, List.prefix_refl _⟩
  · show s.requestRingAlloc = count _ ((stream s.parts).length + (s.pend.dropLast ++ [e]).length)
    rw [hlen]
    exact hr.alloc
  · show (stream s.parts).length + (s.pend.dropLast ++ [e]).length ≤ _
    rw [hlen]
    exact hr.room
  · change (stream s.parts ++ (s.pend.dropLast ++ [e]))[i]? = some e' at he
    change (stream (s.parts.take s.taken)).length ≤ i at hi
    show update s.ring.elems slot' e (slot vcablkQueueRequestsNums i) = e'
    rw [hsnoc, List.dropLast_concat] at he
    rw [hsnoc, List.length_append, List.length_singleton] at hslot hroom
    rw [← List.append_assoc, List.getElem?_append] at he
    split at he
    case isTrue hlt =>
      rw [List.length_append] at hlt
      have hne : slot vcablkQueueRequestsNums i ≠ slot' := by
        rw [hslot]
        exact slot_ne (by omega) (by omega)
      rw [Function.update_of_ne hne]
      refine hr.elems i e' hi ?_
      rw [hsnoc, ← List.append_assoc, List.getElem?_append_left (by simpa using hlt)]
      exact he
    case isFalse hge =>
      rw [List.getElem?_singleton] at he
      split at he
      case isTrue hlast =>
        have hpos : i = (stream s.parts).length + (init.length + 1) - 1 := by
          rw [List.length_append] at hge hlast
          omega
        rw [hslot, hpos, Function.update_self, Option.some_inj.mp he]
      case isFalse => simp at he

theorem Good.resetAlloc (h : Good s) : Good s.resetAlloc ∧ ThreadGuar s s.resetAlloc := by
  have hr := h.ring
  have hle := stream_take_le s.parts s.taken
  have hroom := hr.room
  refine ⟨⟨⟨hr.lastAdd, hr.lastUsed, hr.lastAdd, ?_, fun i e hi he ↦ ?_, hr.taken_le⟩,
    h.queue.frame rfl rfl rfl rfl rfl, h.parts.frame rfl rfl rfl rfl rfl rfl rfl (fun _ _ ↦ rfl)
      (fun _ hr ↦ ⟨hr, rfl⟩) (fun _ hr ↦ hr) le_rfl, h.laid.frame rfl (List.prefix_refl _),
    h.kept.frame id (fun _ ↦ rfl) rfl⟩,
    ⟨rfl, rfl, rfl, rfl, rfl, rfl, List.prefix_refl _, fun _ _ ↦ rfl⟩, rfl, List.prefix_refl _⟩
  · show (stream s.parts).length + 0 ≤ (stream (s.parts.take s.taken)).length + _
    omega
  · change (stream s.parts ++ [])[i]? = some e at he
    rw [List.append_nil] at he
    exact hr.elems i e hi (by
      rw [List.getElem?_append_left (List.getElem?_eq_some_iff.mp he).1]
      exact he)

/-! ## Publication -/

theorem ctxs_snoc {parts : List Part} {live : List ℕ} (p : Part)
    (hlt : ∀ k ∈ live, k < parts.length) :
    ctxs (parts ++ [p]) (live ++ [parts.length]) = ctxs parts live ++ [p.ctx] := by
  rw [ctxs, List.filterMap_append]
  congr 1
  · refine List.filterMap_congr fun k hk ↦ ?_
    rw [List.getElem?_append_left (hlt k hk)]
  · simp

theorem closed_snoc {parts : List Part} {live : List ℕ} (p : Part)
    (hlt : ∀ k ∈ live, k < parts.length) :
    closed (parts ++ [p]) (live ++ [parts.length]) = closed parts live ++ p.closes.toList := by
  rw [closed, List.filterMap_append]
  congr 1
  · refine List.filterMap_congr fun k hk ↦ ?_
    rw [List.getElem?_append_left (hlt k hk)]
  · cases h : p.closes <;> simp [h]

theorem partsOf_snoc (r : ℕ) (parts : List Part) (p : Part) :
    partsOf r (parts ++ [p]) = partsOf r parts ++ if p.req = r then [p] else [] := by
  rw [partsOf, List.filter_append]
  congr 1
  by_cases hp : p.req = r <;> simp [hp]

/-- What the request thread knows when it publishes a part of request `r`. -/
structure Ready (s : Shared) (r c : ℕ) : Prop where
  hand : s.hand = some c
  cur : s.cur = some r
  cookie : ∀ e ∈ s.pend, e.cookie = c + 1
  length : s.pend.length ≤ vcablkBioSplitSize + 2
  req : (s.ctx c).req = none ∨ (s.ctx c).req = some r
  unfinished : ∀ p ∈ s.parts, p.req = r → p.final = false
  complete : (s.ctx c).req = some r → ∃ req, s.requests[r]? = some req ∧
    Complete req (partsOf r s.parts ++ [s.nextPart r])

theorem Ready.nextPart_ctx (h : Ready s r c) : (s.nextPart r).ctx = c := by
  rw [Shared.nextPart, h.hand]
  rfl

theorem Ready.nextPart_closes (h : Ready s r c) : (s.nextPart r).closes = (s.ctx c).req := by
  rcases h.req with hreq | hreq <;> simp [Part.closes, Shared.nextPart, h.hand, hreq]

theorem Ready.final_iff (h : Ready s r c) : (s.nextPart r).final = true ↔ (s.ctx c).req = some r := by
  rw [Shared.nextPart, h.hand]
  dsimp only [Option.getD_some]
  rcases h.req with hreq | hreq <;> simp [hreq]

theorem stream_publish (s : Shared) (r : ℕ) : stream (s.parts ++ [s.nextPart r]) = stream s.parts ++ s.pend := by
  rw [stream_append, stream_singleton]
  rfl

theorem RingGood.publish (h : RingGood s) : RingGood (s.publish r) := by
  have htake : (s.parts ++ [s.nextPart r]).take s.taken = s.parts.take s.taken :=
    List.take_append_of_le_length h.taken_le
  have hstream := stream_publish s r
  refine ⟨?_, ?_, ?_, ?_, fun i e hi he ↦ ?_, ?_⟩
  · show s.requestRingAlloc = count _ (stream (s.parts ++ [s.nextPart r])).length
    rw [hstream, List.length_append]
    exact h.alloc
  · show s.ring.lastUsed = count _ (stream ((s.parts ++ [s.nextPart r]).take s.taken)).length
    rw [htake]
    exact h.lastUsed
  · show s.requestRingAlloc = count _ ((stream (s.parts ++ [s.nextPart r])).length + 0)
    rw [hstream, List.length_append]
    exact h.alloc
  · show (stream (s.parts ++ [s.nextPart r])).length + 0 ≤
      (stream ((s.parts ++ [s.nextPart r]).take s.taken)).length + _
    rw [htake, hstream, List.length_append]
    exact h.room
  · change (stream (s.parts ++ [s.nextPart r]) ++ [])[i]? = some e at he
    change (stream ((s.parts ++ [s.nextPart r]).take s.taken)).length ≤ i at hi
    rw [htake] at hi
    rw [List.append_nil, hstream] at he
    exact h.elems i e hi he
  · show s.taken ≤ (s.parts ++ [s.nextPart r]).length
    rw [List.length_append]
    exact h.taken_le.trans (Nat.le_add_right ..)

theorem QueueGood.publish (h : QueueGood s) (hr : Ready s r c) : QueueGood (s.publish r) := by
  have hnd := h.nodup
  rw [hr.cur, Option.toList_some, List.singleton_append, List.nodup_cons] at hnd
  refine ⟨h.tail_lt, h.length_lt, h.head, h.elems, h.lt_requests, ?_, fun x hx p hp ↦ ?_⟩
  · show ((if (s.nextPart r).final then none else s.cur).toList ++ s.queue).Nodup
    split
    · exact hnd.2
    · exact h.nodup
  · rcases List.mem_append.mp hp with hp | hp
    · exact h.unserved x hx p hp
    · rw [List.mem_singleton.mp hp]
      rintro rfl
      exact hnd.1 hx

theorem PartsGood.publish (h : PartsGood s) (hr : Ready s r c) (hpend : s.pend ≠ []) : PartsGood (s.publish r) := by
  refine ⟨fun p hp ↦ ?_, fun k hk hlt ↦ ?_, ?_, ?_, fun k hk p hp ↦ ?_, fun x hx ↦ ?_, fun x hx ↦ ?_, fun p hp ↦ ?_⟩
  · rcases List.mem_append.mp hp with hp | hp
    · exact h.entries p hp
    · rw [List.mem_singleton.mp hp]
      refine ⟨hpend, hr.length, fun e he ↦ ?_⟩
      rw [Part.cookie, hr.nextPart_ctx]
      exact hr.cookie e he
  · simp only [Shared.publish_parts, List.length_append, List.length_singleton] at hlt
    simp only [Shared.publish_live, List.mem_append, List.mem_singleton]
    rcases Nat.lt_succ_iff_lt_or_eq.mp hlt with hlt | rfl
    · exact .inl (h.live_of_taken k hk hlt)
    · exact .inr rfl
  · simp only [Shared.publish_arrivals, Shared.publish_live, Shared.publish_parts,
      List.length_append, List.length_singleton, List.range_succ, ← List.append_assoc]
    exact h.heard.append_right _
  · obtain ⟨free, hholds, hnum, howned⟩ := h.owned
    refine ⟨free, hholds, hnum, fun x ↦ ?_⟩
    have hx := howned x
    rw [hr.hand] at hx
    simp only [Shared.publish_hand, Shared.publish_parts, Shared.publish_live,
      Shared.publish_handlingCtx, ctxs_snoc _ h.live_lt, List.count_append,
      hr.nextPart_ctx]
    simp only [Option.toList_none, List.count_nil, Option.toList_some] at hx ⊢
    omega
  · simp only [Shared.publish_live, List.mem_append, List.mem_singleton] at hk
    change (s.parts ++ [s.nextPart r])[k]? = some p at hp
    show (s.ctx p.ctx).req = p.closes
    rcases hk with hk | rfl
    · rw [List.getElem?_append_left (h.live_lt k hk)] at hp
      exact h.req k hk p hp
    · rw [List.getElem?_concat_length, Option.some_inj] at hp
      rw [← hp, hr.nextPart_ctx, hr.nextPart_closes]
  · obtain ⟨k, p, hk, hp, hreq⟩ := h.handling x hx
    exact ⟨k, p, hk, getElem?_of_isPrefix (List.prefix_append ..) hp, hreq⟩
  · refine h.cur_lt x ?_
    simp only [Shared.publish_cur] at hx
    split at hx
    · simp at hx
    · exact hx
  · rcases List.mem_append.mp hp with hp | hp
    · exact h.req_lt p hp
    · rw [List.mem_singleton.mp hp]
      exact h.cur_lt r hr.cur

/-- A part that is the last of its request completes it. -/
theorem Laid.publish (h : Laid s) (hr : Ready s r c) : Laid (s.publish r) := by
  intro p hp hfinal
  rcases List.mem_append.mp hp with hp | hp
  · have hpr : p.req ≠ r := fun hpr ↦ by simp [hr.unfinished p hp hpr] at hfinal
    obtain ⟨req, hget, hc⟩ := h p hp hfinal
    refine ⟨req, hget, ?_⟩
    show Complete req (partsOf p.req (s.parts ++ [s.nextPart r]))
    have hne' : (s.nextPart r).req ≠ p.req := Ne.symm hpr
    rw [partsOf_snoc, if_neg hne', List.append_nil]
    exact hc
  · obtain rfl := List.mem_singleton.mp hp
    obtain ⟨req, hget, hc⟩ := hr.complete (hr.final_iff.mp hfinal)
    refine ⟨req, hget, ?_⟩
    show Complete req (partsOf r (s.parts ++ [s.nextPart r]))
    have hreq : (s.nextPart r).req = r := rfl
    rw [partsOf_snoc, if_pos hreq]
    exact hc

/-- A request whose last part is published moves from the thread to the part. -/
theorem Good.kept_publish (h : Good s) (hr : Ready s r c) : Kept (s.publish r) := by
  refine h.kept.frame id (fun x ↦ ?_) rfl
  have hclosed : closed (s.parts ++ [s.nextPart r]) (s.live ++ [s.parts.length]) =
      closed s.parts s.live ++ (s.ctx c).req.toList := by
    rw [closed_snoc _ h.parts.live_lt, hr.nextPart_closes]
  simp only [places, Shared.publish_queue, Shared.publish_cur, Shared.publish_parts,
    Shared.publish_live, Shared.publish_handlingReq, Shared.publish_ends, hclosed,
    List.count_append]
  rcases hr.req with hreq | hreq
  · have hfinal : ¬ (s.nextPart r).final = true := by simp [hr.final_iff, hreq]
    rw [if_neg hfinal, hreq]
    simp
  · rw [if_pos (hr.final_iff.mpr hreq), hreq, hr.cur]
    simp only [Option.toList_none, List.count_nil, Option.toList_some]
    omega

theorem Good.publish (h : Good s) (hr : Ready s r c)
    (hne : s.ring.lastAdd ≠ s.requestRingAlloc) :
    Good (s.publish r) ∧ ThreadGuar s (s.publish r) := by
  have hpend : s.pend ≠ [] := by
    intro hnil
    refine hne ?_
    rw [h.ring.lastAdd, h.ring.alloc, hnil]
    rfl
  exact ⟨⟨h.ring.publish, h.queue.publish hr, h.parts.publish hr hpend, h.laid.publish hr, h.kept_publish hr⟩,
    ⟨rfl, rfl, rfl, rfl, rfl, rfl, List.prefix_append .., fun _ _ ↦ rfl⟩, rfl, List.prefix_append ..⟩

/-! ## Ends of requests -/

theorem Good.threadEnd {ret : ℕ} (h : Good s) (hns : ¬ Smooth s) :
    Good (s.requestEnd none r ret) ∧ ThreadGuar s (s.requestEnd none r ret) := by
  refine ⟨⟨h.ring.frame rfl rfl rfl rfl rfl, h.queue.frame rfl rfl rfl rfl rfl,
    h.parts.frame rfl rfl rfl rfl rfl rfl rfl (fun _ _ ↦ rfl) (fun _ hr ↦ ⟨hr, rfl⟩) (fun _ hr ↦ hr)
      le_rfl, h.laid.frame rfl (List.prefix_refl _), fun hs ↦ absurd hs hns⟩,
    ⟨rfl, rfl, rfl, rfl, rfl, ?_, List.prefix_refl _, fun _ _ ↦ rfl⟩, rfl, List.prefix_refl _⟩
  simp [answered]

theorem Good.handlerEnd {ck ret : ℕ} (h : Good s) (hreq : s.handlingReq = some r) :
    Good (s.requestEnd (some ck) r ret) ∧ HandlerGuar s (s.requestEnd (some ck) r ret) := by
  refine ⟨⟨h.ring.frame rfl rfl rfl rfl rfl, h.queue.frame rfl rfl rfl rfl rfl,
    h.parts.frame rfl rfl rfl rfl rfl rfl rfl (fun _ _ ↦ rfl) (fun x hx ↦ ?_) (fun _ hr ↦ hr)
      le_rfl, h.laid.frame rfl (List.prefix_refl _), h.kept.frame id (fun x ↦ ?_) rfl⟩,
    ⟨rfl, rfl, rfl, rfl, fun _ _ ↦ rfl, List.prefix_refl _, id⟩, rfl, List.prefix_refl _⟩
  · simp at hx
  · simp only [places, Shared.requestEnd_queue, Shared.requestEnd_cur, Shared.requestEnd_parts,
      Shared.requestEnd_live, Shared.requestEnd_handlingReq, Shared.requestEnd_ends, hreq,
      List.map_append, List.count_append]
    simp only [reduceCtorEq, if_false, Option.toList_none, List.count_nil, Option.toList_some,
      List.map_cons, List.map_nil]
    omega

theorem Good.setSplitRequestError {err : ℕ} (h : Good s) :
    Good { s with splitRequestError := err } ∧ HandlerGuar s { s with splitRequestError := err } :=
  ⟨⟨h.ring.frame rfl rfl rfl rfl rfl, h.queue.frame rfl rfl rfl rfl rfl,
    h.parts.frame rfl rfl rfl rfl rfl rfl rfl (fun _ _ ↦ rfl) (fun _ hr ↦ ⟨hr, rfl⟩) (fun _ hr ↦ hr)
      le_rfl, h.laid.frame rfl (List.prefix_refl _), h.kept.frame id (fun _ ↦ rfl) rfl⟩,
    ⟨rfl, rfl, rfl, rfl, fun _ _ ↦ rfl, List.prefix_refl _, id⟩, rfl, List.prefix_refl _⟩

/-! ## The backend -/

theorem stream_take_succ {parts : List Part} {n : ℕ} {p : Part} (hp : parts[n]? = some p) :
    stream (parts.take (n + 1)) = stream (parts.take n) ++ p.entries := by
  rw [List.take_add_one, hp, stream_append]
  simp

theorem Good.setLastUsed {cnt : ℕ} (h : Good s) (hlt : s.taken < s.parts.length)
    (hcnt : cnt = count vcablkQueueRequestsNums (stream (s.parts.take (s.taken + 1))).length) :
    Good (s.setLastUsed cnt) ∧ FetcherGuar s (s.setLastUsed cnt) := by
  have hr := h.ring
  obtain ⟨p, hp⟩ : ∃ p, s.parts[s.taken]? = some p := ⟨_, List.getElem?_eq_getElem hlt⟩
  have hlen : (stream (s.parts.take s.taken)).length ≤
      (stream (s.parts.take (s.taken + 1))).length := by
    rw [stream_take_succ hp, List.length_append]
    exact Nat.le_add_right ..
  refine ⟨⟨⟨hr.lastAdd, hcnt, hr.alloc, hr.room.trans ?_, fun i e hi he ↦ ?_, hlt⟩,
    h.queue.frame rfl rfl rfl rfl rfl, ?_, h.laid.frame rfl (List.prefix_refl _),
    h.kept.frame id (fun _ ↦ rfl) rfl⟩,
    ⟨rfl, rfl, rfl, rfl, fun _ _ ↦ rfl, List.prefix_refl _, id⟩,
    ⟨rfl, rfl, rfl, rfl, rfl, rfl, List.prefix_refl _, fun _ _ ↦ rfl⟩⟩
  · exact Nat.add_le_add_right hlen _
  · exact hr.elems i e (hlen.trans hi) he
  · refine ⟨h.parts.entries, fun k hk ↦ ?_, h.parts.heard, h.parts.owned,
      h.parts.req, h.parts.handling, h.parts.cur_lt, h.parts.req_lt⟩
    exact h.parts.live_of_taken k ((Nat.le_succ _).trans hk)

theorem count_filterMap_erase {f : ℕ → Option ℕ} {ks : List ℕ} {k : ℕ} (hk : k ∈ ks) (x : ℕ) :
    (ks.filterMap f).count x = ((ks.erase k).filterMap f).count x + (f k).toList.count x := by
  rw [((List.perm_cons_erase hk).filterMap f).count_eq]
  cases hf : f k with
  | none => simp [hf]
  | some y => simp [hf, List.count_cons]

theorem Good.answer {k ret : ℕ} {p : Part} (h : Good s) (hctx : s.handlingCtx = none)
    (hreq : s.handlingReq = none) (hk : k ∈ s.live) (htaken : k < s.taken)
    (hp : s.parts[k]? = some p) :
    Good (s.answer k ret p) ∧ ThreadRely s (s.answer k ret p) ∧
      FetcherRely s (s.answer k ret p) := by
  refine ⟨⟨h.ring.frame rfl rfl rfl rfl rfl, h.queue.frame rfl rfl rfl rfl rfl, ?_,
    h.laid.frame rfl (List.prefix_refl _), h.kept.frame id (fun x ↦ ?_) rfl⟩,
    ⟨rfl, rfl, rfl, rfl, fun _ _ ↦ rfl, List.prefix_refl _, id⟩, rfl, List.prefix_refl _⟩
  · refine ⟨h.parts.entries, fun j hj hlt ↦ ?_, ?_, ?_, fun j hj q hq ↦ ?_, fun x hx ↦ ?_,
      h.parts.cur_lt, h.parts.req_lt⟩
    · refine (List.mem_erase_of_ne ?_).mpr (h.parts.live_of_taken j hj hlt)
      change s.taken ≤ j at hj
      omega
    · simp only [Shared.answer_arrivals, Shared.answer_live, Shared.answer_parts, List.map_append,
        List.map_singleton, List.append_assoc, List.singleton_append]
      exact ((List.perm_cons_erase hk).symm.append_left _).trans h.parts.heard
    · obtain ⟨free, hholds, hnum, howned⟩ := h.parts.owned
      refine ⟨free, hholds, hnum, fun x ↦ ?_⟩
      have hx := howned x
      rw [hctx, ctxs, count_filterMap_erase hk, hp] at hx
      simp only [Shared.answer_hand, Shared.answer_parts, Shared.answer_live,
        Shared.answer_handlingCtx, ctxs]
      simp only [Option.map_some, Option.toList_some, Option.toList_none, List.count_nil] at hx ⊢
      omega
    · exact h.parts.req j (List.mem_of_mem_erase hj) q hq
    · simp only [Shared.answer_handlingReq] at hx
      split at hx
      · exact ⟨k, p, rfl, hp, Option.some_inj.mp hx⟩
      · simp at hx
  · have hcloses : (if p.final = true then some p.req else none) = p.closes := rfl
    have herase : (closed s.parts s.live).count x =
        (closed s.parts (s.live.erase k)).count x + p.closes.toList.count x := by
      rw [closed, count_filterMap_erase hk, hp]
      rfl
    simp only [places, Shared.answer_queue, Shared.answer_cur, Shared.answer_parts,
      Shared.answer_live, Shared.answer_handlingReq, Shared.answer_ends]
    rw [herase, hreq, hcloses]
    simp only [Option.toList_none, List.count_nil]
    omega

/-! ## The block layer -/

theorem reqRingSize_mask (n : ℕ) : n &&& (reqRingSize - 1) = n % reqRingSize :=
  Nat.and_two_pow_sub_one_eq_mod n 11

theorem Smooth.of_append {req : Request} {l : List Fault}
    (h : Smooth { s with requests := s.requests ++ [req], faults := l }) (hl : l = [] → s.faults = []) :
    Smooth s :=
  ⟨hl h.1, fun q hq ↦ h.2 q (List.mem_append_left _ hq)⟩

theorem Good.requestFn {mq : Bool} {req : Request} (h : Good s) :
    Good (vcablkDiskRequestFn mq s req) ∧ ThreadRely s (vcablkDiskRequestFn mq s req) ∧
      HandlerRely s (vcablkDiskRequestFn mq s req) ∧
      FetcherRely s (vcablkDiskRequestFn mq s req) := by
  have hq := h.queue
  rw [vcablkDiskRequestFn]
  dsimp only
  rw [reqRingSize_mask]
  split
  case isTrue hfull =>
    split
    · refine ⟨⟨h.ring.frame rfl rfl rfl rfl rfl, ⟨hq.tail_lt, hq.length_lt, hq.head, hq.elems, ?_,
          hq.nodup, hq.unserved⟩,
        h.parts.frame rfl rfl rfl rfl rfl rfl rfl (fun _ _ ↦ rfl) (fun _ hr ↦ ⟨hr, rfl⟩)
          (fun _ hr ↦ hr) (by simp), h.laid.frame rfl (List.prefix_append ..),
        fun hs ↦ absurd hs.1 (by simp)⟩,
        ⟨rfl, rfl, rfl, rfl, fun _ _ ↦ rfl, List.prefix_append .., fun hs ↦ absurd hs.1 (by simp)⟩,
        ⟨rfl, rfl, rfl, rfl, rfl, rfl, List.prefix_refl _, fun _ _ ↦ rfl⟩, rfl, List.prefix_refl _⟩
      intro r hr
      simp only [List.length_append, List.length_singleton]
      exact (hq.lt_requests r hr).trans (Nat.lt_succ_self _)
    · exact ⟨h, ThreadRely.isRely.refl s, HandlerRely.isRely.refl s, FetcherRely.isRely.refl s⟩
  case isFalse hfull =>
    have hlt : s.queue.length + 1 < reqRingSize := by
      have htail := hq.tail_lt
      have hlen := hq.length_lt
      rw [hq.head] at hfull
      by_contra hge
      refine hfull ?_
      rw [Nat.mod_add_mod, show s.reqRing.tail + s.queue.length + 1 = s.reqRing.tail + reqRingSize by
        omega, Nat.add_mod_right, Nat.mod_eq_of_lt htail]
    refine ⟨⟨h.ring.frame rfl rfl rfl rfl rfl, ⟨hq.tail_lt, ?_, ?_, fun i r hi ↦ ?_, fun r hr ↦ ?_,
        ?_, fun r hr p hp ↦ ?_⟩,
      h.parts.frame rfl rfl rfl rfl rfl rfl rfl (fun _ _ ↦ rfl) (fun _ hr ↦ ⟨hr, rfl⟩)
        (fun _ hr ↦ hr) (by simp), h.laid.frame rfl (List.prefix_append ..), fun hs r ↦ ?_⟩,
      ⟨rfl, rfl, rfl, rfl, fun _ _ ↦ rfl, List.prefix_append .., fun hs ↦ hs.of_append id⟩,
      ⟨rfl, rfl, rfl, rfl, rfl, rfl, List.prefix_refl _, fun _ _ ↦ rfl⟩, rfl, List.prefix_refl _⟩
    · simpa using hlt
    · simp only [List.length_append, List.length_singleton]
      rw [hq.head, Nat.mod_add_mod, add_assoc]
    · change (s.queue ++ [s.requests.length])[i]? = some r at hi
      show update s.reqRing.ring s.reqRing.head s.requests.length _ = r
      rw [List.getElem?_append] at hi
      split at hi
      case isTrue hilt =>
        have hne : (s.reqRing.tail + i) % reqRingSize ≠ s.reqRing.head := by
          rw [hq.head]
          exact slot_ne (Nat.add_lt_add_left hilt _) (by omega)
        rw [Function.update_of_ne hne]
        exact hq.elems i r hi
      case isFalse hige =>
        rw [List.getElem?_singleton] at hi
        split at hi
        case isTrue hlast =>
          rw [hq.head, show i = s.queue.length by omega, Function.update_self,
            Option.some_inj.mp hi]
        case isFalse => simp at hi
    · simp only [List.length_append, List.length_singleton]
      rcases List.mem_append.mp hr with hr | hr
      · exact (hq.lt_requests r hr).trans (Nat.lt_succ_self _)
      · rw [List.mem_singleton.mp hr]
        exact Nat.lt_succ_self _
    · show (s.cur.toList ++ (s.queue ++ [s.requests.length])).Nodup
      rw [← List.append_assoc]
      refine List.nodup_append.mpr ⟨hq.nodup, List.nodup_singleton _, fun x hx y hy ↦ ?_⟩
      rw [List.mem_singleton.mp hy]
      rcases List.mem_append.mp hx with hx | hx
      · exact (h.parts.cur_lt x (Option.mem_toList.mp hx)).ne
      · exact (hq.lt_requests x hx).ne
    · rcases List.mem_append.mp hr with hr | hr
      · exact hq.unserved r hr p hp
      · rw [List.mem_singleton.mp hr]
        exact (h.parts.req_lt p hp).ne
    · have hold := h.kept (hs.of_append id) r
      simp only [places, List.count_append, List.count_singleton, List.length_append,
        List.length_singleton] at hold ⊢
      by_cases hr : r = s.requests.length
      · simp_all
      · rw [if_neg (by simpa using Ne.symm hr)]
        simp only [show r < s.requests.length + 1 ↔ r < s.requests.length by omega]
        omega

theorem Good.dequeue (h : Good s) (hcur : s.cur = none)
    (hne : s.reqRing.head ≠ s.reqRing.tail) :
    s.queue.head? = some (s.reqRing.ring s.reqRing.tail) ∧
      Good { s with
        reqRing := { s.reqRing with tail := (s.reqRing.tail + 1) &&& (reqRingSize - 1) }
        queue := s.queue.tail
        cur := some (s.reqRing.ring s.reqRing.tail) } ∧
      ThreadGuar s { s with
        reqRing := { s.reqRing with tail := (s.reqRing.tail + 1) &&& (reqRingSize - 1) }
        queue := s.queue.tail
        cur := some (s.reqRing.ring s.reqRing.tail) } := by
  have hq := h.queue
  rw [reqRingSize_mask]
  cases hqueue : s.queue with
  | nil =>
    refine absurd ?_ hne
    rw [hq.head, hqueue, List.length_nil, add_zero, Nat.mod_eq_of_lt hq.tail_lt]
  | cons r rest =>
    have hfirst : s.reqRing.ring s.reqRing.tail = r := by
      have := hq.elems 0 r (by rw [hqueue]; rfl)
      rwa [add_zero, Nat.mod_eq_of_lt hq.tail_lt] at this
    rw [hfirst]
    refine ⟨rfl, ⟨h.ring.frame rfl rfl rfl rfl rfl, ⟨Nat.mod_lt _ (by decide), ?_, ?_,
        fun i x hi ↦ ?_, fun x hx ↦ ?_, ?_, fun x hx ↦ ?_⟩, ?_,
        h.laid.frame rfl (List.prefix_refl _), fun hs x ↦ ?_⟩,
      ⟨rfl, rfl, rfl, rfl, rfl, rfl, List.prefix_refl _, fun _ _ ↦ rfl⟩, rfl, List.prefix_refl _⟩
    · have := hq.length_lt
      rw [hqueue, List.length_cons] at this
      exact (Nat.lt_succ_self _).trans this
    · show s.reqRing.head = ((s.reqRing.tail + 1) % reqRingSize + rest.length) % reqRingSize
      rw [hq.head, hqueue, List.length_cons, Nat.mod_add_mod, add_right_comm, add_assoc]
    · have := hq.elems (i + 1) x (by rw [hqueue]; exact hi)
      show s.reqRing.ring (((s.reqRing.tail + 1) % reqRingSize + i) % reqRingSize) = x
      rw [← this, Nat.mod_add_mod, add_right_comm, add_assoc]
    · exact hq.lt_requests x (by rw [hqueue]; exact List.mem_cons_of_mem _ hx)
    · have hnd := hq.nodup
      rwa [hcur, hqueue, Option.toList_none, List.nil_append] at hnd
    · exact hq.unserved x (by rw [hqueue]; exact List.mem_cons_of_mem _ hx)
    · have hlt : r < s.requests.length := hq.lt_requests r (by rw [hqueue]; exact List.mem_cons_self)
      refine ⟨h.parts.entries, h.parts.live_of_taken, h.parts.heard, h.parts.owned,
        h.parts.req, h.parts.handling, fun x hx ↦ ?_, h.parts.req_lt⟩
      rw [← Option.some_inj.mp hx]
      exact hlt
    · have hold := h.kept hs x
      simp only [places, hqueue, hcur, List.count_cons, Option.toList_none, List.count_nil,
        List.tail_cons, Option.toList_some] at hold ⊢
      rw [← hold]
      omega

theorem Good.clearCur (h : Good s) (hcur : Smooth s → s.cur = none) :
    Good { s with cur := none } ∧ ThreadGuar s { s with cur := none } := by
  refine ⟨⟨h.ring.frame rfl rfl rfl rfl rfl, ⟨h.queue.tail_lt, h.queue.length_lt, h.queue.head,
      h.queue.elems, h.queue.lt_requests, (List.nodup_append.mp h.queue.nodup).2.1,
      h.queue.unserved⟩,
    h.parts.frame rfl rfl rfl rfl rfl rfl rfl (fun _ _ ↦ rfl) (fun _ hr ↦ ⟨hr, rfl⟩)
      (fun _ hr ↦ by simp at hr) le_rfl, h.laid.frame rfl (List.prefix_refl _), fun hs r ↦ ?_⟩,
    ⟨rfl, rfl, rfl, rfl, rfl, rfl, List.prefix_refl _, fun _ _ ↦ rfl⟩, rfl, List.prefix_refl _⟩
  rw [← h.kept hs r, places, places, hcur hs]

theorem Good.clearHandling (h : Good s) (hreq : s.handlingReq = none) :
    Good { s with handling := none } ∧ HandlerGuar s { s with handling := none } := by
  refine ⟨⟨h.ring.frame rfl rfl rfl rfl rfl, h.queue.frame rfl rfl rfl rfl rfl,
    h.parts.frame rfl rfl rfl rfl rfl rfl rfl (fun _ _ ↦ rfl) (fun r hr ↦ ?_) (fun _ hr ↦ hr) le_rfl,
    h.laid.frame rfl (List.prefix_refl _), h.kept.frame id (fun _ ↦ rfl) rfl⟩,
    ⟨rfl, rfl, rfl, rfl, fun _ _ ↦ rfl, List.prefix_refl _, id⟩, rfl, List.prefix_refl _⟩
  exact absurd (hreq.symm.trans hr) (by simp)

end Vcass.BlockIo.Disk
