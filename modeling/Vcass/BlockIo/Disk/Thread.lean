import Vcass.BlockIo.Disk.Operations

/-!
# Block I/O frontend: the request thread

`vcablk_disk_async_request` keeps the invariant under the interference of the completion handler, of
the backend and of the block layer, and leaves nothing behind: no context in hand and no entry
unpublished. Either it has published the whole request, or something went wrong.

The assertions follow the code. `Between` holds when no context is in hand: at the start, and
after a full part was published. `Holding` holds while a part is in preparation, with the entries
prepared so far; `Building` says what these entries are. `Failed` is what is known on the way to the
label `end`.
-/

namespace Vcass.BlockIo.Disk

open Conc RingCounter
open Function (update)

variable {s s' : Shared} {req : Request} {r c n : ℕ} {before segs : List ℕ}
  {pend : List VcablkRequest}

abbrev ThreadSafe {α : Type} (Q : α → Shared → Prop) (p : FProg α) (s : Shared) : Prop :=
  Prog.Safe sem Good ThreadRely ThreadGuar Q p s

/-! ## Assertions -/

/-- The segments `before` of the request are published, and nothing else of it is prepared. -/
structure Between (req : Request) (r : ℕ) (before : List ℕ) (s : Shared) : Prop where
  hand : s.hand = none
  cur : s.cur = some r
  get : s.requests[r]? = some req
  cut : Cut req (partsOf r s.parts) before
  unfinished : ∀ p ∈ s.parts, p.req = r → p.final = false
  pend : s.pend = []

/-- The part after the segments `before` is in preparation in context `c`, with `n` pages and the
entries `pend`. -/
structure Holding (req : Request) (r c : ℕ) (before : List ℕ) (n : ℕ) (pend : List VcablkRequest)
    (s : Shared) : Prop where
  hand : s.hand = some c
  cur : s.cur = some r
  get : s.requests[r]? = some req
  cut : Cut req (partsOf r s.parts) before
  unfinished : ∀ p ∈ s.parts, p.req = r → p.final = false
  pend : s.pend = pend
  ctx : s.ctx c = ⟨c + 1, none, n⟩

/-- The part in preparation carries the segments `segs`. -/
def Building (req : Request) (r c : ℕ) (before segs : List ℕ) (s : Shared) : Prop :=
  segs.length ≤ vcablkBioSplitSize ∧ ∃ lead data,
    Holding req r c before segs.length (lead ++ data) s ∧
    IsSync (req.doSync && before.isEmpty) (c + 1) lead ∧
    IsData req.type (c + 1) (req.sector + sectors before) segs data

/-- Something went wrong while the thread held `o`. -/
structure Failed (o : Option ℕ) (s : Shared) : Prop where
  hand : s.hand = o
  rough : ¬ Smooth s

/-- The thread holds nothing. -/
structure Quiet (s : Shared) : Prop where
  hand : s.hand = none
  pend : s.pend = []

theorem Between.stable (h : Between req r before s) (hs : ThreadRely s s') :
    Between req r before s' where
  hand := hs.hand.trans h.hand
  cur := hs.cur.trans h.cur
  get := getElem?_of_isPrefix hs.requests h.get
  cut := hs.parts ▸ h.cut
  unfinished := hs.parts ▸ h.unfinished
  pend := hs.pend.trans h.pend

theorem Holding.stable (h : Holding req r c before n pend s) (hs : ThreadRely s s') :
    Holding req r c before n pend s' where
  hand := hs.hand.trans h.hand
  cur := hs.cur.trans h.cur
  get := getElem?_of_isPrefix hs.requests h.get
  cut := hs.parts ▸ h.cut
  unfinished := hs.parts ▸ h.unfinished
  pend := hs.pend.trans h.pend
  ctx := (hs.ctx c h.hand).trans h.ctx

theorem Building.stable (h : Building req r c before segs s) (hs : ThreadRely s s') :
    Building req r c before segs s' := by
  obtain ⟨hle, lead, data, hh, hlead, hdata⟩ := h
  exact ⟨hle, lead, data, hh.stable hs, hlead, hdata⟩

theorem Failed.stable {o : Option ℕ} (h : Failed o s) (hs : ThreadRely s s') : Failed o s' :=
  ⟨hs.hand.trans h.hand, fun hsm ↦ h.rough (hs.smooth hsm)⟩

theorem Quiet.stable (h : Quiet s) (hs : ThreadRely s s') : Quiet s' :=
  ⟨hs.hand.trans h.hand, hs.pend.trans h.pend⟩

theorem failed_fault {f : Fault} {o : Option ℕ} (h : s.hand = o) : Failed o (s.fault f) :=
  ⟨h, fun hs ↦ absurd hs.1 (by simp)⟩

/-! ## Single operations -/

theorem getBioContext_safe (h : Between req r before s) :
    ThreadSafe (fun o s ↦ match o with
      | none => Failed none s
      | some c => Holding req r c before 0 [] s) (call .getBioContext) s := by
  intro s₁ hs hI choice o s₂ hsem
  have h₁ := h.stable hs
  simp only [sem] at hsem
  split at hsem
  case h_1 i pool hpop =>
    rw [Option.some_inj, Prod.mk.injEq] at hsem
    obtain ⟨rfl, rfl⟩ := hsem
    obtain ⟨hgood, hguar⟩ := hI.getBioContext h₁.hand hpop
    refine ⟨hgood, hguar, fun s₃ hs₃ _ ↦ ?_⟩
    have hnew : Holding req r i before 0 [] (s₁.getBioContext i pool) :=
      ⟨rfl, h₁.cur, h₁.get, h₁.cut, h₁.unfinished, h₁.pend, Function.update_self ..⟩
    exact hnew.stable hs₃
  case h_2 =>
    split at hsem
    · rw [Option.some_inj, Prod.mk.injEq] at hsem
      obtain ⟨rfl, rfl⟩ := hsem
      refine ⟨hI.fault, ThreadGuar.fault, fun s₃ hs₃ _ ↦ ?_⟩
      exact (failed_fault h₁.hand).stable hs₃
    · simp at hsem

theorem Good.lastAdd_ne (h : Good s) (hpend : s.pend ≠ []) :
    s.ring.lastAdd ≠ s.requestRingAlloc := by
  have hroom := h.ring.room
  have hle := stream_take_le s.parts s.taken
  rw [h.ring.lastAdd, h.ring.alloc, ne_eq, count_eq_count (by decide) (Nat.le_add_right ..) (by omega)]
  have := List.length_pos_iff.mpr hpend
  omega

theorem Good.allocNext_slot (h : Good s) :
    vcaRbCounterToIdx s.requestRingAlloc vcablkQueueRequestsNums =
      slot vcablkQueueRequestsNums ((stream s.parts).length + s.pend.length) := by
  rw [h.ring.alloc, queueRequestsNums_eq, vcaRbCounterToIdx_count]

/-- The entry `vcablk_disk_request_step` fills in. -/
structure IsEntry (type : RequestType) (cookie : ℕ) (bvec : Option BioVec) (e : VcablkRequest) :
    Prop where
  type : e.requestType = type
  cookie : e.cookie = cookie
  data : ∀ v, bvec = some v → e.sector = v.sector ∧ e.sectorsNum = v.sectorsNum

theorem Holding.mapPage (h : Holding req r c before n pend s) :
    Holding req r c before (n + 1) pend (s.mapPage c) :=
  ⟨h.hand, h.cur, h.get, h.cut, h.unfinished, h.pend, by
    rw [Shared.mapPage_ctx, Function.update_self, h.ctx]⟩

theorem Good.mapPage (h : Good s) (hc : s.hand = some c) :
    Good (s.mapPage c) ∧ ThreadGuar s (s.mapPage c) :=
  ⟨h.updateCtx (h.hand hc).1, ThreadGuar.updateCtx (h.hand hc).2⟩

theorem ThreadGuar.trans {s₁ s₂ s₃ : Shared} (h : ThreadGuar s₁ s₂) (h' : ThreadGuar s₂ s₃) :
    ThreadGuar s₁ s₃ :=
  ⟨HandlerRely.isRely.trans h.1 h'.1, FetcherRely.isRely.trans h.2 h'.2⟩

theorem Holding.writeSlot {e e₀ : VcablkRequest} {i : ℕ}
    (h : Holding req r c before n (pend ++ [e₀]) s) :
    Holding req r c before n (pend ++ [e]) (s.writeSlot i e) :=
  ⟨h.hand, h.cur, h.get, h.cut, h.unfinished, by
    rw [Shared.writeSlot_pend, h.pend, List.dropLast_concat], h.ctx⟩

theorem putEntry_safe {type : RequestType} {bvec : Option BioVec} {i : ℕ} {e₀ : VcablkRequest}
    (h : Holding req r c before n (pend ++ [e₀]) s)
    (hslot : i = slot vcablkQueueRequestsNums ((stream s.parts).length + pend.length))
    (hn : bvec.isSome = true → n < vcablkBioSplitSize) :
    ThreadSafe (fun ret s ↦
      (ret = 0 ∧ ∃ e, IsEntry type (c + 1) bvec e ∧
        Holding req r c before (n + bvec.isSome.toNat) (pend ++ [e]) s) ∨
      (ret ≠ 0 ∧ Failed (some c) s)) (call (.putEntry i c type bvec)) s := by
  intro s₁ hs hI choice ret s₂ hsem
  have h₁ := h.stable hs
  have hwrite (e : VcablkRequest) : Good (s₁.writeSlot i e) ∧ ThreadGuar s₁ (s₁.writeSlot i e) := by
    refine hI.writeSlot (by simp [h₁.pend]) ?_
    rw [hslot, h₁.pend, hs.parts, List.length_append, List.length_singleton, ← add_assoc,
      Nat.add_sub_cancel]
  have hmap (e : VcablkRequest) : Good ((s₁.writeSlot i e).mapPage c) ∧
      ThreadGuar s₁ ((s₁.writeSlot i e).mapPage c) := by
    obtain ⟨hgood, hguar⟩ := (hwrite e).1.mapPage (c := c) h₁.hand
    exact ⟨hgood, (hwrite e).2.trans hguar⟩
  simp only [sem, Option.some_inj] at hsem
  cases bvec with
  | none =>
    simp only [putEntry] at hsem
    obtain ⟨rfl, rfl⟩ := Prod.mk.inj hsem
    refine ⟨(hwrite _).1, (hwrite _).2, fun s₃ hs₃ _ ↦ ?_⟩
    refine .inl ⟨rfl, _, ⟨rfl, ?_, by simp⟩, (h₁.writeSlot (i := i)).stable hs₃⟩
    exact congrArg BioContext.id h₁.ctx
  | some v =>
    have hroom : ¬ vcablkBioSplitSize ≤ (s₁.ctx c).bvecCtxsIdx := by
      rw [h₁.ctx]
      exact not_le.mpr (hn rfl)
    simp only [putEntry, if_neg hroom] at hsem
    split at hsem
    · obtain ⟨rfl, rfl⟩ := Prod.mk.inj hsem
      refine ⟨(hwrite _).1.fault, (hwrite _).2.trans ThreadGuar.fault, fun s₃ hs₃ _ ↦ ?_⟩
      refine .inr ⟨(by decide : -enomem ≠ 0), Failed.stable (failed_fault ?_) hs₃⟩
      exact h₁.hand
    · split at hsem
      · obtain ⟨rfl, rfl⟩ := Prod.mk.inj hsem
        refine ⟨(hmap _).1.fault, (hmap _).2.trans ThreadGuar.fault, fun s₃ hs₃ _ ↦ ?_⟩
        refine .inr ⟨(by decide : -enomem ≠ 0), Failed.stable (failed_fault ?_) hs₃⟩
        exact h₁.hand
      · obtain ⟨rfl, rfl⟩ := Prod.mk.inj hsem
        refine ⟨(hmap _).1, (hmap _).2, fun s₃ hs₃ _ ↦ ?_⟩
        refine .inl ⟨rfl, _, ⟨rfl, ?_, ?_⟩, (h₁.writeSlot (i := i)).mapPage.stable hs₃⟩
        · exact congrArg BioContext.id h₁.ctx
        · rintro w ⟨rfl⟩
          exact ⟨rfl, rfl⟩

/-- **One entry** is added to the part in preparation. -/
theorem vcablkDiskRequestStep_safe {type : RequestType} {bvec : Option BioVec}
    (h : Holding req r c before n pend s) (hn : bvec.isSome = true → n < vcablkBioSplitSize) :
    ThreadSafe (fun ret s ↦
      (ret = 0 ∧ ∃ e, IsEntry type (c + 1) bvec e ∧
        Holding req r c before (n + bvec.isSome.toNat) (pend ++ [e]) s) ∨
      (ret ≠ 0 ∧ Failed (some c) s)) (vcablkDiskRequestStep c type bvec) s := by
  intro s₁ hs hI choice o s₂ hsem
  have h₁ := h.stable hs
  simp only [sem] at hsem
  split at hsem
  · split at hsem
    · rw [Option.some_inj, Prod.mk.injEq] at hsem
      obtain ⟨rfl, rfl⟩ := hsem
      refine ⟨hI.fault, ThreadGuar.fault, fun s₃ hs₃ _ ↦ ?_⟩
      refine .inr ⟨by decide, Failed.stable (failed_fault ?_) hs₃⟩
      exact h₁.hand
    · simp at hsem
  case isFalse hfull =>
    rw [Option.some_inj, Prod.mk.injEq] at hsem
    obtain ⟨rfl, rfl⟩ := hsem
    obtain ⟨hgood, hguar⟩ := hI.allocNext (Bool.eq_false_iff.mpr hfull)
    refine ⟨hgood, hguar, ?_⟩
    have hnew : Holding req r c before n (pend ++
        [s₁.ring.elems (vcaRbCounterToIdx s₁.requestRingAlloc vcablkQueueRequestsNums)])
        s₁.allocNext :=
      ⟨h₁.hand, h₁.cur, h₁.get, h₁.cut, h₁.unfinished, by rw [Shared.allocNext_pend, h₁.pend],
        h₁.ctx⟩
    refine putEntry_safe hnew ?_ hn
    rw [hI.allocNext_slot, h₁.pend]
    rfl

/-! ## Publication -/

theorem Holding.partOf {lead data trail : List VcablkRequest} {final : Bool}
    (h : Holding req r c before segs.length pend s)
    (hlead : IsSync (req.doSync && before.isEmpty) (c + 1) lead)
    (hdata : IsData req.type (c + 1) (req.sector + sectors before) segs data)
    (htrail : IsSync (req.doSync && final) (c + 1) trail) (hpend : s.pend = lead ++ data ++ trail)
    (hfinal : (s.nextPart r).final = final) (hle : segs.length ≤ vcablkBioSplitSize)
    (hfull : final = false → segs.length = vcablkBioSplitSize) :
    PartOf req before segs (s.nextPart r) := by
  have hcookie : (s.nextPart r).cookie = c + 1 := by
    rw [Part.cookie, Shared.nextPart, h.hand]
    rfl
  refine ⟨⟨lead, data, trail, hpend, ?_, ?_, ?_⟩, hle, fun hf ↦ hfull (hfinal ▸ hf)⟩
  · rw [hcookie]
    exact hlead
  · rw [hcookie]
    exact hdata
  · rw [hcookie, hfinal]
    exact htrail

theorem IsData.length_eq {type : RequestType} {cookie sector : ℕ} {lens : List ℕ}
    {es : List VcablkRequest} (h : IsData type cookie sector lens es) : es.length = lens.length := by
  induction lens generalizing sector es with
  | nil =>
    cases es with
    | nil => rfl
    | cons e es => exact h.elim
  | cons len lens ih =>
    cases es with
    | nil => exact h.elim
    | cons e es => exact congrArg (· + 1) (ih h.2.2.2.2)

theorem IsData.cookie {type : RequestType} {cookie sector : ℕ} {lens : List ℕ}
    {es : List VcablkRequest} (h : IsData type cookie sector lens es) :
    ∀ e ∈ es, e.cookie = cookie := by
  induction lens generalizing sector es with
  | nil =>
    cases es with
    | nil => simp
    | cons e es => exact h.elim
  | cons len lens ih =>
    cases es with
    | nil => exact h.elim
    | cons e es =>
      intro x hx
      rcases List.mem_cons.mp hx with rfl | hx
      · exact h.2.1
      · exact ih h.2.2.2.2 x hx

theorem IsData.snoc {type : RequestType} {cookie sector len : ℕ} {lens : List ℕ}
    {es : List VcablkRequest} {e : VcablkRequest} (h : IsData type cookie sector lens es)
    (he : IsEntry type cookie (some ⟨sector + sectors lens, len >>> sectorShift, len⟩) e) :
    IsData type cookie sector (lens ++ [len]) (es ++ [e]) := by
  induction lens generalizing sector es with
  | nil =>
    cases es with
    | nil =>
      obtain ⟨hsec, hnum⟩ := he.data _ rfl
      exact ⟨he.type, he.cookie, hsec.trans (by simp [sectors]), hnum, trivial⟩
    | cons e es => exact h.elim
  | cons l lens ih =>
    cases es with
    | nil => exact h.elim
    | cons e' es =>
      refine ⟨h.1, h.2.1, h.2.2.1, h.2.2.2.1, ih h.2.2.2.2 ?_⟩
      rw [add_assoc]
      exact he

theorem isSync_nil {cookie : ℕ} : IsSync false cookie [] := ⟨rfl, by simp⟩

theorem requestStart_safe (h : Building req r c before segs s)
    (hfull : segs.length = vcablkBioSplitSize) :
    ThreadSafe (fun ret s ↦ ret = 0 ∧ Between req r (before ++ segs) s)
      (call (.requestStart r)) s := by
  intro s₁ hs hI choice ret s₂ hsem
  obtain ⟨hle, lead, data, h₁, hlead, hdata⟩ := h.stable hs
  have hlen : s₁.pend.length = lead.length + segs.length := by
    rw [h₁.pend, List.length_append, hdata.length_eq]
  have hpos : s₁.pend ≠ [] := by
    intro hnil
    rw [hnil, hfull] at hlen
    exact absurd hlen (by simp [vcablkBioSplitSize])
  simp only [sem, if_neg (hI.lastAdd_ne hpos), Option.some_inj] at hsem
  obtain ⟨rfl, rfl⟩ := Prod.mk.inj hsem
  have hnone : (s₁.ctx c).req = none := congrArg BioContext.req h₁.ctx
  have hready : Ready s₁ r c := by
    refine ⟨h₁.hand, h₁.cur, fun e he ↦ ?_, ?_, .inl hnone, h₁.unfinished, fun hreq ↦ ?_⟩
    · rw [h₁.pend] at he
      rcases List.mem_append.mp he with he | he
      · exact (hlead.2 e he).2
      · exact hdata.cookie e he
    · have := hlead.1
      have := Bool.toNat_le (req.doSync && before.isEmpty)
      omega
    · exact absurd (hnone.symm.trans hreq) (by simp)
  have hfinal : (s₁.nextPart r).final = false := by
    rw [Bool.eq_false_iff, ne_eq, hready.final_iff, hnone]
    simp
  obtain ⟨hgood, hguar⟩ := hI.publish hready (hI.lastAdd_ne hpos)
  refine ⟨hgood, hguar, fun s₃ hs₃ _ ↦ ⟨rfl, ?_⟩⟩
  have hnew : Between req r (before ++ segs) (s₁.publish r) := by
    refine ⟨rfl, ?_, h₁.get, ?_, fun p hp hpr ↦ ?_, rfl⟩
    · rw [Shared.publish_cur, hfinal]
      exact h₁.cur
    · have hreq : (s₁.nextPart r).req = r := rfl
      rw [Shared.publish_parts, partsOf_snoc, if_pos hreq]
      have htrail : IsSync (req.doSync && false) (c + 1) [] := by
        rw [Bool.and_false]
        exact isSync_nil
      refine .snoc h₁.cut (h₁.partOf hlead hdata htrail ?_ hfinal hle fun _ ↦ hfull)
      rw [List.append_nil]
      exact h₁.pend
    · rcases List.mem_append.mp hp with hp | hp
      · exact h₁.unfinished p hp hpr
      · rw [List.mem_singleton.mp hp]
        exact hfinal
  exact hnew.stable hs₃

/-! ## The loop over the segments -/

theorem vcablkDiskRequestSplit_safe {previous : Option ℕ} (h : Building req r c before segs s) :
    ThreadSafe (fun res s ↦
      (res.ret = 0 ∧ ∃ c' before' segs', res.context = some c' ∧
        Building req r c' before' segs' s ∧ segs'.length < vcablkBioSplitSize ∧
        before' ++ segs' = before ++ segs) ∨
      (res.ret ≠ 0 ∧ Failed res.context s)) (vcablkDiskRequestSplit r previous c) s := by
  intro s₁ hs hI choice idx s₂ hsem
  simp only [sem, Option.some_inj] at hsem
  obtain ⟨rfl, rfl⟩ := Prod.mk.inj hsem
  refine ⟨hI, ⟨HandlerRely.isRely.refl _, FetcherRely.isRely.refl _⟩, ?_⟩
  have h₁ := h.stable hs
  obtain ⟨hle, lead, data, hh, hlead, hdata⟩ := h.stable hs
  rw [hh.ctx]
  dsimp only [Prog.bind]
  split
  case isTrue hge =>
    refine Prog.Safe.bind ThreadRely.isRely
      ((requestStart_safe h₁ (le_antisymm hle hge)).mono fun ret s₂ hI₂ ⟨hret, hb⟩ ↦ ?_)
    rw [if_neg (not_not.mpr hret)]
    refine Prog.Safe.bind ThreadRely.isRely ((getBioContext_safe hb).mono fun o s₃ hI₃ hpost ↦ ?_)
    cases o with
    | none => exact fun s₄ hs₄ _ ↦ .inr ⟨by simp [eio], hpost.stable hs₄⟩
    | some c' =>
      -- the part after a full one starts without a SYNC entry and without segments
      have hnew : Building req r c' (before ++ segs) [] s₃ := by
        refine ⟨Nat.zero_le _, [], [], hpost, ?_, trivial⟩
        have hne : (before ++ segs).isEmpty = false := by
          rw [List.isEmpty_eq_false_iff, ← List.length_pos_iff, List.length_append]
          exact (Nat.lt_of_lt_of_le (by decide) hge).trans_le (Nat.le_add_left ..)
        rw [hne, Bool.and_false]
        exact isSync_nil
      intro s₄ hs₄ _
      exact .inl ⟨rfl, c', before ++ segs, [], rfl, hnew.stable hs₄, by decide, List.append_nil _⟩
  case isFalse hlt =>
    intro s₃ hs₃ _
    exact .inl ⟨rfl, c, before, segs, rfl, h₁.stable hs₃, not_le.mp hlt, rfl⟩

theorem sectors_append (l l' : List ℕ) : sectors (l ++ l') = sectors l + sectors l' := by
  simp [sectors]

theorem sectors_singleton (len : ℕ) : sectors [len] = len >>> sectorShift := by simp [sectors]

theorem Building.snoc {len : ℕ} (h : Building req r c before segs s)
    (hlt : segs.length < vcablkBioSplitSize) :
    ThreadSafe (fun ret s ↦ (ret = 0 ∧ Building req r c before (segs ++ [len]) s) ∨
        (ret ≠ 0 ∧ Failed (some c) s))
      (vcablkDiskRequestStep c req.type
        (some ⟨req.sector + sectors (before ++ segs), len >>> sectorShift, len⟩)) s := by
  obtain ⟨hle, lead, data, hh, hlead, hdata⟩ := h
  refine (vcablkDiskRequestStep_safe hh fun _ ↦ hlt).mono fun ret s₂ _ hpost ↦ ?_
  rcases hpost with ⟨hret, e, he, hh₂⟩ | hfail
  · refine .inl ⟨hret, ?_, lead, data ++ [e], ?_, hlead, hdata.snoc ?_⟩
    · rw [List.length_append]
      exact hlt
    · rw [List.length_append, ← List.append_assoc]
      exact hh₂
    · rw [add_assoc, ← sectors_append]
      exact he
  · exact .inr hfail

/-- The state after the loop: what the current part carries ends the request. -/
structure Looped (req : Request) (r c : ℕ) (before segs : List ℕ) (s : Shared) : Prop where
  building : Building req r c before segs s
  total : before ++ segs = req.segments
  nonempty : segs = [] → before = []

/-- **The loop** distributes the segments over parts. -/
theorem vcablkDiskRequestLoop_safe {rest : List ℕ} {previous : Option ℕ}
    (h : Building req r c before segs s) (hne : segs = [] → before = [])
    (htotal : before ++ segs ++ rest = req.segments) :
    ThreadSafe (fun res s ↦
      (res.ret = 0 ∧ ∃ c' before' segs', res.context = some c' ∧ Looped req r c' before' segs' s) ∨
      (res.ret ≠ 0 ∧ Failed res.context s))
      (vcablkDiskRequestLoop r req.type rest (req.sector + sectors (before ++ segs)) previous c)
      s := by
  induction rest generalizing s c before segs previous with
  | nil =>
    intro s₁ hs _
    rw [List.append_nil] at htotal
    exact .inl ⟨rfl, c, before, segs, rfl, h.stable hs, htotal, hne⟩
  | cons len rest ih =>
    refine Prog.Safe.bind ThreadRely.isRely
      ((vcablkDiskRequestSplit_safe h).mono fun split s₂ _ hpost ↦ ?_)
    rcases hpost with ⟨hret, c', before', segs', hctx, hb, hlt, heq⟩ | ⟨hret, hfail⟩
    · rw [hctx]
      dsimp only
      rw [if_neg (not_not.mpr hret), ← heq]
      refine Prog.Safe.bind ThreadRely.isRely ((hb.snoc hlt).mono fun ret s₃ _ hstep ↦ ?_)
      rcases hstep with ⟨rfl, hb₃⟩ | ⟨hne₃, hfail⟩
      · rw [if_neg (not_not.mpr rfl), add_assoc, ← sectors_singleton, ← sectors_append,
          List.append_assoc before']
        refine ih hb₃ (by simp) ?_
        rw [← htotal, ← heq]
        simp
      · rw [if_pos hne₃]
        exact fun s₄ hs₄ _ ↦ .inr ⟨hne₃, hfail.stable hs₄⟩
    · cases hctx : split.context with
      | none =>
        rw [hctx] at hfail
        exact fun s₃ hs₃ _ ↦ .inr ⟨hret, hctx ▸ hfail.stable hs₃⟩
      | some c' =>
        dsimp only
        rw [if_pos hret]
        exact fun s₃ hs₃ _ ↦ .inr ⟨hret, hfail.stable hs₃⟩

/-! ## The whole request -/

theorem vcablkDiskRequestSync_safe {doSync : Bool} (h : Holding req r c before n pend s) :
    ThreadSafe (fun ret s ↦
      (ret = 0 ∧ ∃ sync, IsSync doSync (c + 1) sync ∧
        Holding req r c before n (pend ++ sync) s) ∨
      (ret ≠ 0 ∧ Failed (some c) s)) (vcablkDiskRequestSync doSync c) s := by
  rw [vcablkDiskRequestSync]
  split
  case isTrue hdo =>
    refine Prog.Safe.bind ThreadRely.isRely ((vcablkDiskRequestStep_safe h
      (by simp)).mono fun ret s₂ _ hpost ↦ ?_)
    intro s₃ hs₃ _
    rcases hpost with ⟨rfl, e, he, hh⟩ | ⟨hret, hfail⟩
    · refine .inl ⟨rfl, [e], ⟨by rw [hdo]; rfl, fun x hx ↦ ?_⟩, hh.stable hs₃⟩
      rw [List.mem_singleton.mp hx]
      exact ⟨he.type, he.cookie⟩
    · refine .inr ⟨?_, hfail.stable hs₃⟩
      rw [if_pos hret]
      decide
  case isFalse hdo =>
    intro s₂ hs₂ _
    refine .inl ⟨rfl, [], ⟨by rw [Bool.eq_false_iff.mpr hdo]; rfl, by simp⟩, ?_⟩
    rw [List.append_nil]
    exact h.stable hs₂

theorem vcablkDiskRequestClean_safe (h : Failed (some c) s) (hpend : s.pend = []) :
    ThreadSafe (fun _ s ↦ Quiet s ∧ ¬ Smooth s) (vcablkDiskRequestClean c) s := by
  intro s₁ hs hI _ _ s₂ hsem
  have h₁ := h.stable hs
  simp only [sem, Option.some_inj] at hsem
  obtain ⟨-, rfl⟩ := Prod.mk.inj hsem
  refine ⟨hI.updateCtx (hI.hand h₁.hand).1, ThreadGuar.updateCtx (hI.hand h₁.hand).2, ?_⟩
  intro s₃ hs₃ hI₃ _ _ s₄ hsem
  have hfailed : Failed (some c) (s₁.unmapPages c) := ⟨h₁.hand, h₁.rough⟩
  have h₃ := hfailed.stable hs₃
  simp only [sem] at hsem
  split at hsem
  · simp at hsem
  case h_2 pool hpush =>
    rw [Option.some_inj] at hsem
    obtain ⟨-, rfl⟩ := Prod.mk.inj hsem
    refine ⟨hI₃.poolPush (.inl h₃.hand) hpush, ThreadGuar.poolPush (hI₃.hand h₃.hand).2, ?_⟩
    intro s₅ hs₅ _
    have hquiet : Quiet (s₃.poolPush c pool) :=
      ⟨if_pos h₃.hand, hs₃.pend.trans (hs.pend.trans hpend)⟩
    exact ⟨hquiet.stable hs₅, fun hsm ↦ h₃.rough (hs₅.smooth hsm)⟩

theorem vcablkDiskRequestBreak_safe {o : Option ℕ} (h : Failed o s) :
    ThreadSafe (fun _ s ↦ Quiet s ∧ ¬ Smooth s) (vcablkDiskRequestBreak o) s := by
  intro s₁ hs hI choice _ s₂ hsem
  have h₁ := h.stable hs
  simp only [sem, Option.some_inj] at hsem
  obtain ⟨-, rfl⟩ := Prod.mk.inj hsem
  obtain ⟨hgood, hguar⟩ := hI.resetAlloc
  refine ⟨hgood, hguar, ?_⟩
  cases o with
  | none =>
    intro s₃ hs₃ _
    have hquiet : Quiet s₁.resetAlloc := ⟨h₁.hand, rfl⟩
    exact ⟨hquiet.stable hs₃, fun hsm ↦ h₁.rough (hs₃.smooth hsm)⟩
  | some c =>
    have hfailed : Failed (some c) s₁.resetAlloc := ⟨h₁.hand, h₁.rough⟩
    exact vcablkDiskRequestClean_safe hfailed rfl

/-- The thread is through with its request; it returns a context to wait for only after an error. -/
structure Served (res : Option ℕ) (s : Shared) : Prop where
  quiet : Quiet s
  cur : Smooth s → s.cur = none
  rough : res ≠ none → ¬ Smooth s

theorem Served.stable {res : Option ℕ} (h : Served res s) (hs : ThreadRely s s') : Served res s' :=
  ⟨h.quiet.stable hs, fun hsm ↦ hs.cur.trans (h.cur (hs.smooth hsm)),
    fun hres hsm ↦ h.rough hres (hs.smooth hsm)⟩

theorem served_of_failed {o res : Option ℕ} (h : Failed o s) :
    ThreadSafe Served (vcablkDiskRequestBreak o >>= fun _ ↦ pure res) s := by
  refine Prog.Safe.bind ThreadRely.isRely
    ((vcablkDiskRequestBreak_safe h).mono fun _ s₂ _ ⟨hquiet, hrough⟩ ↦ ?_)
  intro s₃ hs₃ _
  exact Served.stable ⟨hquiet, fun hsm ↦ absurd hsm hrough, fun _ ↦ hrough⟩ hs₃

/-- What is prepared when the last part is about to be published. -/
structure Final (req : Request) (r c : ℕ) (before segs : List ℕ)
    (lead data trail : List VcablkRequest) (s : Shared) : Prop where
  holding : Holding req r c before segs.length (lead ++ data ++ trail) s
  lead : IsSync (req.doSync && before.isEmpty) (c + 1) lead
  data : IsData req.type (c + 1) (req.sector + sectors before) segs data
  trail : IsSync req.doSync (c + 1) trail
  length_le : segs.length ≤ vcablkBioSplitSize
  total : before ++ segs = req.segments
  nonempty : segs = [] → before = []

variable {lead data trail : List VcablkRequest}

theorem Final.not_smooth (h : Final req r c before segs lead data trail s)
    (hnil : lead ++ data ++ trail = []) : ¬ Smooth s := by
  intro hsm
  obtain ⟨hld, htrail⟩ := List.append_eq_nil_iff.mp hnil
  obtain ⟨-, hdata⟩ := List.append_eq_nil_iff.mp hld
  have hsegs : segs = [] := by
    rw [← List.length_eq_zero_iff, ← h.data.length_eq, hdata]
    rfl
  rcases hsm.2 req (List.mem_of_getElem? h.holding.get) with hseg | hsync
  · refine hseg ?_
    rw [← h.total, hsegs, h.nonempty hsegs]
    rfl
  · have := h.trail.1
    rw [htrail, hsync] at this
    simp at this

theorem Final.complete (h : Final req r c before segs lead data trail s)
    (hreq : s'.ctx c = ⟨c + 1, some r, segs.length⟩) (hhand : s'.hand = some c)
    (hpend : s'.pend = s.pend) (hparts : s'.parts = s.parts) :
    Complete req (partsOf r s'.parts ++ [s'.nextPart r]) := by
  have hfinal : (s'.nextPart r).final = true := by
    rw [Shared.nextPart, hhand]
    simp [hreq]
  have hcookie : (s'.nextPart r).cookie = c + 1 := by
    rw [Part.cookie, Shared.nextPart, hhand]
    rfl
  rw [hparts]
  refine ⟨?_, partsOf r s.parts, s'.nextPart r, rfl, hfinal, fun p hp ↦ ?_⟩
  · rw [← h.total]
    refine .snoc h.holding.cut ⟨⟨lead, data, trail, ?_, ?_, ?_, ?_⟩, h.length_le, fun hf ↦ ?_⟩
    · exact hpend.trans h.holding.pend
    · rw [hcookie]
      exact h.lead
    · rw [hcookie]
      exact h.data
    · rw [hcookie, hfinal, Bool.and_true]
      exact h.trail
    · rw [hfinal] at hf
      exact absurd hf (by simp)
  · obtain ⟨hp, hpr⟩ := List.mem_filter.mp hp
    exact h.holding.unfinished p hp (of_decide_eq_true hpr)

/-- The last part is published and the thread is done, or there was nothing to publish. -/
theorem Final.publish_safe {previous : Option ℕ}
    (h : Final req r c before segs lead data trail s) :
    ThreadSafe Served (do
      call (.setReq c r)
      let ret ← call (.requestStart r)
      if ret ≠ 0 then
        vcablkDiskRequestBreak (some c)
        pure previous
      else
        pure none) s := by
  intro s₁ hs hI _ _ s₂ hsem
  simp only [sem, Option.some_inj] at hsem
  obtain ⟨-, rfl⟩ := Prod.mk.inj hsem
  have hh := h.holding.stable hs
  refine ⟨hI.updateCtx (hI.hand hh.hand).1, ThreadGuar.updateCtx (hI.hand hh.hand).2, ?_⟩
  intro s₃ hs₃ hI₃ _ ret s₄ hsem
  have hctx : s₃.ctx c = ⟨c + 1, some r, segs.length⟩ := by
    rw [hs₃.ctx c hh.hand, Shared.setReq_ctx, Function.update_self, hh.ctx]
  have hhand : s₃.hand = some c := hs₃.hand.trans hh.hand
  have hpend : s₃.pend = lead ++ data ++ trail := hs₃.pend.trans hh.pend
  simp only [sem] at hsem
  split at hsem
  case isTrue hempty =>
    rw [Option.some_inj] at hsem
    obtain ⟨rfl, rfl⟩ := Prod.mk.inj hsem
    have hnil : s₃.pend = [] := by
      by_contra hne
      exact hI₃.lastAdd_ne hne hempty
    refine ⟨hI₃, ⟨HandlerRely.isRely.refl _, FetcherRely.isRely.refl _⟩, ?_⟩
    have hfailed : Failed (some c) s₃ :=
      ⟨hhand, fun hsm ↦ h.not_smooth (hpend ▸ hnil) (hs.smooth (hs₃.smooth hsm))⟩
    exact served_of_failed hfailed
  case isFalse hne =>
    rw [Option.some_inj] at hsem
    obtain ⟨rfl, rfl⟩ := Prod.mk.inj hsem
    have hparts : s₃.parts = s.parts := hs₃.parts.trans hs.parts
    have hready : Ready s₃ r c := by
      refine ⟨hhand, hs₃.cur.trans hh.cur, fun e he ↦ ?_, ?_, .inr (by rw [hctx]), ?_, fun _ ↦ ?_⟩
      · rw [hpend, List.append_assoc] at he
        rcases List.mem_append.mp he with he | he
        · exact (h.lead.2 e he).2
        · rcases List.mem_append.mp he with he | he
          · exact h.data.cookie e he
          · exact (h.trail.2 e he).2
      · have hlead := h.lead.1
        have htrail := h.trail.1
        have := Bool.toNat_le (req.doSync && before.isEmpty)
        have := Bool.toNat_le req.doSync
        have := h.length_le
        rw [hpend, List.length_append, List.length_append, h.data.length_eq]
        omega
      · rw [hparts]
        exact h.holding.unfinished
      · exact ⟨req, getElem?_of_isPrefix hs₃.requests hh.get,
          h.complete hctx hhand (hpend.trans h.holding.pend.symm) hparts⟩
    obtain ⟨hgood, hguar⟩ := hI₃.publish hready hne
    refine ⟨hgood, hguar, ?_⟩
    intro s₅ hs₅ _
    have hserved : Served none (s₃.publish r) := by
      refine ⟨⟨rfl, rfl⟩, fun _ ↦ ?_, fun hne ↦ absurd rfl hne⟩
      rw [Shared.publish_cur, if_pos (hready.final_iff.mpr (by rw [hctx]))]
    exact hserved.stable hs₅

/-- **The request thread** serves a request. -/
theorem vcablkDiskAsyncRequest_safe (h : Between req r [] s) :
    ThreadSafe Served (vcablkDiskAsyncRequest r req) s := by
  refine Prog.Safe.bind ThreadRely.isRely ((getBioContext_safe h).mono fun o s₁ _ hpost ↦ ?_)
  cases o with
  | none => exact served_of_failed hpost
  | some c =>
    refine Prog.Safe.bind ThreadRely.isRely
      ((vcablkDiskRequestSync_safe hpost).mono fun ret s₂ _ hsync ↦ ?_)
    rcases hsync with ⟨hret, lead, hlead, hh⟩ | ⟨hret, hfail⟩
    · rw [if_neg (not_not.mpr hret)]
      have hb : Building req r c [] [] s₂ := by
        refine ⟨Nat.zero_le _, lead, [], ?_, ?_, trivial⟩
        · rw [List.append_nil]
          exact hh
        · rw [List.isEmpty_nil, Bool.and_true]
          exact hlead
      refine Prog.Safe.bind ThreadRely.isRely
        ((vcablkDiskRequestLoop_safe hb (fun _ ↦ rfl) rfl).mono fun res s₃ _ hloop ↦ ?_)
      rcases hloop with ⟨hret, c', before, segs, hctx, hl⟩ | ⟨hret, hfail⟩
      · rw [hctx]
        dsimp only
        rw [if_neg (not_not.mpr hret)]
        obtain ⟨hle, lead', data, hh', hlead', hdata⟩ := hl.building
        refine Prog.Safe.bind ThreadRely.isRely
          ((vcablkDiskRequestSync_safe hh').mono fun ret s₄ _ hsync ↦ ?_)
        rcases hsync with ⟨hret, trail, htrail, hh''⟩ | ⟨hret, hfail⟩
        · rw [if_neg (not_not.mpr hret)]
          exact Final.publish_safe ⟨hh'', hlead', hdata, htrail, hle, hl.total, hl.nonempty⟩
        · rw [if_pos hret]
          exact served_of_failed hfail
      · cases hctx : res.context with
        | none => exact served_of_failed (hctx ▸ hfail)
        | some c' =>
          dsimp only
          rw [if_pos hret]
          exact served_of_failed (hctx ▸ hfail)
    · rw [if_pos hret]
      exact served_of_failed hfail

/-- The loop behind the label `end` ends the request as often as it finds the context in use. -/
theorem vcablkDiskRequestEndLoop_safe {previous : ℕ} (hquiet : Quiet s) (hrough : ¬ Smooth s) :
    ThreadSafe Served (vcablkDiskRequestEndLoop r previous) s := by
  have hserved {t : Shared} (hq : Quiet t) (hr : ¬ Smooth t) (res : Option ℕ) : Served res t :=
    ⟨hq, fun hsm ↦ absurd hsm hr, fun _ ↦ hr⟩
  intro s₁ hs hI _ idx s₂ hsem
  simp only [sem, Option.some_inj] at hsem
  obtain ⟨rfl, rfl⟩ := Prod.mk.inj hsem
  refine ⟨hI, ⟨HandlerRely.isRely.refl _, FetcherRely.isRely.refl _⟩, ?_⟩
  have hquiet₁ := hquiet.stable hs
  have hrough₁ : ¬ Smooth s₁ := fun hsm ↦ hrough (hs.smooth hsm)
  dsimp only [Prog.bind]
  split
  · intro s₂ hs₂ hI₂ _ _ s₃ hsem
    simp only [sem, Option.some_inj] at hsem
    obtain ⟨-, rfl⟩ := Prod.mk.inj hsem
    have hrough₂ : ¬ Smooth s₂ := fun hsm ↦ hrough₁ (hs₂.smooth hsm)
    refine ⟨(hI₂.threadEnd hrough₂).1, (hI₂.threadEnd hrough₂).2, fun s₄ hs₄ _ ↦ ?_⟩
    have hquiet₂ := hquiet₁.stable hs₂
    have hended : Quiet (s₂.requestEnd none r (u8 (-eio))) := ⟨hquiet₂.hand, hquiet₂.pend⟩
    exact (hserved hended hrough₂ _).stable hs₄
  · intro s₂ hs₂ _
    exact (hserved hquiet₁ hrough₁ none).stable hs₂

end Vcass.BlockIo.Disk
