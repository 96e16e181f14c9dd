import Vcass.BlockIo.Disk.Operations

/-!
# Block I/O frontend: the completion handler

`vcablk_disk_request_done` takes one answer of the backend. The answer to the last part of a request
ends the request; an error answered to another part is remembered in `split_request_error` until the
next request ends.

What the handler has done so far is determined by the answers that have arrived: `splitErrorOf` is
the error it remembers, and `EndedBy` says which answer ended a request and with which status. Both
are kept along with the invariant.
-/

namespace Vcass.BlockIo.Disk

open Conc

variable {s s' : Shared} {k ret : ℕ} {p : Part} {pre : List (ℕ × ℕ)}

/-! ## What the answers amount to -/

/-- The error remembered after one more answer. -/
def splitStep (parts : List Part) (err : ℕ) (a : ℕ × ℕ) : ℕ :=
  match parts[a.1]? with
  | none => err
  | some p => if p.final then 0 else if a.2 ≠ 0 then a.2 else err

/-- The error remembered after the answers `as`. -/
def splitErrorOf (parts : List Part) (as : List (ℕ × ℕ)) : ℕ := as.foldl (splitStep parts) 0

theorem splitErrorOf_snoc (parts : List Part) (a : ℕ × ℕ) :
    splitErrorOf parts (pre ++ [a]) = splitStep parts (splitErrorOf parts pre) a := by
  rw [splitErrorOf, List.foldl_append]
  rfl

theorem splitErrorOf_isPrefix {parts parts' : List Part} (h : parts <+: parts')
    (hlt : ∀ a ∈ pre, a.1 < parts.length) : splitErrorOf parts' pre = splitErrorOf parts pre := by
  refine List.foldl_ext _ _ _ fun err a ha ↦ ?_
  obtain ⟨t, rfl⟩ := h
  rw [splitStep, splitStep, List.getElem?_append_left (hlt a ha)]

/-- The call `e` of `vcablk_disk_request_end` was made for one of the answers `as`. -/
def EndedBy (parts : List Part) (as : List (ℕ × ℕ)) (e : End) : Prop :=
  ∃ pre k ret post p, as = pre ++ (k, ret) :: post ∧ parts[k]? = some p ∧ p.final = true ∧
    e.req = p.req ∧
    e.status = if splitErrorOf parts pre ≠ 0 then splitErrorOf parts pre else ret

/-- Every request the handler ended was ended by an answer. -/
def Explained (s : Shared) : Prop := ∀ e ∈ answered s, EndedBy s.parts s.arrivals e

theorem Good.arrivals_lt (h : Good s) : ∀ a ∈ s.arrivals, a.1 < s.parts.length := by
  intro a ha
  refine List.mem_range.mp (h.parts.heard.mem_iff.mp (List.mem_append_left _ ?_))
  exact List.mem_map_of_mem ha

theorem Explained.stable (h : Explained s) (hI : Good s) (hs : HandlerRely s s') :
    Explained s' := by
  intro e he
  rw [hs.answered] at he
  rw [hs.arrivals]
  obtain ⟨pre, k, ret, post, p, has, hp, hfinal, hreq, hstatus⟩ := h e he
  refine ⟨pre, k, ret, post, p, has, getElem?_of_isPrefix hs.parts hp, hfinal, hreq, ?_⟩
  have hlt : ∀ a ∈ pre, a.1 < s.parts.length := fun a ha ↦
    hI.arrivals_lt a (has ▸ List.mem_append_left _ ha)
  rw [splitErrorOf_isPrefix hs.parts hlt]
  exact hstatus

/-! ## The code -/

/-- What the handler keeps. -/
def HandlerInv (s : Shared) : Prop := Good s ∧ Explained s

abbrev HandlerSafe {α : Type} (Q : α → Shared → Prop) (p : FProg α) (s : Shared) : Prop :=
  Prog.Safe sem HandlerInv HandlerRely HandlerGuar Q p s

/-- The handler is at the answer `ret` to part `k`, after the answers `pre`, when `err` was
remembered. It still has to return the context `ctx` and to end the request `req`, and `split` stands
in `split_request_error`. -/
structure Handling (k : ℕ) (p : Part) (pre : List (ℕ × ℕ)) (ret err split : ℕ) (ctx req : Option ℕ)
    (s : Shared) : Prop where
  part : s.parts[k]? = some p
  arrivals : s.arrivals = pre ++ [(k, ret)]
  lt : ∀ a ∈ pre, a.1 < s.parts.length
  err : splitErrorOf s.parts pre = err
  split : s.splitRequestError = split
  ctx : s.handlingCtx = ctx
  req : s.handlingReq = req

/-- The handler is done with every answer that has arrived. -/
structure Rested (s : Shared) : Prop where
  ctx : s.handlingCtx = none
  req : s.handlingReq = none
  split : s.splitRequestError = splitErrorOf s.parts s.arrivals

variable {err split : ℕ} {ctx req : Option ℕ}

theorem Handling.stable (h : Handling k p pre ret err split ctx req s) (hs : HandlerRely s s') :
    Handling k p pre ret err split ctx req s' where
  part := getElem?_of_isPrefix hs.parts h.part
  arrivals := hs.arrivals.trans h.arrivals
  lt a ha := (h.lt a ha).trans_le hs.parts.length_le
  err := (splitErrorOf_isPrefix hs.parts h.lt).trans h.err
  split := hs.split.trans h.split
  ctx := hs.handlingCtx.trans h.ctx
  req := hs.handlingReq.trans h.req

theorem Rested.stable (h : Rested s) (hI : Good s) (hs : HandlerRely s s') : Rested s' := by
  refine ⟨hs.handlingCtx.trans h.ctx, hs.handlingReq.trans h.req, ?_⟩
  rw [hs.split, h.split, hs.arrivals, splitErrorOf_isPrefix hs.parts hI.arrivals_lt]

theorem Handling.splitErrorOf_arrivals (h : Handling k p pre ret err split ctx req s) :
    splitErrorOf s.parts s.arrivals = if p.final then 0 else if ret ≠ 0 then ret else err := by
  rw [h.arrivals, splitErrorOf_snoc, splitStep, h.part, h.err]

theorem requestEnd_safe {r ck status : ℕ} (h : Handling k p pre ret err 0 none (some r) s)
    (hfinal : p.final = true) (hr : p.req = r) (hstatus : status = if err ≠ 0 then err else ret) :
    HandlerSafe (fun _ s ↦ Rested s) (call (.requestEnd (some ck) r status)) s := by
  intro s₁ hs hI₁ _ _ s₂ hsem
  have h₁ := h.stable hs
  simp only [sem, Option.some_inj] at hsem
  obtain ⟨-, rfl⟩ := Prod.mk.inj hsem
  obtain ⟨hgood, hguar⟩ := hI₁.1.handlerEnd h₁.req
  refine ⟨⟨hgood, fun e he ↦ ?_⟩, hguar, fun s₃ hs₃ _ ↦ ?_⟩
  · simp only [answered, Shared.requestEnd_ends, List.filter_append, List.mem_append] at he
    rcases he with he | he
    · exact hI₁.2 e he
    · rw [show e = ⟨r, status, some ck⟩ by simpa using he]
      refine ⟨pre, k, ret, [], p, h₁.arrivals, h₁.part, hfinal, hr.symm, ?_⟩
      rw [Shared.requestEnd_parts, h₁.err]
      exact hstatus
  · have hrested : Rested (s₁.requestEnd (some ck) r status) :=
      ⟨h₁.ctx, rfl, h₁.split.trans (by rw [Shared.requestEnd_parts, Shared.requestEnd_arrivals,
        h₁.splitErrorOf_arrivals, if_pos hfinal])⟩
    exact hrested.stable hgood hs₃

theorem final_safe {r ck : ℕ} (h : Handling k p pre ret err err none (some r) s)
    (hfinal : p.final = true) (hr : p.req = r) :
    HandlerSafe (fun _ s ↦ Rested s) (do
      let err ← call .splitRequestError
      if err ≠ 0 then
        call (.setSplitRequestError 0)
        call (.requestEnd (some ck) r err)
      else
        call (.requestEnd (some ck) r ret)) s := by
  intro s₁ hs hI₁ _ _ s₂ hsem
  simp only [sem, Option.some_inj] at hsem
  obtain ⟨rfl, rfl⟩ := Prod.mk.inj hsem
  have h₁ := h.stable hs
  refine ⟨hI₁, ⟨ThreadRely.isRely.refl _, FetcherRely.isRely.refl _⟩, ?_⟩
  rw [h₁.split]
  dsimp only [Prog.bind]
  split
  case isTrue herr =>
    intro s₂ hs₂ hI₂ _ _ s₃ hsem
    have h₂ := h₁.stable hs₂
    simp only [sem, Option.some_inj] at hsem
    obtain ⟨-, rfl⟩ := Prod.mk.inj hsem
    refine ⟨⟨hI₂.1.setSplitRequestError.1, hI₂.2⟩, hI₂.1.setSplitRequestError.2, ?_⟩
    have h₃ : Handling k p pre ret err 0 none (some r) { s₂ with splitRequestError := 0 } :=
      ⟨h₂.part, h₂.arrivals, h₂.lt, h₂.err, rfl, h₂.ctx, h₂.req⟩
    exact requestEnd_safe h₃ hfinal hr (if_pos herr).symm
  case isFalse herr =>
    have hzero : err = 0 := not_not.mp herr
    rw [hzero] at h₁
    exact requestEnd_safe h₁ hfinal hr (if_neg (not_not.mpr rfl)).symm

theorem nonfinal_safe (h : Handling k p pre ret err err none none s) (hfinal : p.final = false) :
    HandlerSafe (fun _ s ↦ Rested s)
      (if ret ≠ 0 then call (.setSplitRequestError ret) else pure ()) s := by
  split
  case isTrue hret =>
    intro s₁ hs hI₁ _ _ s₂ hsem
    simp only [sem, Option.some_inj] at hsem
    obtain ⟨-, rfl⟩ := Prod.mk.inj hsem
    have h₁ := h.stable hs
    obtain ⟨hgood, hguar⟩ := hI₁.1.setSplitRequestError (s := s₁)
    refine ⟨⟨hgood, hI₁.2⟩, hguar, fun s₃ hs₃ _ ↦ ?_⟩
    have hrested : Rested { s₁ with splitRequestError := ret } := by
      refine ⟨h₁.ctx, h₁.req, ?_⟩
      rw [h₁.splitErrorOf_arrivals, hfinal, if_neg Bool.false_ne_true, if_pos hret]
    exact hrested.stable hgood hs₃
  case isFalse hret =>
    intro s₁ hs hI₁
    have h₁ := h.stable hs
    refine ⟨h₁.ctx, h₁.req, ?_⟩
    rw [h₁.split, h₁.splitErrorOf_arrivals, hfinal, if_neg Bool.false_ne_true, if_neg hret]

theorem vcablkDiskRequestClean_handler {c : ℕ} (h : Handling k p pre ret err split (some c) req s) :
    HandlerSafe (fun _ s ↦ Handling k p pre ret err split none req s) (vcablkDiskRequestClean c)
      s := by
  intro s₁ hs hI₁ _ _ s₂ hsem
  simp only [sem, Option.some_inj] at hsem
  obtain ⟨-, rfl⟩ := Prod.mk.inj hsem
  have h₁ := h.stable hs
  refine ⟨⟨hI₁.1.updateCtx (hI₁.1.handlingCtx h₁.ctx).1, hI₁.2⟩,
    HandlerGuar.updateCtx (hI₁.1.handlingCtx h₁.ctx).2, ?_⟩
  have h₂ : Handling k p pre ret err split (some c) req (s₁.unmapPages c) :=
    ⟨h₁.part, h₁.arrivals, h₁.lt, h₁.err, h₁.split, h₁.ctx, h₁.req⟩
  intro s₃ hs₃ hI₃ _ _ s₄ hsem
  have h₃ := h₂.stable hs₃
  simp only [sem] at hsem
  split at hsem
  · simp at hsem
  case h_2 pool hpush =>
    rw [Option.some_inj] at hsem
    obtain ⟨-, rfl⟩ := Prod.mk.inj hsem
    refine ⟨⟨hI₃.1.poolPush (.inr h₃.ctx) hpush, hI₃.2⟩,
      HandlerGuar.poolPush (hI₃.1.handlingCtx h₃.ctx).2, fun s₅ hs₅ _ ↦ ?_⟩
    have h₄ : Handling k p pre ret err split none req (s₃.poolPush c pool) :=
      ⟨h₃.part, h₃.arrivals, h₃.lt, h₃.err, h₃.split, if_pos h₃.ctx, h₃.req⟩
    exact h₄.stable hs₅

theorem Good.getById {c : ℕ} (h : Good s) (hc : s.handlingCtx = some c) :
    s.pool.vcablkPoolGetById c = some c := by
  obtain ⟨free, hholds, hnum, howned⟩ := h.parts.owned
  obtain ⟨hfree, -, -, hlt⟩ := howned.of_handling hc
  exact hholds.getById.mpr ⟨hnum.symm ▸ hlt, hfree⟩

/-- **The completion handler** takes an answer. -/
theorem vcablkDiskRequestDone_safe
    (h : Handling k p pre ret err err (some p.ctx) p.closes s)
    (hreq : (s.ctx p.ctx).req = p.closes) :
    HandlerSafe (fun _ s ↦ Rested s) (vcablkDiskRequestDone p.cookie ret) s := by
  have hcookie : p.cookie ≠ 0 := Nat.succ_ne_zero _
  rw [vcablkDiskRequestDone, if_pos hcookie]
  intro s₁ hs hI₁ _ o s₂ hsem
  simp only [sem, Option.some_inj] at hsem
  obtain ⟨rfl, rfl⟩ := Prod.mk.inj hsem
  have h₁ := h.stable hs
  refine ⟨hI₁, ⟨ThreadRely.isRely.refl _, FetcherRely.isRely.refl _⟩, ?_⟩
  have hget : s₁.pool.vcablkPoolGetById (p.cookie - 1) = some p.ctx := hI₁.1.getById h₁.ctx
  rw [hget]
  -- the request pointer is taken out of the context, which nobody else has touched
  intro s₂ hs₂ hI₂ _ o s₃ hsem
  simp only [sem, Option.some_inj] at hsem
  obtain ⟨rfl, rfl⟩ := Prod.mk.inj hsem
  have h₂ := h₁.stable hs₂
  have hreq₂ : (s₂.ctx p.ctx).req = p.closes := by
    rw [hs₂.ctx _ h₁.ctx, hs.ctx _ h.ctx, hreq]
  refine ⟨⟨hI₂.1.updateCtx (hI₂.1.handlingCtx h₂.ctx).1, hI₂.2⟩,
    HandlerGuar.updateCtx (hI₂.1.handlingCtx h₂.ctx).2, ?_⟩
  have h₃ : Handling k p pre ret err err (some p.ctx) p.closes (s₂.setReq p.ctx none) :=
    ⟨h₂.part, h₂.arrivals, h₂.lt, h₂.err, h₂.split, h₂.ctx, h₂.req⟩
  rw [hreq₂]
  dsimp only [Prog.bind]
  refine Prog.Safe.bind HandlerRely.isRely
    ((vcablkDiskRequestClean_handler h₃).mono fun _ s₄ _ h₄ ↦ ?_)
  cases hfinal : p.final with
  | true =>
    rw [Part.closes, if_pos hfinal] at h₄ ⊢
    exact final_safe h₄ hfinal rfl
  | false =>
    have hcloses : p.closes = none := by simp [Part.closes, hfinal]
    rw [hcloses] at h₄ ⊢
    exact nonfinal_safe h₄ hfinal

end Vcass.BlockIo.Disk
