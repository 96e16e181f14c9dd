import Vcass.BlockIo.Bcknd.Answers

/-!
# Block I/O backend: media writes

Writes reach the media in the transfer thread, one chunk at a time, long after the request thread has
gone on. `Queued` says that they do so in the order of submission and that none is skipped.
-/

namespace Vcass.BlockIo.Bcknd

/-! ## Media writes -/

/-- What a chunk asks the media for. -/
def Chunk.item (c : Chunk) : CallbackParam where
  sector := c.sector
  nsec := c.nsec
  remapped := none
  responseCookie := c.cookie
  isWrite := c.isWrite
  doFlush := c.doFlush

@[simp] theorem Chunk.item_param (c : Chunk) (w : Window) : (c.param w).item = c.item := rfl

@[simp] theorem CallbackParam.item_isWrite (p : CallbackParam) : p.item.isWrite = p.isWrite := rfl

def Event.stored (gid : ℕ) : Event → Option (CallbackParam × ℤ)
  | .store g _ p ret _ => if g = gid then some (p.item, ret) else none
  | _ => none

/-- The media writes performed for a group, with their results. -/
abbrev stores (gid : ℕ) (log : List Event) : List (CallbackParam × ℤ) :=
  history (Event.stored gid) log

/-- The buffer the transfer thread has not written to the media yet. -/
def XfSt.unstored : XfSt → List ℕ
  | took b _ => [b]
  | toStore b _ => [b]
  | _ => []

@[simp] theorem XfSt.unstored_stored (b : ℕ) (p : CallbackParam) (err : ℤ) :
    (stored b p err).unstored = [] := by
  rw [stored]
  split
  · split <;> rfl
  · rfl

/-- The write of group `gid` that buffer `b` carries. -/
def Core.writeOf (k : Core) (gid b : ℕ) : Option CallbackParam :=
  if k.group b = gid ∧ (k.param b).isWrite = true then some (k.param b).item else none

namespace Pipe

variable {a a' : Pipe} {gid : ℕ}

/-- The buffers whose data has not reached the media. -/
def unstored (a : Pipe) : List ℕ :=
  a.xf.unstored ++ a.queue ++ a.cb.hand ++ a.core.done ++ a.core.dma.map DmaDesc.buf

theorem mem_flight_of_unstored {b : ℕ} (h : b ∈ a.unstored) : b ∈ a.flight := by
  have hxf : ∀ x ∈ a.xf.unstored, x ∈ a.xf.hand := by
    cases a.xf <;> simp [XfSt.unstored]
  simp only [unstored, flight, List.mem_append] at h ⊢
  rcases h with (((h | h) | h) | h) | h
  · exact .inl (.inl (.inl (.inl (hxf b h))))
  all_goals tauto

theorem Step.filterMap_writeOf (hs : Step a a') (h : Inv a) {l : List ℕ}
    (hl : ∀ b ∈ l, b ∈ a.flight) :
    l.filterMap (a'.core.writeOf gid) = l.filterMap (a.core.writeOf gid) := by
  refine List.filterMap_congr fun b hb ↦ ?_
  obtain ⟨hgroup, hitem⟩ := hs.keeps h.owned h.seen (hl b hb)
  have hwrite : (a'.core.param b).isWrite = (a.core.param b).isWrite := by
    rw [← CallbackParam.item_isWrite, hitem, CallbackParam.item_isWrite]
  rw [Core.writeOf, Core.writeOf, hgroup, hitem, hwrite]

/-- Writes reach the media in the order of submission. -/
def Queued (a : Pipe) : Prop :=
  ∀ gid, ((submitted gid a.core.log).filter Chunk.isWrite).map Chunk.item =
    (stores gid a.core.log).map Prod.fst ++ a.unstored.filterMap (a.core.writeOf gid)

section Queued

attribute [local simp] Event.submitted Event.stored

theorem Queued.congr (hq : Queued a) (h : Inv a) (hs : Step a a')
    (hsub : ∀ gid, submitted gid a'.core.log = submitted gid a.core.log)
    (hst : ∀ gid, stores gid a'.core.log = stores gid a.core.log)
    (hun : a'.unstored = a.unstored) : Queued a' := by
  intro gid
  rw [hsub, hst, hun, hs.filterMap_writeOf h fun b hb ↦ mem_flight_of_unstored hb]
  exact hq gid

theorem Inv.submitted_submit {cookie b : ℕ} {w : Window} {c : Chunk} {cs : List Chunk}
    {es : List Entry} {ck : ℤ} (h : Inv a) (hq : a.req = .toSubmit cookie w b c cs es)
    (hck : 0 ≤ ck) (gid : ℕ) : submitted gid (a.core.submit (c.desc w b) ck).log =
      submitted gid a.core.log ++ if a.core.cur = gid then [c] else [] := by
  have hheld := h.tracked.held
  rw [hq] at hheld
  have hbuf : (c.desc w b).buf = b := rfl
  simp only [Core.submit_log, history_snoc, Event.submitted, hbuf, hheld.1, hheld.2,
    chunkOf_param, hck, and_true]
  split <;> rfl

theorem unstored_submit {cookie b : ℕ} {w : Window} {c : Chunk} {cs : List Chunk}
    {es : List Entry} {ck : ℤ} (hck : ¬ ck < 0) :
    ({ a with
      core := a.core.submit (c.desc w b) ck
      req := .proceed cookie w cs es } : Pipe).unstored = a.unstored ++ [b] := by
  simp [unstored, if_neg hck, Chunk.desc]

theorem Queued.submit {cookie b : ℕ} {w : Window} {c : Chunk} {cs : List Chunk} {es : List Entry}
    {ck : ℤ} (hqd : Queued a) (h : Inv a) (hq : a.req = .toSubmit cookie w b c cs es)
    (hck : ¬ ck < 0) :
    Queued { a with core := a.core.submit (c.desc w b) ck, req := .proceed cookie w cs es } := by
  have hheld := h.tracked.held
  rw [hq] at hheld
  intro gid
  have hold := hqd gid
  have hcore : (a.core.submit (c.desc w b) ck).writeOf gid = a.core.writeOf gid := rfl
  have hb : a.core.writeOf gid b =
      if a.core.cur = gid ∧ c.isWrite = true then some c.item else none := by
    rw [Core.writeOf, hheld.1, hheld.2]
    rfl
  rw [unstored_submit hck, h.submitted_submit hq (not_lt.mp hck)]
  dsimp only
  rw [hcore, List.filterMap_append, ← List.append_assoc]
  have hst : stores gid (a.core.submit (c.desc w b) ck).log = stores gid a.core.log := by simp
  rw [hst, ← hold, List.filter_append, List.map_append]
  congr 1
  by_cases hgid : a.core.cur = gid <;> by_cases hw : c.isWrite = true <;> simp [hb, hgid, hw]

theorem Queued.step (hqd : Queued a) (h : Inv a) (hs : Step a a') : Queued a' := by
  have hseen := h.seen.xf
  have hs' := hs
  cases hs with
  | @submit cookie w b c cs es ck hq =>
    by_cases hck : ck < 0
    · exact hqd.congr h hs' (by simp [hck]) (by simp) (by simp [unstored, hck])
    · rw [if_neg hck]
      exact hqd.submit h hq hck
  | @store b p r hxf hr =>
    rw [hxf] at hseen
    intro gid
    have hold := hqd gid
    have hcore : (a.core.store p.sector p.nsec b r).writeOf gid = a.core.writeOf gid := rfl
    have hb : a.core.writeOf gid b = if a.core.group b = gid then some p.item else none := by
      simp [Core.writeOf, hseen.1, hseen.2]
    simp only [unstored, hxf, hcore, XfSt.unstored_stored, List.filterMap_append] at hold ⊢
    simp only [XfSt.unstored, List.filterMap_cons, hb] at hold
    by_cases hgid : a.core.group b = gid
    · simp_all [show a.core.param b = p from hseen.1]
    · simp_all
  | @clearTx b p hxf =>
    rw [hxf] at hseen
    have hp : a.core.param b = p := hseen
    intro gid
    have hold := hqd gid
    have hcore : (a.core.clearTx b).writeOf gid = a.core.writeOf gid := rfl
    have hun : (XfSt.begun b p).unstored.filterMap (a.core.writeOf gid) =
        [b].filterMap (a.core.writeOf gid) := by
      rw [XfSt.begun]
      split
      case isTrue => rfl
      case isFalse hw =>
        have hnone : a.core.writeOf gid b = none := by simp [Core.writeOf, hp, hw]
        simp [hnone]
    simp only [unstored, hxf, hcore, List.filterMap_append] at hold ⊢
    rw [hun]
    exact hold
  | move hd => exact hqd.congr h hs' (by simp) (by simp) (by simp [unstored, hd])
  | cbStart hcb hd => exact hqd.congr h hs' (by simp) (by simp) (by simp [unstored, hcb, hd])
  | cbUnmap hcb => exact hqd.congr h hs' (by simp) (by simp) (by simp [unstored, hcb])
  | cbClear hcb => exact hqd.congr h hs' (by simp) (by simp) (by simp [unstored, hcb])
  | enqueue hcb => exact hqd.congr h hs' (by simp) (by simp) (by simp [unstored, hcb])
  | take hxf hq =>
    exact hqd.congr h hs' (by simp) (by simp) (by simp [unstored, hxf, hq, XfSt.unstored])
  | flush r hxf hr =>
    exact hqd.congr h hs' (by simp) (by simp) (by simp [unstored, hxf, XfSt.unstored])
  | respond hxf => exact hqd.congr h hs' (by simp) (by simp) (by simp [unstored, hxf, XfSt.unstored])
  | push hxf => exact hqd.congr h hs' (by simp) (by simp) (by simp [unstored, hxf, XfSt.unstored])
  | release hxf => exact hqd.congr h hs' (by simp) (by simp) (by simp [unstored, hxf, XfSt.unstored])
  | _ => exact hqd.congr h hs' (by simp) (by simp) rfl

end Queued

end Pipe

end Vcass.BlockIo.Bcknd
