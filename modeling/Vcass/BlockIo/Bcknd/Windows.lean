import Vcass.BlockIo.Bcknd.Truthful

/-!
# Block I/O backend: the windows onto frontend memory

Every `ioremap` of a group makes a window that has to be released once, after the last DMA through
it. The duty moves from the request thread to the buffer of the last chunk of an entry and on to the
callback; `tally` counts the releases of a window together with whoever still has the duty, and no
step changes it.

The error exits of the request thread release the window of the current entry and answer the group
at once, although earlier chunks may still be in the DMA engine and the windows of earlier entries
still mapped. `Settled` is what must hold when an operation fails for this to be harmless.
-/

namespace Vcass.BlockIo.Bcknd

open Conc

def Event.remapped (gid : ℕ) : Event → Option Window
  | .remap g w => if g = gid then w else none
  | _ => none

/-- The windows made for a group, in order. -/
abbrev windows (gid : ℕ) (log : List Event) : List Window := history (Event.remapped gid) log

def Event.unmapped (w : Window) : Event → Option Unit
  | .unmap w' => if w' = w then some () else none
  | _ => none

/-- How often a window was released. -/
def unmaps (w : Window) (log : List Event) : ℕ := (history (Event.unmapped w) log).length

/-- The window the request thread will release or hand on. -/
def ReqSt.window : ReqSt → Option Window
  | inEntry _ w _ _ _ => some w
  | popped _ w _ _ _ _ => some w
  | toLoad _ w _ _ _ _ => some w
  | toSubmit _ w _ _ _ _ => some w
  | abort _ w _ => w
  | _ => none

/-- The window the callback is about to release. -/
def CbSt.window : CbSt → Option Window
  | unmap _ _ w => some w
  | _ => none

@[simp] theorem ReqSt.window_settle (cookie : ℕ) (es : List Entry) :
    (settle cookie es).window = none := by
  cases es <;> rfl

theorem ReqSt.window_proceed (cookie : ℕ) (w : Window) (cs : List Chunk) (es : List Entry) :
    (proceed cookie w cs es).window = if cs = [] then none else some w := by
  cases cs
  · exact window_settle cookie es
  · rfl

@[simp] theorem ReqSt.window_start (g : List VcablkRequest) : (start g).window = none := by
  rcases start_cases g with ⟨-, -, h⟩ | ⟨-, -, h⟩ | ⟨-, -, h⟩ <;> rw [h]
  · rfl
  · rfl
  · exact window_settle _ _

theorem CbSt.window_start (b : ℕ) (p : CallbackParam) : (start b p).window = p.remapped := by
  rw [start]
  split <;> simp_all [window]

/-! ## The last chunk of an entry takes the window along -/

theorem chunks_last {write flush : Bool} {ck : ℤ} {fuel left sector off : ℕ} {dn cs : List Chunk}
    {c : Chunk} (h : chunks write ck flush fuel left sector off = dn ++ c :: cs)
    (hfuel : left ≤ fuel) : c.last = true ↔ cs = [] := by
  induction fuel generalizing left sector off dn with
  | zero => simp [chunks] at h
  | succ fuel ih =>
    rw [chunks] at h
    split at h
    · simp at h
    set nsec := min left (pageSize >>> sectorShift) with hnsec
    have hpos : 0 < nsec := by
      have : 0 < pageSize >>> sectorShift := by decide
      omega
    cases dn with
    | cons d dn =>
      rw [List.cons_append, List.cons.injEq] at h
      exact ih h.2 (by omega)
    | nil =>
      rw [List.nil_append, List.cons.injEq] at h
      obtain ⟨rfl, rfl⟩ := h
      rw [decide_eq_true_iff]
      constructor
      · intro hleft
        rw [hleft]
        cases fuel <;> simp [chunks]
      · intro hnil
        by_contra hleft
        exact chunks_ne_nil (by omega) hleft hnil

theorem entries_last {write flush : Bool} {ck : ℕ} {rs : List VcablkRequest} {pre es : List Entry}
    {e : Entry} {dn cs : List Chunk} {c : Chunk} (h : entries write ck flush rs = pre ++ e :: es)
    (he : e.chunks = dn ++ c :: cs) : c.last = true ↔ cs = [] := by
  induction rs generalizing pre with
  | nil => simp [entries] at h
  | cons r rs ih =>
    rw [entries] at h
    cases pre with
    | cons e' pre =>
      rw [List.cons_append, List.cons.injEq] at h
      exact ih h.2
    | nil =>
      rw [List.nil_append, List.cons.injEq] at h
      obtain ⟨rfl, -⟩ := h
      exact chunks_last he le_rfl

theorem Within.last_iff {g : List VcablkRequest} {sub cs : List Chunk} {c : Chunk}
    {es : List Entry} (h : Within (groupEntries g) sub (c :: cs) es) : c.last = true ↔ cs = [] := by
  obtain ⟨pre, e, dn, hE, he, -⟩ := h
  rw [groupEntries] at hE
  generalize vcablkBckndDiskRequestGetInfo g = result at hE
  obtain ⟨err, info⟩ := result
  dsimp only at hE
  split at hE
  · simp at hE
  · exact entries_last hE he

/-! ## Who releases a window -/

/-- Buffer `b` takes window `w` along. -/
def Core.carries (k : Core) (w : Window) (b : ℕ) : Bool := (k.param b).remapped == some w

namespace Pipe

variable {a a' : Pipe} {gid : ℕ} {w : Window}

/-- The buffers whose callback has not started. -/
def uncalled (a : Pipe) : List ℕ := a.core.done ++ a.core.dma.map DmaDesc.buf

theorem mem_flight_of_uncalled {b : ℕ} (h : b ∈ a.uncalled) : b ∈ a.flight := by
  simp only [uncalled, flight, List.mem_append] at h ⊢
  tauto

/-- Who still has to release `w`. -/
def holders (w : Window) (a : Pipe) : ℕ :=
  (if a.req.window = some w then 1 else 0) + (if a.cb.window = some w then 1 else 0) +
    a.uncalled.countP (a.core.carries w)

/-- The releases of `w`, past and future. -/
def tally (w : Window) (a : Pipe) : ℕ := unmaps w a.core.log + a.holders w

section Tally

attribute [local simp] unmaps Event.unmapped

theorem tally_congr (hreq : a'.req.window = a.req.window) (hcb : a'.cb.window = a.cb.window)
    (hun : a'.uncalled = a.uncalled)
    (hparam : ∀ b ∈ a.uncalled, a'.core.param b = a.core.param b)
    (hlog : unmaps w a'.core.log = unmaps w a.core.log) : a'.tally w = a.tally w := by
  rw [tally, tally, holders, holders, hreq, hcb, hun, hlog]
  congr 2
  refine List.countP_congr fun b hb ↦ ?_
  rw [Core.carries, Core.carries, hparam b hb]

/-- The callback's buffer is not among those whose callback has not started. -/
theorem Inv.cb_notMem_uncalled (h : Inv a) {b : ℕ} (hb : b ∈ a.cb.hand) : b ∉ a.uncalled := by
  have hnd := h.owned.nodup_flight
  rw [flight, List.append_assoc, List.append_assoc] at hnd
  intro hmem
  exact (List.nodup_append.mp (List.nodup_append.mp hnd).2.1).2.2 b hb b hmem rfl

theorem uncalled_submit {cookie b : ℕ} {w : Window} {c : Chunk} {cs : List Chunk} {es : List Entry}
    {ck : ℤ} (hck : ¬ ck < 0) :
    ({ a with
      core := a.core.submit (c.desc w b) ck
      req := .proceed cookie w cs es } : Pipe).uncalled = a.uncalled ++ [b] := by
  simp [uncalled, if_neg hck, Chunk.desc]

theorem Step.tally_eq (hs : Step a a') (h : Inv a) :
    a'.tally w = a.tally w ∨
      ∃ cookie e es, a.req = .next cookie e es ∧ a' = { a with
        core := a.core.remap e.phys
        req := .proceed cookie ⟨a.core.nextWin, e.phys⟩ e.chunks es } := by
  have hat := h.tracked.req
  have hheld := h.tracked.held
  have hsame (b : ℕ) (_ : b ∈ a.uncalled) : a.core.param b = a.core.param b := rfl
  cases hs with
  | @remap cookie e es hq => exact .inr ⟨cookie, e, es, hq, rfl⟩
  | fetch g hq =>
    refine .inl (tally_congr ?_ rfl rfl hsame (by simp))
    rw [hq, ReqSt.window_start]
    rfl
  | finish hq => exact .inl (tally_congr (by simp [hq, ReqSt.window]) rfl rfl hsame rfl)
  | leadSync r hq hr =>
    refine .inl (tally_congr ?_ rfl rfl hsame (by simp))
    rw [hq]
    dsimp only
    split
    · exact ReqSt.window_settle _ _
    · rfl
  | remapFail hq => exact .inl (tally_congr (by simp [hq, ReqSt.window]) rfl rfl hsame (by simp))
  | pop hq hfree => exact .inl (tally_congr (by simp [hq, ReqSt.window]) rfl rfl hsame (by simp))
  | @fill cookie w' b c cs es hq =>
    refine .inl (tally_congr ?_ rfl rfl (fun x hx ↦ Function.update_of_ne ?_ _ _) rfl)
    · rw [hq]
      dsimp only
      split <;> rfl
    · rintro rfl
      exact h.owned.notMem_flight_of_hand (by simp [hq]) (mem_flight_of_uncalled hx)
  | load r hq hr =>
    refine .inl (tally_congr ?_ rfl rfl hsame (by simp))
    rw [hq]
    dsimp only
    split <;> rfl
  | @submit cookie w' b c cs es ck hq =>
    left
    by_cases hck : ck < 0
    · exact tally_congr (by simp [hq, hck, ReqSt.window]) rfl (by simp [uncalled, hck]) hsame
        (by simp)
    · -- The duty passes to the buffer if the chunk is the last of its entry.
      rw [hq] at hat hheld
      have hlast := Within.last_iff hat
      have hcarry : a.core.carries w b = decide (c.last = true ∧ w' = w) := by
        rw [Core.carries, hheld.2, Chunk.param]
        by_cases hl : c.last = true <;> by_cases hw : w' = w <;> simp [hl, hw]
      have hcore : (a.core.submit (c.desc w' b) ck).carries w = a.core.carries w := rfl
      have hlog : unmaps w (a.core.submit (c.desc w' b) ck).log = unmaps w a.core.log := by simp
      rw [if_neg hck, tally, tally, holders, holders, uncalled_submit hck, List.countP_append,
        List.countP_singleton, ReqSt.window_proceed, hq]
      dsimp only
      rw [hcore, hcarry, hlog]
      by_cases hl : c.last = true
      · rw [if_pos (hlast.mp hl)]
        by_cases hw : w' = w <;> simp [hl, hw, ReqSt.window]
        omega
      · rw [if_neg (mt hlast.mpr hl)]
        simp [hl, ReqSt.window]
  | @abortUnmap cookie w' err hq =>
    left
    have hcore : (a.core.emit (.unmap w')).carries w = a.core.carries w := rfl
    rw [tally, tally, holders, holders, uncalled, uncalled, hq]
    dsimp only
    rw [hcore]
    by_cases hw : w' = w
    · simp [hw, ReqSt.window]
      omega
    · simp [hw, ReqSt.window]
  | abortRespond hq => exact .inl (tally_congr (by simp [hq, ReqSt.window]) rfl rfl hsame (by simp))
  | move hd => exact .inl (tally_congr rfl rfl (by simp [uncalled, hd]) hsame (by simp))
  | @cbStart b rest hcb hd =>
    left
    have hcore : ({ a.core with done := rest } : Core).carries w = a.core.carries w := rfl
    rw [tally, tally, holders, holders, uncalled, uncalled, hcb, hd]
    dsimp only
    rw [hcore, CbSt.window_start, List.cons_append, List.countP_cons, Core.carries]
    by_cases hw : (a.core.param b).remapped = some w
    · simp [hw, CbSt.window]
      omega
    · simp [hw, CbSt.window]
  | @cbUnmap b p w' hcb =>
    left
    have hcore : (a.core.emit (.unmap w')).carries w = a.core.carries w := rfl
    rw [tally, tally, holders, holders, uncalled, uncalled, hcb]
    dsimp only
    rw [hcore]
    by_cases hw : w' = w
    · simp [hw, CbSt.window]
      omega
    · simp [hw, CbSt.window]
  | @cbClear b p hcb =>
    refine .inl (tally_congr rfl (by simp [hcb, CbSt.window]) rfl (fun x hx ↦
      Function.update_of_ne ?_ _ _) rfl)
    rintro rfl
    exact h.cb_notMem_uncalled (by simp [hcb]) hx
  | enqueue hcb => exact .inl (tally_congr rfl (by simp [hcb, CbSt.window]) rfl hsame rfl)
  | _ => exact .inl (tally_congr rfl rfl rfl hsame (by simp))

end Tally

section Mapped

attribute [local simp] Event.remapped

theorem Step.windows_eq (hs : Step a a') :
    ((∀ gid, windows gid a'.core.log = windows gid a.core.log) ∧
        a'.core.nextWin = a.core.nextWin) ∨
      ∃ cookie e es, a.req = .next cookie e es ∧ a' = { a with
        core := a.core.remap e.phys
        req := .proceed cookie ⟨a.core.nextWin, e.phys⟩ e.chunks es } := by
  cases hs with
  | @remap cookie e es hq => exact .inr ⟨cookie, e, es, hq, rfl⟩
  | _ => exact .inl (by simp)

/-- The request thread keeps its window, or makes a new one. -/
theorem Step.window_cases (hs : Step a a') :
    (a'.req.window = none ∨ a'.req.window = a.req.window ∧ a'.core.groups = a.core.groups) ∨
      ∃ cookie e es, a.req = .next cookie e es ∧ a' = { a with
        core := a.core.remap e.phys
        req := .proceed cookie ⟨a.core.nextWin, e.phys⟩ e.chunks es } := by
  cases hs with
  | @remap cookie e es hq => exact .inr ⟨cookie, e, es, hq, rfl⟩
  | fetch g hq => exact .inl (.inl (ReqSt.window_start g))
  | finish hq => exact .inl (.inl rfl)
  | leadSync r hq hr =>
    refine .inl (.inl ?_)
    dsimp only
    split
    · exact ReqSt.window_settle _ _
    · rfl
  | remapFail hq => exact .inl (.inl rfl)
  | pop hq hfree => exact .inl (.inr ⟨by rw [hq]; rfl, rfl⟩)
  | fill hq =>
    refine .inl (.inr ⟨?_, rfl⟩)
    rw [hq]
    dsimp only
    split <;> rfl
  | load r hq hr =>
    refine .inl (.inr ⟨?_, rfl⟩)
    rw [hq]
    dsimp only
    split <;> rfl
  | submit ck hq =>
    dsimp only
    split
    · exact .inl (.inr ⟨by rw [hq]; rfl, rfl⟩)
    · rw [ReqSt.window_proceed, hq]
      split
      · exact .inl (.inl rfl)
      · exact .inl (.inr ⟨rfl, rfl⟩)
  | abortUnmap hq => exact .inl (.inl rfl)
  | abortRespond hq => exact .inl (.inl rfl)
  | _ => exact .inl (.inr ⟨rfl, rfl⟩)

/-- Every window belongs to one group, and is released once if no entry of that group is empty. -/
structure Mapped (a : Pipe) : Prop where
  fresh : ∀ w, a.core.nextWin ≤ w.id → a.tally w = 0 ∧ ∀ gid, w ∉ windows gid a.core.log
  known : ∀ gid, a.core.groups.length ≤ gid → windows gid a.core.log = []
  unique : ∀ w gid gid', w ∈ windows gid a.core.log → w ∈ windows gid' a.core.log → gid = gid'
  req : ∀ w, a.req.window = some w → (windows a.core.cur a.core.log).getLast? = some w
  buf : ∀ b ∈ a.flight, ∀ w, (a.core.param b).remapped = some w →
    w ∈ windows (a.core.group b) a.core.log
  desc : ∀ d ∈ a.core.dma, d.win ∈ windows (a.core.group d.buf) a.core.log
  lead : ∀ cookie es, a.req = .lead cookie es → windows a.core.cur a.core.log = []
  once : ∀ gid, Full (a.core.groups.getD gid []) → ∀ w ∈ windows gid a.core.log, a.tally w = 1

theorem Mapped.mem_windows (hm : Mapped a) (hw : a.req.window = some w) :
    w ∈ windows a.core.cur a.core.log := List.mem_of_getLast? (hm.req w hw)

/-- A new window is unknown before it is made. -/
theorem Mapped.remap {cookie : ℕ} {e : Entry} {es : List Entry} (hm : Mapped a) (h : Inv a)
    (hq : a.req = .next cookie e es) :
    Mapped { a with
      core := a.core.remap e.phys
      req := .proceed cookie ⟨a.core.nextWin, e.phys⟩ e.chunks es } := by
  set w₀ : Window := ⟨a.core.nextWin, e.phys⟩ with hw₀
  have hwin (gid : ℕ) : windows gid (a.core.remap e.phys).log =
      windows gid a.core.log ++ if a.core.cur = gid then [w₀] else [] := by
    simp only [Core.remap_log, history_snoc, Event.remapped]
    split <;> rfl
  have hne (w : Window) (hw : a.core.nextWin + 1 ≤ w.id) : w ≠ w₀ := by
    rintro rfl
    exact absurd hw (Nat.not_succ_le_self a.core.nextWin)
  have hnew := hm.fresh w₀ le_rfl
  have hmem {gid : ℕ} {w : Window} (hw : w ∈ windows gid (a.core.remap e.phys).log) :
      w ∈ windows gid a.core.log ∨ (a.core.cur = gid ∧ w = w₀) := by
    rw [hwin, List.mem_append] at hw
    refine hw.imp_right fun hw ↦ ?_
    split at hw
    case isTrue hgid => exact ⟨hgid, List.mem_singleton.mp hw⟩
    case isFalse => simp at hw
  have htally (w : Window) : ({ a with
      core := a.core.remap e.phys
      req := .proceed cookie w₀ e.chunks es } : Pipe).tally w =
        a.tally w + if e.chunks ≠ [] ∧ w₀ = w then 1 else 0 := by
    have hlog : unmaps w (a.core.remap e.phys).log = unmaps w a.core.log := by
      simp [unmaps, Event.unmapped]
    have hcore : (a.core.remap e.phys).carries w = a.core.carries w := rfl
    rw [tally, tally, holders, holders, uncalled, uncalled, hq]
    dsimp only
    rw [hlog, hcore, ReqSt.window_proceed]
    by_cases hnil : e.chunks = []
    · simp [hnil, ReqSt.window]
    · by_cases hw : w₀ = w <;> simp [hnil, hw, ReqSt.window]
      omega
  refine ⟨fun w hw ↦ ?_, fun gid hgid ↦ ?_, fun w gid gid' h1 h2 ↦ ?_, fun w hw ↦ ?_,
    fun b hb w hw ↦ ?_, fun d hd ↦ ?_, fun ck es hlead ↦ ?_, fun gid hfull w hw ↦ ?_⟩
  · have hold := hm.fresh w (Nat.le_of_succ_le hw)
    refine ⟨?_, fun gid hmem' ↦ ?_⟩
    · rw [htally, hold.1, if_neg fun heq ↦ hne w hw heq.2.symm]
    · rcases hmem hmem' with hmem' | ⟨-, rfl⟩
      · exact hold.2 gid hmem'
      · exact hne _ hw rfl
  · have hlt := h.mem_groups (by simp [hq])
    change a.core.groups.length ≤ gid at hgid
    rw [hwin, if_neg (by omega), hm.known gid hgid, List.append_nil]
  · rcases hmem h1 with h1 | ⟨rfl, rfl⟩
    · rcases hmem h2 with h2 | ⟨-, rfl⟩
      · exact hm.unique w gid gid' h1 h2
      · exact absurd h1 (hnew.2 gid)
    · rcases hmem h2 with h2 | ⟨hgid, -⟩
      · exact absurd h2 (hnew.2 gid')
      · exact hgid
  · dsimp only at hw ⊢
    rw [ReqSt.window_proceed] at hw
    split at hw
    · simp at hw
    · rw [Core.remap_cur, hwin, if_pos rfl, ← hw, List.getLast?_concat]
  · show w ∈ windows (a.core.group b) (a.core.remap e.phys).log
    rw [hwin]
    exact List.mem_append_left _ (hm.buf b hb w hw)
  · show d.win ∈ windows (a.core.group d.buf) (a.core.remap e.phys).log
    rw [hwin]
    exact List.mem_append_left _ (hm.desc d hd)
  · exact absurd hlead proceed_ne_lead
  · rw [htally]
    rcases hmem hw with hw | ⟨rfl, rfl⟩
    · rw [hm.once gid hfull w hw, if_neg]
      rintro ⟨-, rfl⟩
      exact hnew.2 gid hw
    · -- The entry is not empty, so the request thread still has the window.
      have hat := h.tracked.req
      rw [hq] at hat
      obtain ⟨pre, hE, -⟩ := hat
      have hne : e.chunks ≠ [] := hfull e (by
        show e ∈ groupEntries (a.core.groups.getD a.core.cur [])
        rw [hE]
        exact List.mem_append_right _ List.mem_cons_self)
      rw [hnew.1, if_pos ⟨hne, rfl⟩]

/-- A buffer in the pipeline gets no window. -/
theorem Step.keeps_window (hs : Step a a') (h : Inv a) {b : ℕ} (hb : b ∈ a.flight)
    (hw : (a'.core.param b).remapped = some w) : (a.core.param b).remapped = some w := by
  cases hs with
  | @fill cookie w' x c cs es hq =>
    have hne : b ≠ x := by
      rintro rfl
      exact h.owned.notMem_flight_of_hand (by simp [hq]) hb
    rwa [Core.setParam_param, Function.update_of_ne hne] at hw
  | @cbClear x p hcb =>
    by_cases hbx : b = x
    · rw [hbx, Core.setParam_param, Function.update_self] at hw
      simp at hw
    · rwa [Core.setParam_param, Function.update_of_ne hbx] at hw
  | _ => exact hw

theorem Step.mem_dma (hs : Step a a') {d : DmaDesc} (hd : d ∈ a'.core.dma) :
    d ∈ a.core.dma ∨ ∃ cookie w b c cs es ck, a.req = .toSubmit cookie w b c cs es ∧ 0 ≤ ck ∧
      d = c.desc w b ∧
      a' = { a with core := a.core.submit (c.desc w b) ck, req := .proceed cookie w cs es } := by
  cases hs with
  | @submit cookie w b c cs es ck hq =>
    by_cases hck : ck < 0
    · exact .inl (by simpa [hck] using hd)
    · rw [if_neg hck] at hd ⊢
      rw [Core.submit_dma, if_neg hck, List.mem_append, List.mem_singleton] at hd
      rcases hd with hd | rfl
      · exact .inl hd
      · exact .inr ⟨cookie, w, b, c, cs, es, ck, hq, not_lt.mp hck, rfl, rfl⟩
  | move hd' =>
    rw [hd']
    exact .inl (List.mem_cons_of_mem _ hd)
  | _ => exact .inl hd

theorem mem_flight_of_dma {d : DmaDesc} (hd : d ∈ a.core.dma) : d.buf ∈ a.flight := by
  simp only [flight, List.mem_append]
  exact .inr (List.mem_map_of_mem hd)

theorem Mapped.step (hm : Mapped a) (h : Inv a) (hs : Step a a') : Mapped a' := by
  rcases hs.windows_eq with ⟨hwin, hnext⟩ | ⟨cookie, e, es, hq, rfl⟩
  swap
  · exact hm.remap h hq
  have hnot : ¬ ∃ cookie e es, a.req = .next cookie e es ∧ a' = { a with
      core := a.core.remap e.phys
      req := .proceed cookie ⟨a.core.nextWin, e.phys⟩ e.chunks es } := by
    rintro ⟨cookie, e, es, -, rfl⟩
    simp at hnext
  have htally (w : Window) : a'.tally w = a.tally w := (hs.tally_eq h).resolve_right hnot
  have hgroups : ∀ gid, gid < a.core.groups.length →
      a'.core.groups.getD gid [] = a.core.groups.getD gid [] := by
    intro gid hlt
    rcases hs.group_cases with ⟨g, -, rfl⟩ | ⟨hgroups, -⟩
    · exact List.getD_append _ _ _ _ hlt
    · rw [hgroups]
  have hlen : a.core.groups.length ≤ a'.core.groups.length := by
    rcases hs.group_cases with ⟨g, -, rfl⟩ | ⟨hgroups, -⟩
    · simp
    · rw [hgroups]
  refine ⟨fun w hw ↦ ?_, fun gid hgid ↦ ?_, fun w gid gid' h1 h2 ↦ ?_, fun w hw ↦ ?_,
    fun b hb w hw ↦ ?_, fun d hd ↦ ?_, fun ck es hlead ↦ ?_, fun gid hfull w hw ↦ ?_⟩
  · rw [htally]
    simpa only [hwin] using hm.fresh w (hnext ▸ hw)
  · rw [hwin]
    exact hm.known gid (hlen.trans hgid)
  · rw [hwin] at h1 h2
    exact hm.unique w gid gid' h1 h2
  · rcases (hs.window_cases.resolve_right hnot) with hnone | ⟨hsame, hgroups⟩
    · simp [hnone] at hw
    · rw [Core.cur, hgroups, hwin]
      exact hm.req w (hsame ▸ hw)
  · rw [hwin]
    by_cases hmem : b ∈ a.flight
    · rw [(hs.keeps h.owned h.seen hmem).1]
      exact hm.buf b hmem w (hs.keeps_window h hmem hw)
    · rcases hs.flight_cases with ⟨heq, -⟩ | ⟨x, -, heq, -⟩ |
        ⟨cookie, w', x, c, cs, es, ck, hq, hck, heq, rfl⟩
      · exact absurd (heq ▸ hb) hmem
      · exact absurd (heq ▸ List.mem_cons_of_mem x hb) hmem
      · -- A new buffer has its window from the request thread.
        have hheld := h.tracked.held
        rw [hq] at hheld
        rw [heq, List.mem_append, List.mem_singleton] at hb
        obtain rfl : b = x := hb.resolve_left hmem
        change (a.core.param b).remapped = some w at hw
        show w ∈ windows (a.core.group b) a.core.log
        rw [hheld.1]
        refine hm.mem_windows ?_
        rw [hheld.2, Chunk.param] at hw
        split at hw
        · rw [hq]
          exact hw
        · simp at hw
  · rw [hwin]
    rcases hs.mem_dma hd with hd | ⟨cookie, w, b, c, cs, es, ck, hq, -, rfl, rfl⟩
    · rw [(hs.keeps h.owned h.seen (mem_flight_of_dma hd)).1]
      exact hm.desc d hd
    · have hheld := h.tracked.held
      rw [hq] at hheld
      show w ∈ windows (a.core.group b) a.core.log
      rw [hheld.1]
      exact hm.mem_windows (by rw [hq]; rfl)
  · rw [hwin]
    rcases hs.group_cases with ⟨g, -, rfl⟩ | ⟨hgroups, -⟩
    · rw [Core.fetch_cur]
      exact hm.known _ le_rfl
    · rw [Core.cur, hgroups]
      rcases hs.lead_cases hgroups with ⟨-, hstay⟩ | ⟨cookie, es', r, -, rfl⟩
      · exact hm.lead ck es ((hstay ck es).mp hlead)
      · dsimp only at hlead
        split at hlead
        · exact absurd hlead settle_ne_lead
        · simp at hlead
  · have hlt : gid < a.core.groups.length := by
      by_contra hge
      rw [hwin, hm.known gid (not_lt.mp hge)] at hw
      simp at hw
    rw [hwin] at hw
    rw [hgroups gid hlt] at hfull
    rw [htally]
    exact hm.once gid hfull w hw

theorem Mapped.start (media mem : ℕ → UInt8) : Mapped (Pipe.start media mem) where
  fresh w _ := ⟨by simp [tally, holders, Pipe.start, init, unmaps, uncalled, ReqSt.window,
    CbSt.window], fun gid ↦ by simp [Pipe.start, init]⟩
  known gid _ := rfl
  unique w gid gid' hw _ := by simp [Pipe.start, init] at hw
  req w hw := by simp [Pipe.start, ReqSt.window] at hw
  buf b hb := by simp [Pipe.start, init, flight] at hb
  desc d hd := by simp [Pipe.start, init] at hd
  lead _ _ hq := by simp [Pipe.start] at hq
  once gid _ w hw := by simp [Pipe.start, init] at hw

end Mapped

end Pipe

/-! ## Failures that do no harm -/

/-- No DMA of the group is outstanding and the windows `ws` are released. -/
def Settled (k : Core) (gid : ℕ) (ws : List Window) : Prop :=
  (∀ d ∈ k.dma, k.group d.buf ≠ gid) ∧ ∀ w ∈ ws, unmaps w k.log ≠ 0

/-- If the event is a failed operation of the request thread for group `gid`, then everything that
the group started before is over; the window of the current entry is still there. -/
def Harmless (gid : ℕ) (k : Core) : Event → Prop
  | .remap g none => g = gid → Settled k gid (windows gid k.log)
  | .load g _ _ ret _ => g = gid → ret ≠ 0 → Settled k gid (windows gid k.log).dropLast
  | .submit g _ _ cookie => g = gid → cookie < 0 → Settled k gid (windows gid k.log).dropLast
  | _ => True

namespace Pipe

variable {a a' : Pipe} {gid : ℕ} {w : Window}

/-- Somebody who comes after the descriptors of the group has the duty to release their windows. -/
def Covered (gid : ℕ) (a : Pipe) : Prop :=
  ∀ pre d post, a.core.dma = pre ++ d :: post → a.core.group d.buf = gid →
    a.req.window = some d.win ∨ ∃ d' ∈ d :: post, (a.core.param d'.buf).remapped = some d.win

/-- When the request thread gives up the group, nothing of it is left but the current window. -/
def Calm (gid : ℕ) (a : Pipe) : Prop :=
  ∀ cookie win err, a.req = .abort cookie win err → a.core.cur = gid →
    (∀ d ∈ a.core.dma, a.core.group d.buf ≠ gid) ∧
      ∀ w ∈ windows gid a.core.log, unmaps w a.core.log ≠ 0 ∨ win = some w

theorem Step.param_uncalled (hs : Step a a') (h : Inv a) {b : ℕ} (hb : b ∈ a.uncalled) :
    a'.core.param b = a.core.param b := by
  cases hs with
  | @fill cookie w' x c cs es hq =>
    refine Function.update_of_ne ?_ _ _
    rintro rfl
    exact h.owned.notMem_flight_of_hand (by simp [hq]) (mem_flight_of_uncalled hb)
  | @cbClear x p hcb =>
    refine Function.update_of_ne ?_ _ _
    rintro rfl
    exact h.cb_notMem_uncalled (by simp [hcb]) hb
  | _ => rfl

theorem mem_uncalled_of_dma {d : DmaDesc} (hd : d ∈ a.core.dma) : d.buf ∈ a.uncalled :=
  List.mem_append_right _ (List.mem_map_of_mem hd)

/-- What happens to the window of the request thread and to the descriptors. -/
theorem Step.dma_cases (hs : Step a a') :
    (a'.core.dma = a.core.dma ∧ (a'.req.window = a.req.window ∨ a.req.window = none)) ∨
      (∃ d, a.core.dma = d :: a'.core.dma ∧ a'.req = a.req) ∨
      (∃ cookie w err, a.req = .abort cookie (some w) err ∧ a'.core.dma = a.core.dma) ∨
      ∃ cookie w b c cs es ck, a.req = .toSubmit cookie w b c cs es ∧ 0 ≤ ck ∧
        a' = { a with core := a.core.submit (c.desc w b) ck, req := .proceed cookie w cs es } := by
  cases hs with
  | fetch g hq => exact .inl ⟨rfl, .inr (by rw [hq]; rfl)⟩
  | finish hq => exact .inl ⟨rfl, .inr (by rw [hq]; rfl)⟩
  | leadSync r hq hr => exact .inl ⟨rfl, .inr (by rw [hq]; rfl)⟩
  | remapFail hq => exact .inl ⟨rfl, .inr (by rw [hq]; rfl)⟩
  | remap hq => exact .inl ⟨rfl, .inr (by rw [hq]; rfl)⟩
  | pop hq => exact .inl ⟨rfl, .inl (by rw [hq]; rfl)⟩
  | fill hq =>
    refine .inl ⟨rfl, .inl ?_⟩
    rw [hq]
    dsimp only
    split <;> rfl
  | load r hq hr =>
    refine .inl ⟨rfl, .inl ?_⟩
    rw [hq]
    dsimp only
    split <;> rfl
  | @submit cookie w b c cs es ck hq =>
    by_cases hck : ck < 0
    · exact .inl ⟨by simp [hck], .inl (by rw [hq, if_pos hck]; rfl)⟩
    · rw [if_neg hck]
      exact .inr (.inr (.inr ⟨cookie, w, b, c, cs, es, ck, hq, not_lt.mp hck, rfl⟩))
  | @abortUnmap cookie w err hq => exact .inr (.inr (.inl ⟨cookie, w, err, hq, rfl⟩))
  | abortRespond hq => exact .inl ⟨rfl, .inr (by rw [hq]; rfl)⟩
  | @move d rest hd => exact .inr (.inl ⟨d, hd, rfl⟩)
  | _ => exact .inl ⟨rfl, .inl rfl⟩

theorem Covered.step (hc : Covered gid a) (hcalm : Calm gid a) (hm : Mapped a) (h : Inv a)
    (hs : Step a a') : Covered gid a' := by
  -- A descriptor that was there keeps its group and the duty of the buffers behind it.
  have hkeep (pre post : List DmaDesc) (d : DmaDesc) (hdma : a.core.dma = pre ++ d :: post)
      (hgid : a'.core.group d.buf = gid) : a.req.window = some d.win ∨
        ∃ d' ∈ d :: post, (a'.core.param d'.buf).remapped = some d.win := by
    have hmem : ∀ d' ∈ d :: post, d' ∈ a.core.dma := fun d' hd' ↦
      hdma ▸ List.mem_append_right _ hd'
    rw [(hs.keeps h.owned h.seen (mem_flight_of_dma (hmem d List.mem_cons_self))).1] at hgid
    refine (hc pre d post hdma hgid).imp_right ?_
    rintro ⟨d', hd', hw⟩
    refine ⟨d', hd', ?_⟩
    rw [hs.param_uncalled h (mem_uncalled_of_dma (hmem d' hd'))]
    exact hw
  intro pre d post hdma hgid
  rcases hs.dma_cases with ⟨hsame, hwin⟩ | ⟨d₀, hcons, hreq⟩ | ⟨cookie, w, err, hq, hsame⟩ |
    ⟨cookie, w, b, c, cs, es, ck, hq, hck, rfl⟩
  · rw [hsame] at hdma
    refine (hkeep pre post d hdma hgid).imp_left fun hw ↦ ?_
    rcases hwin with hwin | hwin
    · rw [hwin, hw]
    · simp [hwin] at hw
  · rw [hreq]
    exact hkeep (d₀ :: pre) post d (by rw [hcons, hdma]; rfl) hgid
  · -- The request thread gives its window up only when no descriptor of the group is left.
    rw [hsame] at hdma
    have hd : d ∈ a.core.dma := hdma ▸ List.mem_append_right _ List.mem_cons_self
    refine .inr ((hkeep pre post d hdma hgid).resolve_left fun hw ↦ ?_)
    rw [(hs.keeps h.owned h.seen (mem_flight_of_dma hd)).1] at hgid
    have hcur : a.core.cur = gid :=
      hm.unique d.win _ _ (hm.mem_windows hw) (hgid ▸ hm.desc d hd)
    exact (hcalm cookie (some w) err hq hcur).1 d hd hgid
  · have hat := h.tracked.req
    have hheld := h.tracked.held
    rw [hq] at hat hheld
    have hlast := Within.last_iff hat
    have hnew : c.last = true → (a.core.param b).remapped = some w := by
      intro hl
      rw [hheld.2, Chunk.param, if_pos hl]
    dsimp only at hdma ⊢
    rw [Core.submit_dma, if_neg (not_lt.mpr hck)] at hdma
    rw [ReqSt.window_proceed]
    rcases post.eq_nil_or_concat with rfl | ⟨post, d₀, rfl⟩
    · obtain ⟨-, hd⟩ := List.append_inj' hdma rfl
      obtain rfl : c.desc w b = d := by simpa using hd
      by_cases hl : c.last = true
      · exact .inr ⟨c.desc w b, List.mem_cons_self, hnew hl⟩
      · exact .inl (if_neg (mt hlast.mpr hl))
    · rw [List.concat_eq_append] at hdma ⊢
      rw [← List.cons_append, ← List.append_assoc] at hdma
      obtain ⟨hfront, hd⟩ := List.append_inj' hdma rfl
      obtain rfl : c.desc w b = d₀ := by simpa using hd
      rcases hkeep pre post d hfront hgid with hw | ⟨d', hd', hw⟩
      · rw [hq] at hw
        obtain rfl : w = d.win := Option.some_inj.mp hw
        by_cases hl : c.last = true
        · refine .inr ⟨c.desc d.win b, ?_, hnew hl⟩
          simp
        · exact .inl (if_neg (mt hlast.mpr hl))
      · refine .inr ⟨d', ?_, hw⟩
        rw [← List.cons_append]
        exact List.mem_append_left _ hd'

theorem unmaps_mono (hs : Step a a') (hw : unmaps w a.core.log ≠ 0) : unmaps w a'.core.log ≠ 0 := by
  cases hs <;> simp_all [unmaps, Event.unmapped]

/-- The request thread gives up in the state that `Harmless` describes. -/
theorem Calm.step (hcalm : Calm gid a) (hm : Mapped a) (ha : Answered a) (hs : Step a a')
    (hok : ∀ e, a'.core.log = a.core.log ++ [e] → Harmless gid a.core e) : Calm gid a' := by
  intro cookie win err hq' hcur
  have h := ha.inv
  have hheld := h.tracked.held
  have hat := h.tracked.req
  have hcur' (hgroups : a'.core.groups = a.core.groups) : a.core.cur = gid := by
    rwa [Core.cur, hgroups] at hcur
  -- A failure in the middle of an entry leaves the window of that entry.
  have hdone (w₀ : Window) (hwin : a.req.window = some w₀) (hgid : a.core.cur = gid)
      (hset : Settled a.core gid (windows gid a.core.log).dropLast) :
      (∀ d ∈ a.core.dma, a.core.group d.buf ≠ gid) ∧
        ∀ w ∈ windows gid a.core.log, unmaps w a.core.log ≠ 0 ∨ some w₀ = some w := by
    refine ⟨hset.1, fun w hw ↦ ?_⟩
    have hlast := hm.req w₀ hwin
    rw [hgid] at hlast
    rw [← List.dropLast_append_getLast? w₀ hlast, List.mem_append, List.mem_singleton] at hw
    exact hw.imp (hset.2 w) fun hw ↦ congrArg some hw.symm
  have hkeep (hq : a.req = .abort cookie win err) :
      (∀ d ∈ a'.core.dma, a'.core.group d.buf ≠ gid) ∧
        ∀ w ∈ windows gid a'.core.log, unmaps w a'.core.log ≠ 0 ∨ win = some w := by
    have hgroups : a'.core.groups = a.core.groups := by
      rcases hs.group_cases with ⟨g, hidle, -⟩ | ⟨hgroups, -⟩
      · simp [hq] at hidle
      · exact hgroups
    have hold := hcalm cookie win err hq (hcur' hgroups)
    refine ⟨fun d hd ↦ ?_, fun w hw ↦ ?_⟩
    · rcases hs.mem_dma hd with hd | ⟨_, _, _, _, _, _, _, hq', -⟩
      · rw [(hs.keeps h.owned h.seen (mem_flight_of_dma hd)).1]
        exact hold.1 d hd
      · simp [hq] at hq'
    · rcases hs.windows_eq with ⟨hwin, -⟩ | ⟨_, _, _, hq', -⟩
      · exact (hold.2 w (hwin gid ▸ hw)).imp_left (unmaps_mono hs)
      · simp [hq] at hq'
  cases hs with
  | fetch g hidle =>
    rw [Core.fetch_cur] at hcur
    refine ⟨fun d hd ↦ ?_, fun w hw ↦ ?_⟩
    · exact hcur ▸ (h.ordered.lt_groups _ (mem_flight_of_dma hd)).ne
    · have hnil := hm.known gid hcur.le
      simp [Event.remapped, hnil] at hw
  | finish hq => simp at hq'
  | leadSync r hq hr =>
    rw [hq] at hat
    have hgid : a.core.cur = gid := hcur' rfl
    have hzero : (a.flight.countP fun b ↦ decide (a.core.group b = gid)) = 0 := by
      have hcount := ha.counted gid
      rw [← hgid, hat.2, List.length_nil, hgid] at hcount
      omega
    refine ⟨fun d hd hgroup ↦ ?_, fun w hw ↦ ?_⟩
    · exact List.countP_eq_zero.mp hzero _ (mem_flight_of_dma hd) (decide_eq_true hgroup)
    · have hnil := hm.lead _ _ hq
      rw [hgid] at hnil
      simp [Event.remapped, hnil] at hw
  | remapFail hq =>
    have hset : Settled a.core gid (windows gid a.core.log) := hok _ rfl (hcur' rfl)
    refine ⟨hset.1, fun w hw ↦ .inl ?_⟩
    have := hset.2 w (by simpa [Event.remapped] using hw)
    simpa [unmaps, Event.unmapped] using this
  | remap hq => exact absurd hq' proceed_ne_abort
  | pop hq => simp at hq'
  | fill hq =>
    dsimp only at hq'
    split at hq' <;> simp at hq'
  | @load _ w _ _ _ _ r hq hr =>
    rw [hq] at hheld
    dsimp only at hq'
    split at hq'
    · simp at hq'
    case isFalse hr0 =>
      obtain ⟨-, rfl, -⟩ := hq'
      have hset := hok _ rfl (hheld.1.trans (hcur' rfl)) hr0
      simpa [Event.remapped, unmaps, Event.unmapped] using
        hdone w (by rw [hq]; rfl) (hcur' rfl) hset
  | @submit _ w _ _ _ _ ck hq =>
    rw [hq] at hheld
    dsimp only at hq'
    split at hq'
    case isTrue hck =>
      obtain ⟨-, rfl, -⟩ := hq'
      have hset := hok _ rfl (hheld.1.trans (hcur' rfl)) hck
      simpa [Event.remapped, unmaps, Event.unmapped, hck] using
        hdone w (by rw [hq]; rfl) (hcur' rfl) hset
    · exact absurd hq' proceed_ne_abort
  | @abortUnmap _ w _ hq =>
    obtain ⟨-, rfl, -⟩ := hq'
    have hold := hcalm _ _ _ hq (hcur' rfl)
    refine ⟨hold.1, fun w' hw' ↦ .inl ?_⟩
    rcases hold.2 w' (by simpa [Event.remapped] using hw') with hw | hw
    · exact unmaps_mono (.abortUnmap hq) hw
    · obtain rfl := Option.some_inj.mp hw
      simp [unmaps, Event.unmapped]
  | abortRespond hq => simp at hq'
  | _ => exact hkeep hq'

/-- The invariant of the windows, for runs whose failures do no harm to group `gid`. -/
structure Released (gid : ℕ) (a : Pipe) : Prop where
  answered : Answered a
  mapped : Mapped a
  covered : Covered gid a
  calm : Calm gid a

theorem Released.step (hr : Released gid a) (hs : Step a a')
    (hok : ∀ e, a'.core.log = a.core.log ++ [e] → Harmless gid a.core e) : Released gid a' where
  answered := hr.answered.step hs
  mapped := hr.mapped.step hr.answered.inv hs
  covered := hr.covered.step hr.calm hr.mapped hr.answered.inv hs
  calm := hr.calm.step hr.mapped hr.answered hs hok

theorem Released.start (gid : ℕ) (media mem : ℕ → UInt8) :
    Released gid (Pipe.start media mem) where
  answered := Answered.start media mem
  mapped := Mapped.start media mem
  covered pre d post hdma := by simp [Pipe.start, init] at hdma
  calm _ _ _ hq := by simp [Pipe.start] at hq

/-- No descriptor goes through a released window. -/
theorem Released.unused (hr : Released gid a) (hfull : Full (a.core.groups.getD gid []))
    (hw : w ∈ windows gid a.core.log) (hun : unmaps w a.core.log = 1) :
    ∀ d ∈ a.core.dma, d.win ≠ w := by
  rintro d hd rfl
  have htally := hr.mapped.once gid hfull d.win hw
  have hzero : a.holders d.win = 0 := by
    rw [tally] at htally
    omega
  have hgroup : a.core.group d.buf = gid := hr.mapped.unique d.win _ _ (hr.mapped.desc d hd) hw
  obtain ⟨pre, post, hdma⟩ := List.append_of_mem hd
  rw [holders] at hzero
  rcases hr.covered pre d post hdma hgroup with hreq | ⟨d', hd', hcarry⟩
  · rw [if_pos hreq] at hzero
    omega
  · have hmem : d' ∈ a.core.dma := hdma ▸ List.mem_append_right _ hd'
    have hpos : 0 < a.uncalled.countP (a.core.carries d.win) :=
      List.countP_pos_iff.mpr ⟨d'.buf, mem_uncalled_of_dma hmem, by simp [Core.carries, hcarry]⟩
    omega

/-- When the request thread answers, nothing of the group is left. -/
theorem Released.at_abort {cookie : ℕ} {err : ℤ} (hr : Released gid a)
    (hfull : Full (a.core.groups.getD gid [])) (hq : a.req = .abort cookie none err)
    (hcur : a.core.cur = gid) :
    (∀ d ∈ a.core.dma, a.core.group d.buf ≠ gid) ∧
      ∀ w ∈ windows gid a.core.log, unmaps w a.core.log = 1 := by
  obtain ⟨hdma, hwin⟩ := hr.calm _ _ _ hq hcur
  refine ⟨hdma, fun w hw ↦ ?_⟩
  have htally := hr.mapped.once gid hfull w hw
  have hne := (hwin w hw).resolve_right (by simp)
  rw [tally] at htally
  omega

theorem Released.at_respond {b : ℕ} {p : CallbackParam} {err : ℤ} (hr : Released gid a)
    (hfull : Full (a.core.groups.getD gid [])) (hxf : a.xf = .toRespond b p err)
    (hgid : a.core.group b = gid) :
    (∀ d ∈ a.core.dma, a.core.group d.buf ≠ gid) ∧
      ∀ w ∈ windows gid a.core.log, unmaps w a.core.log = 1 := by
  have h := hr.answered.inv
  have hseen := h.seen.xf
  rw [hxf] at hseen
  have hck : 0 ≤ (a.core.param b).responseCookie := hseen.1 ▸ hseen.2
  have hb : b ∈ a.flight := by simp [flight, hxf]
  set rest := a.queue ++ a.cb.hand ++ a.core.done ++ a.core.dma.map DmaDesc.buf with hrest
  have hfl : a.flight = b :: rest := by simp [flight, hxf, hrest]
  have hne {x : ℕ} (hx : x ∈ rest) : a.core.group x ≠ gid := fun hgroup ↦
    h.group_ne hfl hck hx (hgid.trans hgroup.symm)
  refine ⟨fun d hd ↦ hne ?_, fun w hw ↦ ?_⟩
  · rw [hrest]
    exact List.mem_append_right _ (List.mem_map_of_mem hd)
  · -- A holder of the window would be of the group, but the group is over.
    have hreq : a.req.window ≠ some w := by
      intro hreq
      have hcur : a.core.cur = gid := hr.mapped.unique w _ _ (hr.mapped.mem_windows hreq) hw
      have hclosed := h.ordered.final b hb (hgid.trans hcur.symm) hck
      generalize a.req = q at hreq hclosed
      cases q <;> simp [ReqSt.window, ReqSt.closed] at hreq hclosed
    have hcarry (x : ℕ) (hx : x ∈ rest) : (a.core.param x).remapped ≠ some w := by
      intro hx'
      refine hne hx (hr.mapped.unique w _ _ (hr.mapped.buf x ?_ w hx') hw)
      rw [hfl]
      exact List.mem_cons_of_mem _ hx
    have hcb : a.cb.window ≠ some w := by
      have hcbseen := h.seen.cb
      intro hcb
      cases hq : a.cb with
      | unmap x q w' =>
        rw [hq] at hcb hcbseen
        refine hcarry x ?_ (hcbseen.1 ▸ hcbseen.2.trans hcb)
        simp [hrest, hq]
      | _ => simp [hq, CbSt.window] at hcb
    have hun : a.uncalled.countP (a.core.carries w) = 0 := by
      refine List.countP_eq_zero.mpr fun x hx ↦ ?_
      rw [Core.carries, beq_iff_eq]
      refine hcarry x ?_
      rw [uncalled] at hx
      rw [hrest, List.append_assoc]
      exact List.mem_append_right _ hx
    have htally := hr.mapped.once gid hfull w hw
    rw [tally, holders, if_neg hreq, if_neg hcb, hun] at htally
    omega

end Pipe

/-! ## Every run -/

variable {s s' : Sys} {gid : ℕ} {g : List VcablkRequest}

/-- **Pages in use.** In every run in which an operation of the request thread fails only after
everything its group started before is over: no window of the group is released twice or while a
descriptor goes through it, and when the group is answered no DMA of it is outstanding and all its
windows are released. -/
theorem pages_released_at_response {media mem : ℕ → UInt8} {ls : List Label}
    (hok : Along (fun s _ s' ↦ ∀ e, s'.log = s.log ++ [e] → Harmless gid s.shared.core e) step
      (init media mem) ls)
    (h : exec step (init media mem) ls = some s) (hg : s.groups[gid]? = some g) (hfull : Full g) :
    (∀ w ∈ windows gid s.log, unmaps w s.log ≤ 1 ∧
        (unmaps w s.log = 1 → ∀ d ∈ s.shared.core.dma, d.win ≠ w)) ∧
      ∀ l s' ck ret, step s l = some s' → s'.log = s.log ++ [.response gid ck ret] →
        (∀ d ∈ s.shared.core.dma, s.shared.core.group d.buf ≠ gid) ∧
          ∀ w ∈ windows gid s.log, unmaps w s.log = 1 := by
  obtain ⟨a, hsim, hr⟩ : ∃ a, Sim s a ∧ a.Released gid :=
    exec_invariant_pipe (C := fun k k' ↦ ∀ e, k'.log = k.log ++ [e] → Harmless gid k e) hok h
      (Pipe.Released.start gid media mem) fun hr hs hok ↦ hr.step hs hok
  have hget : a.core.groups.getD gid [] = g := by
    rw [List.getD_eq_getElem?_getD, ← hsim.core, ← Sys.groups, hg, Option.getD_some]
  rw [← hget] at hfull
  rw [Sys.log, hsim.core]
  refine ⟨fun w hw ↦ ⟨?_, hr.unused hfull hw⟩, fun l s' ck ret hs hsend ↦ ?_⟩
  · have htally := hr.mapped.once gid hfull w hw
    rw [Pipe.tally] at htally
    omega
  · rw [← hsim.core] at hsend
    rcases hsim.sends hs hsend with ⟨err, hq, hcur, -⟩ | ⟨b, p, err, hxf, hgid, -⟩
    · exact hr.at_abort hfull hq hcur
    · exact hr.at_respond hfull hxf hgid

/-! ## Reading the condition off the history -/

/-- The event is a failed operation of the request thread. -/
def Event.fails : Event → Bool
  | .remap _ w => w.isNone
  | .load _ _ _ ret _ => ret != 0
  | .submit _ _ _ cookie => decide (cookie < 0)
  | _ => false

theorem harmless_of_not_fails {k : Core} {e : Event} (h : e.fails = false) : Harmless gid k e := by
  cases e with
  | remap g w => cases w <;> simp_all [Event.fails, Harmless]
  | load g b p ret bytes => simp_all [Event.fails, Harmless]
  | submit g p d cookie =>
    simp only [Event.fails, decide_eq_false_iff_not] at h
    exact fun _ hck ↦ absurd hck h
  | _ => trivial

/-- A run without failures of the request thread does no harm. -/
theorem along_harmless {media mem : ℕ → UInt8} {ls : List Label}
    (h : exec step (init media mem) ls = some s) (hlog : ∀ e ∈ s.log, e.fails = false) :
    Along (fun s _ s' ↦ ∀ e, s'.log = s.log ++ [e] → Harmless gid s.shared.core e) step
      (init media mem) ls := by
  refine (along_of_exec (G := fun s ↦ ∀ e ∈ s.log, e.fails = false) (fun hs hlog ↦ ?_) h hlog).2
  refine ⟨fun e he ↦ hlog e ((step_grows hs).1.subset he), fun e he ↦ harmless_of_not_fails ?_⟩
  exact hlog e (by rw [he]; exact List.mem_append_right _ List.mem_cons_self)

/-- The write of one sector is answered with its window released. -/
theorem write_run_released :
    ∃ s s', exec step (init (fun _ ↦ 0) fun _ ↦ 0) (writeRun.take 19) = some s ∧
      step s (.transfer 0) = some s' ∧ s'.log = s.log ++ [.response 0 1 0] ∧
      windows 0 s.log = [⟨0, 4096⟩] ∧ unmaps ⟨0, 4096⟩ s.log = 1 := by
  obtain ⟨s, s', hrun, hs, hsend, hg, hwin, hfails⟩ : ∃ s s',
      exec step (init (fun _ ↦ 0) fun _ ↦ 0) (writeRun.take 19) = some s ∧
        step s (.transfer 0) = some s' ∧ s'.log = s.log ++ [.response 0 1 0] ∧
        s.groups[0]? = some [writeEntry] ∧ windows 0 s.log = [⟨0, 4096⟩] ∧
        s.log.all (fun e ↦ !e.fails) = true := ⟨_, _, rfl, rfl, rfl, rfl, rfl, rfl⟩
  have hshape : Shaped 1 [writeEntry] [] [writeEntry] [] :=
    ⟨rfl, by simp, by simp, by simp, by simp, by simp [writeEntry], by simp [writeEntry]⟩
  have hok := fun e he ↦ by simpa using List.all_eq_true.mp hfails e he
  refine ⟨s, s', hrun, hs, hsend, hwin, ?_⟩
  exact ((pages_released_at_response (along_harmless hrun hok) hrun hg hshape.full).2 _ _ _ _ hs
    hsend).2 _ (by simp [hwin])

/-- The second chunk of nine sectors fails to be submitted: the group is answered while the first
chunk is in the DMA engine, through a window that is already released. -/
theorem failed_submit_answers_early :
    ∃ s s', exec step (init (fun _ ↦ 0) fun _ ↦ 0)
        [.fetch [⟨4096, 3, 9, 1, .write⟩], .request 1, .request 0, .request 0, .request 1,
          .request 0, .request 0, .request (-1), .request 0] = some s ∧
      step s (.request 0) = some s' ∧ s'.log = s.log ++ [.response 0 1 (-12)] ∧
      ∃ d ∈ s.shared.core.dma, s.shared.core.group d.buf = 0 ∧ unmaps d.win s.log = 1 :=
  ⟨_, _, rfl, rfl, rfl, ⟨0, ⟨0, 4096⟩, 0, 4096, true⟩, List.mem_cons_self, rfl, rfl⟩

end Vcass.BlockIo.Bcknd
