import Vcass.BlockIo.Bcknd.Order
import Vcass.BlockIo.Bcknd.Shape

/-!
# Block I/O backend: the answers of a group

A group is answered from three places: by the request thread when it refuses the group or gives up
on it, by the request thread after a failed leading sync, and by the transfer thread after the last
chunk. `share` counts the responses of a group that were sent together with those that are bound to
come, from a chunk in the pipeline or from the request thread; no step changes it, and it is one
exactly for the groups that are answered at all (`Balanced`).

A group that consists of SYNC entries only is the exception: it has no chunk that could answer, and
the request thread answers it only if its leading sync fails.
-/

namespace Vcass.BlockIo.Bcknd

open Conc

/-! ## Responses -/

def Event.responded (gid : ℕ) : Event → Option (ℕ × ℤ)
  | .response g cookie ret => if g = gid then some (cookie, ret) else none
  | _ => none

/-- The responses sent for a group: cookies and results. -/
abbrev responses (gid : ℕ) (log : List Event) : List (ℕ × ℤ) := history (Event.responded gid) log

def Event.leadSynced (gid : ℕ) : Event → Option ℤ
  | .sync g true ret => if g = gid then some ret else none
  | _ => none

/-- The results of the syncs performed for the leading SYNC entry of a group. -/
abbrev leadSyncs (gid : ℕ) (log : List Event) : List ℤ := history (Event.leadSynced gid) log

/-! ## The last chunk carries the cookie -/

variable {c : Chunk} {sub : List Chunk}

theorem chunks_getLast {write flush : Bool} {ck : ℤ} {fuel left sector off : ℕ} {dn : List Chunk}
    (h : chunks write ck flush fuel left sector off = dn ++ [c]) (hfuel : left ≤ fuel) :
    c.cookie = ck ∧ c.doFlush = flush := by
  induction fuel generalizing left sector off dn with
  | zero => simp [chunks] at h
  | succ fuel ih =>
    rw [chunks] at h
    split at h
    · simp at h
    set nsec := min left (pageSize >>> sectorShift) with hnsec
    have hpos : 0 < nsec := by
      have : 0 < pageSize >>> sectorShift := by decide
      omega
    cases dn with
    | cons d dn =>
      rw [List.cons_append, List.cons.injEq] at h
      exact ih h.2 (by omega)
    | nil =>
      rw [List.nil_append, List.cons.injEq] at h
      obtain ⟨rfl, hnil⟩ := h
      have hleft : left - nsec = 0 := by
        cases fuel with
        | zero => omega
        | succ fuel =>
          rw [chunks] at hnil
          split at hnil
          · assumption
          · simp at hnil
      exact ⟨if_pos hleft, if_pos hleft⟩

theorem entries_getLast {write flush : Bool} {ck : ℕ} {rs : List VcablkRequest}
    {pre : List Entry} {e : Entry} {dn : List Chunk}
    (h : entries write ck flush rs = pre ++ [e]) (he : e.chunks = dn ++ [c]) :
    c.cookie = ck ∧ c.doFlush = flush := by
  induction rs generalizing pre with
  | nil => simp [entries] at h
  | cons r rs ih =>
    rw [entries] at h
    cases pre with
    | cons e' pre =>
      rw [List.cons_append, List.cons.injEq] at h
      exact ih h.2
    | nil =>
      rw [List.nil_append, List.cons.injEq] at h
      obtain ⟨rfl, hnil⟩ := h
      cases rs with
      | nil => exact chunks_getLast he le_rfl
      | cons r' rs => simp [entries] at hnil

theorem Within.cookie_of_last {g : List VcablkRequest}
    (h : Within (groupEntries g) sub [c] []) : 0 ≤ c.cookie := by
  obtain ⟨pre, e, dn, hE, he, -⟩ := h
  rw [groupEntries] at hE
  generalize vcablkBckndDiskRequestGetInfo g = result at hE
  obtain ⟨err, info⟩ := result
  dsimp only at hE
  split at hE
  · simp at hE
  · rw [(entries_getLast hE he).1]
    exact Int.natCast_nonneg _

/-! ## What is still to be answered -/

/-- The buffer whose response, if any, the transfer thread has not sent yet. -/
def XfSt.unanswered : XfSt → List ℕ
  | took b _ => [b]
  | toStore b _ => [b]
  | toSync b _ => [b]
  | toRespond b _ _ => [b]
  | _ => []

/-- Buffer `b` carries the last chunk of group `gid`. -/
def Core.closes (k : Core) (gid b : ℕ) : Bool :=
  decide (k.group b = gid ∧ 0 ≤ (k.param b).responseCookie)

/-- Whether the request thread will answer its group, or submit the chunk that does. -/
def ReqSt.owes : ReqSt → ℕ
  | idle => 0
  | done => 0
  | lead _ es => if es = [] then 0 else 1
  | _ => 1

@[simp] theorem ReqSt.owes_settle (cookie : ℕ) (es : List Entry) :
    (settle cookie es).owes = if es = [] then 0 else 1 := by
  cases es <;> rfl

@[simp] theorem ReqSt.owes_proceed (cookie : ℕ) (w : Window) (cs : List Chunk) (es : List Entry) :
    (proceed cookie w cs es).owes = if cs = [] ∧ es = [] then 0 else 1 := by
  cases cs
  · simp [proceed]
  · rfl

namespace Pipe

variable {a a' : Pipe} {gid : ℕ}

def waiting (a : Pipe) : List ℕ :=
  a.xf.unanswered ++ a.queue ++ a.cb.hand ++ a.core.done ++ a.core.dma.map DmaDesc.buf

theorem mem_flight_of_waiting {b : ℕ} (h : b ∈ a.waiting) : b ∈ a.flight := by
  have hxf : ∀ x ∈ a.xf.unanswered, x ∈ a.xf.hand := by
    cases a.xf <;> simp [XfSt.unanswered]
  simp only [waiting, flight, List.mem_append] at h ⊢
  rcases h with (((h | h) | h) | h) | h
  · exact .inl (.inl (.inl (.inl (hxf b h))))
  all_goals tauto

/-- The responses of a group, sent and still to come. -/
def share (gid : ℕ) (a : Pipe) : ℕ :=
  (responses gid a.core.log).length + a.waiting.countP (a.core.closes gid) +
    if gid = a.core.cur then a.req.owes else 0

theorem Step.countP_closes (hs : Step a a') (h : Inv a) {l : List ℕ} (hl : ∀ b ∈ l, b ∈ a.flight) :
    l.countP (a'.core.closes gid) = l.countP (a.core.closes gid) := by
  refine List.countP_congr fun b hb ↦ ?_
  rw [Core.closes, Core.closes, (hs.keeps h.owned h.seen (hl b hb)).1,
    hs.keeps_cookie h.owned h.seen (hl b hb)]

section Share

attribute [local simp] responses Event.responded

theorem countP_stored {k : Core} {b : ℕ} {p : CallbackParam} (hp : k.param b = p) (err : ℤ) :
    (XfSt.stored b p err).unanswered.countP (k.closes gid) = [b].countP (k.closes gid) := by
  rw [XfSt.stored]
  split
  case isTrue => split <;> rfl
  case isFalse hck =>
    rw [List.countP_singleton, if_neg]
    · rfl
    · simp only [Core.closes, decide_eq_true_eq, hp, not_and]
      exact fun _ ↦ hck

theorem countP_begun {k : Core} {b : ℕ} {p : CallbackParam} (hp : k.param b = p) :
    (XfSt.begun b p).unanswered.countP (k.closes gid) = [b].countP (k.closes gid) := by
  rw [XfSt.begun]
  split
  · rfl
  · exact countP_stored hp 0

theorem share_congr_countP (hresp : responses gid a'.core.log = responses gid a.core.log)
    (hwait : a'.waiting.countP (a'.core.closes gid) = a.waiting.countP (a.core.closes gid))
    (hcur : a'.core.cur = a.core.cur) (howes : gid = a.core.cur → a'.req.owes = a.req.owes) :
    a'.share gid = a.share gid := by
  rw [share, share, hresp, hwait, hcur]
  split
  case isTrue hgid => rw [howes hgid]
  case isFalse => rfl

theorem share_congr (h : Inv a) (hs : Step a a')
    (hresp : responses gid a'.core.log = responses gid a.core.log) (hwait : a'.waiting = a.waiting)
    (hcur : a'.core.cur = a.core.cur) (howes : gid = a.core.cur → a'.req.owes = a.req.owes) :
    a'.share gid = a.share gid := by
  refine share_congr_countP hresp ?_ hcur howes
  rw [hwait, hs.countP_closes h fun b hb ↦ mem_flight_of_waiting hb]

/-- The chunk submitted last is the one that will answer. -/
theorem share_submit {cookie b : ℕ} {w : Window} {cs : List Chunk} {es : List Entry} {ck : ℤ}
    (h : Inv a) (hq : a.req = .toSubmit cookie w b c cs es) (hck : ¬ ck < 0) :
    ({ a with core := a.core.submit (c.desc w b) ck, req := .proceed cookie w cs es } : Pipe).share
      gid = a.share gid := by
  have hat := h.tracked.req
  have hheld := h.tracked.held
  rw [hq] at hat hheld
  have hcloses : (a.core.submit (c.desc w b) ck).closes gid = a.core.closes gid := rfl
  have hb : a.core.closes gid b = decide (a.core.cur = gid ∧ 0 ≤ c.cookie) := by
    rw [Core.closes, hheld.1, hheld.2]
    rfl
  have hlast : 0 ≤ c.cookie ↔ cs = [] ∧ es = [] := by
    refine ⟨fun hc ↦ ?_, ?_⟩
    · obtain ⟨hcs, hes, -⟩ := Within.cookie_last hat hc
      exact ⟨hcs, hes⟩
    · rintro ⟨rfl, rfl⟩
      exact Within.cookie_of_last hat
  have hwait : ({ a with
      core := a.core.submit (c.desc w b) ck
      req := .proceed cookie w cs es } : Pipe).waiting = a.waiting ++ [b] := by
    simp [waiting, if_neg hck, Chunk.desc]
  have hresp : responses gid (a.core.submit (c.desc w b) ck).log = responses gid a.core.log := by
    simp
  rw [share, share, hwait, List.countP_append, List.countP_singleton]
  dsimp only
  rw [hcloses, hb, hresp, hq, ReqSt.owes_proceed, Core.submit_cur]
  by_cases hgid : gid = a.core.cur
  · by_cases hc : 0 ≤ c.cookie
    · simp [hgid, hc, hlast.mp hc, ReqSt.owes, Nat.add_assoc]
    · simp [hgid, hc, mt hlast.mpr hc, ReqSt.owes]
  · simp [hgid, Ne.symm hgid]

theorem share_eq (h : Inv a) (hs : Step a a') (hfull : Full (a.core.groups.getD gid []))
    (hfetch : a'.core.groups = a.core.groups)
    (hlead : ∀ cookie, a.req = .lead cookie [] → gid = a.core.cur → a'.req.owes = 0) :
    a'.share gid = a.share gid := by
  have hseen := h.seen.xf
  have hs' := hs
  cases hs with
  | fetch g hidle => simp at hfetch
  | finish hq => exact share_congr h hs' rfl rfl rfl fun _ ↦ by rw [hq]; rfl
  | @leadSync cookie es r hq hr =>
    refine share_congr h hs' (by simp) rfl rfl fun hgid ↦ ?_
    cases es with
    | nil =>
      rw [hlead cookie hq hgid, hq]
      rfl
    | cons e es =>
      rw [hq]
      split <;> rfl
  | remapFail hq => exact share_congr h hs' (by simp) rfl rfl fun _ ↦ by rw [hq]; rfl
  | @remap cookie e es hq =>
    refine share_congr h hs' (by simp) rfl rfl fun hgid ↦ ?_
    have hat := h.tracked.req
    rw [hq, ← hgid] at hat
    obtain ⟨pre, hE, -⟩ := hat
    have hne : e.chunks ≠ [] := hfull e (hE ▸ List.mem_append_right _ List.mem_cons_self)
    rw [hq, ReqSt.owes_proceed, if_neg fun hnil ↦ hne hnil.1]
    rfl
  | pop hq hfree => exact share_congr h hs' (by simp) rfl rfl fun _ ↦ by rw [hq]; rfl
  | fill hq =>
    refine share_congr h hs' rfl rfl rfl fun _ ↦ ?_
    rw [hq]
    dsimp only
    split <;> rfl
  | load r hq hr =>
    refine share_congr h hs' (by simp) rfl rfl fun _ ↦ ?_
    rw [hq]
    dsimp only
    split <;> rfl
  | @submit cookie w b c cs es ck hq =>
    by_cases hck : ck < 0
    · refine share_congr h hs' (by simp) (by simp [waiting, hck]) rfl fun _ ↦ ?_
      rw [hq, if_pos hck]
      rfl
    · rw [if_neg hck]
      exact share_submit h hq hck
  | abortUnmap hq => exact share_congr h hs' (by simp) rfl rfl fun _ ↦ by rw [hq]; rfl
  | @abortRespond cookie err hq =>
    have hcloses : (a.core.emit (.response a.core.cur cookie (s8 err))).closes gid =
      a.core.closes gid := rfl
    rw [share, share, hq, waiting, waiting]
    dsimp only
    rw [hcloses]
    by_cases hgid : gid = a.core.cur
    · simp [hgid, ReqSt.owes]
      omega
    · simp [hgid, Ne.symm hgid]
  | move hd => exact share_congr h hs' (by simp) (by simp [waiting, hd]) rfl fun _ ↦ rfl
  | cbStart hcb hd => exact share_congr h hs' rfl (by simp [waiting, hcb, hd]) rfl fun _ ↦ rfl
  | cbUnmap hcb => exact share_congr h hs' (by simp) (by simp [waiting, hcb]) rfl fun _ ↦ rfl
  | cbClear hcb => exact share_congr h hs' rfl (by simp [waiting, hcb]) rfl fun _ ↦ rfl
  | enqueue hcb => exact share_congr h hs' rfl (by simp [waiting, hcb]) rfl fun _ ↦ rfl
  | take hxf hq =>
    exact share_congr h hs' rfl (by simp [waiting, hxf, hq, XfSt.unanswered]) rfl fun _ ↦ rfl
  | @clearTx b p hxf =>
    rw [hxf] at hseen
    refine share_congr_countP rfl ?_ rfl fun _ ↦ rfl
    simp only [waiting, hxf, List.countP_append, XfSt.unanswered]
    rw [← countP_begun hseen]
    rfl
  | @store b p r hxf hr =>
    rw [hxf] at hseen
    refine share_congr_countP (by simp) ?_ rfl fun _ ↦ rfl
    simp only [waiting, hxf, List.countP_append, XfSt.unanswered]
    rw [← countP_stored hseen.1 r]
    rfl
  | flush r hxf hr =>
    exact share_congr h hs' (by simp) (by simp [waiting, hxf, XfSt.unanswered]) rfl fun _ ↦ rfl
  | @respond b p err hxf =>
    rw [hxf] at hseen
    have hb : a.core.closes gid b = decide (a.core.group b = gid) := by
      rw [Core.closes, hseen.1]
      simp [hseen.2]
    have hcloses : (a.core.emit (.response (a.core.group b) p.responseCookie.toNat
      (s8 err))).closes gid = a.core.closes gid := rfl
    rw [share, share, waiting, waiting, hxf]
    dsimp only
    rw [hcloses]
    by_cases hgid : a.core.group b = gid
    · simp [hb, hgid, XfSt.unanswered]
      omega
    · simp [hb, hgid, XfSt.unanswered]
      rfl
  | push hxf =>
    exact share_congr h hs' (by simp) (by simp [waiting, hxf, XfSt.unanswered]) rfl fun _ ↦ rfl
  | release hxf =>
    exact share_congr h hs' rfl (by simp [waiting, hxf, XfSt.unanswered]) rfl fun _ ↦ rfl

end Share

/-! ## The balance of answers -/

/-- The group is answered: it is refused, or has something to transfer, or its leading sync
fails. -/
def Promised (k : Core) (gid : ℕ) : Prop :=
  gid < k.groups.length ∧ ((vcablkBckndDiskRequestGetInfo (k.groups.getD gid [])).1 ≠ 0 ∨
    groupEntries (k.groups.getD gid []) ≠ [] ∨ ∃ r ∈ leadSyncs gid k.log, r ≠ 0)

/-- Every group gets one response if it is to be answered, and none otherwise. -/
structure Balanced (a : Pipe) : Prop where
  once : ∀ gid, Full (a.core.groups.getD gid []) →
    a.share gid ≤ 1 ∧ (a.share gid = 1 ↔ Promised a.core gid)
  fresh : ∀ gid, a.core.groups.length ≤ gid → leadSyncs gid a.core.log = []
  lead : ∀ cookie es, a.req = .lead cookie es → leadSyncs a.core.cur a.core.log = [] ∧
    (vcablkBckndDiskRequestGetInfo (a.core.groups.getD a.core.cur [])).1 = 0

section Balance

attribute [local simp] leadSyncs Event.leadSynced

theorem settle_ne_lead {cookie ck : ℕ} {es es' : List Entry} :
    ReqSt.settle cookie es ≠ .lead ck es' := by
  cases es <;> simp [ReqSt.settle]

theorem proceed_ne_lead {cookie ck : ℕ} {w : Window} {cs : List Chunk} {es es' : List Entry} :
    ReqSt.proceed cookie w cs es ≠ .lead ck es' := by
  cases cs
  · exact settle_ne_lead
  · simp [ReqSt.proceed]

/-- Only the request thread, on taking up a group, performs its leading sync. -/
theorem Step.lead_cases (hs : Step a a') (hgroups : a'.core.groups = a.core.groups) :
    ((∀ gid, leadSyncs gid a'.core.log = leadSyncs gid a.core.log) ∧
        ∀ cookie es, a'.req = .lead cookie es ↔ a.req = .lead cookie es) ∨
      ∃ cookie es r, a.req = .lead cookie es ∧ a' = { a with
        core := a.core.emit (.sync a.core.cur true r)
        req := if r = 0 then .settle cookie es else .abort cookie none r } := by
  cases hs with
  | @leadSync cookie es r hq hr => exact .inr ⟨cookie, es, r, hq, rfl⟩
  | fetch g hq => simp at hgroups
  | finish hq => exact .inl ⟨by simp, by simp [hq]⟩
  | remapFail hq => exact .inl ⟨by simp, by simp [hq]⟩
  | remap hq => exact .inl ⟨by simp, by simp [hq, proceed_ne_lead]⟩
  | pop hq => exact .inl ⟨by simp, by simp [hq]⟩
  | fill hq => exact .inl ⟨by simp, fun _ _ ↦ by dsimp only; split <;> simp [hq]⟩
  | load _ hq => exact .inl ⟨by simp, fun _ _ ↦ by dsimp only; split <;> simp [hq]⟩
  | submit _ hq =>
    refine .inl ⟨by simp, fun _ _ ↦ ?_⟩
    dsimp only
    split
    · simp [hq]
    · simp [hq, proceed_ne_lead]
  | abortUnmap hq => exact .inl ⟨by simp, by simp [hq]⟩
  | abortRespond hq => exact .inl ⟨by simp, by simp [hq]⟩
  | _ => exact .inl ⟨by simp, fun _ _ ↦ Iff.rfl⟩

theorem owes_start (g : List VcablkRequest) :
    (ReqSt.start g).owes ≤ 1 ∧ ((ReqSt.start g).owes = 1 ↔
      (vcablkBckndDiskRequestGetInfo g).1 ≠ 0 ∨ groupEntries g ≠ []) := by
  rcases start_cases g with ⟨herr, -, h⟩ | ⟨herr, -, h⟩ | ⟨herr, -, h⟩
  · simp [h, herr, ReqSt.owes]
  · by_cases hE : groupEntries g = [] <;> simp [h, herr, hE, ReqSt.owes]
  · by_cases hE : groupEntries g = [] <;> simp [h, herr, hE]

theorem Balanced.share_eq_zero (hb : Balanced a) (hge : a.core.groups.length ≤ gid) :
    a.share gid = 0 := by
  have hfull : Full (a.core.groups.getD gid []) := by
    rw [List.getD_eq_default _ _ hge]
    simp [Full, groupEntries, vcablkBckndDiskRequestGetInfo, eio]
  obtain ⟨hle, hiff⟩ := hb.once gid hfull
  have hne : ¬ a.share gid = 1 := fun h1 ↦ absurd (hiff.mp h1).1 (not_lt.mpr hge)
  omega

theorem Balanced.fetch {g : List VcablkRequest} (hb : Balanced a) (hidle : a.req = .idle) :
    Balanced { a with core := a.core.fetch g, req := .start g } := by
  have hlead : ∀ n, leadSyncs n (a.core.fetch g).log = leadSyncs n a.core.log := fun n ↦ by simp
  have hshare (gid : ℕ) : ({ a with core := a.core.fetch g, req := .start g } : Pipe).share gid =
      a.share gid + if gid = a.core.groups.length then (ReqSt.start g).owes else 0 := by
    have hclose : (a.core.fetch g).closes gid = a.core.closes gid := rfl
    rw [Pipe.share, Pipe.share, hidle, Core.fetch_cur]
    simp [responses, Event.responded, hclose, waiting, ReqSt.owes]
  refine ⟨fun gid hfull ↦ ?_, fun gid hle ↦ ?_, fun cookie es hstart ↦ ?_⟩
  · rw [hshare, Promised, hlead, Core.fetch_groups, List.length_append, List.length_singleton]
    rw [Core.fetch_groups] at hfull
    rcases lt_trichotomy gid a.core.groups.length with hlt | rfl | hgt
    · have hget : (a.core.groups ++ [g]).getD gid [] = a.core.groups.getD gid [] :=
        List.getD_append _ _ _ _ hlt
      rw [hget] at hfull ⊢
      rw [if_neg hlt.ne, add_zero]
      obtain ⟨hle, hiff⟩ := hb.once gid hfull
      refine ⟨hle, ?_⟩
      rw [hiff, Promised]
      exact and_congr_left fun _ ↦ ⟨fun _ ↦ by omega, fun _ ↦ hlt⟩
    · have hget : (a.core.groups ++ [g]).getD a.core.groups.length [] = g := by simp
      rw [hget, if_pos rfl, hb.share_eq_zero le_rfl, Nat.zero_add, hb.fresh _ le_rfl]
      simpa using owes_start g
    · rw [if_neg hgt.ne', hb.share_eq_zero hgt.le]
      simp
      omega
  · rw [hlead]
    refine hb.fresh gid ?_
    rw [Core.fetch_groups, List.length_append, List.length_singleton] at hle
    omega
  · rw [hlead, Core.fetch_cur]
    refine ⟨hb.fresh _ le_rfl, ?_⟩
    have hget : (a.core.groups ++ [g]).getD a.core.groups.length [] = g := by simp
    rw [Core.fetch_groups, hget]
    rcases start_cases g with ⟨-, -, h⟩ | ⟨herr, -⟩ | ⟨herr, -⟩
    · exact absurd (h.symm.trans hstart) (by simp)
    · exact herr
    · exact herr

/-- A leading sync that fails is answered, also when the group has nothing to transfer. -/
theorem Balanced.leadSync {cookie : ℕ} {es : List Entry} {r : ℤ} (hb : Balanced a) (h : Inv a)
    (hq : a.req = .lead cookie es) (hs : Step a { a with
      core := a.core.emit (.sync a.core.cur true r)
      req := if r = 0 then .settle cookie es else .abort cookie none r }) :
    Balanced { a with
      core := a.core.emit (.sync a.core.cur true r)
      req := if r = 0 then .settle cookie es else .abort cookie none r } := by
  have hlt : a.core.cur < a.core.groups.length := h.lt_groups.resolve_left (by simp [hq])
  have hE := h.tracked.req
  rw [hq] at hE
  obtain ⟨hnil, herr⟩ := hb.lead cookie es hq
  have hlead (gid : ℕ) : leadSyncs gid (a.core.emit (.sync a.core.cur true r)).log =
      leadSyncs gid a.core.log ++ if a.core.cur = gid then [r] else [] := by
    simp only [Core.emit_log, leadSyncs, history_snoc, Event.leadSynced]
    split <;> rfl
  refine ⟨fun gid hfull ↦ ?_, fun gid hle ↦ ?_, fun ck es' hq' ↦ ?_⟩
  · change Full (a.core.groups.getD gid []) at hfull
    have honce := hb.once gid hfull
    by_cases hgid : a.core.cur = gid
    · subst hgid
      by_cases hr : r = 0
      · have howes : ∀ ck, a.req = .lead ck [] → a.core.cur = a.core.cur →
            (if r = 0 then ReqSt.settle cookie es else .abort cookie none r).owes = 0 := by
          intro ck hq' _
          rw [hq, ReqSt.lead.injEq] at hq'
          rw [if_pos hr, ReqSt.owes_settle, if_pos hq'.2]
        rw [share_eq h hs hfull rfl howes, Promised, hlead, if_pos rfl, hnil]
        rw [Promised, hnil] at honce
        simpa [hr] using honce
      · have hshare : ({ a with
            core := a.core.emit (.sync a.core.cur true r)
            req := if r = 0 then .settle cookie es else .abort cookie none r } : Pipe).share
            a.core.cur = a.share a.core.cur + if es = [] then 1 else 0 := by
          have hclose : (a.core.emit (.sync a.core.cur true r)).closes a.core.cur =
            a.core.closes a.core.cur := rfl
          rw [share, share, hq, if_neg hr]
          dsimp only
          rw [hclose]
          by_cases hes : es = [] <;>
            simp [hes, responses, Event.responded, waiting, ReqSt.owes]
        rw [Promised, hnil, herr, hE.1] at honce
        rw [hshare, Promised, hlead, if_pos rfl, hnil]
        by_cases hes : es = []
        · have hzero : a.share a.core.cur = 0 := by
            have hne : ¬ a.share a.core.cur = 1 := fun h1 ↦ by simpa [hes] using honce.2.mp h1
            omega
          simp [hes, hzero, hr]
          omega
        · have hone : a.share a.core.cur = 1 := honce.2.mpr ⟨hlt, by simp [hes]⟩
          simp [hes, hone, hr]
          omega
    · rw [share_eq h hs hfull rfl fun _ _ hcur ↦ absurd hcur.symm hgid, Promised, hlead,
        if_neg hgid, List.append_nil]
      exact honce
  · change a.core.groups.length ≤ gid at hle
    rw [hlead, if_neg (by omega), List.append_nil]
    exact hb.fresh gid hle
  · dsimp only at hq'
    split at hq'
    · exact absurd hq' settle_ne_lead
    · exact absurd hq' (by simp)

theorem Balanced.step (hb : Balanced a) (h : Inv a) (hs : Step a a') : Balanced a' := by
  rcases hs.group_cases with ⟨g, hidle, rfl⟩ | ⟨hgroups, -⟩
  · exact hb.fetch hidle
  rcases hs.lead_cases hgroups with ⟨hlead, hstay⟩ | ⟨cookie, es, r, hq, rfl⟩
  · refine ⟨fun gid hfull ↦ ?_, fun gid hle ↦ ?_, fun cookie es hq ↦ ?_⟩
    · rw [hgroups] at hfull
      rw [share_eq h hs hfull hgroups, Promised, hlead, hgroups]
      · exact hb.once gid hfull
      · intro cookie hq _
        rw [(hstay cookie []).mpr hq]
        rfl
    · rw [hlead]
      exact hb.fresh gid (hgroups ▸ hle)
    · rw [hlead, Core.cur, hgroups]
      exact hb.lead cookie es ((hstay cookie es).mp hq)
  · exact hb.leadSync h hq hs

end Balance

/-! ## Cookies of the responses -/

section Addressed

attribute [local simp] responses Event.responded

theorem Step.responses_cases (hs : Step a a') :
    (∀ gid, responses gid a'.core.log = responses gid a.core.log) ∨
      (∃ cookie err, a.req = .abort cookie none err ∧ a' = { a with
        core := a.core.emit (.response a.core.cur cookie (s8 err))
        req := .done }) ∨
      ∃ b p err, a.xf = .toRespond b p err ∧ a' = { a with
        core := a.core.emit (.response (a.core.group b) p.responseCookie.toNat (s8 err))
        xf := .toPush b } := by
  cases hs with
  | @abortRespond cookie err hq => exact .inr (.inl ⟨cookie, err, hq, rfl⟩)
  | @respond b p err hxf => exact .inr (.inr ⟨b, p, err, hxf, rfl⟩)
  | _ => exact .inl (by simp)

/-- Every response carries the cookie of its group. -/
def Addressed (a : Pipe) : Prop :=
  ∀ gid, ∀ x ∈ responses gid a.core.log, x.1 = groupCookie (a.core.groups.getD gid [])

theorem Addressed.step (ha : Addressed a) (hb : Balanced a) (h : Inv a) (hs : Step a a') :
    Addressed a' := by
  intro gid x hx
  rcases hs.group_cases with ⟨g, -, rfl⟩ | ⟨hgroups, -⟩
  · have hsame : responses gid (a.core.fetch g).log = responses gid a.core.log := by simp
    rw [hsame] at hx
    have hlt : gid < a.core.groups.length := by
      by_contra hge
      have hzero := hb.share_eq_zero (not_lt.mp hge)
      have hpos := List.length_pos_of_mem hx
      rw [share] at hzero
      omega
    rw [Core.fetch_groups, List.getD_append _ _ _ _ hlt]
    exact ha gid x hx
  rw [hgroups]
  rcases hs.responses_cases with hsame | ⟨cookie, err, hq, rfl⟩ | ⟨b, p, err, hxf, rfl⟩
  · exact ha gid x (hsame gid ▸ hx)
  · have hck := h.cookies.req
    rw [hq] at hck
    by_cases hgid : a.core.cur = gid
    · simp only [Core.emit_log, history_snoc, Event.responded, if_pos hgid, Option.toList_some,
        List.mem_append, List.mem_singleton] at hx
      rcases hx with hx | rfl
      · exact ha gid x hx
      · rw [← hgid]
        exact hck
    · exact ha gid x (by simpa [hgid] using hx)
  · have hseen := h.seen.xf
    rw [hxf] at hseen
    have hck := h.cookies.flight b (by simp [flight, hxf]) (hseen.1 ▸ hseen.2)
    by_cases hgid : a.core.group b = gid
    · simp only [Core.emit_log, history_snoc, Event.responded, if_pos hgid, Option.toList_some,
        List.mem_append, List.mem_singleton] at hx
      rcases hx with hx | rfl
      · exact ha gid x hx
      · rw [hseen.1, hgid] at hck
        exact (congrArg Int.toNat hck).trans (Int.toNat_natCast _)
    · exact ha gid x (by simpa [hgid] using hx)

end Addressed

/-! ## Completion of the chunks -/

/-- Every submitted chunk is in the pipeline or completed. -/
def Counted (a : Pipe) : Prop :=
  ∀ gid, (submitted gid a.core.log).length =
    (returned gid a.core.log).length + a.flight.countP fun b ↦ decide (a.core.group b = gid)

theorem Counted.step (hc : Counted a) (h : Inv a) (hs : Step a a') : Counted a' := by
  intro gid
  have hold := hc gid
  rcases hs.flight_cases with ⟨heq, hlog⟩ | ⟨b, hxf, heq, rfl⟩ |
    ⟨cookie, w, b, c, cs, es, ck, hq, hck, heq, rfl⟩
  · rw [(hlog gid).1, (hlog gid).2, heq, hold]
    congr 1
    refine List.countP_congr fun b hb ↦ ?_
    rw [(hs.keeps h.owned h.seen hb).1]
  · rw [heq, List.countP_cons] at hold
    simp only [submitted, returned, Core.emit_log, history_snoc, Event.submitted, Event.returned,
      Core.emit_group, List.length_append, Option.toList_none, List.length_nil, add_zero] at hold ⊢
    split <;> simp_all
    omega
  · rw [heq, List.countP_append, List.countP_singleton]
    simp only [submitted, returned, Core.submit_log, history_snoc, Event.submitted, Event.returned,
      Core.submit_group, Chunk.desc, List.length_append, Option.toList_none, List.length_nil,
      add_zero, hck, and_true] at hold ⊢
    split <;> simp_all
    omega

/-- The invariant of the answers. -/
structure Answered (a : Pipe) : Prop where
  inv : Inv a
  balanced : Balanced a
  addressed : Addressed a
  counted : Counted a

theorem Answered.step (h : Answered a) (hs : Step a a') : Answered a' where
  inv := h.inv.step hs
  balanced := h.balanced.step h.inv hs
  addressed := h.addressed.step h.balanced h.inv hs
  counted := h.counted.step h.inv hs

theorem Answered.start (media mem : ℕ → UInt8) : Answered (Pipe.start media mem) where
  inv := Inv.start media mem
  balanced := by
    refine ⟨fun gid _ ↦ ?_, fun _ _ ↦ rfl, fun _ _ h ↦ by simp [Pipe.start] at h⟩
    have hzero : (Pipe.start media mem).share gid = 0 := by
      unfold share
      split <;> rfl
    rw [hzero]
    simp [Promised, Pipe.start, init]
  addressed := fun gid x hx ↦ by simp [Pipe.start, init] at hx
  counted := fun gid ↦ by simp [Pipe.start, init, flight]

end Pipe

/-! ## Every run -/

/-- The groups a disk has received. -/
def Sys.groups (s : Sys) : List (List VcablkRequest) := s.shared.core.groups

/-- What an operation adds: perhaps something to the history, and no group. -/
structure Shared.Grows (k k' : Shared) : Prop where
  groups : k'.core.groups = k.core.groups
  log : k.core.log <+: k'.core.log

theorem sem_grows {k k' : Shared} {o : Op} {c : ℤ} {r : Res o} (h : sem k o c = some (r, k')) : k.Grows k' := by
  cases o <;> simp only [sem] at h <;> (try split at h) <;> (try split at h) <;>
    simp only [Option.some.injEq, Prod.mk.injEq, reduceCtorEq] at h <;>
    (obtain ⟨-, rfl⟩ := h) <;> exact ⟨rfl, by simp⟩

theorem advance_grows {α : Type} {k : Shared} {p : BProg α} {c : ℤ} {r : Shared × BProg α}
    (h : advance k p c = some r) : k.Grows r.1 := by
  cases p with
  | ret v => simp [advance] at h
  | act o f =>
    obtain ⟨r', hr', rfl⟩ := Option.map_eq_some_iff.mp h
    exact sem_grows hr'

/-- The history only grows, and only a fetch adds a group. -/
theorem step_grows {s s' : Sys} {l : Label} (h : step s l = some s') :
    s.log <+: s'.log ∧ (s'.groups = s.groups ∨ ∃ g, l = .fetch g ∧ s'.groups = s.groups ++ [g]) := by
  cases l with
  | fetch g =>
    simp only [step] at h
    split at h <;> cases h
    exact ⟨List.prefix_append .., .inr ⟨g, rfl, rfl⟩⟩
  | dma =>
    simp only [step] at h
    split at h <;> cases h
    exact ⟨List.prefix_append .., .inl rfl⟩
  | callbackStart =>
    simp only [step] at h
    split at h <;> cases h
    exact ⟨List.prefix_refl _, .inl rfl⟩
  | request c =>
    simp only [step] at h
    split at h
    · simp at h
    · cases h
      exact ⟨List.prefix_refl _, .inl rfl⟩
    · obtain ⟨r, hr, rfl⟩ := Option.map_eq_some_iff.mp h
      exact ⟨(advance_grows hr).log, .inl (advance_grows hr).groups⟩
  | callback c =>
    simp only [step] at h
    split at h
    · simp at h
    · cases h
      exact ⟨List.prefix_refl _, .inl rfl⟩
    · obtain ⟨r, hr, rfl⟩ := Option.map_eq_some_iff.mp h
      exact ⟨(advance_grows hr).log, .inl (advance_grows hr).groups⟩
  | transfer c =>
    simp only [step] at h
    split at h
    · cases h
      exact ⟨List.prefix_refl _, .inl rfl⟩
    · obtain ⟨r, hr, rfl⟩ := Option.map_eq_some_iff.mp h
      exact ⟨(advance_grows hr).log, .inl (advance_grows hr).groups⟩

/-- The request thread has returned from the group and every chunk it started is completed. -/
def Finished (s : Sys) (gid : ℕ) : Prop :=
  (s.req = none ∨ gid + 1 < s.groups.length) ∧
    (returned gid s.log).length = (submitted gid s.log).length

variable {s : Sys} {gid cookie : ℕ} {g lead data trail : List VcablkRequest}

theorem exec_answered {media mem : ℕ → UInt8} {ls : List Label}
    (h : exec step (init media mem) ls = some s) : ∃ a, Sim s a ∧ a.Answered :=
  exec_invariant_pipe (C := fun _ _ ↦ True) (along_of_forall fun _ _ _ ↦ trivial) h
    (Pipe.Answered.start media mem) fun ha hs _ ↦ ha.step hs

theorem Shaped.promised_iff {k : Core} (hshape : Shaped cookie g lead data trail)
    (hg : k.groups[gid]? = some g) :
    Pipe.Promised k gid ↔ data ≠ [] ∨ ∃ r ∈ leadSyncs gid k.log, r ≠ 0 := by
  have hlt : gid < k.groups.length := (List.getElem?_eq_some_iff.mp hg).1
  have hget : k.groups.getD gid [] = g := by rw [List.getD_eq_getElem?_getD, hg, Option.getD_some]
  rw [Pipe.Promised, hget, and_iff_right hlt]
  by_cases hd : data = []
  · subst hd
    simp [hshape.sync_only]
  · refine iff_of_true ?_ (.inl hd)
    by_cases herr : (vcablkBckndDiskRequestGetInfo g).1 = 0
    · refine .inr (.inl ?_)
      obtain ⟨d, ds, rfl⟩ := List.exists_cons_of_ne_nil hd
      rw [hshape.groupEntries_eq hd herr, entries]
      exact List.cons_ne_nil _ _
    · exact .inl herr

theorem Finished.share_eq {a : Pipe} (hf : Finished s gid) (hsim : Sim s a) (ha : a.Answered) :
    a.share gid = (responses gid s.log).length := by
  obtain ⟨hreq, hdone⟩ := hf
  have hflight : a.flight.countP (fun b ↦ decide (a.core.group b = gid)) = 0 := by
    have := ha.counted gid
    rw [Sys.log, hsim.core] at hdone
    omega
  have hwait : a.waiting.countP (a.core.closes gid) = 0 := by
    rw [List.countP_eq_zero] at hflight ⊢
    intro b hb hclose
    refine hflight b (Pipe.mem_flight_of_waiting hb) ?_
    rw [Core.closes, decide_eq_true_eq] at hclose
    exact decide_eq_true hclose.1
  have howes : (if gid = a.core.cur then a.req.owes else 0) = 0 := by
    split
    case isTrue hcur =>
      rcases hreq with hnone | hlt
      · have hrel := hsim.req
        rw [hnone] at hrel
        rw [show a.req = .idle from hrel]
        rfl
      · rw [Sys.groups, hsim.core] at hlt
        rw [Core.cur] at hcur
        omega
    case isFalse => rfl
  rw [Pipe.share, hwait, howes, Sys.log, hsim.core, add_zero, add_zero]

/-- A finished group that is to be answered has been, with its cookie. -/
theorem Finished.responses_eq {a : Pipe} (hf : Finished s gid) (hsim : Sim s a) (ha : a.Answered)
    (hfull : Full (a.core.groups.getD gid [])) (hp : Pipe.Promised a.core gid) :
    ∃ r, responses gid s.log = [(groupCookie (a.core.groups.getD gid []), r)] := by
  have hone := (ha.balanced.once gid hfull).2.mpr hp
  rw [hf.share_eq hsim ha] at hone
  obtain ⟨x, hx⟩ := List.length_eq_one_iff.mp hone
  have hck := ha.addressed gid x (by rw [← hsim.core, ← Sys.log, hx]; exact List.mem_singleton_self x)
  exact ⟨x.2, by rw [hx, ← hck]⟩

/-- **The answers of a group.** No group is answered twice, and a group of the shape the frontend
publishes is answered exactly once, with its cookie, if and only if it has data or its leading sync
fails. -/
theorem responses_eq_singleton_iff {media mem : ℕ → UInt8} {ls : List Label}
    (h : exec step (init media mem) ls = some s) (hg : s.groups[gid]? = some g)
    (hshape : Shaped cookie g lead data trail) :
    (responses gid s.log).length ≤ 1 ∧
      (Finished s gid → ((∃ r, responses gid s.log = [(cookie, r)]) ↔
        data ≠ [] ∨ ∃ r ∈ leadSyncs gid s.log, r ≠ 0)) := by
  obtain ⟨a, hsim, ha⟩ := exec_answered h
  have hlog : s.log = a.core.log := by rw [Sys.log, hsim.core]
  have hg' : a.core.groups[gid]? = some g := by rw [← hg, Sys.groups, hsim.core]
  have hget : a.core.groups.getD gid [] = g := by
    rw [List.getD_eq_getElem?_getD, hg', Option.getD_some]
  obtain ⟨hle, hiff⟩ := ha.balanced.once gid (hget ▸ hshape.full)
  refine ⟨?_, fun hf ↦ ?_⟩
  · rw [hlog]
    rw [Pipe.share] at hle
    omega
  · rw [hlog, ← hshape.promised_iff hg']
    constructor
    · rintro ⟨r, hr⟩
      rw [← hiff, hf.share_eq hsim ha, hlog, hr, List.length_singleton]
    · intro hp
      obtain ⟨r, hr⟩ := hf.responses_eq hsim ha (hget ▸ hshape.full) hp
      rw [hget, hshape.groupCookie, hlog] at hr
      exact ⟨r, hr⟩

theorem write_group_answered :
    ∃ s, exec step (init (fun _ ↦ 0) fun _ ↦ 0) writeRun = some s ∧ Finished s 0 ∧
      ∃ r, responses 0 s.log = [(1, r)] := by
  have hshape : Shaped 1 [writeEntry] [] [writeEntry] [] :=
    ⟨rfl, by simp, by simp, by simp, by simp, by simp [writeEntry], by simp [writeEntry]⟩
  have hrun : exec step (init (fun _ ↦ 0) fun _ ↦ 0) writeRun = some _ := rfl
  exact ⟨_, hrun, ⟨.inl rfl, rfl⟩,
    ((responses_eq_singleton_iff hrun rfl hshape).2 ⟨.inl rfl, rfl⟩).mpr (.inl (by simp))⟩

/-- A group of one SYNC entry, served to the end, gets no response. -/
theorem sync_group_unanswered :
    ∃ s, exec step (init (fun _ ↦ 0) fun _ ↦ 0) [.fetch [⟨0, 0, 0, 1, .sync⟩], .request 0] = some s ∧
      s.groups[0]? = some [⟨0, 0, 0, 1, .sync⟩] ∧
      Shaped 1 [⟨0, 0, 0, 1, .sync⟩] [⟨0, 0, 0, 1, .sync⟩] [] [] ∧ Finished s 0 ∧
      ¬ ∃ r, responses 0 s.log = [(1, r)] := by
  refine ⟨_, rfl, rfl, ⟨rfl, by simp, by simp, by simp, by simp, by simp, by simp⟩,
    ⟨.inl rfl, rfl⟩, ?_⟩
  rintro ⟨r, hr⟩
  exact List.cons_ne_nil (1, r) [] hr.symm

end Vcass.BlockIo.Bcknd
