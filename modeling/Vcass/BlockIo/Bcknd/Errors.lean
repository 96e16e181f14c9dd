import Vcass.BlockIo.Bcknd.Writes

/-!
# Block I/O backend: errors on their way to the response

`ReqTold` and `Told` follow the error of a group from the operation that failed to the response. The
first failure ends the work of the request thread on the group, so the group carries one error at
most, and the response is made of that one.
-/

namespace Vcass.BlockIo.Bcknd

/-! ## Errors on their way to the response -/

/-- The error of a failed operation of group `gid` that goes into the response. The error of the
media write of a chunk without a cookie does not: it is only printed. -/
def Event.carries (gid : ℕ) : Event → Option ℤ
  | .remap g w => if g = gid ∧ w.isNone = true then some (-eio) else none
  | .load g _ _ ret _ => if g = gid ∧ ret ≠ 0 then some ret else none
  | .submit g _ _ cookie => if g = gid ∧ cookie < 0 then some (-enomem) else none
  | .sync g _ ret => if g = gid ∧ ret ≠ 0 then some ret else none
  | .store g _ p ret _ => if g = gid ∧ 0 ≤ p.responseCookie ∧ ret ≠ 0 then some ret else none
  | _ => none

/-- The errors of a group that go into its response. -/
abbrev carried (gid : ℕ) (log : List Event) : List ℤ := history (Event.carries gid) log

/-- An operation of the group failed, and its error makes the response an error: the response keeps
the low byte of it. -/
def Reported (gid : ℕ) (log : List Event) : Prop := ∃ err ∈ carried gid log, s8 err ≠ 0

instance (gid : ℕ) (log : List Event) : Decidable (Reported gid log) :=
  inferInstanceAs (Decidable (∃ err ∈ carried gid log, s8 err ≠ 0))

def Event.tailSynced (gid : ℕ) : Event → Option ℤ
  | .sync g false ret => if g = gid then some ret else none
  | _ => none

/-- The results of the syncs performed for the trailing SYNC entry of a group. -/
abbrev tailSyncs (gid : ℕ) (log : List Event) : List ℤ := history (Event.tailSynced gid) log

theorem getInfo_err (g : List VcablkRequest) :
    (vcablkBckndDiskRequestGetInfo g).1 = 0 ∨ (vcablkBckndDiskRequestGetInfo g).1 = -eio := by
  have hcheck (cookie : ℕ) (type : RequestType) (size id sector num : ℕ)
      (rs : List VcablkRequest) : (checkConsistency cookie type size id sector num rs).1 = 0 ∨
        (checkConsistency cookie type size id sector num rs).1 = -eio := by
    induction rs generalizing id sector num with
    | nil => exact .inl rfl
    | cons r rs ih =>
      rw [checkConsistency]
      split
      · exact .inr rfl
      split
      · exact ih ..
      split
      · exact .inr rfl
      split
      · exact .inr rfl
      · exact ih ..
  unfold vcablkBckndDiskRequestGetInfo
  cases g with
  | nil => exact .inr rfl
  | cons r rest =>
    dsimp only
    split
    · cases rest with
      | nil => exact .inl rfl
      | cons n rest =>
        dsimp only
        split
        · exact .inr rfl
        · exact hcheck ..
    · split
      · exact .inr rfl
      · exact hcheck ..

theorem Within.complete {E : List Entry} {sub : List Chunk} (h : Within E sub [] []) :
    sub = E.flatMap Entry.chunks := by
  obtain ⟨pre, e, dn, rfl, he, rfl⟩ := h
  simp [he]

theorem Within.flush_last {g : List VcablkRequest} {sub cs : List Chunk} {c : Chunk}
    {es : List Entry} (h : Within (groupEntries g) sub (c :: cs) es) (hc : 0 ≤ c.cookie) :
    c.doFlush = (vcablkBckndDiskRequestGetInfo g).2.syncAfter := by
  obtain ⟨pre, e, dn, hE, he, -⟩ := h
  rw [groupEntries] at hE
  generalize vcablkBckndDiskRequestGetInfo g = result at hE ⊢
  obtain ⟨err, info⟩ := result
  dsimp only at hE ⊢
  split at hE
  · simp at hE
  · exact (entries_cookie hE he hc).2.2.2

/-- The request thread is at work on a group and nothing has failed yet. -/
def ReqSt.working : ReqSt → Prop
  | idle => False
  | abort _ _ _ => False
  | done => False
  | _ => True

namespace Pipe

variable {a a' : Pipe} {gid : ℕ}

section Carried

attribute [local simp] Event.carries

/-- The places an error that goes into the response comes from. -/
theorem Step.carried_cases (hs : Step a a') (h : Inv a) :
    (∀ gid, carried gid a'.core.log = carried gid a.core.log) ∨
      (a.req.working ∧ a'.core.groups = a.core.groups ∧ a'.xf = a.xf ∧
        ∃ cookie w err, a'.req = .abort cookie w err ∧ ∀ gid, carried gid a'.core.log =
          carried gid a.core.log ++ if a.core.cur = gid then [err] else []) ∨
      (∃ b p r, a.xf = .toStore b p ∧ 0 ≤ p.responseCookie ∧ r ≠ 0 ∧
        a' = { a with core := a.core.store p.sector p.nsec b r, xf := .stored b p r }) ∨
      ∃ b p r, a.xf = .toSync b p ∧ r ≠ 0 ∧ a' = { a with
        core := a.core.emit (.sync (a.core.group b) false r)
        xf := .toRespond b p r } := by
  have hheld := h.tracked.held
  have hseen := h.seen.xf
  have hsome (gid : ℕ) (err : ℤ) : (if a.core.cur = gid then some err else none).toList =
      if a.core.cur = gid then [err] else [] := by split <;> rfl
  cases hs with
  | @leadSync cookie es r hq hr =>
    by_cases hr0 : r = 0
    · exact .inl (by simp [hr0])
    · exact .inr (.inl ⟨by simp [hq, ReqSt.working], rfl, rfl, cookie, none, r, by simp [hr0],
        by simp [hr0, hsome]⟩)
  | remapFail hq =>
    exact .inr (.inl ⟨by simp [hq, ReqSt.working], rfl, rfl, _, _, _, rfl, by simp [hsome]⟩)
  | @load cookie w b c cs es r hq hr =>
    rw [hq] at hheld
    by_cases hr0 : r = 0
    · exact .inl (by simp [hr0])
    · exact .inr (.inl ⟨by simp [hq, ReqSt.working], rfl, rfl, cookie, some w, r, by simp [hr0],
        by simp [hr0, hheld.1, hsome]⟩)
  | @submit cookie w b c cs es ck hq =>
    rw [hq] at hheld
    by_cases hck : ck < 0
    · exact .inr (.inl ⟨by simp [hq, ReqSt.working], rfl, rfl, cookie, some w, -enomem,
        by simp [hck], by simp [hck, Chunk.desc, hheld.1, hsome]⟩)
    · exact .inl (by simp [hck])
  | @store b p r hxf hr =>
    rw [hxf] at hseen
    by_cases hrep : 0 ≤ p.responseCookie ∧ r ≠ 0
    · exact .inr (.inr (.inl ⟨b, p, r, hxf, hrep.1, hrep.2, rfl⟩))
    · refine .inl fun gid ↦ ?_
      have hnone : ¬ (a.core.group b = gid ∧ 0 ≤ (a.core.param b).responseCookie ∧ r ≠ 0) :=
        fun hall ↦ hrep (hseen.1 ▸ hall.2)
      simp only [Core.store_log, history_snoc, Event.carries, if_neg hnone, Option.toList_none,
        List.append_nil]
  | @flush b p r hxf hr =>
    by_cases hr0 : r = 0
    · exact .inl (by simp [hr0])
    · exact .inr (.inr (.inr ⟨b, p, r, hxf, hr0, rfl⟩))
  | _ => exact .inl (by simp)

end Carried

/-- Why the request thread gives up the current group with `err`. An error whose low byte is zero
comes from the sync in front of the data, or from a media read. -/
structure GivesUp (k : Core) (err : ℤ) : Prop where
  ne_zero : err ≠ 0
  carried_eq : carried k.cur k.log = [err] ∧
      (vcablkBckndDiskRequestGetInfo (k.groups.getD k.cur [])).1 = 0 ∨
    carried k.cur k.log = [] ∧ err = -eio ∧
      (vcablkBckndDiskRequestGetInfo (k.groups.getD k.cur [])).1 ≠ 0
  low_byte : s8 err = 0 → submitted k.cur k.log = [] ∧ .sync k.cur true err ∈ k.log ∨
    ∃ c ∈ groupChunks (k.groups.getD k.cur []), c.isWrite = false

/-- What the request thread knows about the current group: while it works nothing has failed, it
reads only for chunks that are not written, and an error it is about to send has a reason. -/
structure ReqTold (a : Pipe) : Prop where
  fresh : ∀ gid, a.core.groups.length ≤ gid →
    carried gid a.core.log = [] ∧ tailSyncs gid a.core.log = []
  working : a.req.working →
    (vcablkBckndDiskRequestGetInfo (a.core.groups.getD a.core.cur [])).1 = 0 ∧
      carried a.core.cur a.core.log = []
  unsynced : ¬ a.req.closed → tailSyncs a.core.cur a.core.log = []
  reads : ∀ cookie w b c cs es, a.req = .toLoad cookie w b c cs es → c.isWrite = false
  abort : ∀ cookie w err, a.req = .abort cookie w err → GivesUp a.core err

/-- What the pipeline knows about a group whose last chunk is in it: all its chunks were submitted,
and the error to be sent is the only one of the group that is carried. -/
structure Told (a : Pipe) : Prop where
  complete : ∀ b ∈ a.flight, 0 ≤ (a.core.param b).responseCookie →
    submitted (a.core.group b) a.core.log =
        groupChunks (a.core.groups.getD (a.core.group b) []) ∧
      (a.core.param b).doFlush = (vcablkBckndDiskRequestGetInfo
        (a.core.groups.getD (a.core.group b) [])).2.syncAfter
  pending : ∀ b ∈ a.unstored, 0 ≤ (a.core.param b).responseCookie →
    carried (a.core.group b) a.core.log = []
  toSync : ∀ b p, a.xf = .toSync b p → carried (a.core.group b) a.core.log = []
  toRespond : ∀ b p err, a.xf = .toRespond b p err →
    carried (a.core.group b) a.core.log = (if err = 0 then [] else [err]) ∧
    (err = 0 → p.doFlush = true → tailSyncs (a.core.group b) a.core.log ≠ []) ∧
    (err ≠ 0 → (p.item, err) ∈ stores (a.core.group b) a.core.log ∨
      p.doFlush = true ∧ err ∈ tailSyncs (a.core.group b) a.core.log)

theorem ReqSt.not_closed_of_working {q : ReqSt} (h : q.working) : ¬ q.closed := by
  cases q <;> simp_all [ReqSt.working, ReqSt.closed]

/-- While the request thread works, no last chunk in the pipeline is of its group. -/
theorem Inv.group_ne_cur (h : Inv a) (hw : a.req.working) {b : ℕ} (hb : b ∈ a.flight)
    (hck : 0 ≤ (a.core.param b).responseCookie) : a.core.cur ≠ a.core.group b := fun hcur ↦
  h.ordered.cookie_neg (ReqSt.not_closed_of_working hw) hb hcur.symm hck

theorem Inv.group_ne (h : Inv a) {b : ℕ} {rest : List ℕ} (hfl : a.flight = b :: rest)
    (hck : 0 ≤ (a.core.param b).responseCookie) {b' : ℕ} (hb' : b' ∈ rest) :
    a.core.group b ≠ a.core.group b' := by
  have hpw := h.ordered.pairwise
  rw [hfl, List.pairwise_cons] at hpw
  exact ((hpw.1 b' hb').2 hck).ne

theorem settle_ne_abort {cookie ck : ℕ} {es : List Entry} {w : Option Window} {err : ℤ} :
    ReqSt.settle cookie es ≠ .abort ck w err := by
  cases es <;> simp [ReqSt.settle]

theorem proceed_ne_abort {cookie ck : ℕ} {w : Window} {cs : List Chunk} {es : List Entry}
    {w' : Option Window} {err : ℤ} : ReqSt.proceed cookie w cs es ≠ .abort ck w' err := by
  cases cs
  · exact settle_ne_abort
  · simp [ReqSt.proceed]

theorem working_cases (hs : Step a a') (hw : a'.req.working) :
    (∃ g, a' = { a with core := a.core.fetch g, req := .start g }) ∨
      a.req.working ∧ a'.core.groups = a.core.groups := by
  cases hs with
  | fetch g hidle => exact .inl ⟨g, rfl⟩
  | finish hq => exact absurd hw (by simp [ReqSt.working])
  | remapFail hq => exact absurd hw (by simp [ReqSt.working])
  | abortUnmap hq => exact absurd hw (by simp [ReqSt.working])
  | abortRespond hq => exact absurd hw (by simp [ReqSt.working])
  | leadSync r hq hr => exact .inr ⟨by simp [hq, ReqSt.working], rfl⟩
  | remap hq => exact .inr ⟨by simp [hq, ReqSt.working], rfl⟩
  | pop hq => exact .inr ⟨by simp [hq, ReqSt.working], rfl⟩
  | fill hq => exact .inr ⟨by simp [hq, ReqSt.working], rfl⟩
  | load r hq hr => exact .inr ⟨by simp [hq, ReqSt.working], rfl⟩
  | submit ck hq => exact .inr ⟨by simp [hq, ReqSt.working], rfl⟩
  | _ => exact .inr ⟨hw, rfl⟩

theorem Inv.mem_groups (h : Inv a) (hq : a.req ≠ .idle) : a.core.cur < a.core.groups.length :=
  h.lt_groups.resolve_left hq

theorem Step.log_isPrefix (hs : Step a a') : a.core.log <+: a'.core.log := by
  cases hs <;> first
    | exact List.prefix_refl _
    | exact List.prefix_append _ _

/-- The media is synced behind the data in one place. -/
theorem Step.tailSyncs_cases (hs : Step a a') :
    (∀ gid, tailSyncs gid a'.core.log = tailSyncs gid a.core.log) ∨
      ∃ b p r, a.xf = .toSync b p ∧ a' = { a with
        core := a.core.emit (.sync (a.core.group b) false r)
        xf := .toRespond b p r } := by
  cases hs with
  | flush r hxf hr => exact .inr ⟨_, _, r, hxf, rfl⟩
  | _ => exact .inl (by simp [Event.tailSynced])

/-- While the request thread is not done with a group, what closes a group is of another one. -/
theorem Inv.group_ne_of_open (h : Inv a) (hreq : ¬ a.req.closed) {b : ℕ} (hb : b ∈ a.flight)
    (hck : 0 ≤ (a.core.param b).responseCookie) : a.core.group b ≠ a.core.cur := fun hcur ↦
  h.ordered.cookie_neg hreq hb hcur hck

section ReqToldStep

attribute [local simp] Event.carries Event.tailSynced

theorem ReqTold.fresh_step (ht : ReqTold a) (h : Inv a) (hs : Step a a') {gid : ℕ}
    (hge : a'.core.groups.length ≤ gid) :
    carried gid a'.core.log = [] ∧ tailSyncs gid a'.core.log = [] := by
  have hge' : a.core.groups.length ≤ gid := by
    rcases hs.group_cases with ⟨g, -, rfl⟩ | ⟨hgroups, -⟩
    · rw [Core.fetch_groups, List.length_append] at hge
      omega
    · exact hgroups ▸ hge
  obtain ⟨hcarried, hsyncs⟩ := ht.fresh gid hge'
  have hlt : ∀ b ∈ a.flight, a.core.group b ≠ gid := fun b hb ↦
    ((h.ordered.lt_groups b hb).trans_le hge').ne
  constructor
  · rcases hs.carried_cases h with hsame | ⟨hw, -, -, _, _, _, -, hrep⟩ |
      ⟨b, p, r, hxf, -, -, rfl⟩ | ⟨b, p, r, hxf, -, rfl⟩
    · rwa [hsame]
    · have hcur : a.core.cur < a.core.groups.length :=
        h.mem_groups fun hidle ↦ by simp [hidle, ReqSt.working] at hw
      rw [hrep, hcarried, if_neg (by omega), List.append_nil]
    · simp [hcarried, hlt b (by simp [flight, hxf])]
    · simp [hcarried, hlt b (by simp [flight, hxf])]
  · rcases hs.tailSyncs_cases with hsame | ⟨b, p, r, hxf, rfl⟩
    · rwa [hsame]
    · simp [hsyncs, hlt b (by simp [flight, hxf])]

theorem ReqTold.working_step (ht : ReqTold a) (h : Inv a) (hs : Step a a') (hw : a'.req.working) :
    (vcablkBckndDiskRequestGetInfo (a'.core.groups.getD a'.core.cur [])).1 = 0 ∧
      carried a'.core.cur a'.core.log = [] := by
  rcases working_cases hs hw with ⟨g, rfl⟩ | ⟨hw', hgroups⟩
  · have hget : (a.core.groups ++ [g]).getD a.core.groups.length [] = g := by simp
    refine ⟨?_, by simpa using (ht.fresh _ le_rfl).1⟩
    rw [Core.fetch_cur, Core.fetch_groups, hget]
    rcases start_cases g with ⟨-, -, hstart⟩ | ⟨herr, -⟩ | ⟨herr, -⟩
    · rw [hstart] at hw
      exact hw.elim
    · exact herr
    · exact herr
  · have hcur : a'.core.cur = a.core.cur := by rw [Core.cur, Core.cur, hgroups]
    have hold := ht.working hw'
    have hseen := h.seen.xf
    have hopen := ReqSt.not_closed_of_working hw'
    rw [hcur, hgroups]
    refine ⟨hold.1, ?_⟩
    rcases hs.carried_cases h with hsame | ⟨-, -, -, _, _, _, habort, -⟩ |
      ⟨b, p, r, hxf, hck, -, rfl⟩ | ⟨b, p, r, hxf, -, rfl⟩
    · rw [hsame]
      exact hold.2
    · rw [habort] at hw
      exact hw.elim
    · rw [hxf] at hseen
      simp [hold.2, h.group_ne_of_open hopen (b := b) (by simp [flight, hxf]) (hseen.1 ▸ hck)]
    · rw [hxf] at hseen
      simp [hold.2, h.group_ne_of_open hopen (b := b) (by simp [flight, hxf]) (hseen.1 ▸ hseen.2.1)]

theorem ReqTold.unsynced_step (ht : ReqTold a) (h : Inv a) (hs : Step a a')
    (hopen : ¬ a'.req.closed) : tailSyncs a'.core.cur a'.core.log = [] := by
  rcases hs.group_cases with ⟨g, -, rfl⟩ | ⟨hgroups, hclosed, -⟩
  · simpa using (ht.fresh _ le_rfl).2
  · have hopen' : ¬ a.req.closed := fun hc ↦ hopen (hclosed hc)
    have hseen := h.seen.xf
    rw [Core.cur, hgroups, ← Core.cur]
    rcases hs.tailSyncs_cases with hsame | ⟨b, p, r, hxf, rfl⟩
    · rw [hsame]
      exact ht.unsynced hopen'
    · rw [hxf] at hseen
      have hne := h.group_ne_of_open hopen' (b := b) (by simp [flight, hxf]) (hseen.1 ▸ hseen.2.1)
      simp [ht.unsynced hopen', hne]

theorem ReqTold.reads_step (ht : ReqTold a) (hs : Step a a') {cookie b : ℕ} {w : Window} {c : Chunk}
    {cs : List Chunk} {es : List Entry} (hq' : a'.req = .toLoad cookie w b c cs es) :
    c.isWrite = false := by
  have hsettle (ck : ℕ) (es' : List Entry) : ReqSt.settle ck es' ≠ .toLoad cookie w b c cs es := by
    cases es' <;> simp [ReqSt.settle]
  have hproceed (ck : ℕ) (w' : Window) (cs' : List Chunk) (es' : List Entry) :
      ReqSt.proceed ck w' cs' es' ≠ .toLoad cookie w b c cs es := by
    cases cs'
    · exact hsettle ck es'
    · simp [ReqSt.proceed]
  cases hs with
  | fetch g hidle =>
    rcases start_cases g with ⟨-, -, hstart⟩ | ⟨-, -, hstart⟩ | ⟨-, -, hstart⟩
    · simp [hstart] at hq'
    · simp [hstart] at hq'
    · exact absurd (hstart ▸ hq') (hsettle _ _)
  | fill hq =>
    dsimp only at hq'
    split at hq'
    · simp at hq'
    · rw [ReqSt.toLoad.injEq] at hq'
      obtain ⟨-, -, -, rfl, -⟩ := hq'
      exact Bool.eq_false_iff.mpr ‹_›
  | leadSync r hq hr =>
    dsimp only at hq'
    split at hq'
    · exact absurd hq' (hsettle _ _)
    · simp at hq'
  | remap hq => exact absurd hq' (hproceed _ _ _ _)
  | submit ck hq =>
    dsimp only at hq'
    split at hq'
    · simp at hq'
    · exact absurd hq' (hproceed _ _ _ _)
  | load r hq hr =>
    dsimp only at hq'
    split at hq' <;> simp at hq'
  | finish hq => simp at hq'
  | remapFail hq => simp at hq'
  | pop hq => simp at hq'
  | abortUnmap hq => simp at hq'
  | abortRespond hq => simp at hq'
  | _ => exact ht.reads _ _ _ _ _ _ hq'

/-- What the other threads do leaves the reason as it is. -/
theorem GivesUp.step {cookie : ℕ} {w : Option Window} {err : ℤ} (hg : GivesUp a.core err) (h : Inv a)
    (hs : Step a a') (hq : a.req = .abort cookie w err)
    (hgroups : a'.core.groups = a.core.groups) : GivesUp a'.core err := by
  have hcur : a'.core.cur = a.core.cur := by rw [Core.cur, Core.cur, hgroups]
  have hopen : ¬ a.req.closed := by simp [hq, ReqSt.closed]
  have hseen := h.seen.xf
  have hcarried : carried a.core.cur a'.core.log = carried a.core.cur a.core.log := by
    rcases hs.carried_cases h with hsame | ⟨hw, -⟩ | ⟨b, p, r, hxf, hck, -, rfl⟩ |
      ⟨b, p, r, hxf, -, rfl⟩
    · exact hsame _
    · simp [hq, ReqSt.working] at hw
    · rw [hxf] at hseen
      simp [h.group_ne_of_open hopen (b := b) (by simp [flight, hxf]) (hseen.1 ▸ hck)]
    · rw [hxf] at hseen
      simp [h.group_ne_of_open hopen (b := b) (by simp [flight, hxf]) (hseen.1 ▸ hseen.2.1)]
  have hsub : submitted a.core.cur a'.core.log = submitted a.core.cur a.core.log := by
    rcases hs.flight_cases with ⟨-, hlog⟩ | ⟨x, -, -, rfl⟩ | ⟨_, _, _, _, _, _, _, hq', -⟩
    · exact (hlog _).1
    · simp [Event.submitted]
    · simp [hq] at hq'
  refine ⟨hg.ne_zero, ?_, fun h0 ↦ ?_⟩
  · rw [hcur, hcarried, hgroups]
    exact hg.carried_eq
  · rw [hcur, hsub, hgroups]
    exact (hg.low_byte h0).imp_left (And.imp_right fun hsync ↦ hs.log_isPrefix.subset hsync)

theorem ReqTold.abort_step (ht : ReqTold a) (h : Inv a) (hs : Step a a') {cookie : ℕ}
    {w : Option Window} {err : ℤ} (hq' : a'.req = .abort cookie w err) : GivesUp a'.core err := by
  have hat := h.tracked.req
  have hheld := h.tracked.held
  have hwork := ht.working
  cases hs with
  | fetch g hidle =>
    have hget : (a.core.groups ++ [g]).getD a.core.groups.length [] = g := by simp
    rcases start_cases g with ⟨herr, -, hstart⟩ | ⟨-, -, hstart⟩ | ⟨-, -, hstart⟩
    · rw [hstart] at hq'
      obtain ⟨-, -, rfl⟩ := hq'
      have heio := (getInfo_err g).resolve_left herr
      refine ⟨herr, .inr ⟨?_, heio, ?_⟩, fun h0 ↦ absurd h0 (by rw [heio]; decide)⟩
      · simpa using (ht.fresh _ le_rfl).1
      · rwa [Core.fetch_cur, Core.fetch_groups, hget]
    · simp [hstart] at hq'
    · rw [hstart] at hq'
      exact absurd hq' settle_ne_abort
  | finish hq => simp at hq'
  | abortRespond hq => simp at hq'
  | @abortUnmap ck w' err' hq =>
    have hs' : Step a { a with core := a.core.emit (.unmap w'), req := .abort ck none err' } :=
      .abortUnmap hq
    obtain ⟨rfl, -, rfl⟩ := hq'
    exact (ht.abort _ _ _ hq).step h hs' hq rfl
  | leadSync r hq hr =>
    rw [hq] at hat
    obtain ⟨hinfo, hnone⟩ := hwork (by simp [hq, ReqSt.working])
    dsimp only at hq'
    split at hq'
    · exact absurd hq' settle_ne_abort
    · obtain ⟨-, -, rfl⟩ := hq'
      refine ⟨‹_›, .inl ⟨?_, hinfo⟩, fun _ ↦ .inl ⟨?_, ?_⟩⟩
      · simp [hnone, ‹¬ err = 0›]
      · simpa [Event.submitted] using hat.2
      · simp
  | remapFail hq =>
    obtain ⟨hinfo, hnone⟩ := hwork (by simp [hq, ReqSt.working])
    obtain ⟨-, -, rfl⟩ := hq'
    exact ⟨by decide, .inl ⟨by simp [hnone], hinfo⟩, fun h0 ↦ absurd h0 (by decide)⟩
  | remap hq => exact absurd hq' proceed_ne_abort
  | pop hq => simp at hq'
  | fill hq =>
    dsimp only at hq'
    split at hq' <;> simp at hq'
  | load r hq hr =>
    obtain ⟨hinfo, hnone⟩ := hwork (by simp [hq, ReqSt.working])
    have hread := ht.reads _ _ _ _ _ _ hq
    rw [hq] at hat hheld
    dsimp only at hq'
    split at hq'
    · simp at hq'
    · obtain ⟨-, -, rfl⟩ := hq'
      refine ⟨‹_›, .inl ⟨?_, hinfo⟩, fun _ ↦ .inr ⟨_, ?_, hread⟩⟩
      · simp [hnone, hheld.1, ‹¬ err = 0›]
      · exact (Within.submit hat).sub_le.subset (List.mem_append_right _ List.mem_cons_self)
  | submit ck hq =>
    obtain ⟨hinfo, hnone⟩ := hwork (by simp [hq, ReqSt.working])
    rw [hq] at hheld
    dsimp only at hq'
    split at hq'
    · obtain ⟨-, -, rfl⟩ := hq'
      refine ⟨by decide, .inl ⟨?_, hinfo⟩, fun h0 ↦ absurd h0 (by decide)⟩
      simp [hnone, Chunk.desc, hheld.1, ‹ck < 0›]
    · exact absurd hq' proceed_ne_abort
  | move hd => exact (ht.abort _ _ _ hq').step h (.move hd) hq' rfl
  | cbStart hcb hd => exact (ht.abort _ _ _ hq').step h (.cbStart hcb hd) hq' rfl
  | cbUnmap hcb => exact (ht.abort _ _ _ hq').step h (.cbUnmap hcb) hq' rfl
  | cbClear hcb => exact (ht.abort _ _ _ hq').step h (.cbClear hcb) hq' rfl
  | enqueue hcb => exact (ht.abort _ _ _ hq').step h (.enqueue hcb) hq' rfl
  | take hxf hq => exact (ht.abort _ _ _ hq').step h (.take hxf hq) hq' rfl
  | clearTx hxf => exact (ht.abort _ _ _ hq').step h (.clearTx hxf) hq' rfl
  | store r hxf hr => exact (ht.abort _ _ _ hq').step h (.store r hxf hr) hq' rfl
  | flush r hxf hr => exact (ht.abort _ _ _ hq').step h (.flush r hxf hr) hq' rfl
  | respond hxf => exact (ht.abort _ _ _ hq').step h (.respond hxf) hq' rfl
  | push hxf => exact (ht.abort _ _ _ hq').step h (.push hxf) hq' rfl
  | release hxf => exact (ht.abort _ _ _ hq').step h (.release hxf) hq' rfl

theorem ReqTold.step (ht : ReqTold a) (h : Inv a) (hs : Step a a') : ReqTold a' where
  fresh _ hge := ht.fresh_step h hs hge
  working hw := ht.working_step h hs hw
  unsynced hopen := ht.unsynced_step h hs hopen
  reads _ _ _ _ _ _ hq := ht.reads_step hs hq
  abort _ _ _ hq := ht.abort_step h hs hq

end ReqToldStep

theorem Step.mem_unstored (hs : Step a a') {b : ℕ} (hb : b ∈ a'.unstored) :
    b ∈ a.unstored ∨ ∃ cookie w c cs es ck, a.req = .toSubmit cookie w b c cs es ∧ 0 ≤ ck ∧
      a' = { a with core := a.core.submit (c.desc w b) ck, req := .proceed cookie w cs es } := by
  cases hs with
  | @submit cookie w x c cs es ck hq =>
    by_cases hck : ck < 0
    · exact .inl (by simpa [unstored, hck] using hb)
    · rw [if_neg hck] at hb ⊢
      rw [unstored_submit hck, List.mem_append, List.mem_singleton] at hb
      rcases hb with hb | rfl
      · exact .inl hb
      · exact .inr ⟨cookie, w, c, cs, es, ck, hq, not_lt.mp hck, rfl⟩
  | store r hxf hr =>
    refine .inl ?_
    simp only [unstored, XfSt.unstored_stored, List.nil_append] at hb
    simp only [unstored, List.append_assoc] at hb ⊢
    exact List.mem_append_right _ hb
  | @clearTx x p hxf =>
    refine .inl ?_
    have hsub : ∀ y ∈ (XfSt.begun x p).unstored, y ∈ a.xf.unstored := by
      rw [hxf, XfSt.begun]
      split
      · exact fun _ hy ↦ hy
      · simp
    simp only [unstored, List.append_assoc, List.mem_append] at hb ⊢
    exact hb.imp_left (hsub b)
  | take hxf hq => exact .inl (by simpa [unstored, hxf, hq, XfSt.unstored] using hb)
  | move hd => exact .inl (by simpa [unstored, hd] using hb)
  | cbStart hcb hd => exact .inl (by simpa [unstored, hcb, hd] using hb)
  | cbUnmap hcb => exact .inl (by simpa [unstored, hcb] using hb)
  | cbClear hcb => exact .inl (by simpa [unstored, hcb] using hb)
  | enqueue hcb => exact .inl (by simpa [unstored, hcb] using hb)
  | flush r hxf hr => exact .inl (by simpa [unstored, hxf, XfSt.unstored] using hb)
  | respond hxf => exact .inl (by simpa [unstored, hxf, XfSt.unstored] using hb)
  | push hxf => exact .inl (by simpa [unstored, hxf, XfSt.unstored] using hb)
  | release hxf => exact .inl (by simpa [unstored, hxf, XfSt.unstored] using hb)
  | _ => exact .inl hb

theorem Told.complete_step (ht : Told a) (h : Inv a) (hs : Step a a') {b : ℕ}
    (hb : b ∈ a'.flight) (hck : 0 ≤ (a'.core.param b).responseCookie) :
    submitted (a'.core.group b) a'.core.log =
        groupChunks (a'.core.groups.getD (a'.core.group b) []) ∧
      (a'.core.param b).doFlush = (vcablkBckndDiskRequestGetInfo
        (a'.core.groups.getD (a'.core.group b) [])).2.syncAfter := by
  by_cases hmem : b ∈ a.flight
  · obtain ⟨hgroup, hitem⟩ := hs.keeps h.owned h.seen hmem
    have hflush : (a'.core.param b).doFlush = (a.core.param b).doFlush :=
      congrArg (fun p ↦ p.doFlush) hitem
    rw [hs.keeps_cookie h.owned h.seen hmem] at hck
    have hold := ht.complete b hmem hck
    have hget : a'.core.groups.getD (a.core.group b) [] =
        a.core.groups.getD (a.core.group b) [] := by
      rcases hs.group_cases with ⟨g, -, rfl⟩ | ⟨hgroups, -⟩
      · exact List.getD_append _ _ _ _ (h.ordered.lt_groups b hmem)
      · rw [hgroups]
    have hsub : submitted (a.core.group b) a'.core.log =
        submitted (a.core.group b) a.core.log := by
      rcases hs.flight_cases with ⟨-, hlog⟩ | ⟨x, -, -, rfl⟩ |
        ⟨cookie, w, x, c, cs, es, ck, hq, -, -, rfl⟩
      · exact (hlog _).1
      · simp [Event.submitted]
      · have hheld := h.tracked.held
        rw [hq] at hheld
        have hne := h.group_ne_cur (by simp [hq, ReqSt.working]) hmem hck
        simp [Event.submitted, Chunk.desc, hheld.1, hne]
    rw [hgroup, hflush, hget, hsub]
    exact hold
  · rcases hs.flight_cases with ⟨heq, -⟩ | ⟨x, -, heq, -⟩ |
      ⟨cookie, w, x, c, cs, es, ck, hq, hck0, heq, rfl⟩
    · exact absurd (heq ▸ hb) hmem
    · exact absurd (heq ▸ List.mem_cons_of_mem x hb) hmem
    · have hat := h.tracked.req
      have hheld := h.tracked.held
      rw [hq] at hat hheld
      rw [heq, List.mem_append, List.mem_singleton] at hb
      obtain rfl : b = x := hb.resolve_left hmem
      change 0 ≤ (a.core.param b).responseCookie at hck
      rw [hheld.2] at hck
      obtain ⟨rfl, rfl, -⟩ := Within.cookie_last hat hck
      show submitted (a.core.group b) _ = groupChunks (a.core.groups.getD (a.core.group b) []) ∧
        (a.core.param b).doFlush = (vcablkBckndDiskRequestGetInfo
          (a.core.groups.getD (a.core.group b) [])).2.syncAfter
      rw [hheld.1, hheld.2]
      refine ⟨?_, Within.flush_last hat hck⟩
      rw [groupChunks, ← (Within.submit hat).complete, h.submitted_submit hq hck0, if_pos rfl]

theorem Told.pending_step (ht : Told a) (hrt : ReqTold a) (h : Inv a) (hs : Step a a') {b : ℕ}
    (hb : b ∈ a'.unstored) (hck : 0 ≤ (a'.core.param b).responseCookie) :
    carried (a'.core.group b) a'.core.log = [] := by
  rcases hs.mem_unstored hb with hmem | ⟨cookie, w, c, cs, es, ck, hq, hck0, rfl⟩
  · have hfl := mem_flight_of_unstored hmem
    rw [hs.keeps_cookie h.owned h.seen hfl] at hck
    rw [(hs.keeps h.owned h.seen hfl).1]
    have hold := ht.pending b hmem hck
    -- Another closing chunk at the head of the pipeline is of another group.
    have hother (x : ℕ) (hxf : a.xf.hand = [x]) (hx : 0 ≤ (a.core.param x).responseCookie)
        (hnil : a'.xf.unstored = []) (hrest : a'.unstored = a'.xf.unstored ++
          (a.queue ++ a.cb.hand ++ a.core.done ++ a.core.dma.map DmaDesc.buf)) :
        a.core.group x ≠ a.core.group b := by
      have hfl : a.flight =
          x :: (a.queue ++ a.cb.hand ++ a.core.done ++ a.core.dma.map DmaDesc.buf) := by
        simp [flight, hxf]
      rw [hrest, hnil] at hb
      exact h.group_ne hfl hx hb
    have hseen := h.seen.xf
    rcases hs.carried_cases h with hsame | ⟨hw, -, -, _, _, _, -, hrep⟩ |
      ⟨x, p, r, hxf, hx, -, rfl⟩ | ⟨x, p, r, hxf, -, rfl⟩
    · rwa [hsame]
    · rw [hrep, hold, if_neg (h.group_ne_cur hw hfl hck), List.append_nil]
    · rw [hxf] at hseen
      have hne := hother x (by simp [hxf]) (hseen.1 ▸ hx) (by simp) (by simp [unstored])
      simp [Event.carries, hold, hne]
    · rw [hxf] at hseen
      have hne := hother x (by simp [hxf]) (hseen.1 ▸ hseen.2.1) rfl (by simp [unstored])
      simp [Event.carries, hold, hne]
  · have hheld := h.tracked.held
    rw [hq] at hheld
    have hnew := (hrt.working (by simp [hq, ReqSt.working])).2
    simp [Event.carries, hheld.1, hnew, not_lt.mpr hck0]

theorem stored_ne_toStore {b b' : ℕ} {p p' : CallbackParam} {err : ℤ} :
    XfSt.stored b p err ≠ .toStore b' p' := by
  rw [XfSt.stored]
  split
  · split <;> simp
  · simp

theorem stored_eq_toSync {b b' : ℕ} {p p' : CallbackParam} {err : ℤ}
    (h : XfSt.stored b p err = .toSync b' p') :
    b = b' ∧ p = p' ∧ 0 ≤ p.responseCookie ∧ err = 0 := by
  rw [XfSt.stored] at h
  split at h
  case isTrue hck =>
    split at h
    case isTrue herr =>
      rw [XfSt.toSync.injEq] at h
      exact ⟨h.1, h.2, hck, herr.1⟩
    case isFalse => simp at h
  case isFalse => simp at h

theorem stored_eq_toRespond {b b' : ℕ} {p p' : CallbackParam} {err err' : ℤ}
    (h : XfSt.stored b p err = .toRespond b' p' err') :
    b = b' ∧ p = p' ∧ err = err' ∧ 0 ≤ p.responseCookie ∧ ¬ (err = 0 ∧ p.doFlush = true) := by
  rw [XfSt.stored] at h
  split at h
  case isTrue hck =>
    split at h
    case isTrue => simp at h
    case isFalse herr =>
      rw [XfSt.toRespond.injEq] at h
      exact ⟨h.1, h.2.1, h.2.2, hck, herr⟩
  case isFalse => simp at h

theorem begun_eq_stored {b : ℕ} {p : CallbackParam} (h : ∀ b' p', XfSt.begun b p ≠ .toStore b' p') :
    XfSt.begun b p = XfSt.stored b p 0 := by
  have hnot := h b p
  rw [XfSt.begun] at hnot ⊢
  split
  case isTrue hw => exact absurd (if_pos hw) hnot
  case isFalse => rfl

/-- The group of the closing chunk at the head of the pipeline fails only there. -/
theorem Step.carried_eq (hs : Step a a') (h : Inv a) (hxf : a'.xf = a.xf) {b : ℕ}
    (hb : b ∈ a.flight) (hck : 0 ≤ (a.core.param b).responseCookie) :
    carried (a'.core.group b) a'.core.log = carried (a.core.group b) a.core.log := by
  rw [(hs.keeps h.owned h.seen hb).1]
  rcases hs.carried_cases h with hsame | ⟨hw, -, -, _, _, _, -, hrep⟩ |
    ⟨x, p, r, hq, -, -, rfl⟩ | ⟨x, p, r, hq, -, rfl⟩
  · exact hsame _
  · rw [hrep, if_neg (h.group_ne_cur hw hb hck), List.append_nil]
  · exact absurd (hxf.trans hq) stored_ne_toStore
  · exact absurd (hxf.trans hq) (by simp)

theorem Told.toSync_step (ht : Told a) (h : Inv a) (hs : Step a a') {b : ℕ} {p : CallbackParam}
    (hxf' : a'.xf = .toSync b p) : carried (a'.core.group b) a'.core.log = [] := by
  have hseen := h.seen.xf
  have hkeep (hsame : a'.xf = a.xf) : carried (a'.core.group b) a'.core.log = [] := by
    have hxf := hsame.symm.trans hxf'
    rw [hxf] at hseen
    rw [hs.carried_eq h hsame (by simp [flight, hxf]) (hseen.1 ▸ hseen.2.1)]
    exact ht.toSync b p hxf
  cases hs with
  | @clearTx x q hxf =>
    rw [hxf] at hseen
    dsimp only at hxf'
    rw [begun_eq_stored (by simp [hxf'])] at hxf'
    obtain ⟨rfl, rfl, hck, -⟩ := stored_eq_toSync hxf'
    have hp : a.core.param x = q := hseen
    exact ht.pending x (by simp [unstored, hxf, XfSt.unstored]) (hp ▸ hck)
  | @store x q r hxf hr =>
    rw [hxf] at hseen
    obtain ⟨rfl, rfl, hck, rfl⟩ := stored_eq_toSync hxf'
    have hold := ht.pending x (by simp [unstored, hxf, XfSt.unstored]) (hseen.1 ▸ hck)
    simpa [Event.carries] using hold
  | take hxf hq => simp at hxf'
  | flush r hxf hr => simp at hxf'
  | respond hxf => simp at hxf'
  | push hxf => simp at hxf'
  | release hxf => simp at hxf'
  | _ => exact hkeep rfl

theorem Told.toRespond_step (ht : Told a) (h : Inv a) (hs : Step a a') {b : ℕ}
    {p : CallbackParam} {err : ℤ} (hxf' : a'.xf = .toRespond b p err) :
    carried (a'.core.group b) a'.core.log = (if err = 0 then [] else [err]) ∧
      (err = 0 → p.doFlush = true → tailSyncs (a'.core.group b) a'.core.log ≠ []) ∧
      (err ≠ 0 → (p.item, err) ∈ stores (a'.core.group b) a'.core.log ∨
        p.doFlush = true ∧ err ∈ tailSyncs (a'.core.group b) a'.core.log) := by
  have hseen := h.seen.xf
  have hpending (x : ℕ) (q : CallbackParam) (hmem : x ∈ a.unstored) (hq : a.core.param x = q)
      (hck : 0 ≤ q.responseCookie) : carried (a.core.group x) a.core.log = [] :=
    ht.pending x hmem (hq ▸ hck)
  have hkeep (hsame : a'.xf = a.xf)
      (htail : ∀ gid, tailSyncs gid a'.core.log = tailSyncs gid a.core.log)
      (hstore : ∀ gid, stores gid a'.core.log = stores gid a.core.log) :
      carried (a'.core.group b) a'.core.log = (if err = 0 then [] else [err]) ∧
        (err = 0 → p.doFlush = true → tailSyncs (a'.core.group b) a'.core.log ≠ []) ∧
        (err ≠ 0 → (p.item, err) ∈ stores (a'.core.group b) a'.core.log ∨
          p.doFlush = true ∧ err ∈ tailSyncs (a'.core.group b) a'.core.log) := by
    have hxf := hsame.symm.trans hxf'
    rw [hxf] at hseen
    have hb : b ∈ a.flight := by simp [flight, hxf]
    rw [hs.carried_eq h hsame hb (hseen.1 ▸ hseen.2), (hs.keeps h.owned h.seen hb).1, htail, hstore]
    exact ht.toRespond b p err hxf
  cases hs with
  | @clearTx x q hxf =>
    rw [hxf] at hseen
    dsimp only at hxf'
    rw [begun_eq_stored (by simp [hxf'])] at hxf'
    obtain ⟨rfl, rfl, rfl, hck, hflush⟩ := stored_eq_toRespond hxf'
    have hold := hpending x q (by simp [unstored, hxf, XfSt.unstored]) hseen hck
    exact ⟨hold, fun _ hfl ↦ absurd ⟨rfl, hfl⟩ hflush, fun hne ↦ absurd rfl hne⟩
  | @store x q r hxf hr =>
    rw [hxf] at hseen
    obtain ⟨rfl, rfl, rfl, hck, hflush⟩ := stored_eq_toRespond hxf'
    have hold := hpending x q (by simp [unstored, hxf, XfSt.unstored]) hseen.1 hck
    refine ⟨?_, fun hr0 hfl ↦ absurd ⟨hr0, hfl⟩ hflush, fun _ ↦ .inl ?_⟩
    · by_cases hr0 : r = 0 <;> simp [Event.carries, hold, hseen.1, hck, hr0]
    · simp [Event.stored, hseen.1]
  | @flush x q r hxf hr =>
    rw [hxf] at hseen
    obtain ⟨rfl, rfl, rfl⟩ := hxf'
    have hold := ht.toSync b p hxf
    refine ⟨?_, fun _ _ ↦ ?_, fun _ ↦ .inr ⟨hseen.2.2, ?_⟩⟩
    · by_cases hr0 : err = 0 <;> simp [Event.carries, hold, hr0]
    · simp [Event.tailSynced]
    · simp [Event.tailSynced]
  | take hxf hq => simp at hxf'
  | respond hxf => simp at hxf'
  | push hxf => simp at hxf'
  | release hxf => simp at hxf'
  | _ => exact hkeep rfl (by simp [Event.tailSynced]) (by simp [Event.stored])

theorem Told.step (ht : Told a) (hrt : ReqTold a) (h : Inv a) (hs : Step a a') : Told a' where
  complete _ hb hck := ht.complete_step h hs hb hck
  pending _ hb hck := ht.pending_step hrt h hs hb hck
  toSync _ _ hxf := ht.toSync_step h hs hxf
  toRespond _ _ _ hxf := ht.toRespond_step h hs hxf

/-- The invariant of the media writes. -/
structure Written (a : Pipe) : Prop where
  inv : Inv a
  queued : Queued a
  reqTold : ReqTold a
  told : Told a

theorem Written.step (h : Written a) (hs : Step a a') : Written a' where
  inv := h.inv.step hs
  queued := h.queued.step h.inv hs
  reqTold := h.reqTold.step h.inv hs
  told := h.told.step h.reqTold h.inv hs

theorem Written.start (media mem : ℕ → UInt8) : Written (Pipe.start media mem) where
  inv := Inv.start media mem
  queued gid := by simp [Pipe.start, init, unstored, XfSt.unstored]
  reqTold :=
    ⟨fun _ _ ↦ by simp [Pipe.start, init], fun hw ↦ hw.elim, fun hopen ↦ absurd trivial hopen,
      fun _ _ _ _ _ _ hq ↦ by simp [Pipe.start] at hq, fun _ _ _ hq ↦ by simp [Pipe.start] at hq⟩
  told :=
    ⟨fun _ hb ↦ absurd hb (by simp [Pipe.start, init, flight]),
      fun _ hb ↦ absurd hb (by simp [Pipe.start, init, unstored, XfSt.unstored]),
      fun _ _ hxf ↦ absurd hxf (by simp [Pipe.start]),
      fun _ _ _ hxf ↦ absurd hxf (by simp [Pipe.start])⟩

end Pipe

end Vcass.BlockIo.Bcknd
