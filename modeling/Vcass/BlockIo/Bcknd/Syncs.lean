import Vcass.BlockIo.Bcknd.Truthful

/-!
# Block I/O backend: when the media is synced

A group may begin and end with a SYNC entry. The media is synced for the first one before any data is transferred, and
for the last one after the last chunk of the group, and at no other time. As the chunks reach the media in the order of
submission, nothing of this group or of the groups before it is written after the second sync (`TailSynced`).
-/

namespace Vcass.BlockIo.Bcknd

open Conc

/-- The media was synced for the trailing SYNC entry of group `g`, after all groups up to `g` were received, and nothing
of these groups was written to the media afterwards. -/
def TailSynced (g : ℕ) (log : List Event) : Prop :=
  ∃ pre post, log = pre ++ .sync g false 0 :: post ∧ ∀ gid ≤ g, .fetch gid ∈ pre ∧ stores gid post = []

/-- The group asks for a sync. -/
def AsksSync (g : List VcablkRequest) : Prop :=
  (vcablkBckndDiskRequestGetInfo g).2.syncBefore = true ∨ (vcablkBckndDiskRequestGetInfo g).2.syncAfter = true

theorem mem_responses {gid ck : ℕ} {ret : ℤ} {log : List Event} :
    (ck, ret) ∈ responses gid log ↔ .response gid ck ret ∈ log := by
  constructor
  · intro h
    obtain ⟨e, he, hresp⟩ := List.mem_filterMap.mp h
    cases e with
    | response g cookie r =>
      simp only [Event.responded] at hresp
      split at hresp
      case isTrue hg =>
        obtain ⟨rfl, rfl⟩ := Prod.mk.inj (Option.some_inj.mp hresp)
        exact hg ▸ he
      case isFalse => simp at hresp
    | _ => simp [Event.responded] at hresp
  · intro h
    exact List.mem_filterMap.mpr ⟨_, h, if_pos rfl⟩

theorem mem_tailSyncs {gid : ℕ} {ret : ℤ} {log : List Event} (h : ret ∈ tailSyncs gid log) :
    .sync gid false ret ∈ log := by
  obtain ⟨e, he, hsync⟩ := List.mem_filterMap.mp h
  cases e with
  | sync g leading r =>
    cases leading with
    | true => simp [Event.tailSynced] at hsync
    | false =>
      simp only [Event.tailSynced] at hsync
      split at hsync
      case isTrue hg => exact hg ▸ Option.some_inj.mp hsync ▸ he
      case isFalse => simp at hsync
  | _ => simp [Event.tailSynced] at hsync

namespace Pipe

variable {a a' : Pipe} {gid g : ℕ}

/-- The group that was received as number `gid`. -/
def groupAt (a : Pipe) (gid : ℕ) : List VcablkRequest := a.core.groups.getD gid []

/-! ## What a step adds -/

theorem Step.groupAt_eq (hs : Step a a') (hlt : gid < a.core.groups.length) : a'.groupAt gid = a.groupAt gid := by
  rcases hs.group_cases with ⟨g, -, rfl⟩ | ⟨hgroups, -⟩
  · exact List.getD_append _ _ _ _ hlt
  · rw [groupAt, groupAt, hgroups]

theorem Step.groups_le (hs : Step a a') : a.core.groups.length ≤ a'.core.groups.length := by
  rcases hs.group_cases with ⟨g, -, rfl⟩ | ⟨hgroups, -⟩
  · simp
  · rw [hgroups]

theorem Step.sync_cases (hs : Step a a') {leading : Bool} {r : ℤ} (h : .sync g leading r ∈ a'.core.log) :
    .sync g leading r ∈ a.core.log ∨
      (∃ cookie es, a.req = .lead cookie es ∧ g = a.core.cur ∧ leading = true) ∨
      ∃ b p, a.xf = .toSync b p ∧ g = a.core.group b ∧
        a' = { a with core := a.core.emit (.sync g leading r), xf := .toRespond b p r } := by
  cases hs with
  | @leadSync cookie es r' hq hr =>
    rcases List.mem_append.mp h with hold | hnew
    · exact .inl hold
    · cases List.mem_singleton.mp hnew
      exact .inr (.inl ⟨cookie, es, hq, rfl, rfl⟩)
  | @flush b p r' hxf hr =>
    rcases List.mem_append.mp h with hold | hnew
    · exact .inl hold
    · cases List.mem_singleton.mp hnew
      exact .inr (.inr ⟨b, p, hxf, rfl, rfl⟩)
  | _ => exact .inl (by simpa using h)

/-- What a step writes to the media comes from a buffer that was waiting for it. -/
theorem Step.stores_cases (hs : Step a a') :
    (∀ l, a'.core.log = a.core.log ++ l → ∀ gid, stores gid l = []) ∨
      ∃ b p r, a.xf = .toStore b p ∧ a' = { a with core := a.core.store p.sector p.nsec b r, xf := .stored b p r } := by
  cases hs with
  | @store b p r hxf hr => exact .inr ⟨b, p, r, hxf, rfl⟩
  | _ =>
    refine .inl fun l hl gid ↦ ?_
    simp only [Core.emit_log, Core.fetch_log, Core.remap_log, Core.taken_log, Core.setParam_log, Core.clearTx_log,
      Core.load_log, Core.submit_log, Core.move_log, List.append_cancel_left_eq, List.self_eq_append_right] at hl
    subst hl
    rfl

/-! ## The invariant -/

/-- Nothing of the groups up to `g` is on its way to the media any more, and it is not going to be synced for them. -/
structure Passed (a : Pipe) (g : ℕ) : Prop where
  unstored : ∀ b ∈ a.unstored, g < a.core.group b
  working : a.req.working → g < a.core.cur
  toSync : ∀ b p, a.xf = .toSync b p → g < a.core.group b

/-- The media is synced for a group only if the group asks for it, and a group that ends in a SYNC entry is not answered
with success before, unless an error is passed over whose low byte is zero. -/
structure Syncing (a : Pipe) : Prop where
  fetched : ∀ gid < a.core.groups.length, .fetch gid ∈ a.core.log
  lead : ∀ cookie es, a.req = .lead cookie es →
    (vcablkBckndDiskRequestGetInfo (a.groupAt a.core.cur)).2.syncBefore = true
  asked : ∀ g leading r, .sync g leading r ∈ a.core.log → g < a.core.groups.length ∧ AsksSync (a.groupAt g)
  tail : ∀ g, .sync g false 0 ∈ a.core.log → TailSynced g a.core.log ∧ carried g a.core.log = [] ∧ a.Passed g
  answered : ∀ g ck, .response g ck 0 ∈ a.core.log → (∀ err ∈ carried g a.core.log, s8 err ≠ 0) →
    (vcablkBckndDiskRequestGetInfo (a.groupAt g)).2.syncAfter = true → .sync g false 0 ∈ a.core.log
  byte : ∀ g ck r, .response g ck r ∈ a.core.log → g < a.core.groups.length ∧ ∃ err, r = s8 err

theorem Passed.step (hp : a.Passed g) (h : Inv a) (hs : Step a a') (hlt : g < a.core.groups.length) : a'.Passed g where
  unstored b hb := by
    rcases hs.mem_unstored hb with hmem | ⟨cookie, w, c, cs, es, ck, hq, -, rfl⟩
    · rw [(hs.keeps h.owned h.seen (mem_flight_of_unstored hmem)).1]
      exact hp.unstored b hmem
    · -- a new chunk is of the group that is being served
      have hheld := h.tracked.held
      rw [hq] at hheld
      rw [Core.submit_group, hheld.1]
      exact hp.working (by simp [hq, ReqSt.working])
  working hw := by
    rcases working_cases hs hw with ⟨x, rfl⟩ | ⟨hw', hgroups⟩
    · rw [Core.fetch_cur]
      exact hlt
    · rw [Core.cur, hgroups]
      exact hp.working hw'
  toSync b p hxf' := by
    cases hs with
    | @clearTx x q hxf =>
      dsimp only at hxf'
      rw [begun_eq_stored (by simp [hxf'])] at hxf'
      obtain ⟨rfl, -⟩ := stored_eq_toSync hxf'
      exact hp.unstored x (by simp [Pipe.unstored, hxf, XfSt.unstored])
    | @store x q r hxf hr =>
      obtain ⟨rfl, -⟩ := stored_eq_toSync hxf'
      exact hp.unstored x (by simp [Pipe.unstored, hxf, XfSt.unstored])
    | take hxf hq => simp at hxf'
    | flush r hxf hr => simp at hxf'
    | respond hxf => simp at hxf'
    | push hxf => simp at hxf'
    | release hxf => simp at hxf'
    | @pop cookie w c cs es x x' free hq hfree =>
      have hb : b ∈ a.flight := by simp [flight, show a.xf = .toSync b p from hxf']
      rw [((Step.pop hq hfree).keeps h.owned h.seen hb).1]
      exact hp.toSync b p hxf'
    | _ => exact hp.toSync b p hxf'

/-- When the last chunk of a group has been synced, so has everything before it. -/
theorem Written.passed (h : Written a) {b : ℕ} {p : CallbackParam} (hxf : a.xf = .toSync b p) (r : ℤ) :
    Passed { a with
      core := a.core.emit (.sync (a.core.group b) false r)
      xf := .toRespond b p r } (a.core.group b) := by
  have hseen := h.inv.seen.xf
  rw [hxf] at hseen
  have hck : 0 ≤ (a.core.param b).responseCookie := hseen.1 ▸ hseen.2.1
  have hfl : a.flight = b :: a.unstored := by simp [flight, unstored, hxf, XfSt.unstored]
  have hpw := h.inv.ordered.pairwise
  rw [hfl, List.pairwise_cons] at hpw
  refine ⟨fun b' hb' ↦ (hpw.1 b' ?_).2 hck, fun hw ↦ ?_, fun _ _ hxf' ↦ by simp at hxf'⟩
  · simpa [unstored, hxf, XfSt.unstored] using hb'
  · have hlt := h.inv.ordered.lt_groups b (by simp [hfl])
    have hne := h.inv.group_ne_cur hw (b := b) (by simp [hfl]) hck
    rw [Core.emit_cur]
    rw [Core.cur] at hne ⊢
    omega

/-- No error of a group that has passed goes into a response any more. -/
theorem Passed.carried_eq (hp : a.Passed g) (h : Inv a) (hs : Step a a') :
    carried g a'.core.log = carried g a.core.log := by
  rcases hs.carried_cases h with hsame | ⟨hw, -, -, _, _, _, -, hrep⟩ | ⟨b, p, r, hxf, -, -, rfl⟩ |
    ⟨b, p, r, hxf, -, rfl⟩
  · exact hsame g
  · rw [hrep, if_neg (hp.working hw).ne', List.append_nil]
  · have hlt := hp.unstored b (by simp [Pipe.unstored, hxf, XfSt.unstored])
    simp [Event.carries, hlt.ne']
  · simp [Event.carries, (hp.toSync b p hxf).ne']

theorem Syncing.lead_step (h : Syncing a) (hs : Step a a') {cookie : ℕ} {es : List Entry}
    (hq : a'.req = .lead cookie es) :
    (vcablkBckndDiskRequestGetInfo (a'.groupAt a'.core.cur)).2.syncBefore = true := by
  rcases hs.group_cases with ⟨x, -, rfl⟩ | ⟨hgroups, -⟩
  · have hget : ({ a with core := a.core.fetch x, req := .start x } : Pipe).groupAt a.core.groups.length = x := by
      simp [groupAt]
    rw [Core.fetch_cur, hget]
    dsimp only at hq
    rcases start_cases x with ⟨-, -, hstart⟩ | ⟨-, hsync, -⟩ | ⟨-, -, hstart⟩
    · rw [hstart] at hq
      cases hq
    · exact hsync
    · rw [hstart] at hq
      exact absurd hq settle_ne_lead
  · rw [groupAt, Core.cur, hgroups]
    rcases hs.lead_cases hgroups with ⟨-, hsame⟩ | ⟨cookie', es', r, -, rfl⟩
    · exact h.lead cookie es ((hsame cookie es).mp hq)
    · dsimp only at hq
      split at hq
      · exact absurd hq settle_ne_lead
      · cases hq

theorem Syncing.asked_step (h : Syncing a) (hw : a.Written) (hs : Step a a') {leading : Bool} {r : ℤ}
    (hsync : .sync g leading r ∈ a'.core.log) : g < a'.core.groups.length ∧ AsksSync (a'.groupAt g) := by
  rcases hs.sync_cases hsync with hold | ⟨cookie, es, hq, rfl, -⟩ | ⟨b, p, hxf, rfl, -⟩
  · obtain ⟨hlt, hasked⟩ := h.asked g leading r hold
    rw [hs.groupAt_eq hlt]
    exact ⟨hlt.trans_le hs.groups_le, hasked⟩
  · have hlt := hw.inv.mem_groups fun hidle ↦ by simp [hidle] at hq
    rw [hs.groupAt_eq hlt]
    exact ⟨hlt.trans_le hs.groups_le, .inl (h.lead cookie es hq)⟩
  · have hseen := hw.inv.seen.xf
    rw [hxf] at hseen
    obtain ⟨hparam, hck, hflush⟩ := hseen
    have hb : b ∈ a.flight := by simp [flight, hxf]
    have hlt := hw.inv.ordered.lt_groups b hb
    rw [hs.groupAt_eq hlt]
    refine ⟨hlt.trans_le hs.groups_le, .inr ?_⟩
    rw [groupAt, ← (hw.told.complete b hb (hparam ▸ hck)).2, hparam]
    exact hflush

theorem Syncing.tail_step (h : Syncing a) (hw : a.Written) (hs : Step a a') (hsync : .sync g false 0 ∈ a'.core.log) :
    TailSynced g a'.core.log ∧ carried g a'.core.log = [] ∧ a'.Passed g := by
  rcases hs.sync_cases hsync with hold | ⟨-, -, -, -, hfalse⟩ | ⟨b, p, hxf, rfl, rfl⟩
  · obtain ⟨⟨pre, post, hpre, hup⟩, hnone, hpassed⟩ := h.tail g hold
    refine ⟨?_, (hpassed.carried_eq hw.inv hs).trans hnone, hpassed.step hw.inv hs (h.asked g false 0 hold).1⟩
    obtain ⟨l, hl⟩ := hs.log_isPrefix
    refine ⟨pre, post ++ l, ?_, fun gid hle ↦ ⟨(hup gid hle).1, ?_⟩⟩
    · rw [← hl, hpre, List.append_assoc, List.cons_append]
    · have hnew : stores gid (post ++ l) = stores gid post ++ stores gid l := List.filterMap_append
      rw [hnew, (hup gid hle).2, List.nil_append]
      rcases hs.stores_cases with hempty | ⟨b, p, r, hxf, rfl⟩
      · exact hempty l hl.symm gid
      · -- what is written belongs to a later group
        have hlt := hpassed.unstored b (by simp [unstored, hxf, XfSt.unstored])
        rw [Core.store_log, List.append_cancel_left_eq] at hl
        subst hl
        have hne : a.core.group b ≠ gid := by omega
        simp [history, Event.stored, hne]
  · cases hfalse
  · have hlt := hw.inv.ordered.lt_groups b (by simp [flight, hxf])
    refine ⟨⟨a.core.log, [], rfl, fun gid hle ↦ ⟨h.fetched gid (hle.trans_lt hlt), rfl⟩⟩, ?_, hw.passed hxf 0⟩
    simpa [Event.carries] using hw.told.toSync b p hxf

theorem Syncing.answered_step (h : Syncing a) (hw : a.Written) (hs : Step a a') {ck : ℕ}
    (hresp : .response g ck 0 ∈ a'.core.log) (hcarried : ∀ err ∈ carried g a'.core.log, s8 err ≠ 0)
    (hafter : (vcablkBckndDiskRequestGetInfo (a'.groupAt g)).2.syncAfter = true) : .sync g false 0 ∈ a'.core.log := by
  have hsub : ∀ err ∈ carried g a.core.log, s8 err ≠ 0 := fun err herr ↦
    hcarried err ((hs.log_isPrefix.filterMap _).subset herr)
  have hkeep (hold : .response g ck 0 ∈ a.core.log) : .sync g false 0 ∈ a'.core.log := by
    rw [hs.groupAt_eq (h.byte g ck 0 hold).1] at hafter
    exact hs.log_isPrefix.subset (h.answered g ck hold hsub hafter)
  rcases hs.responses_cases with hsame | ⟨cookie, err, hq, rfl⟩ | ⟨b, p, err, hxf, rfl⟩
  · refine hkeep (mem_responses.mp ?_)
    rw [← hsame]
    exact mem_responses.mpr hresp
  · rcases List.mem_append.mp hresp with hold | hnew
    · exact hkeep hold
    · -- the request thread answers with an error, of which the low byte is not zero
      rw [List.mem_singleton, Event.response.injEq] at hnew
      obtain ⟨rfl, -, hret⟩ := hnew
      rcases (hw.reqTold.abort _ _ _ hq).carried_eq with ⟨hone, -⟩ | ⟨-, heio, -⟩
      · exact absurd hret.symm (hsub err (by simp [hone]))
      · exact absurd hret (by rw [heio]; decide)
  · rcases List.mem_append.mp hresp with hold | hnew
    · exact hkeep hold
    · rw [List.mem_singleton, Event.response.injEq] at hnew
      obtain ⟨rfl, -, hret⟩ := hnew
      have hseen := hw.inv.seen.xf
      rw [hxf] at hseen
      have hb : b ∈ a.flight := by simp [flight, hxf]
      rw [hs.groupAt_eq (hw.inv.ordered.lt_groups b hb)] at hafter
      obtain ⟨hone, htail, -⟩ := hw.told.toRespond b p err hxf
      have hzero : err = 0 := by
        by_contra hne
        exact hsub err (by simp [hone, hne]) hret.symm
      have hflush := (hw.told.complete b hb (hseen.1 ▸ hseen.2)).2
      rw [hseen.1] at hflush
      -- the trailing sync was performed, and did not fail
      obtain ⟨r, hr⟩ := List.exists_mem_of_ne_nil _ (htail hzero (hflush.trans hafter))
      have hr0 : r = 0 := by
        by_contra hne
        exact absurd (carried_of_tailSync hr hne) (by simp [hone, hzero])
      exact hs.log_isPrefix.subset (hr0 ▸ mem_tailSyncs hr)

theorem Syncing.byte_step (h : Syncing a) (hw : a.Written) (hs : Step a a') {ck : ℕ} {r : ℤ}
    (hresp : .response g ck r ∈ a'.core.log) : g < a'.core.groups.length ∧ ∃ err, r = s8 err := by
  have hkeep (hold : .response g ck r ∈ a.core.log) : g < a'.core.groups.length ∧ ∃ err, r = s8 err :=
    ⟨(h.byte g ck r hold).1.trans_le hs.groups_le, (h.byte g ck r hold).2⟩
  rcases hs.responses_cases with hsame | ⟨cookie, err, hq, rfl⟩ | ⟨b, p, err, hxf, rfl⟩
  · refine hkeep (mem_responses.mp ?_)
    rw [← hsame]
    exact mem_responses.mpr hresp
  · rcases List.mem_append.mp hresp with hold | hnew
    · exact hkeep hold
    · rw [List.mem_singleton, Event.response.injEq] at hnew
      exact ⟨hnew.1 ▸ hw.inv.mem_groups fun hidle ↦ by simp [hidle] at hq, err, hnew.2.2⟩
  · rcases List.mem_append.mp hresp with hold | hnew
    · exact hkeep hold
    · rw [List.mem_singleton, Event.response.injEq] at hnew
      exact ⟨hnew.1 ▸ hw.inv.ordered.lt_groups b (by simp [flight, hxf]), err, hnew.2.2⟩

theorem Syncing.step (h : Syncing a) (hw : a.Written) (hs : Step a a') : Syncing a' where
  fetched gid hlt := by
    rcases hs.group_cases with ⟨x, -, rfl⟩ | ⟨hgroups, -⟩
    · rw [Core.fetch_groups, List.length_append, List.length_singleton] at hlt
      rw [Core.fetch_log]
      rcases Nat.lt_succ_iff_lt_or_eq.mp hlt with hlt | rfl
      · exact List.mem_append_left _ (h.fetched gid hlt)
      · exact List.mem_append_right _ (List.mem_singleton_self _)
    · exact hs.log_isPrefix.subset (h.fetched gid (hgroups ▸ hlt))
  lead _ _ hq := h.lead_step hs hq
  asked _ _ _ hsync := h.asked_step hw hs hsync
  tail _ hsync := h.tail_step hw hs hsync
  answered _ _ hresp hcarried hafter := h.answered_step hw hs hresp hcarried hafter
  byte _ _ _ hresp := h.byte_step hw hs hresp

theorem Syncing.start (media mem : ℕ → UInt8) : Syncing (Pipe.start media mem) where
  fetched gid hlt := absurd hlt (by simp [Pipe.start, init])
  lead cookie es hq := by simp [Pipe.start] at hq
  asked g leading r hsync := by simp [Pipe.start, init] at hsync
  tail g hsync := by simp [Pipe.start, init] at hsync
  answered g ck hresp := by simp [Pipe.start, init] at hresp
  byte g ck r hresp := by simp [Pipe.start, init] at hresp

end Pipe

/-! ## Every run -/

variable {s : Sys} {media mem : ℕ → UInt8} {ls : List Label} {gid : ℕ} {g : List VcablkRequest}

theorem exec_syncing (h : exec step (init media mem) ls = some s) : ∃ a, Sim s a ∧ a.Written ∧ a.Syncing :=
  exec_invariant_pipe (C := fun _ _ ↦ True) (along_of_forall fun _ _ _ ↦ trivial) h
    ⟨Pipe.Written.start media mem, Pipe.Syncing.start media mem⟩ fun ha hs _ ↦ ⟨ha.1.step hs, ha.2.step ha.1 hs⟩

theorem Sim.groupAt_eq {a : Pipe} (hsim : Sim s a) (hg : s.groups[gid]? = some g) : a.groupAt gid = g := by
  rw [Pipe.groupAt, List.getD_eq_getElem?_getD, ← hsim.core, ← Sys.groups, hg, Option.getD_some]

/-- **The media is synced for a group only if it has a SYNC entry.** -/
theorem asks_of_synced (h : exec step (init media mem) ls = some s) {leading : Bool} {r : ℤ}
    (hsync : .sync gid leading r ∈ s.log) : ∃ g, s.groups[gid]? = some g ∧ AsksSync g := by
  obtain ⟨a, hsim, -, ha⟩ := exec_syncing h
  rw [Sys.log, hsim.core] at hsync
  obtain ⟨hlt, hasks⟩ := ha.asked gid leading r hsync
  rw [← hsim.core] at hlt
  refine ⟨_, List.getElem?_eq_getElem hlt, ?_⟩
  rwa [hsim.groupAt_eq (List.getElem?_eq_getElem hlt)] at hasks

theorem eq_zero_of_u8 {err : ℤ} (h : u8 (s8 err) = 0) : s8 err = 0 := by
  rw [u8, s8, Int.bmod_def] at h
  rw [s8, Int.bmod_def]
  split <;> omega

/-- **The trailing sync.** A group that ends in a SYNC entry is answered with success only after the media was synced
behind everything that this group and the groups before it write, unless the answer passes over an error whose low byte
is zero. -/
theorem tailSynced_of_answered (h : exec step (init media mem) ls = some s) {ck : ℕ} {ret : ℤ}
    (hresp : .response gid ck ret ∈ s.log) (h0 : u8 ret = 0) : ∃ g, s.groups[gid]? = some g ∧
      ((∀ err ∈ carried gid s.log, s8 err ≠ 0) →
        (vcablkBckndDiskRequestGetInfo g).2.syncAfter = true → TailSynced gid s.log) := by
  obtain ⟨a, hsim, -, ha⟩ := exec_syncing h
  rw [Sys.log, hsim.core] at hresp ⊢
  obtain ⟨hlt, err, rfl⟩ := ha.byte gid ck ret hresp
  rw [eq_zero_of_u8 h0] at hresp
  have hdone := ha.answered gid ck hresp
  rw [← hsim.core] at hlt
  rw [hsim.groupAt_eq (List.getElem?_eq_getElem hlt)] at hdone
  exact ⟨_, List.getElem?_eq_getElem hlt, fun hcarried hafter ↦ (ha.tail gid (hdone hcarried hafter)).1⟩

/-- The trailing sync of a group succeeds only if nothing of the group failed whose error goes into the response. -/
theorem carried_of_tailSynced (h : exec step (init media mem) ls = some s) (hsync : .sync gid false 0 ∈ s.log) :
    carried gid s.log = [] := by
  obtain ⟨a, hsim, -, ha⟩ := exec_syncing h
  rw [Sys.log, hsim.core] at hsync ⊢
  exact (ha.tail gid hsync).2.1

end Vcass.BlockIo.Bcknd
