import Vcass.BlockIo.Bcknd.Refine

/-!
# Block I/O backend: the chunks of a group

A group is served by submitting its chunks in order. The invariant `Tracked` says so: what was
submitted for a group is a first part of its chunks, and while a group is being served the request
thread stands right behind that part, with the next chunk in its hand. From the shape of the list
follows that a chunk with a cookie is the very last one (`Within.cookie_last`).
-/

namespace Vcass.BlockIo.Bcknd

open Conc

/-! ## The chunks of a group -/

/-- The entries a group asks to be transferred; none if the group is refused. -/
def groupEntries (g : List VcablkRequest) : List Entry :=
  let (err, info) := vcablkBckndDiskRequestGetInfo g
  if err ≠ 0 then [] else dataEntries g info (if info.syncBefore then 1 else 0)

def groupChunks (g : List VcablkRequest) : List Chunk := (groupEntries g).flatMap Entry.chunks

theorem groupChunks_of_refused {g : List VcablkRequest} (h : (vcablkBckndDiskRequestGetInfo g).1 ≠ 0) :
    groupChunks g = [] := by
  simp [groupChunks, groupEntries, h]

/-- The cookie a group is answered with. -/
def groupCookie (g : List VcablkRequest) : ℕ := (vcablkBckndDiskRequestGetInfo g).2.cookie

theorem start_cases (g : List VcablkRequest) :
    ((vcablkBckndDiskRequestGetInfo g).1 ≠ 0 ∧ groupEntries g = [] ∧
        ReqSt.start g = .abort (groupCookie g) none (vcablkBckndDiskRequestGetInfo g).1) ∨
      ((vcablkBckndDiskRequestGetInfo g).1 = 0 ∧
        (vcablkBckndDiskRequestGetInfo g).2.syncBefore = true ∧
        ReqSt.start g = .lead (groupCookie g) (groupEntries g)) ∨
      ((vcablkBckndDiskRequestGetInfo g).1 = 0 ∧
        (vcablkBckndDiskRequestGetInfo g).2.syncBefore = false ∧
        ReqSt.start g = .settle (groupCookie g) (groupEntries g)) := by
  rw [ReqSt.start, groupEntries, groupCookie]
  generalize vcablkBckndDiskRequestGetInfo g = result
  obtain ⟨err, info⟩ := result
  by_cases herr : err = 0
  · cases hsync : info.syncBefore <;> simp [herr, hsync]
  · simp [herr]

/-! ## Submitted chunks -/

/-- The chunk a submission names. -/
def chunkOf (p : CallbackParam) (d : DmaDesc) : Chunk where
  sector := p.sector
  nsec := p.nsec
  off := d.off
  isWrite := p.isWrite
  cookie := p.responseCookie
  doFlush := p.doFlush
  last := p.remapped.isSome

@[simp] theorem chunkOf_param (c : Chunk) (w : Window) (b : ℕ) :
    chunkOf (c.param w) (c.desc w b) = c := by
  obtain ⟨sector, nsec, off, isWrite, cookie, doFlush, last⟩ := c
  cases last <;> rfl

def Event.submitted (gid : ℕ) : Event → Option Chunk
  | .submit g p d cookie => if g = gid ∧ 0 ≤ cookie then some (chunkOf p d) else none
  | _ => none

/-- The chunks submitted for a group, in order. -/
abbrev submitted (gid : ℕ) (log : List Event) : List Chunk := history (Event.submitted gid) log

def Event.returned (gid : ℕ) : Event → Option ℕ
  | .push g b => if g = gid then some b else none
  | _ => none

/-- The buffers returned to the pool after a chunk of the group. -/
abbrev returned (gid : ℕ) (log : List Event) : List ℕ := history (Event.returned gid) log

/-! ## Where the request thread is -/

/-- All entries before `es` are submitted. -/
def Between (E : List Entry) (sub : List Chunk) (es : List Entry) : Prop :=
  ∃ pre, E = pre ++ es ∧ sub = pre.flatMap Entry.chunks

/-- The thread is inside an entry, with the chunks `cs` of it and the entries `es` to do. -/
def Within (E : List Entry) (sub cs : List Chunk) (es : List Entry) : Prop :=
  ∃ pre e dn, E = pre ++ e :: es ∧ e.chunks = dn ++ cs ∧ sub = pre.flatMap Entry.chunks ++ dn

def ReqSt.At (E : List Entry) (sub : List Chunk) : ReqSt → Prop
  | lead _ es => E = es ∧ sub = []
  | next _ e es => Between E sub (e :: es)
  | inEntry _ _ c cs es => Within E sub (c :: cs) es
  | popped _ _ _ c cs es => Within E sub (c :: cs) es
  | toLoad _ _ _ c cs es => Within E sub (c :: cs) es
  | toSubmit _ _ _ c cs es => Within E sub (c :: cs) es
  | _ => True

variable {E es : List Entry} {e : Entry} {sub cs : List Chunk} {c : Chunk} {cookie : ℕ} {w : Window}

theorem Between.sub_le (h : Between E sub es) : sub <+: E.flatMap Entry.chunks := by
  obtain ⟨pre, rfl, rfl⟩ := h
  rw [List.flatMap_append]
  exact List.prefix_append ..

theorem Within.sub_le (h : Within E sub cs es) : sub <+: E.flatMap Entry.chunks := by
  obtain ⟨pre, e, dn, rfl, hc, rfl⟩ := h
  rw [List.flatMap_append, List.flatMap_cons, hc, List.append_assoc, ← List.append_assoc]
  exact List.prefix_append ..

theorem Between.settle (h : Between E sub es) : (ReqSt.settle cookie es).At E sub := by
  cases es with
  | nil => trivial
  | cons e es => exact h

theorem Within.proceed (h : Within E sub cs es) : (ReqSt.proceed cookie w cs es).At E sub := by
  cases cs with
  | nil =>
    obtain ⟨pre, e, dn, rfl, hc, rfl⟩ := h
    refine Between.settle ⟨pre ++ [e], by simp, ?_⟩
    rw [List.append_nil] at hc
    simp [hc]
  | cons c cs => exact h

theorem Between.enter (h : Between E sub (e :: es)) : Within E sub e.chunks es := by
  obtain ⟨pre, rfl, rfl⟩ := h
  exact ⟨pre, e, [], rfl, rfl, by simp⟩

theorem Within.submit (h : Within E sub (c :: cs) es) : Within E (sub ++ [c]) cs es := by
  obtain ⟨pre, e, dn, rfl, hc, rfl⟩ := h
  exact ⟨pre, e, dn ++ [c], rfl, by simp [hc], by simp⟩

/-- What the request thread knows about the buffer in its hand. -/
def ReqSt.Held (k : Core) : ReqSt → Prop
  | popped _ _ b _ _ _ => k.group b = k.cur
  | toLoad _ w b c _ _ => k.group b = k.cur ∧ k.param b = c.param w
  | toSubmit _ w b c _ _ => k.group b = k.cur ∧ k.param b = c.param w
  | _ => True

theorem ReqSt.held_of_hand {k : Core} {q : ReqSt} (h : q.hand = []) : q.Held k := by
  cases q <;> trivial

theorem ReqSt.Held.congr {k k' : Core} {q : ReqSt} (h : q.Held k) (hcur : k'.cur = k.cur)
    (hgroup : ∀ b ∈ q.hand, k'.group b = k.group b)
    (hparam : ∀ b ∈ q.hand, k'.param b = k.param b) : q.Held k' := by
  cases q <;> simp_all [Held]

namespace Pipe

/-- The chunks submitted for a group are the first chunks of that group. -/
structure Tracked (a : Pipe) : Prop where
  subs : ∀ gid, submitted gid a.core.log <+: groupChunks (a.core.groups.getD gid [])
  req : a.req.At (groupEntries (a.core.groups.getD a.core.cur [])) (submitted a.core.cur a.core.log)
  held : a.req.Held a.core

theorem Tracked.submitted_fresh {a : Pipe} {gid : ℕ} (h : a.Tracked)
    (hgid : a.core.groups.length ≤ gid) : submitted gid a.core.log = [] := by
  have := h.subs gid
  rw [List.getD_eq_default _ _ hgid] at this
  exact List.prefix_nil.mp this

/-- The invariant does not look at the callback and the transfer thread. -/
theorem Tracked.frame {a a' : Pipe} (h : Tracked a) (hreq : a'.req = a.req)
    (hgroups : a'.core.groups = a.core.groups)
    (hsub : ∀ gid, submitted gid a'.core.log = submitted gid a.core.log)
    (hheld : a'.req.Held a'.core) : Tracked a' := by
  refine ⟨fun gid ↦ ?_, ?_, hheld⟩
  · rw [hsub, hgroups]
    exact h.subs gid
  · rw [hreq, hsub, Core.cur, hgroups]
    exact h.req

section TrackedStep

attribute [local simp] Event.submitted

theorem Tracked.step {a a' : Pipe} (h : Tracked a) (hown : a.Owned) (hs : Step a a') :
    Tracked a' := by
  have hat := h.req
  have hheld := h.held
  cases hs with
  | fetch g hidle =>
    have hfresh := h.submitted_fresh le_rfl
    refine ⟨fun gid ↦ ?_, ?_, ReqSt.held_of_hand (ReqSt.hand_start g)⟩
    · rcases lt_or_ge gid a.core.groups.length with hlt | hge
      · simpa [List.getElem?_append_left hlt] using h.subs gid
      · simp [h.submitted_fresh hge]
    · simp only [Core.fetch_cur, Core.fetch_groups, Core.fetch_log, history_snoc,
        Event.submitted, Option.toList_none, List.append_nil, hfresh, List.getD_eq_getElem?_getD,
        List.getElem?_concat_length, Option.getD_some]
      rcases start_cases g with ⟨-, -, hstart⟩ | ⟨-, -, hstart⟩ | ⟨-, -, hstart⟩
      · rw [hstart]
        trivial
      · rw [hstart]
        exact ⟨rfl, rfl⟩
      · rw [hstart]
        exact Between.settle ⟨[], rfl, rfl⟩
  | finish hdone => exact ⟨h.subs, trivial, trivial⟩
  | leadSync r hlead hr =>
    rw [hlead] at hat
    obtain ⟨hE, hsub⟩ := hat
    refine ⟨by simpa using h.subs, ?_, ?_⟩
    · dsimp only
      split
      · exact Between.settle ⟨[], hE, by simpa using hsub⟩
      · trivial
    · dsimp only
      split <;> exact ReqSt.held_of_hand (by simp)
  | remapFail hreq => exact ⟨by simpa using h.subs, trivial, trivial⟩
  | remap hreq =>
    rw [hreq] at hat
    exact ⟨by simpa using h.subs, by simpa using (Between.enter hat).proceed,
      ReqSt.held_of_hand (by simp)⟩
  | pop hreq hfree =>
    rw [hreq] at hat
    exact ⟨by simpa using h.subs, by simpa [ReqSt.At] using hat, by simp [ReqSt.Held]⟩
  | fill hreq =>
    rw [hreq] at hat hheld
    refine ⟨h.subs, ?_, ?_⟩
    · dsimp only
      split <;> exact hat
    · dsimp only
      split <;> exact ⟨hheld, Function.update_self ..⟩
  | load r hreq hr =>
    rw [hreq] at hat hheld
    refine ⟨by simpa using h.subs, ?_, ?_⟩
    · dsimp only
      split
      · simpa [ReqSt.At] using hat
      · trivial
    · dsimp only
      split
      · exact hheld
      · trivial
  | @submit cookie w b c cs es ck hreq =>
    rw [hreq] at hat hheld
    obtain ⟨hgroup, hparam⟩ := hheld
    have hsub (gid : ℕ) : submitted gid (a.core.submit (c.desc w b) ck).log =
        submitted gid a.core.log ++ if a.core.cur = gid ∧ 0 ≤ ck then [c] else [] := by
      have hbuf : (c.desc w b).buf = b := rfl
      simp only [Core.submit_log, history_snoc, Event.submitted, hbuf, hgroup, hparam,
        chunkOf_param]
      split <;> rfl
    have hin : Within _ _ (c :: cs) es := hat
    by_cases hck : ck < 0
    · refine ⟨fun gid ↦ ?_, ?_, ?_⟩
      · simpa [hsub, not_le.mpr hck] using h.subs gid
      · simp [hck, ReqSt.At]
      · simp [hck, ReqSt.Held]
    · have hdone := hin.submit
      refine ⟨fun gid ↦ ?_, ?_, ?_⟩
      · rw [hsub, Core.submit_groups]
        split
        case isTrue hgid => exact hgid.1 ▸ hdone.sub_le
        case isFalse => simpa using h.subs gid
      · dsimp only
        rw [if_neg hck, Core.submit_cur, hsub, if_pos ⟨rfl, not_lt.mp hck⟩]
        exact hdone.proceed
      · dsimp only
        rw [if_neg hck]
        exact ReqSt.held_of_hand (ReqSt.hand_proceed ..)
  | abortUnmap hreq => exact ⟨by simpa using h.subs, trivial, trivial⟩
  | abortRespond hreq => exact ⟨by simpa using h.subs, trivial, trivial⟩
  | move hd => exact h.frame rfl rfl (by simp) (hheld.congr rfl (fun _ _ ↦ rfl) fun _ _ ↦ rfl)
  | cbStart hcb hd => exact h.frame rfl rfl (by simp) hheld
  | cbUnmap hcb => exact h.frame rfl rfl (by simp) hheld
  | @cbClear b p hcb =>
    refine h.frame rfl rfl (by simp) (hheld.congr rfl (fun _ _ ↦ rfl) fun b' hb' ↦ ?_)
    refine Function.update_of_ne ?_ _ _
    rintro rfl
    exact hown.notMem_flight_of_hand hb' (by simp [flight, hcb])
  | enqueue hcb => exact h.frame rfl rfl (by simp) hheld
  | take hxf hq => exact h.frame rfl rfl (by simp) hheld
  | clearTx hxf => exact h.frame rfl rfl (by simp) hheld
  | store r hxf hr => exact h.frame rfl rfl (by simp) hheld
  | flush r hxf hr => exact h.frame rfl rfl (by simp) hheld
  | respond hxf => exact h.frame rfl rfl (by simp) hheld
  | push hxf => exact h.frame rfl rfl (by simp) hheld
  | release hxf => exact h.frame rfl rfl (by simp) hheld

end TrackedStep

end Pipe


/-! ## Only the last chunk of a group carries its cookie -/

theorem chunks_cookie {write flush : Bool} {ck : ℤ} {fuel left sector off : ℕ} {dn : List Chunk}
    (h : chunks write ck flush fuel left sector off = dn ++ c :: cs) (hc : 0 ≤ c.cookie) :
    cs = [] ∧ c.cookie = ck ∧ c.doFlush = flush := by
  induction fuel generalizing left sector off dn with
  | zero => simp [chunks] at h
  | succ fuel ih =>
    rw [chunks] at h
    split at h
    · simp at h
    cases dn with
    | cons d dn =>
      rw [List.cons_append, List.cons.injEq] at h
      exact ih h.2
    | nil =>
      rw [List.nil_append, List.cons.injEq] at h
      obtain ⟨rfl, rfl⟩ := h
      dsimp only at hc ⊢
      by_cases hleft : left - min left (pageSize >>> sectorShift) = 0
      · refine ⟨?_, if_pos hleft, if_pos hleft⟩
        rw [hleft]
        cases fuel <;> simp [chunks]
      · rw [if_neg hleft] at hc
        exact absurd hc (by decide)

theorem entries_cookie {write flush : Bool} {ck : ℕ} {rs : List VcablkRequest} {pre : List Entry}
    {dn : List Chunk} (h : entries write ck flush rs = pre ++ e :: es)
    (he : e.chunks = dn ++ c :: cs) (hc : 0 ≤ c.cookie) :
    cs = [] ∧ es = [] ∧ c.cookie = ck ∧ c.doFlush = flush := by
  induction rs generalizing pre with
  | nil => simp [entries] at h
  | cons r rs ih =>
    rw [entries] at h
    cases pre with
    | cons e' pre =>
      rw [List.cons_append, List.cons.injEq] at h
      exact ih h.2
    | nil =>
      rw [List.nil_append, List.cons.injEq] at h
      obtain ⟨rfl, rfl⟩ := h
      obtain ⟨hcs, hck, hfl⟩ := chunks_cookie he hc
      cases rs with
      | nil => exact ⟨hcs, rfl, hck, hfl⟩
      | cons r' rs =>
        rw [hck, if_neg (List.cons_ne_nil r' rs)] at hc
        exact absurd hc (by decide)

theorem Within.cookie_last {g : List VcablkRequest} (h : Within (groupEntries g) sub (c :: cs) es)
    (hc : 0 ≤ c.cookie) : cs = [] ∧ es = [] ∧ c.cookie = groupCookie g := by
  obtain ⟨pre, e, dn, hE, he, -⟩ := h
  rw [groupEntries] at hE
  generalize hinfo : vcablkBckndDiskRequestGetInfo g = result at hE
  obtain ⟨err, info⟩ := result
  dsimp only at hE
  split at hE
  · simp at hE
  · obtain ⟨hcs, hes, hck, -⟩ := entries_cookie hE he hc
    exact ⟨hcs, hes, by rw [hck, groupCookie, hinfo]⟩

theorem Within.lt_groups {gs : List (List VcablkRequest)} {gid : ℕ}
    (h : Within (groupEntries (gs.getD gid [])) sub cs es) : gid < gs.length := by
  obtain ⟨pre, e, dn, hE, -, -⟩ := h
  by_contra hge
  rw [List.getD_eq_default _ _ (not_lt.mp hge)] at hE
  exact absurd hE (by simp [groupEntries, vcablkBckndDiskRequestGetInfo, eio])

end Vcass.BlockIo.Bcknd
