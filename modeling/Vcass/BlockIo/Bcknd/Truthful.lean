import Vcass.BlockIo.Bcknd.Errors

/-!
# Block I/O backend: the responses of groups of writes

The error of a media write is reported only for the last chunk of a group. For the others
`vca_bcknd_complete_transfer` prints it and forgets it, so a group whose last chunk is written
answers with success. Of the error that does go into the response the completion ring keeps one
byte, so a sync that fails with `-ERESTARTSYS` is answered with success as well
(`response_truthful_iff`).
-/

namespace Vcass.BlockIo.Bcknd

open Conc

/-! ## Groups of writes -/

/-- A group that writes: WRITE entries, at least one, and SYNC entries. -/
structure WriteGroup (g : List VcablkRequest) : Prop where
  types : ∀ r ∈ g, r.requestType = .write ∨ r.requestType = .sync
  write : ∃ r ∈ g, r.requestType = .write

theorem checkConsistency_type {cookie size id sector num : ℕ} {type : RequestType}
    {rs : List VcablkRequest} (h : (checkConsistency cookie type size id sector num rs).1 = 0) :
    ∀ r ∈ rs, r.requestType ≠ .sync → r.requestType = type := by
  induction rs generalizing id sector num with
  | nil => simp
  | cons r rs ih =>
    intro r' hr' hsync
    rw [checkConsistency] at h
    split at h
    · exact absurd h (by simp [eio])
    split at h
    case isTrue hskip =>
      rcases List.mem_cons.mp hr' with rfl | hr'
      · exact absurd hskip.1 hsync
      · exact ih h r' hr' hsync
    split at h
    · exact absurd h (by simp [eio])
    case isFalse htype =>
      split at h
      · exact absurd h (by simp [eio])
      · rcases List.mem_cons.mp hr' with rfl | hr'
        · exact (not_not.mp htype).symm
        · exact ih h r' hr' hsync

theorem WriteGroup.type_eq {g : List VcablkRequest} (hw : WriteGroup g)
    (herr : (vcablkBckndDiskRequestGetInfo g).1 = 0) :
    (vcablkBckndDiskRequestGetInfo g).2.type = .write := by
  obtain ⟨r', hr', hwrite⟩ := hw.write
  have hsync : r'.requestType ≠ .sync := by simp [hwrite]
  unfold vcablkBckndDiskRequestGetInfo at herr ⊢
  cases g with
  | nil => simp at hr'
  | cons r rest =>
    dsimp only at herr ⊢
    split at herr
    case isTrue hr =>
      rw [if_pos hr]
      cases rest with
      | nil =>
        rw [List.mem_singleton.mp hr'] at hsync
        exact absurd hr hsync
      | cons n rest =>
        dsimp only at herr ⊢
        split at herr
        · exact absurd herr (by simp [eio])
        · exact (checkConsistency_type herr r' hr' hsync).symm.trans hwrite
    case isFalse hr =>
      rw [if_neg hr]
      split at herr
      · exact absurd herr (by simp [eio])
      · exact (checkConsistency_type herr r' hr' hsync).symm.trans hwrite

theorem chunks_isWrite {write flush : Bool} {ck : ℤ} {fuel left sector off : ℕ} :
    ∀ c ∈ chunks write ck flush fuel left sector off, c.isWrite = write := by
  induction fuel generalizing left sector off with
  | zero => simp [chunks]
  | succ fuel ih =>
    intro c hc
    rw [chunks] at hc
    split at hc
    · simp at hc
    · rcases List.mem_cons.mp hc with rfl | hc
      · rfl
      · exact ih c hc

theorem entries_isWrite {write flush : Bool} {ck : ℕ} {rs : List VcablkRequest} :
    ∀ e ∈ entries write ck flush rs, ∀ c ∈ e.chunks, c.isWrite = write := by
  induction rs with
  | nil => simp [entries]
  | cons r rs ih =>
    intro e he
    rw [entries] at he
    rcases List.mem_cons.mp he with rfl | he
    · exact chunks_isWrite
    · exact ih e he

theorem WriteGroup.isWrite {g : List VcablkRequest} (hw : WriteGroup g) :
    ∀ c ∈ groupChunks g, c.isWrite = true := by
  intro c hc
  obtain ⟨e, he, hc⟩ := List.mem_flatMap.mp hc
  have htype := hw.type_eq
  rw [groupEntries] at he
  generalize vcablkBckndDiskRequestGetInfo g = result at he htype
  obtain ⟨err, info⟩ := result
  dsimp only at he htype
  split at he
  · simp at he
  case isFalse herr =>
    rw [entries_isWrite e he c hc, htype (not_not.mp herr)]
    rfl

/-! ## Every run -/

variable {s s' : Sys} {gid ck : ℕ} {ret : ℤ} {g : List VcablkRequest} {a : Pipe}

theorem Sim.sends {l : Label} (hsim : Sim s a) (hs : Bcknd.step s l = some s')
    (hsend : s'.log = s.log ++ [.response gid ck ret]) :
    (∃ err, a.req = .abort ck none err ∧ a.core.cur = gid ∧ ret = s8 err) ∨
      ∃ b p err, a.xf = .toRespond b p err ∧ a.core.group b = gid ∧
        p.responseCookie.toNat = ck ∧ ret = s8 err := by
  obtain ⟨a', hstep, hsim'⟩ := hsim.step hs
  rw [Sys.log, Sys.log, hsim.core, hsim'.core] at hsend
  cases hstep with
  | refl => simp at hsend
  | single hstep =>
    rcases hstep.responses_cases with hsame | ⟨cookie, err, hq, rfl⟩ | ⟨b, p, err, hxf, rfl⟩
    · have := hsame gid
      rw [hsend] at this
      simp [Event.responded] at this
    · simp only [Core.emit_log, List.append_cancel_left_eq, List.cons.injEq, Event.response.injEq,
        and_true] at hsend
      obtain ⟨hgid, rfl, rfl⟩ := hsend
      exact .inl ⟨err, hq, hgid, rfl⟩
    · simp only [Core.emit_log, List.append_cancel_left_eq, List.cons.injEq, Event.response.injEq,
        and_true] at hsend
      obtain ⟨hgid, rfl, rfl⟩ := hsend
      exact .inr ⟨b, p, err, hxf, hgid, rfl, rfl⟩

/-- When the response of the last chunk is due, every write of its group has reached the media. -/
theorem Pipe.Written.stores_eq {b : ℕ} {p : CallbackParam} {err : ℤ} (hw : WriteGroup g)
    (h : a.Written) (hxf : a.xf = .toRespond b p err)
    (hg : a.core.groups.getD (a.core.group b) [] = g) :
    (stores (a.core.group b) a.core.log).map Prod.fst = (groupChunks g).map Chunk.item := by
  have hseen := h.inv.seen.xf
  rw [hxf] at hseen
  have hck : 0 ≤ (a.core.param b).responseCookie := hseen.1 ▸ hseen.2
  have hfl : a.flight = b :: a.unstored := by
    simp [Pipe.flight, Pipe.unstored, hxf, XfSt.unstored]
  have hnone : a.unstored.filterMap (a.core.writeOf (a.core.group b)) = [] := by
    refine List.filterMap_eq_nil_iff.mpr fun b' hb' ↦ if_neg fun hgroup ↦ ?_
    exact h.inv.group_ne hfl hck hb' hgroup.1.symm
  have hsub := (h.told.complete b (by simp [hfl]) hck).1
  have hqueue := h.queued (a.core.group b)
  rw [hg] at hsub
  rw [hnone, List.append_nil, hsub, List.filter_eq_self.mpr hw.isWrite] at hqueue
  exact hqueue.symm

/-- Every chunk of the group was written without error, and so was the trailing sync performed if
the group ends in a SYNC entry. -/
def AllWritten (g : List VcablkRequest) (gid : ℕ) (log : List Event) : Prop :=
  stores gid log = (groupChunks g).map (fun c ↦ (c.item, 0)) ∧
    ((g.getLast?.any fun r ↦ r.requestType == .sync) = true →
      tailSyncs gid log ≠ [] ∧ ∀ r ∈ tailSyncs gid log, r = 0)

theorem failed_store_not_allWritten {log : List Event} {x : CallbackParam × ℤ}
    (hx : x ∈ stores gid log) (hret : x.2 ≠ 0) : ¬ AllWritten g gid log := by
  intro hall
  rw [hall.1, List.mem_map] at hx
  obtain ⟨c, -, rfl⟩ := hx
  exact hret rfl

theorem carried_of_store {log : List Event} {x : CallbackParam × ℤ} (hx : x ∈ stores gid log)
    (hck : 0 ≤ x.1.responseCookie) (hret : x.2 ≠ 0) : x.2 ∈ carried gid log := by
  obtain ⟨e, he, hst⟩ := List.mem_filterMap.mp hx
  refine List.mem_filterMap.mpr ⟨e, he, ?_⟩
  cases e with
  | store g' b p r bytes =>
    simp only [Event.stored] at hst
    split at hst
    case isTrue hgid =>
      obtain rfl := Option.some_inj.mp hst
      exact if_pos ⟨hgid, hck, hret⟩
    case isFalse => simp at hst
  | _ => simp [Event.stored] at hst

theorem carried_of_tailSync {log : List Event} {r : ℤ} (hr : r ∈ tailSyncs gid log)
    (hret : r ≠ 0) : r ∈ carried gid log := by
  obtain ⟨e, he, hst⟩ := List.mem_filterMap.mp hr
  refine List.mem_filterMap.mpr ⟨e, he, ?_⟩
  cases e with
  | sync g' leading r' =>
    cases leading with
    | true => simp [Event.tailSynced] at hst
    | false =>
      simp only [Event.tailSynced] at hst
      split at hst
      case isTrue hgid =>
        obtain rfl := Option.some_inj.mp hst
        exact if_pos ⟨hgid, hret⟩
      case isFalse => simp at hst
  | _ => simp [Event.tailSynced] at hst

/-- There is something to write for the group, or to sync behind it. -/
def HasWork (g : List VcablkRequest) : Prop :=
  groupChunks g ≠ [] ∨ (g.getLast?.any fun r ↦ r.requestType == .sync) = true

/-- A failure that the response may pass over: a media write of a chunk that is not the last, or an
error whose low byte is zero. -/
def PassedOver (g : List VcablkRequest) (gid : ℕ) (log : List Event) : Prop :=
  (∃ x ∈ stores gid log, x.1.responseCookie < 0 ∧ x.2 ≠ 0) ∨
    HasWork g ∧ ∃ err ∈ carried gid log, s8 err = 0

theorem Pipe.Written.stores_nil (h : a.Written) (hsub : submitted gid a.core.log = []) :
    stores gid a.core.log = [] := by
  have hqueue := h.queued gid
  rw [hsub] at hqueue
  exact List.map_eq_nil_iff.mp (List.append_eq_nil_iff.mp hqueue.symm).1

/-- What the request thread answers is truthful unless the low byte of its error is zero. -/
theorem Pipe.Written.truthful_abort {w : Option Window} {err : ℤ} (h : a.Written) (hw : WriteGroup g)
    (hg : a.core.groups.getD a.core.cur [] = g) (hq : a.req = .abort ck w err) :
    (s8 err = 0 → AllWritten g a.core.cur a.core.log) ↔
      (PassedOver g a.core.cur a.core.log → Reported a.core.cur a.core.log) := by
  obtain ⟨hne, hwhy, hlow⟩ := h.reqTold.abort _ _ _ hq
  rw [hg] at hwhy hlow
  rcases hwhy with ⟨hone, -⟩ | ⟨hnone, heio, hinfo⟩
  · by_cases h0 : s8 err = 0
    · -- Only the sync in front of the data can have failed, and nothing was written.
      have hread : ¬ ∃ c ∈ groupChunks g, c.isWrite = false := by
        rintro ⟨c, hc, hfalse⟩
        rw [hw.isWrite c hc] at hfalse
        exact absurd hfalse (by decide)
      have hst := h.stores_nil ((hlow h0).resolve_right hread).1
      have hnot : ¬ Reported a.core.cur a.core.log := by simp [Reported, hone, h0]
      constructor
      · rintro hall (⟨x, hx, -⟩ | ⟨hchunks | hlast, -⟩)
        · rw [hst] at hx
          exact absurd hx List.not_mem_nil
        · have hempty := (hall h0).1
          rw [hst] at hempty
          exact absurd (List.map_eq_nil_iff.mp hempty.symm) hchunks
        · exact absurd (h.reqTold.unsynced (by simp [hq, ReqSt.closed])) ((hall h0).2 hlast).1
      · intro hcond _
        have hidle : ¬ HasWork g := fun hwork ↦
          hnot (hcond (.inr ⟨hwork, err, by simp [hone], h0⟩))
        obtain ⟨hchunks, hlast⟩ := not_or.mp hidle
        refine ⟨?_, fun h ↦ absurd h hlast⟩
        rw [hst, not_not.mp hchunks]
        rfl
    · exact iff_of_true (fun h ↦ absurd h h0) fun _ ↦ ⟨err, by simp [hone], h0⟩
  · -- The writes of a refused group are none.
    have hsub := h.inv.tracked.subs a.core.cur
    rw [hg, groupChunks_of_refused hinfo, List.prefix_nil] at hsub
    refine iff_of_true (fun h0 ↦ absurd h0 (by rw [heio]; decide)) ?_
    rintro (⟨x, hx, -⟩ | ⟨-, err', herr', -⟩)
    · rw [h.stores_nil hsub] at hx
      exact absurd hx List.not_mem_nil
    · rw [hnone] at herr'
      exact absurd herr' List.not_mem_nil

theorem Pipe.Written.truthful_respond {b : ℕ} {p : CallbackParam} {err : ℤ} (h : a.Written)
    (hw : WriteGroup g) (hg : a.core.groups.getD (a.core.group b) [] = g)
    (hxf : a.xf = .toRespond b p err) :
    (s8 err = 0 → AllWritten g (a.core.group b) a.core.log) ↔
      (PassedOver g (a.core.group b) a.core.log → Reported (a.core.group b) a.core.log) := by
  obtain ⟨hcarried, htail, hwhy⟩ := h.told.toRespond b p err hxf
  have hstores := h.stores_eq hw hxf hg
  have hseen := h.inv.seen.xf
  rw [hxf] at hseen
  have hflush := (h.told.complete b (by simp [Pipe.flight, hxf]) (hseen.1 ▸ hseen.2)).2
  rw [hseen.1, hg] at hflush
  have hafter : p.doFlush = true ↔ (g.getLast?.any fun r ↦ r.requestType == .sync) = true := by
    rw [hflush]
    cases hlast : g.getLast? with
    | none => rw [List.getLast?_eq_none_iff.mp hlast]; simp [vcablkBckndDiskRequestGetInfo]
    | some r => rw [getInfo_syncAfter hlast]; rfl
  have hreported : Reported (a.core.group b) a.core.log ↔ s8 err ≠ 0 := by
    rw [Reported, hcarried]
    split
    case isTrue h0 => simp [h0, s8]
    case isFalse => simp
  rw [hreported]
  constructor
  · rintro hall hover h0
    obtain ⟨hwritten, hsynced⟩ := hall h0
    rcases hover with ⟨x, hx, -, hne⟩ | ⟨-, err', herr', -⟩
    · exact failed_store_not_allWritten hx hne ⟨hwritten, hsynced⟩
    · have hne : err ≠ 0 := by
        rintro rfl
        simp [hcarried] at herr'
      rcases hwhy hne with hst | ⟨hfl, hsync⟩
      · exact failed_store_not_allWritten hst hne ⟨hwritten, hsynced⟩
      · exact hne ((hsynced (hafter.mp hfl)).2 err hsync)
  · intro hcond h0
    have hover : ¬ PassedOver g (a.core.group b) a.core.log := fun hover ↦ hcond hover h0
    obtain ⟨hearly, hlow⟩ := not_or.mp hover
    have herr : err = 0 := by
      by_contra hne
      refine hlow ⟨?_, err, by simp [hcarried, hne], h0⟩
      rcases hwhy hne with hst | ⟨hfl, -⟩
      · refine .inl fun hnil ↦ ?_
        rw [hnil, List.map_nil, List.map_eq_nil_iff] at hstores
        rw [hstores] at hst
        exact absurd hst List.not_mem_nil
      · exact .inr (hafter.mp hfl)
    have hnone : carried (a.core.group b) a.core.log = [] := by rw [hcarried, if_pos herr]
    have hzero : ∀ x ∈ stores (a.core.group b) a.core.log, x.2 = 0 := by
      intro x hx
      by_contra hne
      rcases lt_or_ge x.1.responseCookie 0 with hneg | hpos
      · exact hearly ⟨x, hx, hneg, hne⟩
      · exact absurd (carried_of_store hx hpos hne) (by simp [hnone])
    refine ⟨?_, fun hlast ↦ ⟨htail herr (hafter.mpr hlast), fun r hr ↦ ?_⟩⟩
    · calc stores (a.core.group b) a.core.log
          = (stores (a.core.group b) a.core.log).map (fun x ↦ (x.1, 0)) := by
            refine (List.map_id _).symm.trans (List.map_congr_left fun x hx ↦ ?_)
            exact Prod.ext rfl (hzero x hx)
        _ = ((stores (a.core.group b) a.core.log).map Prod.fst).map (fun q ↦ (q, 0)) := by
            rw [List.map_map]
            rfl
        _ = (groupChunks g).map (fun c ↦ (c.item, 0)) := by
            rw [hstores, List.map_map]
            rfl
    · by_contra hne
      exact absurd (carried_of_tailSync hr hne) (by simp [hnone])

theorem exec_written {media mem : ℕ → UInt8} {ls : List Label}
    (h : exec step (init media mem) ls = some s) : ∃ a, Sim s a ∧ a.Written :=
  exec_invariant_pipe (C := fun _ _ ↦ True) (along_of_forall fun _ _ _ ↦ trivial) h
    (Pipe.Written.start media mem) fun ha hs _ ↦ ha.step hs

/-- **Write errors.** A response of a group of writes is truthful, reporting success only if every
chunk was written and the trailing sync performed, if and only if a failure that may be passed over
comes together with one that is reported. -/
theorem response_truthful_iff {media mem : ℕ → UInt8} {ls : List Label} {l : Label}
    (h : exec step (init media mem) ls = some s) (hs : step s l = some s')
    (hsend : s'.log = s.log ++ [.response gid ck ret]) (hg : s.groups[gid]? = some g)
    (hw : WriteGroup g) :
    (ret = 0 → AllWritten g gid s.log) ↔ (PassedOver g gid s.log → Reported gid s.log) := by
  obtain ⟨a, hsim, ha⟩ := exec_written h
  have hlog : s.log = a.core.log := by rw [Sys.log, hsim.core]
  have hget : a.core.groups.getD gid [] = g := by
    rw [List.getD_eq_getElem?_getD, ← hsim.core, ← Sys.groups, hg, Option.getD_some]
  rw [hlog]
  rcases hsim.sends hs hsend with ⟨err, hq, rfl, rfl⟩ | ⟨b, p, err, hxf, rfl, -, rfl⟩
  · exact ha.truthful_abort hw hget hq
  · exact ha.truthful_respond hw hget hxf

theorem write_run_truthful :
    ∃ s s', exec step (init (fun _ ↦ 0) fun _ ↦ 0) (writeRun.take 19) = some s ∧
      step s (.transfer 0) = some s' ∧ s'.log = s.log ++ [.response 0 1 0] ∧
      AllWritten [writeEntry] 0 s.log := by
  obtain ⟨s, s', hrun, hs, hsend, hg, hstores, hcarried⟩ : ∃ s s',
      exec step (init (fun _ ↦ 0) fun _ ↦ 0) (writeRun.take 19) = some s ∧
        step s (.transfer 0) = some s' ∧ s'.log = s.log ++ [.response 0 1 0] ∧
        s.groups[0]? = some [writeEntry] ∧
        stores 0 s.log = [(⟨3, 1, none, 1, true, false⟩, 0)] ∧ carried 0 s.log = [] :=
    ⟨_, _, rfl, rfl, rfl, rfl, rfl, rfl⟩
  have hw : WriteGroup [writeEntry] := ⟨by simp [writeEntry], by simp [writeEntry]⟩
  refine ⟨s, s', hrun, hs, hsend, (response_truthful_iff hrun hs hsend hg hw).mpr ?_ rfl⟩
  rintro (⟨x, hx, hneg, -⟩ | ⟨-, err, herr, -⟩)
  · rw [hstores, List.mem_singleton] at hx
    subst hx
    exact absurd hneg (by decide)
  · rw [hcarried] at herr
    exact absurd herr List.not_mem_nil

/-- Nine sectors in two chunks: the write of the first fails, the response reports success. -/
theorem failed_chunk_unreported :
    ∃ s s', exec step (init (fun _ ↦ 0) fun _ ↦ 0)
        [.fetch [⟨4096, 3, 9, 1, .write⟩], .request 1, .request 0, .request 0, .request 1,
          .request 0, .request 0, .request 1, .dma, .dma, .callbackStart, .callback 0, .callback 0,
          .callback 0, .callback 0, .callback 0, .callbackStart, .callback 0, .callback 0,
          .callback 0, .callback 0, .callback 0, .callback 0, .callback 0, .transfer 0, .transfer 0,
          .transfer 0, .transfer (-5), .transfer 0, .transfer 0, .transfer 0, .transfer 0,
          .transfer 0, .transfer 0, .transfer 0] = some s ∧
      step s (.transfer 0) = some s' ∧ s'.log = s.log ++ [.response 0 1 0] ∧
      s.groups[0]? = some [⟨4096, 3, 9, 1, .write⟩] ∧ WriteGroup [⟨4096, 3, 9, 1, .write⟩] ∧
      ¬ AllWritten [⟨4096, 3, 9, 1, .write⟩] 0 s.log := by
  refine ⟨_, _, rfl, rfl, rfl, rfl, ⟨by simp, by simp⟩, ?_⟩
  refine failed_store_not_allWritten (x := (⟨3, 8, none, -1, true, false⟩, -5)) ?_ (by decide)
  exact List.mem_cons_self (l := [((⟨11, 1, none, 1, true, false⟩ : CallbackParam), (0 : ℤ))])

end Vcass.BlockIo.Bcknd
