import Vcass.BlockIo.Bcknd.Create
import Vcass.BlockIo.Bcknd.Windows

/-!
# Block I/O backend: runs over a media

The runs of `Vcass.BlockIo.Bcknd.System` leave open what the media answers. `PlayedOn` closes it: every call in the history
returned what the function of the media returns for it. Two things about the media of a disk are followed from its calls
to the responses of the groups.

## Read-only disks

A read-only file refuses every write; a read-only memory refuses none that is in its bounds. Where all writes are
refused, the media keeps its content and no group of writes is answered with success (`readOnly_kept`), unless the sync
in front of it fails with an error whose low byte is zero.

## Short transfers

A file returns success whatever the kernel has moved, so a chunk that was moved in part alone never makes the response of
its group an error (`short_reported_iff`).

Sectors are counted without a bound here; a call cuts them to 64 bits, so a group whose sectors wrap around is one that
goes on behind sector `2 ^ 64`.
-/

namespace Vcass.BlockIo.Bcknd

open Conc Overlay

/-! ## Calls of the media -/

/-- A call of the media on behalf of a group: the parameters of the chunk, the direction, and what was returned. -/
structure MediaOp where
  gid : ℕ
  item : CallbackParam
  write : Bool
  ret : ℤ
  deriving DecidableEq

def Event.mediaOp : Event → Option MediaOp
  | .load gid _ p ret _ => some ⟨gid, p, false, ret⟩
  | .store gid _ p ret _ => some ⟨gid, p, true, ret⟩
  | _ => none

namespace MediaOp

def offset (op : MediaOp) : BitVec 64 := BitVec.ofNat 64 op.item.sector <<< sectorShift

def nbytes (op : MediaOp) : BitVec 64 := BitVec.ofNat 64 op.item.nsec <<< sectorShift

/-- What the media returns for the call and does, the kernel having moved `done` bytes. -/
def transfer (m : VcablkMedia) (done : ℤ) (op : MediaOp) : ℤ × Option Access :=
  vcablkMediaTransfer m (BitVec.ofNat 64 op.item.sector) (BitVec.ofNat 64 op.item.nsec) op.write done

/-- The call is refused as one beyond the end of the media. -/
def Beyond (m : VcablkMedia) (op : MediaOp) : Prop := m.sizeBytes < op.offset + op.nbytes

end MediaOp

/-- Every call returned what the media returns for it. `kernel i` is what the kernel answers to a file in the `i`-th
event. -/
def PlayedOn (m : VcablkMedia) (kernel : ℕ → ℤ) (log : List Event) : Prop :=
  ∀ x ∈ log.zipIdx, ∀ op ∈ x.1.mediaOp, op.ret = (op.transfer m (kernel x.2)).1

/-- Every write goes to a file or beyond the end. -/
def WritesBarred (m : VcablkMedia) (log : List Event) : Prop :=
  ∀ e ∈ log, ∀ op ∈ e.mediaOp, op.write = true → m.type = .file ∨ op.Beyond m

/-- No write succeeded, nor would it be taken for a success by the low byte of its error. -/
def Unwritten (log : List Event) : Prop := ∀ e ∈ log, ∀ op ∈ e.mediaOp, op.write = true → s8 op.ret ≠ 0

/-- The sync in front of the group did not fail with an error whose low byte is zero. -/
def LeadTold (gid : ℕ) (log : List Event) : Prop := ∀ r, .sync gid true r ∈ log → s8 r = 0 → r = 0

variable {m : VcablkMedia} {kernel : ℕ → ℤ} {log : List Event} {op : MediaOp}

theorem transfer_ne_zero_iff (hro : m.readOnly = true) (hw : op.write = true) (done : ℤ) :
    s8 (op.transfer m done).1 ≠ 0 ↔ m.type = .file ∨ op.Beyond m := by
  rw [MediaOp.transfer, mediaTransfer_eq]
  generalize (if m.type = .file then done else _) = moved
  split_ifs with hbeyond hfile
  · exact iff_of_true (by decide) (Or.inr hbeyond)
  · exact iff_of_true (by decide) (Or.inl hfile.1)
  · refine iff_of_false (fun h ↦ h rfl) ?_
    rintro (h | h)
    · exact hfile ⟨h, hw, hro⟩
    · exact hbeyond h

theorem PlayedOn.unwritten_iff (hplayed : PlayedOn m kernel log) (hro : m.readOnly = true) :
    Unwritten log ↔ WritesBarred m log := by
  have hop : ∀ e ∈ log, ∀ op ∈ e.mediaOp, op.write = true → (s8 op.ret ≠ 0 ↔ m.type = .file ∨ op.Beyond m) := by
    intro e he op hop hw
    obtain ⟨i, hi, rfl⟩ := List.mem_iff_getElem.mp he
    have hmem : (log[i], i) ∈ log.zipIdx := List.mem_zipIdx_iff_getElem?.mpr (List.getElem?_eq_getElem hi)
    rw [hplayed _ hmem op hop, transfer_ne_zero_iff hro hw]
  constructor
  · intro h e he op hmem hw
    exact (hop e he op hmem hw).mp (h e he op hmem hw)
  · intro h e he op hmem hw
    exact (hop e he op hmem hw).mpr (h e he op hmem hw)

/-! ## Nothing is written -/

namespace Pipe

variable {a a' : Pipe} {media : ℕ → UInt8}

/-- What holds while no write succeeds: the media keeps its content, and a chunk of a group of writes never
reaches the response without an error that makes it one. -/
structure Kept (media : ℕ → UInt8) (a : Pipe) : Prop where
  media_eq : a.core.media = media
  kinds : ∀ b ∈ a.flight, WriteGroup (a.core.groups.getD (a.core.group b) []) → (a.core.param b).isWrite = true
  toSync : ∀ b p, a.xf = .toSync b p → p.isWrite = false
  toRespond : ∀ b p err, a.xf = .toRespond b p err → p.isWrite = true → s8 err ≠ 0
  answers : ∀ gid, WriteGroup (a.core.groups.getD gid []) → LeadTold gid a.core.log →
    ∀ x ∈ responses gid a.core.log, x.2 ≠ 0

theorem Step.media_eq (hs : Step a a') (hun : Unwritten a'.core.log) : a'.core.media = a.core.media := by
  cases hs with
  | @store b p r hxf hr =>
    have hne : s8 r ≠ 0 := hun _ (List.mem_append_right _ List.mem_cons_self) _ rfl rfl
    exact if_neg fun h0 ↦ hne (by rw [h0]; rfl)
  | _ => rfl

theorem Kept.kinds_step (hk : Kept media a) (h : Inv a) (hs : Step a a') {b : ℕ} (hb : b ∈ a'.flight)
    (hw : WriteGroup (a'.core.groups.getD (a'.core.group b) [])) : (a'.core.param b).isWrite = true := by
  by_cases hmem : b ∈ a.flight
  · obtain ⟨hgroup, hitem⟩ := hs.keeps h.owned h.seen hmem
    have hsame : (a'.core.param b).isWrite = (a.core.param b).isWrite := congrArg (fun p ↦ p.isWrite) hitem
    rw [hsame]
    refine hk.kinds b hmem ?_
    rw [hgroup] at hw
    rcases hs.group_cases with ⟨g, -, rfl⟩ | ⟨hgroups, -⟩
    · rwa [Core.fetch_groups, List.getD_append _ _ _ _ (h.ordered.lt_groups b hmem)] at hw
    · rwa [hgroups] at hw
  · rcases hs.flight_cases with ⟨heq, -⟩ | ⟨x, -, heq, -⟩ | ⟨cookie, w, x, c, cs, es, ck, hq, hck, heq, rfl⟩
    · exact absurd (heq ▸ hb) hmem
    · exact absurd (heq ▸ List.mem_cons_of_mem x hb) hmem
    · have hat := h.tracked.req
      have hheld := h.tracked.held
      rw [hq] at hat hheld
      rw [heq, List.mem_append, List.mem_singleton] at hb
      obtain rfl : b = x := hb.resolve_left hmem
      change WriteGroup (a.core.groups.getD (a.core.group b) []) at hw
      change (a.core.param b).isWrite = true
      rw [hheld.1] at hw
      rw [hheld.2]
      -- The chunk that enters is one of the chunks of its group.
      have hchunk : c ∈ groupChunks (a.core.groups.getD a.core.cur []) :=
        (Within.submit hat).sub_le.subset (List.mem_append_right _ List.mem_cons_self)
      exact hw.isWrite c hchunk

theorem Kept.toSync_step (hk : Kept media a) (hs : Step a a') (hun : Unwritten a'.core.log) {b : ℕ} {p : CallbackParam}
    (hxf' : a'.xf = .toSync b p) : p.isWrite = false := by
  cases hs with
  | @clearTx x q hxf =>
    dsimp only at hxf'
    rw [XfSt.begun] at hxf'
    split at hxf'
    · exact absurd hxf' (by simp)
    case isFalse hw =>
      obtain ⟨-, rfl, -, -⟩ := stored_eq_toSync hxf'
      exact Bool.eq_false_iff.mpr hw
  | @store x q r hxf hr =>
    have hne : s8 r ≠ 0 := hun _ (List.mem_append_right _ List.mem_cons_self) _ rfl rfl
    obtain ⟨-, -, -, hzero⟩ := stored_eq_toSync hxf'
    exact absurd (by rw [hzero]; rfl) hne
  | take hxf hq => simp at hxf'
  | flush r hxf hr => simp at hxf'
  | respond hxf => simp at hxf'
  | push hxf => simp at hxf'
  | release hxf => simp at hxf'
  | _ => exact hk.toSync b p hxf'

theorem Kept.toRespond_step (hk : Kept media a) (hs : Step a a') (hun : Unwritten a'.core.log) {b : ℕ}
    {p : CallbackParam} {err : ℤ} (hxf' : a'.xf = .toRespond b p err) (hw : p.isWrite = true) : s8 err ≠ 0 := by
  cases hs with
  | @clearTx x q hxf =>
    dsimp only at hxf'
    rw [XfSt.begun] at hxf'
    split at hxf'
    · exact absurd hxf' (by simp)
    case isFalse hread =>
      obtain ⟨-, rfl, -⟩ := stored_eq_toRespond hxf'
      exact absurd hw hread
  | @store x q r hxf hr =>
    have hne : s8 r ≠ 0 := hun _ (List.mem_append_right _ List.mem_cons_self) _ rfl rfl
    obtain ⟨-, -, rfl, -⟩ := stored_eq_toRespond hxf'
    exact hne
  | @flush x q r hxf hr =>
    rw [XfSt.toRespond.injEq] at hxf'
    obtain ⟨-, rfl, -⟩ := hxf'
    have hread := hk.toSync x q hxf
    rw [hw] at hread
    exact absurd hread (by decide)
  | take hxf hq => simp at hxf'
  | respond hxf => simp at hxf'
  | push hxf => simp at hxf'
  | release hxf => simp at hxf'
  | _ => exact hk.toRespond b p err hxf' hw

theorem Kept.answers_step (hk : Kept media a) (ha : a.Answered) (hwr : a.Written) (hs : Step a a') {gid : ℕ}
    (hw : WriteGroup (a'.core.groups.getD gid [])) (hlead : LeadTold gid a'.core.log) :
    ∀ x ∈ responses gid a'.core.log, x.2 ≠ 0 := by
  intro x hx
  have hlead' : LeadTold gid a.core.log := fun r hr ↦ hlead r (hs.log_isPrefix.subset hr)
  rcases hs.group_cases with ⟨g, -, rfl⟩ | ⟨hgroups, -⟩
  · have hsame : responses gid (a.core.fetch g).log = responses gid a.core.log := by simp [Event.responded]
    rw [hsame] at hx
    -- A group that has just been received has no answers yet.
    have hlt : gid < a.core.groups.length := by
      by_contra hge
      have hzero := ha.balanced.share_eq_zero (not_lt.mp hge)
      have hpos := List.length_pos_of_mem hx
      rw [share] at hzero
      omega
    rw [Core.fetch_groups, List.getD_append _ _ _ _ hlt] at hw
    exact hk.answers gid hw hlead' x hx
  rw [hgroups] at hw
  rcases hs.responses_cases with hsame | ⟨cookie, err, hq, rfl⟩ | ⟨b, p, err, hxf, rfl⟩
  · exact hk.answers gid hw hlead' x (hsame gid ▸ hx)
  · by_cases hgid : a.core.cur = gid
    · simp only [Core.emit_log, history_snoc, Event.responded, if_pos hgid, Option.toList_some, List.mem_append,
        List.mem_singleton] at hx
      rcases hx with hx | rfl
      · exact hk.answers gid hw hlead' x hx
      · -- The low byte is zero only if the sync in front of the data failed so.
        intro h0
        obtain ⟨hne, -, hlow⟩ := hwr.reqTold.abort _ _ _ hq
        rcases hlow h0 with ⟨-, hsync⟩ | ⟨c, hc, hread⟩
        · exact hne (hlead' err (hgid ▸ hsync) h0)
        · rw [hgid] at hc
          rw [hw.isWrite c hc] at hread
          exact absurd hread (by decide)
    · exact hk.answers gid hw hlead' x (by simpa [Event.responded, hgid] using hx)
  · have hseen := hwr.inv.seen.xf
    rw [hxf] at hseen
    by_cases hgid : a.core.group b = gid
    · simp only [Core.emit_log, history_snoc, Event.responded, if_pos hgid, Option.toList_some, List.mem_append,
        List.mem_singleton] at hx
      rcases hx with hx | rfl
      · exact hk.answers gid hw hlead' x hx
      · have hwrite := hk.kinds b (by simp [flight, hxf]) (hgid ▸ hw)
        rw [hseen.1] at hwrite
        exact hk.toRespond b p err hxf hwrite
    · exact hk.answers gid hw hlead' x (by simpa [Event.responded, hgid] using hx)

theorem Kept.step (hk : Kept media a) (ha : a.Answered) (hwr : a.Written) (hs : Step a a')
    (hun : Unwritten a'.core.log) : Kept media a' where
  media_eq := (hs.media_eq hun).trans hk.media_eq
  kinds _ hb hw := hk.kinds_step ha.inv hs hb hw
  toSync _ _ hxf := hk.toSync_step hs hun hxf
  toRespond _ _ _ hxf hw := hk.toRespond_step hs hun hxf hw
  answers _ hw hlead := hk.answers_step ha hwr hs hw hlead

theorem Kept.start (media mem : ℕ → UInt8) : Kept media (Pipe.start media mem) where
  media_eq := rfl
  kinds := fun b hb ↦ absurd hb (by simp [Pipe.start, init, flight])
  toSync := fun b p hxf ↦ absurd hxf (by simp [Pipe.start])
  toRespond := fun b p err hxf ↦ absurd hxf (by simp [Pipe.start])
  answers := fun gid hw hlead x hx ↦ absurd hx (by simp [Pipe.start, init])

end Pipe

/-! ## Read-only disks -/

theorem WriteGroup.groupEntries_ne_nil {g : List VcablkRequest} (hw : WriteGroup g)
    (herr : (vcablkBckndDiskRequestGetInfo g).1 = 0) : groupEntries g ≠ [] := by
  obtain ⟨r, hr, hwrite⟩ := hw.write
  obtain ⟨i, hi, rfl⟩ := List.mem_iff_getElem.mp hr
  obtain ⟨r0, rest, rfl⟩ : ∃ r0 rest, g = r0 :: rest := List.exists_cons_of_ne_nil (List.ne_nil_of_mem hr)
  have hfirst : (vcablkBckndDiskRequestGetInfo (r0 :: rest)).2.syncBefore = true → 1 ≤ i := by
    intro hbefore
    rw [getInfo_syncBefore, Bool.and_eq_true, beq_iff_eq] at hbefore
    by_contra hzero
    obtain rfl : i = 0 := by omega
    rw [List.getElem_cons_zero, hbefore.1] at hwrite
    exact absurd hwrite (by simp)
  have hlast : (vcablkBckndDiskRequestGetInfo (r0 :: rest)).2.syncAfter = true → i < (r0 :: rest).length - 1 := by
    intro hafter
    rw [getInfo_syncAfter (List.getLast?_eq_getElem?.trans (List.getElem?_eq_getElem (by simp))), beq_iff_eq] at hafter
    by_contra hge
    obtain rfl : i = (r0 :: rest).length - 1 := by omega
    rw [hafter] at hwrite
    exact absurd hwrite (by simp)
  rw [groupEntries]
  generalize vcablkBckndDiskRequestGetInfo (r0 :: rest) = result at herr hfirst hlast ⊢
  obtain ⟨err, info⟩ := result
  dsimp only at herr hfirst hlast ⊢
  rw [if_neg (not_not.mpr herr), dataEntries]
  have hne : ((r0 :: rest).take (if info.syncAfter = true then (r0 :: rest).length - 1 else (r0 :: rest).length)).drop
      (if info.syncBefore = true then 1 else 0) ≠ [] := by
    refine List.ne_nil_of_length_pos ?_
    rw [List.length_drop, List.length_take]
    split_ifs with hafter hbefore hbefore
    · have := hfirst hbefore
      have := hlast hafter
      omega
    · have := hlast hafter
      omega
    · have := hfirst hbefore
      omega
    · omega
  obtain ⟨d, ds, hcons⟩ := List.exists_cons_of_ne_nil hne
  rw [hcons, entries]
  exact List.cons_ne_nil _ _

theorem WriteGroup.promised {g : List VcablkRequest} {k : Core} {gid : ℕ} (hw : WriteGroup g)
    (hg : k.groups[gid]? = some g) : Pipe.Promised k gid := by
  have hlt : gid < k.groups.length := (List.getElem?_eq_some_iff.mp hg).1
  have hget : k.groups.getD gid [] = g := by rw [List.getD_eq_getElem?_getD, hg, Option.getD_some]
  refine ⟨hlt, ?_⟩
  rw [hget]
  by_cases herr : (vcablkBckndDiskRequestGetInfo g).1 = 0
  · exact Or.inr (Or.inl (hw.groupEntries_ne_nil herr))
  · exact Or.inl herr

theorem diskCreate_readOnly {desc : VcablkDiskOpenDesc} {env : OpenEnv} {bckd : VcablkBckndDisk}
    (hcreate : vcablkBckndDiskCreate desc env = some (.ok bckd)) (hmedia : bckd.media = .at m) :
    m.readOnly = (desc.mode == vcablkDiskModeReadOnly) := by
  have hdisk : bckd.media = diskMedia desc env := by
    rw [vcablkBckndDiskCreate] at hcreate
    cases hptr : diskMedia desc env <;> rw [hptr] at hcreate <;> dsimp only at hcreate <;> split_ifs at hcreate <;>
      cases hcreate <;> rfl
  rw [hdisk, diskMedia] at hmedia
  split_ifs at hmedia
  · rw [vcablkMediaCreateFile] at hmedia
    split_ifs at hmedia
    cases hmedia
    rfl
  · rw [vcablkMediaCreateMemory] at hmedia
    split_ifs at hmedia
    cases hmedia
    rfl

variable {s s' : Sys} {media mem : ℕ → UInt8} {ls : List Label}

theorem exec_kept (h : exec step (init media mem) ls = some s) (hun : Unwritten s.log) :
    ∃ a, Sim s a ∧ a.Answered ∧ a.Written ∧ a.Kept media := by
  have hC := (along_of_exec (G := fun s ↦ Unwritten s.log) (P := fun _ _ s' ↦ Unwritten s'.log)
    (fun hs hlog ↦ ⟨fun e he ↦ hlog e ((step_grows hs).1.subset he), hlog⟩) h hun).2
  exact exec_invariant_pipe (C := fun _ k' ↦ Unwritten k'.log) hC h
    ⟨Pipe.Answered.start media mem, Pipe.Written.start media mem, Pipe.Kept.start media mem⟩
    fun ha hs hlog ↦ ⟨ha.1.step hs, ha.2.1.step hs, ha.2.2.step ha.1 ha.2.1 hs hlog⟩

/-- **Read-only disks.** In a run over a media created read-only whose writes all go to a file or beyond the end, the
media keeps its content, and no group of writes is answered with success, unless the sync in front of it fails with an
error whose low byte is zero; one without empty entries has its answer, exactly one, when it is finished. -/
theorem readOnly_kept {desc : VcablkDiskOpenDesc} {env : OpenEnv} {bckd : VcablkBckndDisk}
    (hcreate : vcablkBckndDiskCreate desc env = some (.ok bckd)) (hmode : desc.mode = vcablkDiskModeReadOnly)
    (hmedia : bckd.media = .at m) (h : exec step (init media mem) ls = some s) (hplayed : PlayedOn m kernel s.log)
    (hbarred : WritesBarred m s.log) :
    s.shared.core.media = media ∧ ∀ gid g, s.groups[gid]? = some g → WriteGroup g → LeadTold gid s.log →
      (∀ x ∈ responses gid s.log, x.2 ≠ 0) ∧
      (Full g → Finished s gid → ∃ r, r ≠ 0 ∧ responses gid s.log = [(groupCookie g, r)]) := by
  have hro : m.readOnly = true := by
    rw [diskCreate_readOnly hcreate hmedia, hmode]
    rfl
  obtain ⟨a, hsim, ha, -, hk⟩ := exec_kept h ((hplayed.unwritten_iff hro).mpr hbarred)
  refine ⟨?_, fun gid g hg hw hlead ↦ ?_⟩
  · rw [hsim.core]
    exact hk.media_eq
  have hg' : a.core.groups[gid]? = some g := by rw [← hg, Sys.groups, hsim.core]
  have hget : a.core.groups.getD gid [] = g := by rw [List.getD_eq_getElem?_getD, hg', Option.getD_some]
  have hnone : ∀ x ∈ responses gid s.log, x.2 ≠ 0 := by
    rw [Sys.log, hsim.core] at hlead ⊢
    exact hk.answers gid (hget ▸ hw) hlead
  refine ⟨hnone, fun hfull hf ↦ ?_⟩
  obtain ⟨r, hr⟩ := hf.responses_eq hsim ha (hget ▸ hfull) (hw.promised hg')
  rw [hget] at hr
  exact ⟨r, hnone _ (hr ▸ List.mem_singleton_self _), hr⟩

/-- A read-only disk of a megabyte. -/
def readOnlyDisk (type : ℕ) : VcablkDiskOpenDesc := ⟨0, type, vcablkDiskModeReadOnly, 1048576, []⟩

/-- The result of a sync. -/
def Event.synced : Event → Option ℤ
  | .sync _ _ ret => some ret
  | _ => none

/-- `writeRun` over a media that refuses the write with `-EACCES`. -/
def refusedRun : List Label :=
  writeRun.take 18 ++ [Label.transfer (-eacces), .transfer 0, .transfer 0, .transfer 0]

instance : Decidable (PlayedOn m kernel log) := by
  unfold PlayedOn
  infer_instance

/-- A read-only file is not written, and the write is answered with an error. -/
theorem readOnly_file_kept :
    ∃ s, exec step (init (fun _ ↦ 0) fun _ ↦ 1) refusedRun = some s ∧ s.shared.core.media = (fun _ ↦ 0) ∧
      Finished s 0 ∧ ∃ r, r ≠ 0 ∧ responses 0 s.log = [(1, r)] := by
  obtain ⟨s, hrun, hg, hf, hplayed, hbarred, hsync⟩ : ∃ s, exec step (init (fun _ ↦ 0) fun _ ↦ 1) refusedRun = some s ∧
      s.groups[0]? = some [writeEntry] ∧ Finished s 0 ∧ PlayedOn ⟨.file, 1048576, true⟩ (fun _ ↦ 0) s.log ∧
      WritesBarred ⟨.file, 1048576, true⟩ s.log ∧ history Event.synced s.log = [] :=
    ⟨_, rfl, rfl, ⟨Or.inl rfl, rfl⟩, by decide, fun _ _ _ _ _ ↦ Or.inl rfl, rfl⟩
  have hw : WriteGroup [writeEntry] := ⟨by simp [writeEntry], by simp [writeEntry]⟩
  have hfull : Full [writeEntry] := by
    intro e he
    obtain rfl : e = entryOf true 1 false writeEntry := List.mem_singleton.mp he
    exact chunks_ne_nil (by decide) (by decide)
  have hcreate : vcablkBckndDiskCreate (readOnlyDisk vcablkDiskTypeFile) ampleEnv = some (.ok _) := rfl
  have hkept := readOnly_kept hcreate rfl rfl hrun hplayed hbarred
  have hlead : LeadTold 0 s.log := by
    intro r hr
    have hmem : r ∈ history Event.synced s.log := List.mem_filterMap.mpr ⟨_, hr, rfl⟩
    rw [hsync] at hmem
    exact absurd hmem List.not_mem_nil
  exact ⟨s, hrun, hkept.1, hf, (hkept.2 0 _ hg hw hlead).2 hfull hf⟩

/-- A read-only memory is written, and the write is answered with success. -/
theorem readOnly_memory_written :
    ∃ bckd s, vcablkBckndDiskCreate (readOnlyDisk vcablkDiskTypeMemory) ampleEnv = some (.ok bckd) ∧
      bckd.media = .at ⟨.memory, 1048576, true⟩ ∧ exec step (init (fun _ ↦ 0) fun _ ↦ 1) writeRun = some s ∧
      PlayedOn ⟨.memory, 1048576, true⟩ (fun _ ↦ 0) s.log ∧ s.groups[0]? = some [writeEntry] ∧
      WriteGroup [writeEntry] ∧ s.shared.core.media 1536 ≠ 0 ∧ responses 0 s.log = [(1, 0)] := by
  have hfirst : ((exec step (init (fun _ ↦ 0) fun _ ↦ 1) writeRun).map fun s ↦ s.shared.core.media 1536) = some 1 := by
    decide +kernel
  obtain ⟨s, hrun, hplayed, hg, hresp⟩ : ∃ s, exec step (init (fun _ ↦ 0) fun _ ↦ 1) writeRun = some s ∧
      PlayedOn ⟨.memory, 1048576, true⟩ (fun _ ↦ 0) s.log ∧ s.groups[0]? = some [writeEntry] ∧
      responses 0 s.log = [(1, 0)] := ⟨_, rfl, by decide, rfl, rfl⟩
  rw [hrun, Option.map_some, Option.some_inj] at hfirst
  refine ⟨_, s, rfl, rfl, hrun, hplayed, hg, ⟨by simp [writeEntry], by simp [writeEntry]⟩, ?_, hresp⟩
  rw [hfirst]
  decide

/-! ## Short transfers -/

/-- The media let the call through, and the kernel moved fewer bytes than were asked for. -/
def MediaOp.short (m : VcablkMedia) (done : ℤ) (op : MediaOp) : Bool :=
  (op.transfer m done).2.any fun a ↦ decide (a.done < a.nbytes.toNat)

/-- A chunk of the group was moved in part, or not at all. -/
def ShortIn (m : VcablkMedia) (kernel : ℕ → ℤ) (gid : ℕ) (log : List Event) : Prop :=
  ∃ x ∈ log.zipIdx, x.1.mediaOp.any (fun op ↦ op.gid == gid && op.short m (kernel x.2)) = true

/-- An operation of the group failed that is not such a chunk, and its error makes the response an error: it goes into
the response, and its low byte is not zero. -/
def FailedElsewhere (m : VcablkMedia) (kernel : ℕ → ℤ) (gid : ℕ) (log : List Event) : Prop :=
  ∃ x ∈ log.zipIdx, (x.1.carries gid).any (fun err ↦ s8 err != 0) = true ∧
    x.1.mediaOp.any (fun op ↦ op.short m (kernel x.2)) = false

variable {gid ck : ℕ} {ret : ℤ} {g : List VcablkRequest} {l : Label}

theorem transfer_eq_zero_of_short {done : ℤ} (h : op.short m done = true) : (op.transfer m done).1 = 0 := by
  rw [MediaOp.short, MediaOp.transfer, mediaTransfer_eq] at h
  rw [MediaOp.transfer, mediaTransfer_eq]
  generalize (if m.type = .file then done else _) = moved at h ⊢
  split_ifs at h ⊢
  · exact absurd h (by simp)
  · exact absurd h (by simp)
  · rfl

theorem carries_eq_none {e : Event} (hop : op ∈ e.mediaOp) (hret : op.ret = 0) : e.carries gid = none := by
  cases e with
  | load g b p ret bytes =>
    obtain rfl := Option.some_inj.mp hop
    exact if_neg fun h ↦ h.2 hret
  | store g b p ret bytes =>
    obtain rfl := Option.some_inj.mp hop
    exact if_neg fun h ↦ h.2.2 hret
  | _ => exact absurd hop (by simp [Event.mediaOp])

/-- A short chunk is not itself a failure. -/
theorem PlayedOn.reported_iff (hplayed : PlayedOn m kernel log) :
    Reported gid log ↔ FailedElsewhere m kernel gid log := by
  constructor
  · rintro ⟨err, herr, hne⟩
    obtain ⟨e, he, hcarries⟩ := List.mem_filterMap.mp herr
    obtain ⟨i, hi, rfl⟩ := List.mem_iff_getElem.mp he
    have hmem : (log[i], i) ∈ log.zipIdx := List.mem_zipIdx_iff_getElem?.mpr (List.getElem?_eq_getElem hi)
    refine ⟨_, hmem, (Option.any_eq_true _ _).mpr ⟨err, hcarries, bne_iff_ne.mpr hne⟩, ?_⟩
    by_contra hshort
    obtain ⟨op, hop, hshort⟩ := (Option.any_eq_true _ _).mp (Bool.eq_true_of_not_eq_false hshort)
    have hzero : op.ret = 0 := (hplayed _ hmem op hop).trans (transfer_eq_zero_of_short hshort)
    rw [carries_eq_none hop hzero] at hcarries
    exact absurd hcarries (by simp)
  · rintro ⟨x, hx, hcarries, -⟩
    obtain ⟨err, herr, hne⟩ := (Option.any_eq_true _ _).mp hcarries
    exact ⟨err, List.mem_filterMap.mpr ⟨x.1, (List.mem_zipIdx hx).2.2 ▸ List.getElem_mem _, herr⟩, bne_iff_ne.mp hne⟩

/-- The group of a chunk in the pipeline was not refused. -/
theorem Pipe.Answered.accepted {a : Pipe} (ha : a.Answered) {b : ℕ} (hb : b ∈ a.flight) :
    (vcablkBckndDiskRequestGetInfo (a.core.groups.getD (a.core.group b) [])).1 = 0 := by
  by_contra herr
  have hcounted := ha.counted (a.core.group b)
  have hsubs := ha.inv.tracked.subs (a.core.group b)
  rw [groupChunks_of_refused herr, List.prefix_nil] at hsubs
  have hpos : 0 < a.flight.countP fun b' ↦ decide (a.core.group b' = a.core.group b) :=
    List.countP_pos_iff.mpr ⟨b, hb, decide_eq_true rfl⟩
  rw [hsubs, List.length_nil] at hcounted
  omega

theorem exec_answered_written (h : exec step (init media mem) ls = some s) : ∃ a, Sim s a ∧ a.Answered ∧ a.Written :=
  exec_invariant_pipe (C := fun _ _ ↦ True) (along_of_forall fun _ _ _ ↦ trivial) h
    ⟨Pipe.Answered.start media mem, Pipe.Written.start media mem⟩ fun ha hs _ ↦ ⟨ha.1.step hs, ha.2.step hs⟩

/-- **Short transfers.** A response of a group with a short chunk reports an error if and only if the group is refused or
another of its operations failed. -/
theorem short_reported_iff (h : exec step (init media mem) ls = some s) (hplayed : PlayedOn m kernel s.log)
    (hs : step s l = some s') (hsend : s'.log = s.log ++ [Event.response gid ck ret]) (hg : s.groups[gid]? = some g) :
    (ShortIn m kernel gid s.log → ret ≠ 0) ↔
      (ShortIn m kernel gid s.log →
        (vcablkBckndDiskRequestGetInfo g).1 ≠ 0 ∨ FailedElsewhere m kernel gid s.log) := by
  obtain ⟨a, hsim, ha, hwr⟩ := exec_answered_written h
  have hget : a.core.groups.getD gid [] = g := by
    rw [List.getD_eq_getElem?_getD, ← hsim.core, ← Sys.groups, hg, Option.getD_some]
  refine forall_congr' fun _ ↦ ?_
  rw [← hplayed.reported_iff, Sys.log, hsim.core]
  rcases hsim.sends hs hsend with ⟨err, hq, rfl, rfl⟩ | ⟨b, p, err, hxf, rfl, -, rfl⟩
  · rcases (hwr.reqTold.abort _ _ _ hq).carried_eq with ⟨hone, haccepted⟩ | ⟨-, heio, hinfo⟩
    · rw [hget] at haccepted
      rw [Reported, hone, or_iff_right (not_not.mpr haccepted)]
      simp
    · rw [hget] at hinfo
      exact iff_of_true (by rw [heio]; decide) (.inl hinfo)
  · obtain ⟨hcarried, -⟩ := hwr.told.toRespond b p err hxf
    have haccepted := ha.accepted (b := b) (by simp [Pipe.flight, hxf])
    rw [hget] at haccepted
    rw [Reported, hcarried, or_iff_right (not_not.mpr haccepted)]
    split
    case isTrue h0 => simp [h0, s8]
    case isFalse => simp

instance {gid : ℕ} : Decidable (ShortIn m kernel gid log) := by
  unfold ShortIn
  infer_instance

instance {gid : ℕ} : Decidable (FailedElsewhere m kernel gid log) := by
  unfold FailedElsewhere
  infer_instance

/-- Of one sector 100 bytes are written, and the sync behind it fails. -/
theorem failed_sync_reported :
    ∃ s s', exec step (init (fun _ ↦ 0) fun _ ↦ 0)
        (Label.fetch [writeEntry, ⟨0, 0, 0, 1, .sync⟩] :: (writeRun.take 19).tail ++ [Label.transfer (-eio)]) = some s ∧
      step s (.transfer 0) = some s' ∧ s'.log = s.log ++ [Event.response 0 1 (-5)] ∧
      ShortIn ⟨.file, 1048576, false⟩ (fun _ ↦ 100) 0 s.log ∧ (-5 : ℤ) ≠ 0 := by
  obtain ⟨s, s', hrun, hs, hsend, hg, hplayed, hshort, hfailed⟩ : ∃ s s', exec step (init (fun _ ↦ 0) fun _ ↦ 0)
      (Label.fetch [writeEntry, ⟨0, 0, 0, 1, .sync⟩] :: (writeRun.take 19).tail ++ [Label.transfer (-eio)]) = some s ∧
        step s (.transfer 0) = some s' ∧ s'.log = s.log ++ [Event.response 0 1 (-5)] ∧
        s.groups[0]? = some [writeEntry, ⟨0, 0, 0, 1, .sync⟩] ∧
        PlayedOn ⟨.file, 1048576, false⟩ (fun _ ↦ 100) s.log ∧ ShortIn ⟨.file, 1048576, false⟩ (fun _ ↦ 100) 0 s.log ∧
        FailedElsewhere ⟨.file, 1048576, false⟩ (fun _ ↦ 100) 0 s.log :=
    ⟨_, _, rfl, rfl, rfl, rfl, by decide, by decide, by decide⟩
  exact ⟨s, s', hrun, hs, hsend, hshort,
    (short_reported_iff hrun hplayed hs hsend hg).mpr (fun _ ↦ Or.inr hfailed) hshort⟩

/-- Of one sector 100 bytes are written, and the response reports success. -/
theorem short_write_unreported :
    ∃ s s', exec step (init (fun _ ↦ 0) fun _ ↦ 0) (writeRun.take 19) = some s ∧ step s (.transfer 0) = some s' ∧
      s'.log = s.log ++ [Event.response 0 1 0] ∧ PlayedOn ⟨.file, 1048576, false⟩ (fun _ ↦ 100) s.log ∧
      ShortIn ⟨.file, 1048576, false⟩ (fun _ ↦ 100) 0 s.log :=
  ⟨_, _, rfl, rfl, rfl, by decide, by decide⟩

end Vcass.BlockIo.Bcknd
