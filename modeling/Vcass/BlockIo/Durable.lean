import Vcass.BlockIo.Joint

/-!
# Block I/O: durability of flagged requests

A request with `REQ_FUA`, `REQ_SYNC` or `REQ_PREFLUSH`, and a flush, is to be on the media for good when it ends. The
frontend asks for that with a SYNC entry before and one after the data, and the backend does what it is asked: when the
request ends with success, the media was synced behind everything it wrote.

But `vcablk_disk_async_request` looks for the flags in `req_op(req)`, which is the operation without its flags. So it
sees a flush and misses every flag; the variant for older kernels looks in `cmd_flags`. A flagged request of another
operation is durable only by chance, if the media is synced for somebody else. And where the sync is asked for, it may
fail with an error whose low byte is zero, which the answer does not show (`durable_iff`).
-/

namespace Vcass.BlockIo.Joint

open Conc
open Bcknd (Event stores carried AsksSync vcablkBckndDiskRequestGetInfo)
open Disk (Request Part PartOf IsData IsSync Cut partsOf reqFua reqSync reqPreflush reqOpFlush)

/-- The block layer wants the request on the media when it ends. -/
def Flagged (req : Request) : Prop :=
  req.cmdFlags &&& (reqFua ||| reqSync ||| reqPreflush) ≠ 0 ∨ req.reqOp = reqOpFlush

/-- The request has data and reads it. -/
def ReadsData (req : Request) : Prop := req.rqDataDir = false ∧ req.segments ≠ []

/-- Group `g` is a part of request `r`. -/
def IsPart (s : Sys) (r g : ℕ) : Prop := ∃ p, s.front.shared.parts[g]? = some p ∧ p.req = r

/-- Group `g` is the last part of request `r`. -/
def IsLastPart (s : Sys) (r g : ℕ) : Prop := ∃ p, s.front.shared.parts[g]? = some p ∧ p.req = r ∧ p.final = true

/-- The media was synced without error by a call that `by'` allows, after the backend had received request `r`, and
nothing of the request was written to the media afterwards. A call is given by its group and by whether it was made for
the SYNC entry in front. -/
def SyncedBy (s : Sys) (r : ℕ) (by' : ℕ → Bool → Prop) : Prop :=
  ∃ pre g leading post, by' g leading ∧ s.back.log = pre ++ .sync g leading 0 :: post ∧
    ∀ k, IsPart s r k → .fetch k ∈ pre ∧ stores k post = []

/-- What the request writes, if it does not read, is on the media for good. -/
def Durable (s : Sys) (r : ℕ) (req : Request) : Prop := ReadsData req ∨ SyncedBy s r fun _ _ ↦ True

/-- No error whose low byte is zero goes into the answer to the last part of request `r`. -/
def LastTold (s : Sys) (r : ℕ) : Prop := ∀ g, IsLastPart s r g → ∀ err ∈ carried g s.back.log, s8 err ≠ 0

theorem SyncedBy.mono {s : Sys} {r : ℕ} {P Q : ℕ → Bool → Prop} (hPQ : ∀ g leading, P g leading → Q g leading)
    (h : SyncedBy s r P) : SyncedBy s r Q := by
  obtain ⟨pre, g, leading, post, hg, hrest⟩ := h
  exact ⟨pre, g, leading, post, hPQ g leading hg, hrest⟩

/-! ## The SYNC entries of a part -/

variable {req : Request} {p : Part} {before segs : List ℕ}

theorem not_asksSync {g : List VcablkRequest} (h : ∀ e ∈ g, e.requestType ≠ .sync) : ¬ AsksSync g := by
  cases g with
  | nil => simp [AsksSync, vcablkBckndDiskRequestGetInfo]
  | cons e rest =>
    rintro (hbefore | hafter)
    · rw [Bcknd.getInfo_syncBefore, Bool.and_eq_true, beq_iff_eq] at hbefore
      exact h e List.mem_cons_self hbefore.1
    · rw [Bcknd.getInfo_syncAfter (List.getLast?_eq_some_getLast (List.cons_ne_nil e rest)), beq_iff_eq] at hafter
      exact h _ (List.getLast_mem _) hafter

theorem isSync_of_false {cookie : ℕ} {es : List VcablkRequest} (h : IsSync false cookie es) : es = [] :=
  List.length_eq_zero_iff.mp h.1

theorem data_ne_sync {cookie sector : ℕ} {lens : List ℕ} {es : List VcablkRequest}
    (h : IsData req.type cookie sector lens es) : ∀ e ∈ es, e.requestType ≠ .sync := by
  induction es generalizing sector lens with
  | nil => simp
  | cons e es ih =>
    cases lens with
    | nil => exact h.elim
    | cons len lens =>
      obtain ⟨htype, -, -, -, hrest⟩ := h
      intro x hx
      rcases List.mem_cons.mp hx with rfl | hx
      · rw [htype, Request.type]
        split <;> simp
      · exact ih hrest x hx

theorem doSync_of_asks (hp : PartOf req before segs p) (h : AsksSync p.entries) : req.doSync = true := by
  by_contra hno
  rw [Bool.not_eq_true] at hno
  obtain ⟨lead, data, trail, hentries, hlead, hdata, htrail⟩ := hp.entries
  rw [hno, Bool.false_and] at hlead htrail
  rw [hentries, isSync_of_false hlead, isSync_of_false htrail, List.nil_append, List.append_nil] at h
  exact not_asksSync (data_ne_sync hdata) h

/-- The last part of a request that asks for a sync ends in a SYNC entry. -/
theorem syncAfter_of_final (hp : PartOf req before segs p) (hsync : req.doSync = true) (hfinal : p.final = true) :
    (vcablkBckndDiskRequestGetInfo p.entries).2.syncAfter = true := by
  obtain ⟨lead, data, trail, hentries, -, -, htrail⟩ := hp.entries
  rw [hsync, hfinal] at htrail
  obtain ⟨e, rfl⟩ := List.length_eq_one_iff.mp htrail.1
  rw [hentries, Bcknd.getInfo_syncAfter (r := e) (by simp), (htrail.2 e (List.mem_singleton_self e)).1]
  rfl

theorem partOf_of_cut {ps : List Part} {lens : List ℕ} (h : Cut req ps lens) (hp : p ∈ ps) :
    ∃ before segs, PartOf req before segs p := by
  induction h with
  | nil => simp at hp
  | @snoc ps before segs q _ hq ih =>
    rcases List.mem_append.mp hp with hp | hp
    · exact ih hp
    · exact ⟨before, segs, List.mem_singleton.mp hp ▸ hq⟩

/-! ## Every run -/

variable {s : Sys} {mq : Bool} {media mem : ℕ → UInt8} {ls : List Label} {k r : ℕ}

/-- A group for which the media is synced belongs to a request that asked for it. -/
theorem doSync_of_synced (h : exec (step mq) (init media mem) ls = some s) {leading : Bool} {ret : ℤ}
    (hsync : .sync k leading ret ∈ s.back.log) (hk : IsPart s r k)
    (hparts : ∀ q ∈ partsOf r s.front.shared.parts, ∃ before segs, PartOf req before segs q) : req.doSync = true := by
  obtain ⟨ms, hms⟩ := exec_back h
  obtain ⟨g, hg, hasks⟩ := Bcknd.asks_of_synced hms hsync
  obtain ⟨q, hq, rfl⟩ := group_eq_part h hg
  obtain ⟨q', hq', hreq⟩ := hk
  obtain rfl : q = q' := Option.some_inj.mp (hq.symm.trans hq')
  obtain ⟨before, segs, hpart⟩ := hparts q (List.mem_filter.mpr ⟨List.mem_of_getElem? hq, by simp [hreq]⟩)
  exact doSync_of_asks hpart hasks

/-- The answer to the last part of a request that asks for a sync comes after that sync. -/
theorem synced_of_answered (h : exec (step mq) (init media mem) ls = some s)
    (hp : s.front.shared.parts[k]? = some p) (hfinal : p.final = true) (harr : (k, 0) ∈ s.front.shared.arrivals)
    (hpart : PartOf req before segs p) (hsync : req.doSync = true) (htold : LastTold s p.req) :
    SyncedBy s p.req fun _ _ ↦ True := by
  obtain ⟨fs, hfs⟩ := exec_front h
  obtain ⟨ms, hms⟩ := exec_back h
  have hgood := (Disk.exec_inv hfs).good
  obtain ⟨⟨ck, ret⟩, hresp, h0⟩ := (exec_joint h).sent _ harr
  obtain ⟨g, hg, htail⟩ := Bcknd.tailSynced_of_answered hms (Bcknd.mem_responses.mp hresp) h0
  obtain ⟨q, hq, rfl⟩ := group_eq_part h hg
  obtain rfl : q = p := Option.some_inj.mp (hq.symm.trans hp)
  obtain ⟨pre, post, hlog, hup⟩ :=
    htail (htold k ⟨q, hp, rfl, hfinal⟩) (syncAfter_of_final hpart hsync hfinal)
  refine ⟨pre, k, false, post, trivial, hlog, fun j hj ↦ ?_⟩
  obtain ⟨q', hq', hreq⟩ := hj
  exact hup j (hgood.le_final hp hfinal hq' hreq)

/-- **Durability.** A flagged request that ended with success is durable if and only if its operation itself has one of
the bits of the mask and its last part did not fail with an error whose low byte is zero, or it reads, or the media
happened to be synced otherwise after it. -/
theorem durable_iff (h : exec (step mq) (init media mem) ls = some s) {e : Disk.End} (he : e ∈ s.front.shared.ends)
    (h0 : e.status = 0) (hreq : s.front.shared.requests[e.req]? = some req) :
    (Flagged req → Durable s e.req req) ↔
      (Flagged req → (req.doSync = true ∧ LastTold s e.req) ∨ ReadsData req ∨
        SyncedBy s e.req fun g leading ↦ ¬ (IsLastPart s e.req g ∧ leading = false)) := by
  obtain ⟨fs, hfs⟩ := exec_front h
  obtain ⟨ms, hms⟩ := exec_back h
  have hgood := (Disk.exec_inv hfs).good
  obtain ⟨k, p, hp, hfinal, hpr, harr⟩ := Disk.final_of_status_zero hfs he h0
  obtain ⟨req', hreq', hcomplete⟩ := hgood.laid p (List.mem_of_getElem? hp) hfinal
  obtain rfl : req' = req := Option.some_inj.mp (hreq'.symm.trans (hpr ▸ hreq))
  rw [hpr] at hcomplete
  have hparts : ∀ q ∈ partsOf e.req s.front.shared.parts, ∃ before segs, PartOf req' before segs q :=
    fun q hq ↦ partOf_of_cut hcomplete.cut hq
  refine forall_congr' fun _ ↦ ?_
  constructor
  · rintro (hreads | ⟨pre, g, leading, post, -, hlog, hrest⟩)
    · exact .inr (.inl hreads)
    · by_cases hown : IsLastPart s e.req g ∧ leading = false
      · obtain ⟨⟨q, hq, hqr, hqfinal⟩, rfl⟩ := hown
        have hmem : .sync g false 0 ∈ s.back.log := by
          rw [hlog]
          simp
        refine .inl ⟨doSync_of_synced h hmem ⟨q, hq, hqr⟩ hparts, fun g' hlast err herr ↦ ?_⟩
        -- There is one last part, and its sync succeeded.
        obtain ⟨q', hq', hqr', hqfinal'⟩ := hlast
        obtain rfl : g' = g := le_antisymm (hgood.le_final hq hqfinal hq' (hqr'.trans hqr.symm))
          (hgood.le_final hq' hqfinal' hq (hqr.trans hqr'.symm))
        rw [Bcknd.carried_of_tailSynced hms hmem] at herr
        exact absurd herr List.not_mem_nil
      · exact .inr (.inr ⟨pre, g, leading, post, hown, hlog, hrest⟩)
  · rintro (⟨hsync, htold⟩ | hreads | hother)
    · obtain ⟨before, segs, hpart⟩ :=
        hparts p (List.mem_filter.mpr ⟨List.mem_of_getElem? hp, by simp [hpr]⟩)
      exact .inr (hpr ▸ synced_of_answered h hp hfinal harr hpart hsync (hpr ▸ htold))
    · exact .inl hreads
    · exact .inr (hother.mono fun _ _ _ ↦ trivial)

/-! ## Two writes of one sector -/

/-- A write of one sector from the block layer to its end: the request thread takes `n` steps, the fetching of the
group `g` takes `m`, `lead` is the leading sync, and the transfer thread takes `k` steps to the answer. -/
def oneSectorRun (req : Request) (n m k : ℕ) (g : List VcablkRequest) (lead : List Label) : List Label :=
  [Label.front (.requestFn req), Label.front .dequeue] ++ List.replicate n (Label.front (.thread 7)) ++
    List.replicate m (Label.front (.fetch 0)) ++ Label.back (.fetch g) :: lead ++
    List.replicate 4 (Label.back (.request 1)) ++ [Label.back .dma, Label.back .callbackStart] ++
    List.replicate 6 (Label.back (.callback 0)) ++ List.replicate k (Label.back (.transfer 0)) ++
    Label.front (.answer 0 0) :: List.replicate 6 (Label.front (.handler 0))

/-- `REQ_OP_WRITE_SAME` has the bit of a flush, so its flag is seen: the request is durable. -/
theorem flaggedWriteSame_durable :
    ∃ s e, exec (step true) (init (fun _ ↦ 0) fun _ ↦ 0) (oneSectorRun ⟨7 ||| reqFua, 8, [512]⟩ 10 8 6
        [⟨0, 0, 0, 1, .sync⟩, ⟨7, 8, 1, 1, .write⟩, ⟨0, 0, 0, 1, .sync⟩] [.back (.request 0)]) = some s ∧
      e ∈ s.front.shared.ends ∧ e.status = 0 ∧ Flagged ⟨7 ||| reqFua, 8, [512]⟩ ∧
      Durable s e.req ⟨7 ||| reqFua, 8, [512]⟩ := by
  have hrun : (exec (step true) (init (fun _ ↦ 0) fun _ ↦ 0) (oneSectorRun ⟨7 ||| reqFua, 8, [512]⟩ 10 8 6
      [⟨0, 0, 0, 1, .sync⟩, ⟨7, 8, 1, 1, .write⟩, ⟨0, 0, 0, 1, .sync⟩] [.back (.request 0)])).map
        (fun s ↦ (s.front.shared.ends, s.front.shared.requests[0]?, s.front.shared.parts.length,
          carried 0 s.back.log)) =
          some ([⟨0, 0, some 1⟩], some ⟨7 ||| reqFua, 8, [512]⟩, 1, []) := by decide +kernel
  obtain ⟨s, hs, heq⟩ := Option.map_eq_some_iff.mp hrun
  obtain ⟨hends, hrest⟩ := Prod.mk.inj heq
  obtain ⟨hreq, hrest⟩ := Prod.mk.inj hrest
  obtain ⟨hparts, hcarried⟩ := Prod.mk.inj hrest
  have hflag : Flagged ⟨7 ||| reqFua, 8, [512]⟩ := .inl (by decide)
  have he : ⟨0, 0, some 1⟩ ∈ s.front.shared.ends := hends ▸ List.mem_singleton_self _
  have htold : LastTold s 0 := by
    rintro g ⟨p, hp, -⟩ err herr
    obtain rfl : g = 0 := by
      have hlt := (List.getElem?_eq_some_iff.mp hp).1
      omega
    rw [hcarried] at herr
    exact absurd herr List.not_mem_nil
  exact ⟨s, ⟨0, 0, some 1⟩, hs, he, rfl, hflag,
    (durable_iff hs he rfl hreq).mpr (fun _ ↦ .inl ⟨by decide, htold⟩) hflag⟩

def isSync : Bcknd.Event → Bool
  | .sync .. => true
  | _ => false

/-- An ordinary write with `REQ_SYNC` ends with success, and the media was never synced. -/
theorem syncWrite_not_durable :
    ∃ s e, exec (step true) (init (fun _ ↦ 0) fun _ ↦ 0)
        (oneSectorRun ⟨1 ||| reqSync, 8, [512]⟩ 6 6 5 [⟨7, 8, 1, 1, .write⟩] []) = some s ∧
      e ∈ s.front.shared.ends ∧ e.status = 0 ∧
      s.front.shared.requests[e.req]? = some ⟨1 ||| reqSync, 8, [512]⟩ ∧ Flagged ⟨1 ||| reqSync, 8, [512]⟩ ∧
      ¬ Durable s e.req ⟨1 ||| reqSync, 8, [512]⟩ := by
  have hrun : (exec (step true) (init (fun _ ↦ 0) fun _ ↦ 0)
      (oneSectorRun ⟨1 ||| reqSync, 8, [512]⟩ 6 6 5 [⟨7, 8, 1, 1, .write⟩] [])).map
        (fun s ↦ (s.front.shared.ends, s.front.shared.requests[0]?, s.back.log.all fun e ↦ !isSync e)) =
          some ([⟨0, 0, some 1⟩], some ⟨1 ||| reqSync, 8, [512]⟩, true) := by decide +kernel
  obtain ⟨s, hs, heq⟩ := Option.map_eq_some_iff.mp hrun
  obtain ⟨hends, hrest⟩ := Prod.mk.inj heq
  obtain ⟨hreq, hlog⟩ := Prod.mk.inj hrest
  refine ⟨s, ⟨0, 0, some 1⟩, hs, hends ▸ List.mem_singleton_self _, rfl, hreq, .inl (by decide), ?_⟩
  rintro (⟨hdir, -⟩ | ⟨pre, g, leading, post, -, hsync, -⟩)
  · exact absurd hdir (by decide)
  · have hnot := List.all_eq_true.mp hlog (.sync g leading 0) (by simp [hsync])
    cases hnot

end Vcass.BlockIo.Joint
